/-
# QueryScore.Proofs.Text.Trim -- blanks at the ends of a text

Trimming takes the blanks off both ends and nothing else (`exists_trim`), so blanks put around a
text change neither its trimmed form (`trim_append`) nor its words, and a fragment has the same
normal form with and without them (`normalizeFragment_trim`).
-/

import QueryScore.Name

namespace QueryScore.Text

/-- **`Blank bs`** -- nothing but blanks. -/
def Blank (bs : List Char) : Prop := ∀ c ∈ bs, isBlank c = true

variable {bs cs ds : List Char}

theorem Blank.nil : Blank [] := by simp [Blank]

theorem Blank.append (hcs : Blank cs) (hds : Blank ds) : Blank (cs ++ ds) :=
  fun c hc => (List.mem_append.mp hc).elim (hcs c) (hds c)

theorem Blank.reverse (h : Blank bs) : Blank bs.reverse :=
  fun c hc => h c (List.mem_reverse.mp hc)

theorem dropWhile_blank (h : Blank bs) (cs : List Char) :
    (bs ++ cs).dropWhile isBlank = cs.dropWhile isBlank := by
  induction bs with
  | nil => rfl
  | cons b bs ih =>
    rw [List.cons_append, List.dropWhile_cons, if_pos (h b (by simp))]
    exact ih fun c hc => h c (by simp [hc])

theorem trimStart_blank (h : Blank bs) (cs : List Char) : trimStart (bs ++ cs) = trimStart cs :=
  dropWhile_blank h cs

theorem trimEnd_blank (h : Blank bs) (cs : List Char) : trimEnd (cs ++ bs) = trimEnd cs := by
  rw [trimEnd, List.reverse_append, dropWhile_blank h.reverse, trimEnd]

theorem blank_takeWhile (cs : List Char) : Blank (cs.takeWhile isBlank) := by
  induction cs with
  | nil => exact .nil
  | cons c cs ih =>
    rw [List.takeWhile_cons]
    split
    · rename_i hc
      intro d hd
      rcases List.mem_cons.mp hd with rfl | hd
      · exact hc
      · exact ih d hd
    · exact .nil

theorem exists_trimStart (cs : List Char) : ∃ bs, Blank bs ∧ cs = bs ++ trimStart cs :=
  ⟨_, blank_takeWhile cs, List.takeWhile_append_dropWhile.symm⟩

theorem exists_trimEnd (cs : List Char) : ∃ bs, Blank bs ∧ cs = trimEnd cs ++ bs := by
  refine ⟨(cs.reverse.takeWhile isBlank).reverse, (blank_takeWhile _).reverse, ?_⟩
  rw [trimEnd, ← List.reverse_append, List.takeWhile_append_dropWhile, List.reverse_reverse]

/-- Trimming takes blanks off both ends. -/
theorem exists_trim (cs : List Char) :
    ∃ bs bs', Blank bs ∧ Blank bs' ∧ cs = bs ++ (trim cs ++ bs') := by
  obtain ⟨bs, hbs, hstart⟩ := exists_trimStart cs
  obtain ⟨bs', hbs', hend⟩ := exists_trimEnd (trimStart cs)
  exact ⟨bs, bs', hbs, hbs', by rw [trim, ← hend, ← hstart]⟩

theorem trim_append_blank (h : Blank bs) (cs : List Char) : trim (cs ++ bs) = trim cs := by
  have hnil : bs.dropWhile isBlank = [] := by
    have hdrop := dropWhile_blank h []
    simpa using hdrop
  rw [trim, trim, trimStart, List.dropWhile_append]
  split
  · rename_i hcs
    rw [hnil, trimStart, List.isEmpty_iff.mp hcs]
  · exact trimEnd_blank h _

/-- Blanks around a text are trimmed off. -/
theorem trim_append (hbs : Blank bs) (hds : Blank ds) (cs : List Char) :
    trim (bs ++ (cs ++ ds)) = trim cs := by
  rw [trim, trimStart_blank hbs, ← trim, trim_append_blank hds]

/-- A trimmed text is trimmed. -/
theorem trim_trim (cs : List Char) : trim (trim cs) = trim cs := by
  obtain ⟨bs, bs', hbs, hbs', hsplit⟩ := exists_trim cs
  have h := trim_append hbs hbs' (trim cs)
  rw [← hsplit] at h
  exact h.symm

theorem trim_ne_nil (h : ∃ c ∈ cs, isBlank c = false) : trim cs ≠ [] := by
  obtain ⟨c, hc, hink⟩ := h
  obtain ⟨bs, bs', hbs, hbs', hsplit⟩ := exists_trim cs
  intro hnil
  rw [hnil, List.nil_append] at hsplit
  rw [hsplit] at hc
  have hblank := hbs.append hbs' c hc
  rw [hink] at hblank
  cases hblank

theorem trimStart_of_head (h : ∀ c ∈ cs.head?, isBlank c = false) : trimStart cs = cs := by
  cases cs with
  | nil => rfl
  | cons c cs => rw [trimStart, List.dropWhile_cons, if_neg (by simp [h c rfl])]

theorem trimEnd_of_getLast (h : ∀ c ∈ cs.getLast?, isBlank c = false) : trimEnd cs = cs := by
  have hrev : trimStart cs.reverse = cs.reverse :=
    trimStart_of_head fun c hc => h c (by rwa [List.head?_reverse] at hc)
  rw [trimEnd, ← trimStart, hrev, List.reverse_reverse]

/-- A text that neither begins nor ends with a blank is trimmed. -/
theorem trim_of_ends (hhead : ∀ c ∈ cs.head?, isBlank c = false)
    (hlast : ∀ c ∈ cs.getLast?, isBlank c = false) : trim cs = cs := by
  rw [trim, trimStart_of_head hhead, trimEnd_of_getLast hlast]

theorem head_trimStart (cs : List Char) : ∀ c ∈ (trimStart cs).head?, isBlank c = false := by
  induction cs with
  | nil => simp [trimStart]
  | cons c cs ih =>
    rw [trimStart, List.dropWhile_cons]
    split
    · exact ih
    · simp_all

theorem getLast_trimEnd (cs : List Char) : ∀ c ∈ (trimEnd cs).getLast?, isBlank c = false := by
  rw [trimEnd, List.getLast?_reverse]
  exact head_trimStart cs.reverse

theorem trimEnd_append_of_ne_nil (h : trimEnd ds ≠ []) (cs : List Char) :
    trimEnd (cs ++ ds) = cs ++ trimEnd ds := by
  obtain ⟨bs, hbs, hsplit⟩ := exists_trimEnd ds
  have hlast : ∀ c ∈ (cs ++ trimEnd ds).getLast?, isBlank c = false := by
    intro c hc
    rw [List.getLast?_append, List.getLast?_eq_some_getLast h, Option.some_or,
      ← List.getLast?_eq_some_getLast h] at hc
    exact getLast_trimEnd ds c hc
  rw [hsplit, ← List.append_assoc, trimEnd_blank hbs, trimEnd_of_getLast hlast, ← hsplit]

theorem trimEnd_trim (cs : List Char) : trimEnd (trim cs) = trim cs :=
  trimEnd_of_getLast (getLast_trimEnd (trimStart cs))

theorem head_trim (cs : List Char) : ∀ c ∈ (trim cs).head?, isBlank c = false := by
  intro c hc
  obtain ⟨bs, hbs, hsplit⟩ := exists_trimEnd (trimStart cs)
  refine head_trimStart cs c ?_
  rw [hsplit, List.head?_append, ← trim, Option.mem_def.mp hc]
  rfl

theorem trimStart_trim (cs : List Char) : trimStart (trim cs) = trim cs :=
  trimStart_of_head (head_trim cs)

/-- The ends of a text can be trimmed in either order. -/
theorem trimStart_trimEnd (cs : List Char) : trimStart (trimEnd cs) = trim cs := by
  obtain ⟨bs, bs', hbs, hbs', hsplit⟩ := exists_trim cs
  have hlast : trimEnd (trim cs) = trim cs := trimEnd_trim cs
  by_cases hnil : trim cs = []
  · have hblank : Blank cs := by
      rw [hsplit, hnil]
      exact hbs.append (Blank.nil.append hbs')
    have hend : trimEnd ([] ++ cs) = trimEnd [] := trimEnd_blank hblank []
    rw [hnil, ← List.nil_append cs, hend]
    rfl
  · have hend : trimEnd ((bs ++ trim cs) ++ bs') = bs ++ trim cs := by
      rw [trimEnd_blank hbs', trimEnd_append_of_ne_nil (by rwa [hlast]), hlast]
    rw [List.append_assoc, ← hsplit] at hend
    rw [hend, trimStart_blank hbs, trimStart_trim]

theorem trimEnd_ne_nil (h : ∃ c ∈ cs, isBlank c = false) : trimEnd cs ≠ [] := by
  intro hnil
  have htrim := trimStart_trimEnd cs
  rw [hnil] at htrim
  exact trim_ne_nil h htrim.symm

theorem trimStart_append_of_ink (h : ∃ c ∈ cs, isBlank c = false) (ds : List Char) :
    trimStart (cs ++ ds) = trimStart cs ++ ds := by
  obtain ⟨c, hc, hink⟩ := h
  rw [trimStart, List.dropWhile_append, if_neg]
  · rfl
  · intro hall
    have hno := (blank_takeWhile cs) c (by
      rwa [← List.append_nil (cs.takeWhile isBlank), ← List.isEmpty_iff.mp hall,
        List.takeWhile_append_dropWhile])
    rw [hink] at hno
    cases hno

/-! ## Pieces -/

theorem splitWhere_append {α : Type} {p : α → Bool} {b : α} (hb : p b = true) (as bs : List α) :
    splitWhere p (as ++ b :: bs) = splitWhere p as ++ splitWhere p bs := by
  induction as with
  | nil => simp [splitWhere, hb]
  | cons a as ih =>
    rw [List.cons_append, splitWhere, splitWhere, ih]
    split
    · rfl
    · cases hpieces : splitWhere p as with
      | nil => exact absurd hpieces (splitWhere_ne_nil p as)
      | cons piece pieces => rfl

theorem splitWhere_of_none {α : Type} {p : α → Bool} {as : List α} (h : ∀ a ∈ as, p a = false) :
    splitWhere p as = [as] := by
  induction as with
  | nil => rfl
  | cons a as ih =>
    rw [splitWhere, if_neg (by simp [h a (by simp)]), ih fun b hb => h b (by simp [hb])]

/-- What splits nowhere joins the last piece in front of it. -/
theorem splitWhere_append_of_none {α : Type} {p : α → Bool} {bs : List α}
    (h : ∀ b ∈ bs, p b = false) (as : List α) :
    ∃ init last, splitWhere p as = init ++ [last] ∧
      splitWhere p (as ++ bs) = init ++ [last ++ bs] := by
  induction as with
  | nil => exact ⟨[], [], rfl, splitWhere_of_none h⟩
  | cons a as ih =>
    obtain ⟨init, last, has, hall⟩ := ih
    rw [List.cons_append, splitWhere, splitWhere, has, hall]
    split
    · exact ⟨[] :: init, last, rfl, rfl⟩
    · cases init with
      | nil => exact ⟨[], a :: last, rfl, rfl⟩
      | cons piece init => exact ⟨(a :: piece) :: init, last, rfl, rfl⟩

/-! ## Words -/

theorem words_blank_append (h : Blank bs) (cs : List Char) : words (bs ++ cs) = words cs := by
  induction bs with
  | nil => rfl
  | cons b bs ih =>
    have hb : isBlank b = true := h b (by simp)
    rw [List.cons_append, words, splitWhere, if_pos hb]
    exact ih fun c hc => h c (by simp [hc])

theorem words_append_blank (h : Blank bs) (cs : List Char) : words (cs ++ bs) = words cs := by
  cases bs with
  | nil => rw [List.append_nil]
  | cons b bs =>
    have hnil : words bs = [] := by
      have hbs : Blank bs := fun c hc => h c (by simp [hc])
      have hwords := words_blank_append hbs []
      rw [List.append_nil] at hwords
      rw [hwords]
      rfl
    rw [words, splitWhere_append (h b (by simp)), List.filter_append, ← words, ← words, hnil,
      List.append_nil]

/-- Trimming keeps the words of a text. -/
theorem words_trim (cs : List Char) : words (trim cs) = words cs := by
  obtain ⟨bs, bs', hbs, hbs', hsplit⟩ := exists_trim cs
  rw [hsplit, words_blank_append hbs, words_append_blank hbs', ← hsplit]

theorem words_cons_ne_nil {c : Char} (h : isBlank c = false) (cs : List Char) :
    words (c :: cs) ≠ [] := by
  rw [words, splitWhere, if_neg (by simp [h])]
  cases splitWhere isBlank cs with
  | nil => simp
  | cons piece pieces => simp

theorem collapse_ne_nil (h : ∃ c ∈ cs, isBlank c = false) : collapse cs ≠ [] := by
  rw [collapse, ← words_trim]
  cases htrim : trim cs with
  | nil => exact absurd htrim (trim_ne_nil h)
  | cons c rest =>
    have hink := head_trim cs c (by rw [htrim]; rfl)
    cases hwords : words (c :: rest) with
    | nil => exact absurd hwords (words_cons_ne_nil hink rest)
    | cons word more =>
      have hmem : word ∈ words (c :: rest) := by simp [hwords]
      have hword : word ≠ [] := ne_nil_of_mem_words hmem
      cases more with
      | nil => simpa using hword
      | cons next more => simp [hword]

end QueryScore.Text

namespace QueryScore.Name

open Text

variable {cs : List Char}

/-- Lower case loses no character. -/
theorem lowerChar_ne_nil (c : Char) : lowerChar c ≠ [] := by
  rw [lowerChar, mapCase]
  split
  · simp
  · split
    · rename_i ns hlookup
      have hall : ∀ n, ∀ ns ∈ lowerExpansions.lookup n, ns ≠ [] := by
        intro n ns hns
        simp only [lowerExpansions, List.lookup_cons, List.lookup_nil] at hns
        split at hns
        · obtain rfl := Option.some.inj hns
          simp
        · cases hns
      simpa using hall _ ns hlookup
    · simp

theorem lowercase_ne_nil (h : cs ≠ []) : lowercase cs ≠ [] := by
  cases cs with
  | nil => exact absurd rfl h
  | cons c rest =>
    rw [lowercase, lowercaseFrom]
    intro hnil
    obtain ⟨himage, -⟩ := List.append_eq_nil_iff.mp hnil
    split at himage
    · cases himage
    · exact lowerChar_ne_nil c himage

theorem normalizeFragment_ne_nil (h : ∃ c ∈ cs, isBlank c = false) : normalizeFragment cs ≠ [] :=
  lowercase_ne_nil (collapse_ne_nil h)

/-- Blanks around a fragment do not matter. -/
theorem normalizeFragment_trim (cs : List Char) :
    normalizeFragment (trim cs) = normalizeFragment cs := by
  rw [normalizeFragment, collapse, words_trim]
  rfl

end QueryScore.Name
