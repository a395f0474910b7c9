/-
# QueryScore.Proofs.Cypher.Boundary -- what ends a list is found whatever stands behind it

The search for the end of a returned list looks for single words and for `ORDER BY`, between whose
words any blanks may stand. No occurrence of either reaches over the letter at which another one
begins (`strip_before_letter`), and none that is found changes with what stands behind it
(`strip_of_found`). So a search that finds the end of a list finds the same end in every text that
goes on behind it with no name (`findKeyword_append`).
-/

import QueryScore.Proofs.Cypher.ReturnClause

namespace QueryScore.Cypher

open Text Grammar Peg

variable {keyword : String} {keywords : List String} {s : Scanner} {before : Option Char} {c x : Char}
  {cs ds front rest tail tail' : List Char}

/-! ## The text around a hit -/

/-- Before the first hit the text is quiet. -/
theorem exists_quiet_of_hitsFrom {hit : Hit} {index resume : Nat} (hresume : resume ≤ index)
    (h : (hitsFrom keywords s before index resume cs).head? = some hit) : ∃ front rest,
      cs = front ++ rest ∧ hit.start = index + front.length ∧ Quiet keywords s before front rest ∧
        isHit keywords (s.run front) (front.getLast?.or before) rest = true := by
  induction cs generalizing s before index with
  | nil => cases h
  | cons c cs ih =>
    by_cases hhit : isHit keywords s before (c :: cs) = true
    · refine ⟨[], c :: cs, rfl, ?_, trivial, hhit⟩
      simp only [isHit, Bool.and_eq_true] at hhit
      obtain ⟨found, hfound⟩ := Option.isSome_iff_exists.mp hhit.2
      rw [hitsFrom, if_pos (by simp [hhit.1.1, hhit.1.2, hresume]), hfound] at h
      obtain rfl := Option.some.inj h
      rfl
    · have hquiet : Quiet keywords s before [c] cs := ⟨Bool.eq_false_iff.mpr hhit, trivial⟩
      have hlater := hitsFrom_of_quiet hquiet index resume
      rw [List.singleton_append] at hlater
      rw [hlater] at h
      obtain ⟨front, rest, rfl, hstart, hfront, hrest⟩ := ih (Nat.le_succ_of_le hresume) h
      refine ⟨c :: front, rest, rfl, ?_, ⟨hquiet.1, hfront⟩, ?_⟩
      · rw [hstart, List.length_cons]
        omega
      · rw [getLast?_cons_or]
        exact hrest

theorem exists_quiet_of_findKeyword {hit : Hit} (h : findKeyword keywords cs = some hit) :
    ∃ front rest, cs = front ++ rest ∧ hit.start = front.length ∧ Quiet keywords {} none front rest ∧
      isHit keywords (Scanner.run {} front) front.getLast? rest = true := by
  obtain ⟨front, rest, hsplit, hstart, hquiet, hhit⟩ := exists_quiet_of_hitsFrom (Nat.le_refl 0) h
  exact ⟨front, rest, hsplit, by omega, hquiet, by simpa using hhit⟩

/-! ## The two words `ORDER BY` -/

/-- Where the two words are stripped, both stand there, with blanks between them. -/
theorem exists_of_strip_orderBy (h : stripKeyword "ORDER BY".toList cs = some rest) : ∃ ws fs vs,
    cs = ws ++ (fs ++ (vs ++ rest)) ∧ ws.map asciiLower = "ORDER".toList.map asciiLower ∧ Blank fs ∧
      fs ≠ [] ∧ vs.map asciiLower = "BY".toList.map asciiLower ∧ startsInsideWord rest = false := by
  have hwords : words "ORDER BY".toList = ["ORDER".toList, "BY".toList] := by decide
  rw [stripKeyword, hwords] at h
  obtain ⟨hfound, hstop⟩ := Option.filter_eq_some_iff.mp h
  obtain ⟨later, hfirst, hlater⟩ := Option.bind_eq_some_iff.mp hfound
  obtain ⟨ws, rfl, hws⟩ := stripWord_eq_some.mp hfirst
  cases later with
  | nil => cases hlater
  | cons f later =>
    simp only [stripSpacedWords] at hlater
    split at hlater
    · rename_i hf
      obtain ⟨more, hsecond, hmore⟩ := Option.bind_eq_some_iff.mp hlater
      obtain rfl := Option.some.inj hmore
      obtain ⟨vs, htrim, hvs⟩ := stripWord_eq_some.mp hsecond
      obtain ⟨fs, hfs, hsplit⟩ := exists_trimStart (f :: later)
      rw [htrim] at hsplit
      refine ⟨ws, fs, vs, by rw [hsplit], hws, hfs, ?_, hvs, by simpa using hstop⟩
      rintro rfl
      -- The second word would begin with a blank.
      obtain ⟨v, vs, rfl⟩ : ∃ v vs', vs = v :: vs' := by
        cases vs with
        | nil => cases hvs
        | cons v vs => exact ⟨v, vs, rfl⟩
      obtain ⟨rfl, -⟩ := List.cons.inj hsplit
      have hletter := isAlpha_of_mem hvs (List.all_eq_true.mp (by decide)) f (by simp)
      rw [not_isAlpha_of_isBlank hf] at hletter
      cases hletter
    · cases hlater

/-- Letters at the front of a whole end within a first part that does not end in a letter. -/
theorem exists_of_letters {word more : List Char} (hne : cs ≠ [])
    (hlast : ∀ c ∈ cs.getLast?, c.isAlpha = false) (hword : ∀ c ∈ word, c.isAlpha = true)
    (h : cs ++ ds = word ++ more) : ∃ cs', cs = word ++ cs' ∧ more = cs' ++ ds := by
  rcases List.append_eq_append_iff.mp h with ⟨rest, rfl, -⟩ | hinside
  · have hletter := hword _ (List.mem_append_left rest (List.getLast_mem hne))
    rw [hlast _ (List.getLast?_eq_some_getLast hne)] at hletter
    cases hletter
  · exact hinside

/-- Blanks at the front of a whole end before a letter. -/
theorem exists_of_blanks {bs more : List Char} (hbs : Blank bs) (hx : x.isAlpha = true)
    (h : cs ++ x :: tail = bs ++ more) : ∃ cs', cs = bs ++ cs' ∧ more = cs' ++ x :: tail := by
  rcases List.append_eq_append_iff.mp h with ⟨rest, rfl, hrest⟩ | hinside
  · cases rest with
    | nil => exact ⟨[], by simp, by simpa using hrest.symm⟩
    | cons r rest =>
      obtain ⟨rfl, -⟩ := List.cons.inj hrest
      rw [not_isAlpha_of_isBlank (hbs x (by simp))] at hx
      cases hx
  · exact hinside

/-- What stands at a letter that begins another word does not belong to the two words before it. -/
theorem strip_orderBy_before_letter (hne : cs ≠ []) (hlast : ∀ c ∈ cs.getLast?, c.isAlpha = false)
    (hx : x.isAlpha = true) (hother : asciiLower x ≠ 'b') :
    stripKeyword "ORDER BY".toList (cs ++ x :: tail) =
      (stripKeyword "ORDER BY".toList cs).map (· ++ x :: tail) := by
  have letters {word w : List Char} (hword : word.map asciiLower = w.map asciiLower)
      (hw : w.all Char.isAlpha = true) : ∀ c ∈ word, c.isAlpha = true :=
    isAlpha_of_mem hword (List.all_eq_true.mp hw)
  -- Behind the second word stands something of the first part, as that does not end in a letter.
  have hmore {ws fs vs later : List Char} (hcs : cs = ws ++ (fs ++ (vs ++ later)))
      (hvs : vs.map asciiLower = "BY".toList.map asciiLower) : later ≠ [] := by
    rintro rfl
    have hvsne : vs ≠ [] := by
      rintro rfl
      cases hvs
    have hend : cs.getLast? = vs.getLast? := by
      rw [hcs, List.append_nil, ← List.append_assoc, List.getLast?_append,
        List.getLast?_eq_some_getLast hvsne, Option.some_or]
    have hletter := letters hvs (by decide) _ (List.getLast_mem hvsne)
    rw [hlast _ (hend.trans (List.getLast?_eq_some_getLast hvsne))] at hletter
    cases hletter
  cases hstrip : stripKeyword "ORDER BY".toList cs with
  | some later =>
    obtain ⟨ws, fs, vs, hcs, hws, hfs, hgap, hvs, hstop⟩ := exists_of_strip_orderBy hstrip
    obtain ⟨r, later, rfl⟩ := List.exists_cons_of_ne_nil (hmore hcs hvs)
    rw [hcs]
    simp only [List.append_assoc, Option.map_some]
    exact stripKeyword_orderBy hws hfs hgap hvs hstop
  | none =>
    refine Option.eq_none_iff_forall_ne_some.mpr fun rest hsome => ?_
    obtain ⟨ws, fs, vs, hsplit, hws, hfs, hgap, hvs, hstop⟩ := exists_of_strip_orderBy hsome
    -- All three stretches end within the first part.
    obtain ⟨cs₁, hcs, hsplit₁⟩ := exists_of_letters hne hlast (letters hws (by decide)) hsplit
    obtain ⟨cs₂, rfl, hsplit₂⟩ := exists_of_blanks hfs hx hsplit₁.symm
    obtain ⟨cs₃, rfl, rfl⟩ : ∃ cs₃, cs₂ = vs ++ cs₃ ∧ rest = cs₃ ++ x :: tail := by
      by_cases hnil : cs₂ = []
      · subst hnil
        obtain ⟨v, vs, rfl⟩ : ∃ v vs', vs = v :: vs' := by
          cases vs with
          | nil => cases hvs
          | cons v vs => exact ⟨v, vs, rfl⟩
        obtain ⟨rfl, -⟩ := List.cons.inj hsplit₂
        exact absurd (List.cons.inj hvs).1 hother
      · refine exists_of_letters hnil (fun c hc => hlast c ?_) (letters hvs (by decide)) hsplit₂.symm
        rw [hcs, ← List.append_assoc, List.getLast?_append, Option.mem_def.mp hc]
        rfl
    obtain ⟨r, cs₃, rfl⟩ := List.exists_cons_of_ne_nil (hmore hcs hvs)
    have hend : startsInsideWord (r :: cs₃) = false := hstop
    rw [hcs, stripKeyword_orderBy hws hfs hgap hvs hend] at hstrip
    cases hstrip

/-! ## The searches that end a list -/

/-- The keywords that end a list or its sort keys. -/
theorem singleWord_of_boundary (h : keyword ∈ boundarySearch.keywords) (hother : keyword ≠ "ORDER BY") :
    SingleWord keyword := by
  simp only [boundarySearch, List.mem_cons, List.not_mem_nil, or_false] at h
  rcases h with rfl | rfl | rfl | rfl
  · exact absurd rfl hother
  · exact singleWord_skip
  · exact singleWord_limit
  · exact singleWord_union

theorem words_ne_nil_of_boundary (h : keyword ∈ boundarySearch.keywords) :
    words keyword.toList ≠ [] := by
  have hall : ∀ k ∈ boundarySearch.keywords, words k.toList ≠ [] := by decide
  exact hall keyword h

/-- A keyword that ends a list does not reach over a letter at which another one begins. -/
theorem strip_before_letter (hkeyword : keyword ∈ boundarySearch.keywords) (hne : cs ≠ [])
    (hlast : ∀ c ∈ cs.getLast?, c.isAlpha = false) (hx : x.isAlpha = true)
    (hother : asciiLower x ≠ 'b') : stripKeyword keyword.toList (cs ++ x :: tail) =
      (stripKeyword keyword.toList cs).map (· ++ x :: tail) := by
  by_cases horder : keyword = "ORDER BY"
  · subst horder
    exact strip_orderBy_before_letter hne hlast hx hother
  · exact (singleWord_of_boundary hkeyword horder).strip_append hne (.inr hlast)

/-- Before a letter at which a keyword begins, it does not matter what follows the letter. -/
theorem quiet_before_letter (hkeywords : ∀ k ∈ keywords, k ∈ boundarySearch.keywords)
    (hlast : ∀ c ∈ front.getLast?, c.isAlpha = false) (hx : x.isAlpha = true)
    (hother : asciiLower x ≠ 'b') (h : Quiet keywords s before front (x :: tail)) :
    Quiet keywords s before front (x :: tail') := by
  induction front generalizing s before with
  | nil => trivial
  | cons c front ih =>
    refine ⟨?_, ih (fun d hd => hlast d ?_) h.2⟩
    · have hfirst (tail : List Char) :
          firstKeyword keywords (c :: front ++ x :: tail) = firstKeyword keywords (c :: front) :=
        firstKeyword_of_strips fun k hk =>
          strip_before_letter (hkeywords k hk) (by simp) hlast hx hother
      simp only [List.cons_append] at hfirst
      have hc := h.1
      rw [isHit, hfirst] at hc ⊢
      exact hc
    · cases front with
      | nil => cases hd
      | cons e front => rwa [List.getLast?_cons_cons]

/-- The other keywords begin with other letters than `ORDER BY`. -/
theorem head?_ne_of_boundary (h : keyword ∈ boundarySearch.keywords) (hother : keyword ≠ "ORDER BY") :
    (keyword.toList.map asciiLower).head? ≠ some 'o' := by
  simp only [boundarySearch, List.mem_cons, List.not_mem_nil, or_false] at h
  rcases h with rfl | rfl | rfl | rfl
  · exact absurd rfl hother
  all_goals decide

/-- Where one of the keywords is found, the same is found whatever stands behind the text, if no
name goes on there. -/
theorem strip_of_found (hkeywords : ∀ k ∈ keywords, k ∈ boundarySearch.keywords)
    (hfound : (firstKeyword keywords cs).isSome) (hds : startsInsideWord ds = false)
    (hkeyword : keyword ∈ keywords) :
    stripKeyword keyword.toList (cs ++ ds) = (stripKeyword keyword.toList cs).map (· ++ ds) := by
  have hhead : ∀ c ∈ ds.head?, isIdentifierChar c = false := by
    cases ds with
    | nil => simp
    | cons d ds => simpa [startsInsideWord] using hds
  have hjoin (later : List Char) (hlater : startsInsideWord later = false) :
      startsInsideWord (later ++ ds) = false := by
    cases later with
    | nil => exact hds
    | cons r later => exact hlater
  rw [firstKeyword, List.isSome_findSome?, List.any_eq_true] at hfound
  obtain ⟨found, hmem, hfound⟩ := hfound
  rw [Option.isSome_map] at hfound
  obtain ⟨later, hlater⟩ := Option.isSome_iff_exists.mp hfound
  by_cases horder : keyword = "ORDER BY"
  · subst horder
    cases hstrip : stripKeyword "ORDER BY".toList cs with
    | some rest =>
      obtain ⟨ws, fs, vs, rfl, hws, hfs, hgap, hvs, hstop⟩ := exists_of_strip_orderBy hstrip
      simp only [List.append_assoc, Option.map_some]
      exact stripKeyword_orderBy hws hfs hgap hvs (hjoin rest hstop)
    | none =>
      refine Option.eq_none_iff_forall_ne_some.mpr fun rest hsome => ?_
      obtain ⟨ws, fs, vs, hsplit, hws, -⟩ := exists_of_strip_orderBy hsome
      -- Another keyword stands here, and it begins with another letter.
      have hother : found ≠ "ORDER BY" := by
        rintro rfl
        rw [hstrip] at hlater
        cases hlater
      have hsingle := singleWord_of_boundary (hkeywords found hmem) hother
      obtain ⟨word, rfl, hword, -⟩ := hsingle.strip.mp hlater
      obtain ⟨w, word, rfl⟩ := List.exists_cons_of_ne_nil (hsingle.ne_nil hword)
      obtain ⟨o, ws, rfl⟩ : ∃ o ws', ws = o :: ws' := by
        cases ws with
        | nil => cases hws
        | cons o ws => exact ⟨o, ws, rfl⟩
      obtain ⟨rfl, -⟩ := List.cons.inj hsplit
      refine head?_ne_of_boundary (hkeywords found hmem) hother ?_
      rw [← hword, List.map_cons, (List.cons.inj hws).1]
      rfl
  · have hne : cs ≠ [] := by
      rintro rfl
      have hlonger := length_stripKeyword_lt (words_ne_nil_of_boundary (hkeywords found hmem)) hlater
      cases hlonger
    exact (singleWord_of_boundary (hkeywords keyword hkeyword) horder).strip_append hne (.inl hhead)

/-- No keyword that ends a list begins with the letter of the second word. -/
theorem ne_b_of_found (hkeywords : ∀ k ∈ keywords, k ∈ boundarySearch.keywords)
    (hfound : (firstKeyword keywords (x :: tail)).isSome) : asciiLower x ≠ 'b' := by
  rw [firstKeyword, List.isSome_findSome?, List.any_eq_true] at hfound
  obtain ⟨found, hmem, hfound⟩ := hfound
  rw [Option.isSome_map] at hfound
  obtain ⟨later, hlater⟩ := Option.isSome_iff_exists.mp hfound
  have hlead : ∀ k ∈ boundarySearch.keywords, leadWord k ≠ [] ∧
      ((leadWord k).map asciiLower).head? ≠ some 'b' := by decide
  obtain ⟨hne, hhead⟩ := hlead found (hkeywords found hmem)
  obtain ⟨word, rest, hsplit, hword, -⟩ := exists_of_stripKeyword hne hlater
  rintro hb
  rw [← hword] at hhead
  cases word with
  | nil => exact hne (List.map_eq_nil_iff.mp hword.symm)
  | cons w word =>
    obtain ⟨rfl, -⟩ := List.cons.inj hsplit
    exact hhead (congrArg some hb)

/-- **What a search finds it finds in every text that goes on with no name.** -/
theorem findKeyword_append (hkeywords : ∀ k ∈ keywords, k ∈ boundarySearch.keywords) {hit : Hit}
    (h : findKeyword keywords cs = some hit) (hds : startsInsideWord ds = false) :
    findKeyword keywords (cs ++ ds) = some hit := by
  obtain ⟨front, rest, rfl, -, hquiet, hhit⟩ := exists_quiet_of_findKeyword h
  obtain ⟨k, size, hfirst, hfound⟩ := findKeyword_of_quiet hquiet hhit
  obtain rfl : hit = _ := Option.some.inj (h.symm.trans hfound)
  have hsame : firstKeyword keywords (rest ++ ds) = some (k, size) :=
    (firstKeyword_of_strips fun k hk => strip_of_found hkeywords (by rw [hfirst]; rfl) hds hk).trans hfirst
  cases rest with
  | nil => cases hhit
  | cons x tail =>
    simp only [isHit, Bool.and_eq_true] at hhit
    obtain ⟨⟨htop, hstart⟩, hsome⟩ := hhit
    -- A keyword begins at a letter, behind something that is no letter.
    obtain ⟨hx, happart⟩ := (Bool.and_eq_true _ _).mp hstart
    have hlast : ∀ c ∈ front.getLast?, c.isAlpha = false := fun c hc => by
      rw [Bool.eq_false_iff]
      intro halpha
      rw [Option.mem_def.mp hc] at happart
      simp [isIdentifierChar_of_isAlpha halpha] at happart
    have hquiet' : Quiet keywords {} none front (x :: tail ++ ds) :=
      quiet_before_letter hkeywords hlast hx (ne_b_of_found hkeywords hsome) hquiet
    have hhit' : isHit keywords (Scanner.run {} front) front.getLast? (x :: tail ++ ds) = true := by
      have hlonger : (firstKeyword keywords (x :: (tail ++ ds))).isSome = true := by
        rw [← List.cons_append, hsame]
        rfl
      simp [isHit, htop, hstart, hlonger]
    obtain ⟨k', size', hfirst', hfound'⟩ := findKeyword_of_quiet hquiet' hhit'
    obtain ⟨rfl, rfl⟩ := Prod.mk.inj (Option.some.inj (hfirst'.symm.trans hsame))
    rwa [← List.append_assoc] at hfound'

end QueryScore.Cypher
