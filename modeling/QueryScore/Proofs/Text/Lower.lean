/-
# QueryScore.Proofs.Text.Lower -- lower case and collapsed blanks, of a whole and of its parts

A fragment is compared with its blanks collapsed and in lower case. Both are taken of a whole as of
its parts: where one part ends and the next begins with a character that neither has case nor is
ignored by it (`Solid`), lower case falls into that of the parts (`lowercase_append`), and blanks
between two parts become one space (`collapse_append`). Taking the comparison form twice is taking
it once (`normalizeFragment_normalizeFragment`).
-/

import QueryScore.Proofs.Text.Hit

namespace QueryScore.Text

variable {bs cs ds xs ys : List Char}

/-! ## The tables -/

/-- The first image of a run. -/
def CaseRun.firstImage (r : CaseRun) : Nat := ((r.first : Int) + r.offset).toNat

/-- The last image of a run. -/
def CaseRun.lastImage (r : CaseRun) : Nat := ((r.last : Int) + r.offset).toNat

/-- No image of a run lies in another run: they do not overlap, or move every second code point and
are shifted against each other. -/
def CaseRun.misses (r r' : CaseRun) : Bool :=
  Nat.blt r.lastImage r'.first || Nat.blt r'.last r.firstImage ||
    (r'.step == 2 && (r.step == 2 || r.first == r.last) && (r.firstImage + r'.first) % 2 == 1)

/-- The code point is no image of a run. -/
def CaseRun.avoids (r : CaseRun) (n : Nat) : Bool := Nat.blt r.lastImage n || Nat.blt n r.firstImage

theorem exists_of_shift {runs : List CaseRun} {n m : Nat} (h : shift runs n = some m) :
    ∃ r ∈ runs, r.moves n = true ∧ m = (n + r.offset).toNat := by
  induction runs with
  | nil => cases h
  | cons r runs ih =>
    rw [shift] at h
    split at h
    · cases h
    · split at h
      · rename_i hmoves
        obtain rfl := Option.some.inj h
        exact ⟨r, by simp, hmoves, rfl⟩
      · obtain ⟨r', hmem, hmoves⟩ := ih h
        exact ⟨r', by simp [hmem], hmoves⟩

theorem of_moves {r : CaseRun} {n : Nat} (h : r.moves n = true) :
    r.first ≤ n ∧ n ≤ r.last ∧ (n - r.first) % r.step = 0 := by
  simpa [CaseRun.moves, and_assoc] using h

/-- A run that is missed moves none of the images. -/
theorem CaseRun.not_moves_of_misses {r r' : CaseRun} {n : Nat} (hr : 0 ≤ (r.first : Int) + r.offset)
    (hmiss : r.misses r' = true) (h : r.moves n = true) : r'.moves (n + r.offset).toNat = false := by
  obtain ⟨hlow, hhigh, hstep⟩ := of_moves h
  rw [Bool.eq_false_iff]
  intro hmoves
  obtain ⟨hlow', hhigh', hstep'⟩ := of_moves hmoves
  simp only [misses, firstImage, lastImage, Bool.or_eq_true, Nat.blt_eq, Bool.and_eq_true,
    beq_iff_eq] at hmiss
  rcases hmiss with (hmiss | hmiss) | ⟨⟨htwo, hsecond⟩, hodd⟩
  · omega
  · omega
  · rw [htwo] at hstep'
    rcases hsecond with htwo' | hone
    · rw [htwo'] at hstep
      omega
    · omega

theorem CaseRun.ne_of_avoids {r : CaseRun} {n m : Nat} (havoid : r.avoids m = true)
    (h : r.moves n = true) : (n + r.offset).toNat ≠ m := by
  obtain ⟨hlow, hhigh, -⟩ := of_moves h
  simp only [avoids, firstImage, lastImage, Bool.or_eq_true, Nat.blt_eq] at havoid
  omega

theorem lowerRuns_miss : ∀ r ∈ lowerRuns, ∀ r' ∈ lowerRuns, r.misses r' = true := by
  have hall : (lowerRuns.all fun r => lowerRuns.all fun r' => r.misses r') = true := by
    decide +kernel
  simpa [List.all_eq_true] using hall

theorem lowerRuns_avoid : ∀ r ∈ lowerRuns, 0 ≤ (r.first : Int) + r.offset ∧
    ∀ n ∈ 0x130 :: 0x3a3 :: blankCodes, r.avoids n = true := by
  have hall : (lowerRuns.all fun r => decide (0 ≤ (r.first : Int) + r.offset) &&
      (0x130 :: 0x3a3 :: blankCodes).all fun n => r.avoids n) = true := by decide
  simpa only [List.all_eq_true, Bool.and_eq_true, decide_eq_true_eq] using hall

theorem toNat_ofNat (n : Nat) : (Char.ofNat n).toNat = if n.isValidChar then n else 0 := by
  by_cases h : n.isValidChar
  · rw [if_pos h, show Char.ofNat n = Char.ofNatAux n h from dif_pos h]
    rfl
  · rw [if_neg h, show Char.ofNat n = Char.ofNat 0 from dif_neg h]
    rfl

/-- Where nothing is moved and nothing expands, lower case keeps a code point. -/
theorem lowerChar_of_shift {n : Nat} (hshift : shift lowerRuns n = none) (hne : n ≠ 0x130) :
    lowerChar (Char.ofNat n) = [Char.ofNat n] := by
  by_cases hvalid : n.isValidChar
  · rw [lowerChar, mapCase, toNat_ofNat, if_pos hvalid, hshift]
    simp [lowerExpansions, List.lookup_cons, beq_false_of_ne hne]
  · have hzero : Char.ofNat n = Char.ofNat 0 := by
      apply Char.ext
      simp [Char.ofNat, hvalid]
    rw [hzero]
    decide

theorem isBlank_ofNat {n : Nat} (h : n ∉ blankCodes) : isBlank (Char.ofNat n) = false := by
  rw [Bool.eq_false_iff]
  intro hblank
  have hmem := toNat_mem_of_isBlank hblank
  rw [toNat_ofNat] at hmem
  split at hmem
  · exact h hmem
  · exact absurd hmem (by decide)

theorem shift_eq_none {n : Nat} (h : ∀ r ∈ lowerRuns, r.moves n = false) :
    shift lowerRuns n = none := by
  cases hshift : shift lowerRuns n with
  | none => rfl
  | some m =>
    obtain ⟨r, hmem, hmoves, -⟩ := exists_of_shift hshift
    rw [h r hmem] at hmoves
    cases hmoves

/-- **`Lowered c`** -- lower case keeps the character. -/
structure Lowered (c : Char) : Prop where
  fixed : lowerChar c = [c]
  ne_sigma : c ≠ 'Σ'

/-- What a run moves a character to is in lower case, and neither is a blank. -/
theorem lowered_of_moves {r : CaseRun} {c : Char} (hr : r ∈ lowerRuns) (hmoves : r.moves c.toNat = true)
    (hshift : shift lowerRuns c.toNat = some (c.toNat + r.offset).toNat) :
    Lowered (Char.ofNat (c.toNat + r.offset).toNat) ∧
      isBlank (Char.ofNat (c.toNat + r.offset).toNat) = isBlank c := by
  obtain ⟨hlow, havoid⟩ := lowerRuns_avoid r hr
  have hne {n : Nat} (hn : n ∈ 0x130 :: 0x3a3 :: blankCodes) : (c.toNat + r.offset).toNat ≠ n :=
    CaseRun.ne_of_avoids (havoid n hn) hmoves
  have hfixed := lowerChar_of_shift
    (shift_eq_none fun r' hr' => CaseRun.not_moves_of_misses hlow (lowerRuns_miss r hr r' hr') hmoves)
    (hne (by simp))
  refine ⟨⟨hfixed, fun hsigma => ?_⟩, ?_⟩
  · have hbad : lowerChar 'Σ' = ['Σ'] := by rwa [hsigma] at hfixed
    exact absurd hbad (by decide)
  · rw [isBlank_ofNat fun hmem => hne (by simp [hmem]) rfl, Eq.comm, Bool.eq_false_iff]
    intro hblank
    have hkept : ∀ n ∈ blankCodes, shift lowerRuns n = none := by decide +kernel
    rw [hkept _ (toNat_mem_of_isBlank hblank)] at hshift
    cases hshift

/-- The one character whose lower case is longer. -/
theorem lowered_of_expansion {c d : Char} {ns : List Nat}
    (hlookup : lowerExpansions.lookup c.toNat = some ns) (h : d ∈ ns.map Char.ofNat) :
    Lowered d ∧ isBlank d = isBlank c := by
  rw [lowerExpansions, List.lookup_cons] at hlookup
  split at hlookup
  · next hcode =>
    obtain rfl := Option.some.inj hlookup
    have hdot : c = Char.ofNat 0x130 := by rw [← eq_of_beq hcode, Char.ofNat_toNat]
    subst hdot
    rcases List.mem_cons.mp h with rfl | h
    · exact ⟨⟨by decide, by decide⟩, by decide⟩
    · obtain rfl := List.mem_singleton.mp h
      exact ⟨⟨by decide, by decide⟩, by decide⟩
  · cases hlookup

/-- The lower case of a character is in lower case, and blank exactly if the character is. -/
theorem lowered_of_mem {c d : Char} (h : d ∈ lowerChar c) : Lowered d ∧ isBlank d = isBlank c := by
  rw [lowerChar, mapCase] at h
  split at h
  · next m hshift =>
    obtain rfl := List.mem_singleton.mp h
    obtain ⟨r, hmem, hmoves, rfl⟩ := exists_of_shift hshift
    exact lowered_of_moves hmem hmoves hshift
  · next hshift =>
    split at h
    · next ns hlookup => exact lowered_of_expansion hlookup h
    · next hlookup =>
      obtain rfl := List.mem_singleton.mp h
      refine ⟨⟨?_, ?_⟩, rfl⟩
      · rw [lowerChar, mapCase, hshift, hlookup]
      · rintro rfl
        exact absurd hshift (by decide)

/-! ## Lower case -/

/-- **`Solid c`** -- the character neither has case nor is ignored by it. -/
def Solid (c : Char) : Prop :=
  covers caseIgnorableRanges c.toNat = false ∧ covers casedRanges c.toNat = false

instance (c : Char) : Decidable (Solid c) := inferInstanceAs (Decidable (_ ∧ _))

/-- Ahead of a solid character is what is ahead of the end of the text. -/
theorem casedAhead_append {c : Char} (hc : Solid c) : casedAhead (xs ++ c :: ys) = casedAhead xs := by
  rw [casedAhead, casedAhead, List.dropWhile_append]
  cases hdrop : xs.dropWhile fun c => covers caseIgnorableRanges c.toNat with
  | nil => simp [hc.1, hc.2]
  | cons d ds => simp

/-- What stands before a solid character does not matter. -/
theorem lowercaseFrom_append {c : Char} (hc : Solid c) (before : List Char) :
    lowercaseFrom (xs ++ c :: before) cs = lowercaseFrom xs cs := by
  induction cs generalizing xs with
  | nil => rfl
  | cons d cs ih =>
    rw [lowercaseFrom, lowercaseFrom, casedAhead_append hc, ← List.cons_append, ih]

/-- Up to a solid character the rest of a text does not matter. -/
theorem lowercaseFrom_append_cons {c : Char} (hc : Solid c) (before : List Char) :
    lowercaseFrom before (xs ++ c :: ys) =
      lowercaseFrom before xs ++ lowercaseFrom (xs.reverse ++ before) (c :: ys) := by
  induction xs generalizing before with
  | nil => rfl
  | cons x xs ih =>
    rw [List.cons_append, lowercaseFrom, lowercaseFrom, casedAhead_append hc, ih]
    simp

/-- A solid character parts a text. -/
theorem lowercase_append_cons {c : Char} (hc : Solid c) :
    lowercase (xs ++ c :: ys) = lowercase xs ++ (lowerChar c ++ lowercase ys) := by
  have hsigma : c ≠ 'Σ' := by
    rintro rfl
    exact absurd hc (by decide)
  rw [lowercase, lowercaseFrom_append_cons hc, lowercaseFrom, if_neg hsigma]
  have hrest : lowercaseFrom ([] ++ c :: (xs.reverse ++ [])) ys = lowercaseFrom [] ys :=
    lowercaseFrom_append hc _
  rw [List.nil_append] at hrest
  rw [hrest]
  rfl

theorem lowercase_nil : lowercase [] = [] := rfl

theorem lowercase_cons {c : Char} (hc : Solid c) (ys : List Char) :
    lowercase (c :: ys) = lowerChar c ++ lowercase ys := by
  rw [← List.nil_append (c :: ys), lowercase_append_cons hc, lowercase_nil, List.nil_append]

/-- **Lower case falls into that of two parts** between which a solid character stands. -/
theorem lowercase_append (h : (∃ c ∈ xs.getLast?, Solid c) ∨ ∃ c ∈ ys.head?, Solid c) :
    lowercase (xs ++ ys) = lowercase xs ++ lowercase ys := by
  rcases h with ⟨c, hlast, hc⟩ | ⟨c, hhead, hc⟩
  · obtain ⟨front, rfl⟩ := List.getLast?_eq_some_iff.mp hlast
    rw [List.append_assoc, List.singleton_append, lowercase_append_cons hc, lowercase_append_cons hc,
      lowercase_nil, List.append_nil, List.append_assoc]
  · obtain ⟨rest, rfl⟩ := List.head?_eq_some_iff.mp hhead
    rw [lowercase_append_cons hc, lowercase_cons hc]

/-- A text in lower case stays. -/
theorem lowercase_of_lowered (h : ∀ c ∈ cs, Lowered c) : lowercase cs = cs := by
  suffices hall : ∀ before, lowercaseFrom before cs = cs from hall []
  induction cs with
  | nil => exact fun _ => rfl
  | cons c cs ih =>
    intro before
    obtain ⟨hfixed, hsigma⟩ := h c (by simp)
    rw [lowercaseFrom, if_neg hsigma, hfixed, ih fun d hd => h d (by simp [hd])]
    rfl

/-- The lower case of a text is an image of its first character and what follows. -/
theorem exists_image (before : List Char) (c : Char) (cs : List Char) :
    ∃ image, image ≠ [] ∧ (∀ d ∈ image, Lowered d ∧ isBlank d = isBlank c) ∧
      lowercaseFrom before (c :: cs) = image ++ lowercaseFrom (c :: before) cs := by
  by_cases hsigma : c = 'Σ'
  · subst hsigma
    refine ⟨_, List.cons_ne_nil _ _, fun d hd => ?_, by rw [lowercaseFrom, if_pos rfl]⟩
    obtain rfl := List.mem_singleton.mp hd
    split
    · exact ⟨⟨by decide, by decide⟩, by decide⟩
    · exact ⟨⟨by decide, by decide⟩, by decide⟩
  · exact ⟨lowerChar c, Name.lowerChar_ne_nil c, fun d hd => lowered_of_mem hd,
      by rw [lowercaseFrom, if_neg hsigma]⟩

/-- The lower case of a text is in lower case, and blank exactly where the text is. -/
theorem of_mem_lowercase {d : Char} (h : d ∈ lowercase cs) :
    Lowered d ∧ ∃ c ∈ cs, isBlank d = isBlank c := by
  rw [lowercase] at h
  generalize ([] : List Char) = before at h
  induction cs generalizing before with
  | nil => cases h
  | cons c cs ih =>
    obtain ⟨image, -, himage, hsplit⟩ := exists_image before c cs
    rw [hsplit] at h
    rcases List.mem_append.mp h with h | h
    · obtain ⟨hlowered, hblank⟩ := himage d h
      exact ⟨hlowered, c, by simp, hblank⟩
    · obtain ⟨hlowered, e, he, hblank⟩ := ih _ h
      exact ⟨hlowered, e, by simp [he], hblank⟩

theorem lowercase_lowercase (cs : List Char) : lowercase (lowercase cs) = lowercase cs :=
  lowercase_of_lowered fun _ hc => (of_mem_lowercase hc).1

/-! ## Collapsed blanks -/

/-- A text that neither begins nor ends with a blank. -/
structure Inked (cs : List Char) : Prop where
  head : ∃ c ∈ cs.head?, isBlank c = false
  last : ∃ c ∈ cs.getLast?, isBlank c = false

instance (cs : List Char) : Decidable (Inked cs) :=
  decidable_of_iff ((cs.head?.any fun c => !isBlank c) = true ∧ (cs.getLast?.any fun c => !isBlank c) = true) (by
    simp only [Option.any_eq_true, Bool.not_eq_true']
    exact ⟨fun h => ⟨h.1, h.2⟩, fun h => ⟨h.head, h.last⟩⟩)

theorem Inked.ink (h : Inked cs) : ∃ c ∈ cs, isBlank c = false :=
  let ⟨c, hc, hink⟩ := h.head
  ⟨c, List.mem_of_head? hc, hink⟩

theorem Inked.trim (h : Inked cs) : trim cs = cs := by
  obtain ⟨⟨c, hc, hink⟩, d, hd, hink'⟩ := h
  refine trim_of_ends (fun e he => ?_) fun e he => ?_
  · obtain rfl := Option.mem_unique hc he
    exact hink
  · obtain rfl := Option.mem_unique hd he
    exact hink'

theorem Inked.append (hxs : Inked xs) (ds : List Char) (hys : Inked ys) : Inked (xs ++ (ds ++ ys)) := by
  obtain ⟨c, hc, hink⟩ := hxs.head
  obtain ⟨d, hd, hink'⟩ := hys.last
  exact ⟨⟨c, head?_append_of_mem hc _, hink⟩, d, getLast?_append_of_mem _ (getLast?_append_of_mem _ hd), hink'⟩

theorem Inked.ne_nil (h : Inked cs) : cs ≠ [] := by
  rintro rfl
  obtain ⟨c, hc, -⟩ := h.head
  cases hc

/-- What a text with ink leaves when it is trimmed. -/
theorem inked_trim (h : ∃ c ∈ cs, isBlank c = false) : Inked (Text.trim cs) := by
  have hne := trim_ne_nil h
  obtain ⟨c, rest, hcons⟩ := List.exists_cons_of_ne_nil hne
  refine ⟨⟨c, by rw [hcons]; rfl, head_trim cs c (by rw [hcons]; rfl)⟩,
    _, List.getLast?_eq_some_getLast hne, ?_⟩
  exact getLast_trimEnd (trimStart cs) _ (List.getLast?_eq_some_getLast hne)

/-- The blanks before a text, collapsed. -/
def collapsedGap (bs : List Char) : List Char := if bs.isEmpty then [] else [' ']

theorem blank_collapsedGap (bs : List Char) : Blank (collapsedGap bs) := by
  intro c hc
  rw [collapsedGap] at hc
  split at hc
  · cases hc
  · obtain rfl := List.mem_singleton.mp hc
    decide

theorem words_of_not_blank (hne : cs ≠ []) (h : ∀ c ∈ cs, isBlank c = false) : words cs = [cs] := by
  rw [words, splitWhere_of_none h]
  simp [hne]

theorem words_append_blank_append {b : Char} (hb : isBlank b = true) :
    words (xs ++ b :: ys) = words xs ++ words ys := by
  rw [words, splitWhere_append hb, List.filter_append]
  rfl

theorem intercalate_append {ws vs : List (List Char)} (hws : ws ≠ []) (hvs : vs ≠ []) :
    [' '].intercalate (ws ++ vs) = [' '].intercalate ws ++ ' ' :: [' '].intercalate vs := by
  induction ws with
  | nil => exact absurd rfl hws
  | cons w ws ih =>
    obtain ⟨v, vs, rfl⟩ := List.exists_cons_of_ne_nil hvs
    cases ws with
    | nil => simp
    | cons w' ws => simpa using ih (by simp)

theorem words_ne_nil (h : ∃ c ∈ cs, isBlank c = false) : words cs ≠ [] := by
  rw [← words_trim]
  obtain ⟨c, hc, hink⟩ := (inked_trim h).head
  obtain ⟨rest, hrest⟩ := List.head?_eq_some_iff.mp hc
  rw [hrest]
  exact words_cons_ne_nil hink rest

/-- Blanks between two texts become one space. -/
theorem collapse_append_blank (hbs : Blank bs) (hne : bs ≠ []) (hxs : ∃ c ∈ xs, isBlank c = false)
    (hys : ∃ c ∈ ys, isBlank c = false) :
    collapse (xs ++ (bs ++ ys)) = collapse xs ++ ' ' :: collapse ys := by
  obtain ⟨b, bs, rfl⟩ := List.exists_cons_of_ne_nil hne
  rw [List.cons_append, collapse, words_append_blank_append (hbs b (by simp)),
    words_blank_append fun c hc => hbs c (by simp [hc]),
    intercalate_append (words_ne_nil hxs) (words_ne_nil hys)]
  rfl

theorem collapse_cons_blank {b : Char} (hb : isBlank b = true) (cs : List Char) :
    collapse (b :: cs) = collapse cs := by
  have hone : Blank [b] := by simpa [Blank] using hb
  rw [collapse, show b :: cs = [b] ++ cs from rfl, words_blank_append hone]
  rfl

theorem collapse_singleton {c : Char} (hc : isBlank c = false) : collapse [c] = [c] := by
  rw [collapse, words_of_not_blank (by simp) (by simpa using hc)]
  rfl

/-- A character that is no blank begins the first piece. -/
theorem exists_splitWhere {c : Char} (hc : isBlank c = false) (cs : List Char) :
    ∃ piece pieces, splitWhere isBlank (c :: cs) = (c :: piece) :: pieces := by
  rw [splitWhere, if_neg (by simp [hc])]
  cases splitWhere isBlank cs with
  | nil => exact ⟨[], [], rfl⟩
  | cons piece pieces => exact ⟨piece, pieces, rfl⟩

theorem collapse_cons_cons {c d : Char} (hc : isBlank c = false) (hd : isBlank d = false)
    (cs : List Char) : collapse (c :: d :: cs) = c :: collapse (d :: cs) := by
  obtain ⟨piece, pieces, hsplit⟩ := exists_splitWhere hd cs
  have hlonger : splitWhere isBlank (c :: d :: cs) = (c :: d :: piece) :: pieces := by
    rw [splitWhere, if_neg (by simp [hc]), hsplit]
  rw [collapse, collapse, words, words, hsplit, hlonger]
  cases hrest : pieces.filter fun word => !word.isEmpty <;> simp [hrest]

/-- A blank inside a text becomes a space. -/
theorem collapse_cons_blank_cons {c b : Char} (hc : isBlank c = false) (hb : isBlank b = true)
    (hcs : ∃ d ∈ cs, isBlank d = false) : collapse (c :: b :: cs) = c :: ' ' :: collapse (b :: cs) := by
  have hone : Blank [b] := by simpa [Blank] using hb
  have hfirst : ∃ d ∈ [c], isBlank d = false := ⟨c, by simp, hc⟩
  have hall := collapse_append_blank hone (by simp) hfirst hcs
  rw [collapse_singleton hc] at hall
  rw [collapse_cons_blank hb]
  exact hall

/-- Where no blank stands between two texts, none does between their collapsed forms. -/
theorem collapse_append_tight (hxs : ∃ c ∈ xs.getLast?, isBlank c = false)
    (hys : ∃ c ∈ ys.head?, isBlank c = false) : collapse (xs ++ ys) = collapse xs ++ collapse ys := by
  obtain ⟨d, hd, hink⟩ := hys
  obtain ⟨rest, rfl⟩ := List.head?_eq_some_iff.mp hd
  -- by the first two characters: either may be a blank
  induction xs with
  | nil => rfl
  | cons x xs ih =>
    cases hx : isBlank x with
    | true =>
      cases xs with
      | nil => simp [hx] at hxs
      | cons y xs =>
        rw [List.cons_append, collapse_cons_blank hx, collapse_cons_blank hx]
        exact ih (by simpa [List.getLast?_cons_cons] using hxs)
    | false =>
      cases xs with
      | nil =>
        rw [List.singleton_append, collapse_cons_cons hx hink, collapse_singleton hx]
        rfl
      | cons y xs =>
        have hxs' : ∃ c ∈ (y :: xs).getLast?, isBlank c = false := by
          simpa [List.getLast?_cons_cons] using hxs
        have hrest := ih hxs'
        cases hy : isBlank y with
        | true =>
          obtain ⟨c, hc, hno⟩ : ∃ c ∈ xs, isBlank c = false := by
            obtain ⟨c, hc, hno⟩ := hxs'
            rcases List.mem_cons.mp (List.mem_of_getLast? hc) with rfl | hmem
            · rw [hy] at hno
              cases hno
            · exact ⟨c, hmem, hno⟩
          rw [List.cons_append, List.cons_append, collapse_cons_blank_cons hx hy ⟨c, by simp [hc], hno⟩,
            collapse_cons_blank_cons hx hy ⟨c, hc, hno⟩, ← List.cons_append, hrest]
          rfl
        | false =>
          rw [List.cons_append, List.cons_append, collapse_cons_cons hx hy, collapse_cons_cons hx hy,
            ← List.cons_append, hrest]
          rfl

/-- **Collapsing falls into that of two parts and of the blanks between them.** -/
theorem collapse_append (hxs : Inked xs) (hbs : Blank bs) (hys : Inked ys) :
    collapse (xs ++ (bs ++ ys)) = collapse xs ++ (collapsedGap bs ++ collapse ys) := by
  cases bs with
  | nil => exact collapse_append_tight hxs.last hys.head
  | cons b bs => exact collapse_append_blank hbs (by simp) hxs.ink hys.ink

/-- The first character stays when it is no blank. -/
theorem head?_collapse {c : Char} (hc : isBlank c = false) (cs : List Char) :
    (collapse (c :: cs)).head? = some c := by
  obtain ⟨piece, pieces, hsplit⟩ := exists_splitWhere hc cs
  rw [collapse, words, hsplit]
  cases hrest : pieces.filter fun word => !word.isEmpty <;> simp [hrest]

/-- The last character stays when it is no blank. -/
theorem getLast?_collapse {c : Char} (hc : isBlank c = false) (cs : List Char) :
    (collapse (cs ++ [c])).getLast? = some c := by
  have hnone : ∀ b ∈ [c], isBlank b = false := by simpa using hc
  obtain ⟨init, last, -, hsplit⟩ := splitWhere_append_of_none hnone cs
  have hwords : words (cs ++ [c]) = init.filter (fun word => !word.isEmpty) ++ [last ++ [c]] := by
    rw [words, hsplit]
    simp
  rw [collapse, hwords]
  cases init.filter fun word => !word.isEmpty with
  | nil => simp
  | cons w ws =>
    have hone : (' ' :: [' '].intercalate [last ++ [c]]).getLast? = some c := by
      rw [List.intercalate_singleton, ← List.cons_append, List.getLast?_concat]
    rw [intercalate_append (by simp) (by simp), List.getLast?_append, hone]
    rfl

/-- Of a text of blanks nothing is left. -/
theorem ink_of_collapse (h : collapse cs ≠ []) : ∃ c ∈ cs, isBlank c = false := by
  by_cases hink : ∃ c ∈ cs, isBlank c = false
  · exact hink
  · have hblank : Blank cs := fun c hc => by
      rw [← Bool.not_eq_false]
      exact fun hc' => hink ⟨c, hc, hc'⟩
    have hwords := words_append_blank hblank []
    rw [List.nil_append] at hwords
    rw [collapse, hwords] at h
    exact absurd rfl h

theorem inked_collapse (h : Inked cs) : Inked (collapse cs) := by
  obtain ⟨⟨c, hc, hink⟩, d, hd, hink'⟩ := h
  constructor
  · obtain ⟨rest, rfl⟩ := List.head?_eq_some_iff.mp hc
    exact ⟨c, head?_collapse hink rest, hink⟩
  · obtain ⟨front, rfl⟩ := List.getLast?_eq_some_iff.mp hd
    exact ⟨d, getLast?_collapse hink' front, hink'⟩

/-- **Induction along a collapsed text**: by its first character, the blanks behind it, and what follows
them. -/
@[elab_as_elim]
theorem collapse_induction {motive : List Char → List Char → Prop}
    (single : ∀ c, isBlank c = false → motive [c] [c])
    (more : ∀ c bs ys, Blank bs → Inked ys → motive ys (collapse ys) →
      motive (c :: (bs ++ ys)) (c :: (collapsedGap bs ++ collapse ys)))
    (h : Inked cs) : motive cs (collapse cs) := by
  induction hsize : cs.length using Nat.strongRecOn generalizing cs with
  | _ size ih =>
    obtain ⟨⟨c, hc, hink⟩, d, hd, hink'⟩ := h
    obtain ⟨zs, rfl⟩ := List.head?_eq_some_iff.mp hc
    obtain ⟨bs, hbs, hzs⟩ := exists_trimStart zs
    have hone : Inked [c] := ⟨⟨c, rfl, hink⟩, c, rfl, hink⟩
    cases hys : trimStart zs with
    | nil =>
      rw [hys, List.append_nil] at hzs
      cases zs with
      | nil =>
        rw [collapse_singleton hink]
        exact single c hink
      | cons z zs =>
        -- the last character would be a blank
        have hlast : d ∈ z :: zs := by
          rw [List.getLast?_cons_cons] at hd
          exact List.mem_of_getLast? hd
        rw [hzs] at hlast
        rw [hbs d hlast] at hink'
        cases hink'
    | cons y ys =>
      rw [hys] at hzs
      have hinked : Inked (y :: ys) := by
        refine ⟨⟨y, rfl, head_trimStart zs y (by rw [hys]; rfl)⟩, d, ?_, hink'⟩
        rw [hzs, ← List.singleton_append, ← List.append_assoc, List.getLast?_append,
          List.getLast?_eq_some_getLast (List.cons_ne_nil y ys), Option.some_or,
          ← List.getLast?_eq_some_getLast] at hd
        exact hd
      have hsmaller : (y :: ys).length < size := by
        rw [← hsize, hzs]
        simp only [List.length_cons, List.length_append]
        omega
      have hall := collapse_append hone hbs hinked
      rw [List.singleton_append, ← hzs, collapse_singleton hink] at hall
      rw [hall, hzs]
      exact more c bs _ hbs hinked (ih _ hsmaller hinked rfl)

/-- The lower case of a text whose last character is no blank does not end in one. -/
theorem getLast?_lowercaseFrom {d : Char} (hd : isBlank d = false) (before front : List Char) :
    ∃ e ∈ (lowercaseFrom before (front ++ [d])).getLast?, isBlank e = false := by
  induction front generalizing before with
  | nil =>
    obtain ⟨image, hne, himage, hsplit⟩ := exists_image before d []
    refine ⟨image.getLast hne, ?_, by rw [(himage _ (List.getLast_mem hne)).2, hd]⟩
    rw [List.nil_append, hsplit, lowercaseFrom, List.append_nil]
    exact List.getLast?_eq_some_getLast hne
  | cons x front ih =>
    obtain ⟨image, -, -, hsplit⟩ := exists_image before x (front ++ [d])
    obtain ⟨e, he, hno⟩ := ih (x :: before)
    refine ⟨e, ?_, hno⟩
    rw [List.cons_append, hsplit, List.getLast?_append, Option.mem_def.mp he]
    rfl

/-- Lower case keeps the ends of a text from being blank. -/
theorem inked_lowercase (h : Inked cs) : Inked (lowercase cs) := by
  obtain ⟨⟨c, hc, hink⟩, d, hd, hink'⟩ := h
  constructor
  · obtain ⟨rest, rfl⟩ := List.head?_eq_some_iff.mp hc
    obtain ⟨image, hne, himage, hsplit⟩ := exists_image [] c rest
    obtain ⟨e, more, rfl⟩ := List.exists_cons_of_ne_nil hne
    exact ⟨e, by rw [lowercase, hsplit]; rfl, by rw [(himage e (by simp)).2, hink]⟩
  · obtain ⟨front, rfl⟩ := List.getLast?_eq_some_iff.mp hd
    exact getLast?_lowercaseFrom hink' [] front

/-- The lower case of letters of ASCII. -/
theorem lowercase_letters (h : ∀ c ∈ cs, c.isAlpha = true) : lowercase cs = cs.map asciiLower := by
  suffices hall : ∀ before, lowercaseFrom before cs = cs.map asciiLower from hall []
  induction cs with
  | nil => exact fun _ => rfl
  | cons c cs ih =>
    intro before
    have hc := of_isAscii (p := fun c => lowerChar c == [asciiLower c]) (by decide)
      (isAscii_of_isAlphanum (isAlphanum_of_isAlpha (h c (by simp))))
    have hsigma : c ≠ 'Σ' := by
      rintro rfl
      exact absurd (h 'Σ' (by simp)) (by decide)
    rw [lowercaseFrom, if_neg hsigma, eq_of_beq hc, ih fun d hd => h d (by simp [hd])]
    rfl

/-- Texts that are words with single spaces between them stay. -/
theorem words_intercalate {ws : List (List Char)}
    (h : ∀ w ∈ ws, w ≠ [] ∧ ∀ c ∈ w, isBlank c = false) : words ([' '].intercalate ws) = ws := by
  induction ws with
  | nil => rfl
  | cons w ws ih =>
    obtain ⟨hne, hink⟩ := h w (by simp)
    cases ws with
    | nil => simpa using words_of_not_blank hne hink
    | cons v vs =>
      rw [show w :: v :: vs = [w] ++ (v :: vs) from rfl, intercalate_append (by simp) (by simp),
        words_append_blank_append (by decide), ih fun w hw => h w (by simp [hw])]
      simp [words_of_not_blank hne hink]

/-- The lower case of words with spaces between them. -/
theorem lowercase_intercalate (ws : List (List Char)) :
    lowercase ([' '].intercalate ws) = [' '].intercalate (ws.map lowercase) := by
  induction ws with
  | nil => rfl
  | cons w ws ih =>
    cases ws with
    | nil => simp
    | cons v vs =>
      rw [show w :: v :: vs = [w] ++ (v :: vs) from rfl, intercalate_append (by simp) (by simp),
        lowercase_append_cons (by decide), ih, List.map_append,
        intercalate_append (by simp) (by simp)]
      simp [show lowerChar ' ' = [' '] by decide]

end QueryScore.Text

namespace QueryScore.Name

open Text

variable {bs xs ys : List Char}

/-- A comparison form has its blanks collapsed. -/
theorem collapse_normalizeFragment (cs : List Char) : collapse (normalizeFragment cs) = normalizeFragment cs := by
  have hwords : ∀ w ∈ (words cs).map lowercase, w ≠ [] ∧ ∀ c ∈ w, isBlank c = false := by
    intro w hw
    obtain ⟨v, hv, rfl⟩ := List.mem_map.mp hw
    refine ⟨lowercase_ne_nil (ne_nil_of_mem_words hv), fun d hd => ?_⟩
    obtain ⟨-, c, hc, hblank⟩ := of_mem_lowercase hd
    rw [hblank, not_isBlank_of_mem_words hv c hc]
  have hform : normalizeFragment cs = [' '].intercalate ((words cs).map lowercase) :=
    lowercase_intercalate (words cs)
  rw [hform, collapse, words_intercalate hwords]

/-- A comparison form is in lower case. -/
theorem lowercase_normalizeFragment (cs : List Char) : lowercase (normalizeFragment cs) = normalizeFragment cs :=
  lowercase_lowercase _

/-- **The comparison form of a fragment is its own comparison form.** -/
theorem normalizeFragment_normalizeFragment (cs : List Char) :
    normalizeFragment (normalizeFragment cs) = normalizeFragment cs := by
  rw [normalizeFragment, collapse_normalizeFragment, lowercase_normalizeFragment]

/-- **The comparison form falls into those of two parts**, if blanks stand between them or a solid
character does. -/
theorem normalizeFragment_append (hxs : Inked xs) (hbs : Blank bs) (hys : Inked ys)
    (hsolid : bs = [] → (∃ c ∈ xs.getLast?, Solid c) ∨ ∃ c ∈ ys.head?, Solid c) :
    normalizeFragment (xs ++ (bs ++ ys)) =
      normalizeFragment xs ++ (collapsedGap bs ++ normalizeFragment ys) := by
  have hspace : Solid ' ' := by decide
  rw [normalizeFragment, collapse_append hxs hbs hys]
  cases bs with
  | cons b bs =>
    show lowercase (collapse xs ++ ' ' :: collapse ys) = _
    rw [lowercase_append_cons hspace]
    rfl
  | nil =>
    obtain ⟨⟨c, hc, hink⟩, -⟩ := hys
    obtain ⟨-, d, hd, hink'⟩ := hxs
    obtain ⟨rest, rfl⟩ := List.head?_eq_some_iff.mp hc
    obtain ⟨front, rfl⟩ := List.getLast?_eq_some_iff.mp hd
    refine lowercase_append ((hsolid rfl).imp ?_ ?_)
    · rintro ⟨e, he, hsolid⟩
      rw [List.getLast?_concat] at he
      obtain rfl := Option.some.inj he
      exact ⟨d, getLast?_collapse hink' front, hsolid⟩
    · rintro ⟨e, he, hsolid⟩
      obtain rfl := Option.some.inj he
      exact ⟨c, head?_collapse hink rest, hsolid⟩

/-- A text of blanks has no comparison form. -/
theorem ink_of_normalizeFragment (h : normalizeFragment xs ≠ []) : ∃ c ∈ xs, isBlank c = false := by
  refine ink_of_collapse fun hnil => h ?_
  rw [normalizeFragment, hnil, lowercase_nil]

theorem inked_normalizeFragment (h : Inked xs) : Inked (normalizeFragment xs) :=
  inked_lowercase (inked_collapse h)

/-- A solid character at the front that is no blank stays there. -/
theorem head?_normalizeFragment {c : Char} (hsolid : Solid c) (hink : isBlank c = false)
    (hlower : lowerChar c = [c]) (h : c ∈ xs.head?) : c ∈ (normalizeFragment xs).head? := by
  obtain ⟨rest, rfl⟩ := List.head?_eq_some_iff.mp h
  obtain ⟨more, hmore⟩ := List.head?_eq_some_iff.mp (head?_collapse hink rest)
  rw [normalizeFragment, hmore, lowercase_cons hsolid, hlower]
  rfl

/-- A solid character at the end that is no blank stays there. -/
theorem getLast?_normalizeFragment {c : Char} (hsolid : Solid c) (hink : isBlank c = false)
    (hlower : lowerChar c = [c]) (h : c ∈ xs.getLast?) : c ∈ (normalizeFragment xs).getLast? := by
  obtain ⟨front, rfl⟩ := List.getLast?_eq_some_iff.mp h
  obtain ⟨more, hmore⟩ := List.getLast?_eq_some_iff.mp (getLast?_collapse hink front)
  rw [normalizeFragment, hmore, lowercase_append_cons hsolid, hlower, lowercase_nil, List.append_nil,
    List.getLast?_append]
  rfl

end QueryScore.Name
