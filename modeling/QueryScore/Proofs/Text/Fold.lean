/-
# QueryScore.Proofs.Text.Fold -- texts in lower case as far as ASCII goes

Folding changes ASCII letters only, and each of them to another one, so a class of characters that
holds the letters of ASCII in both cases or in none is the same before and after
(`eq_of_asciiLower`). Scans, the count of a word, the upper case and the size in bytes are made of such
classes.
-/

import QueryScore.Proofs.Text.Alike
import QueryScore.Proofs.Text.Letter
import QueryScore.Text.Casing
import QueryScore.Text.Pattern

namespace QueryScore.Text

variable {c w : Char} {ws cs : List Char} {m : Mode}

/-- The text in lower case as far as ASCII goes. -/
def folded (cs : List Char) : List Char := cs.map asciiLower

/-! ## Classes of characters -/

theorem asciiLower_of_not_isUpper (h : ¬ c.isUpper = true) : asciiLower c = c :=
  dif_neg fun hupper => h (decide_eq_true hupper)

theorem isAlpha_of_isUpper (h : c.isUpper = true) : c.isAlpha = true := (Bool.or_eq_true _ _).mpr (.inl h)

/-- What does not tell the letters of ASCII from their lower case tells no character from it. -/
theorem eq_of_asciiLower {α : Type} [DecidableEq α] {p : Char → α}
    (h : ∀ n < 128, p (asciiLower (Char.ofNat n)) = p (Char.ofNat n)) (c : Char) :
    p (asciiLower c) = p c := by
  by_cases hupper : c.isUpper = true
  · have hall := of_isAscii (p := fun c => p (asciiLower c) = p c) (fun n hn => decide_eq_true (h n hn))
      (isAscii_of_isAlphanum (isAlphanum_of_isAlpha (isAlpha_of_isUpper hupper)))
    exact of_decide_eq_true hall
  · rw [asciiLower_of_not_isUpper hupper]

@[simp] theorem asciiLower_asciiLower (c : Char) : asciiLower (asciiLower c) = asciiLower c :=
  eq_of_asciiLower (by decide) c

@[simp] theorem isAlpha_asciiLower (c : Char) : (asciiLower c).isAlpha = c.isAlpha :=
  eq_of_asciiLower (by decide) c

@[simp] theorem isDigit_asciiLower (c : Char) : (asciiLower c).isDigit = c.isDigit :=
  eq_of_asciiLower (by decide) c

@[simp] theorem utf8Size_asciiLower (c : Char) : (asciiLower c).utf8Size = c.utf8Size :=
  eq_of_asciiLower (by decide) c

@[simp] theorem isMark_asciiLower (c : Char) : isMark (asciiLower c) = isMark c :=
  eq_of_asciiLower (by decide) c

@[simp] theorem isWordCharacter_asciiLower (c : Char) : isWordCharacter (asciiLower c) = isWordCharacter c :=
  eq_of_asciiLower (by decide +kernel) c

theorem upperChar_asciiLower (c : Char) : upperChar (asciiLower c) = upperChar c :=
  eq_of_asciiLower (by decide +kernel) c

@[simp] theorem sameIgnoringCase_asciiLower (w c : Char) :
    sameIgnoringCase w (asciiLower c) = sameIgnoringCase w c := by
  rw [sameIgnoringCase, sameIgnoringCase, asciiLower_asciiLower]

@[simp] theorem foldsTo_asciiLower (w c : Char) : foldsTo w (asciiLower c) = foldsTo w c := by
  have hlong : (asciiLower c == 'ſ') = (c == 'ſ') := eq_of_asciiLower (p := (· == 'ſ')) (by decide) c
  rw [foldsTo, foldsTo, asciiLower_asciiLower, hlong]

/-- A character that is no letter is folded to itself, and no other one is folded to it. -/
theorem asciiLower_eq_iff (h : w.isAlpha = false) : w = asciiLower c ↔ w = c := by
  constructor
  · rintro rfl
    refine asciiLower_of_not_isUpper fun hupper => ?_
    rw [isAlpha_asciiLower, isAlpha_of_isUpper hupper] at h
    cases h
  · rintro rfl
    refine (asciiLower_of_not_isUpper fun hupper => ?_).symm
    rw [isAlpha_of_isUpper hupper] at h
    cases h

theorem asciiLower_of_isMark (h : isMark c = true) : asciiLower c = c := by
  have hall : (marks.all fun c => asciiLower c == c) = true := by decide
  simpa using List.all_eq_true.mp hall c (mem_marks.mpr h)

/-! ## Texts -/

theorem length_folded (cs : List Char) : (folded cs).length = cs.length := List.length_map _

theorem byteSize_folded (cs : List Char) : byteSize (folded cs) = byteSize cs := by
  induction cs with
  | nil => rfl
  | cons c cs ih =>
    show (asciiLower c).utf8Size + byteSize (folded cs) = c.utf8Size + byteSize cs
    rw [utf8Size_asciiLower, ih]

theorem uppercase_folded (cs : List Char) : uppercase (folded cs) = uppercase cs := by
  rw [folded, uppercase, uppercase, List.flatMap_map]
  exact congrArg (List.flatMap · cs) (funext upperChar_asciiLower)

theorem byteOffset_folded (cs : List Char) (index : Nat) :
    byteOffset (folded cs) index = byteOffset cs index := by
  have htake : (folded cs).take index = folded (cs.take index) := List.map_take.symm
  rw [byteOffset, byteOffset, htake, byteSize_folded]

/-- Signs that are no letters stand in both texts. -/
theorem stripStart_folded (hws : ∀ w ∈ ws, w.isAlpha = false) (cs : List Char) :
    stripStart ws (folded cs) = (stripStart ws cs).map folded := by
  induction ws generalizing cs with
  | nil => cases cs <;> rfl
  | cons w ws ih =>
    cases cs with
    | nil => rfl
    | cons c cs =>
      have htail := ih (fun w hw => hws w (by simp [hw])) cs
      simp only [folded, List.map_cons, stripStart, asciiLower_eq_iff (hws w (by simp))]
      split
      · exact htail
      · rfl

/-- A word stands in both texts. -/
theorem stripWord_folded (ws cs : List Char) :
    stripWord ws (folded cs) = (stripWord ws cs).map folded := by
  induction ws generalizing cs with
  | nil => cases cs <;> rfl
  | cons w ws ih =>
    cases cs with
    | nil => rfl
    | cons c cs =>
      simp only [folded, List.map_cons, stripWord, sameIgnoringCase_asciiLower]
      split
      · exact ih cs
      · rfl

/-! ## The nesting of a text -/

theorem Scanner.step_asciiLower {s : Scanner} (h : s.mode.IsReal) (c : Char) :
    s.step (asciiLower c) = s.step c := by
  by_cases hmark : isMark c = true
  · rw [asciiLower_of_isMark hmark]
  · have hdull := Bool.eq_false_iff.mpr hmark
    rw [Scanner.step_dull h hdull, Scanner.step_dull h (by rwa [isMark_asciiLower])]

theorem maxNestingDepth_folded (cs : List Char) : maxNestingDepth (folded cs) = maxNestingDepth cs := by
  suffices hall : ∀ s : Scanner, s.mode.IsReal → s.deepest (folded cs) = s.deepest cs from hall {} .outside
  induction cs with
  | nil => exact fun _ _ => rfl
  | cons c cs ih =>
    intro s hs
    show max s.depth ((s.step (asciiLower c)).deepest (folded cs)) = _
    rw [Scanner.step_asciiLower hs, ih _ (hs.step c)]
    rfl

theorem isOpenSide_asciiLower (before : Option Char) :
    isOpenSide (before.map asciiLower) = isOpenSide before := by
  cases before with
  | none => rfl
  | some c => simp [isOpenSide]

theorem stripFolded_folded (ws cs : List Char) :
    stripFolded ws (folded cs) = (stripFolded ws cs).map folded := by
  induction ws generalizing cs with
  | nil => cases cs <;> rfl
  | cons w ws ih =>
    cases cs with
    | nil => rfl
    | cons c cs =>
      simp only [folded, List.map_cons, stripFolded, foldsTo_asciiLower]
      split
      · exact ih cs
      · rfl

theorem wordAt_folded (word : List Char) (before : Option Char) (cs : List Char) :
    wordAt word (before.map asciiLower) (folded cs) = wordAt word before cs := by
  rw [wordAt, wordAt, isOpenSide_asciiLower, stripFolded_folded]
  cases stripFolded word cs with
  | none => rfl
  | some rest =>
    have hhead : (folded rest).head? = rest.head?.map asciiLower := List.head?_map
    simp only [Option.map_some, Option.any_some, hhead, isOpenSide_asciiLower]

theorem countWord_folded (word cs : List Char) : countWord word (folded cs) = countWord word cs := by
  suffices hall : ∀ before : Option Char,
      countWordFrom word (before.map asciiLower) (folded cs) = countWordFrom word before cs from hall none
  induction cs with
  | nil => exact fun _ => rfl
  | cons c cs ih =>
    intro before
    have hword : wordAt word (before.map asciiLower) (asciiLower c :: folded cs) = wordAt word before (c :: cs) :=
      wordAt_folded word before (c :: cs)
    have hmore := ih (some c)
    show (if wordAt word (before.map asciiLower) (asciiLower c :: folded cs) then 1 else 0) +
      countWordFrom word (some (asciiLower c)) (folded cs) = _
    rw [hword, countWordFrom, ← hmore]
    rfl

end QueryScore.Text
