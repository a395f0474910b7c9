/-
# QueryScore.Text.Blank -- blanks, trimming and words

Text is a list of characters here; strings appear only at the edges of the library. A blank
is a character of the Unicode property `White_Space`. Words are the maximal stretches without
blanks, and a text is collapsed when its words are joined by single spaces.
-/

namespace QueryScore.Text

/-- The characters of the Unicode property `White_Space`. -/
def isBlank (c : Char) : Bool :=
  c == ' ' || ('\t' ≤ c && c ≤ '\r') || c == '\u0085' || c == '\u00a0' || c == '\u1680' ||
    ('\u2000' ≤ c && c ≤ '\u200a') || c == '\u2028' || c == '\u2029' || c == '\u202f' ||
    c == '\u205f' || c == '\u3000'

/-- The blanks of ASCII text are blanks. -/
theorem isBlank_of_isWhitespace {c : Char} (h : c.isWhitespace = true) : isBlank c = true := by
  simp only [Char.isWhitespace, Bool.or_eq_true, decide_eq_true_eq] at h
  rcases h with ((rfl | rfl) | rfl) | rfl <;> decide

/-! ## Trimming -/

/-- The text without its leading blanks. -/
def trimStart (cs : List Char) : List Char := cs.dropWhile isBlank

/-- The text without its trailing blanks. -/
def trimEnd (cs : List Char) : List Char := (cs.reverse.dropWhile isBlank).reverse

/-- The text without leading and trailing blanks. -/
def trim (cs : List Char) : List Char := trimEnd (trimStart cs)

theorem length_trimStart_le (cs : List Char) : (trimStart cs).length ≤ cs.length :=
  (List.dropWhile_suffix _).length_le

theorem length_trimEnd_le (cs : List Char) : (trimEnd cs).length ≤ cs.length := by
  have h := (List.dropWhile_suffix isBlank (l := cs.reverse)).length_le
  simpa [trimEnd] using h

theorem length_trim_le (cs : List Char) : (trim cs).length ≤ cs.length :=
  Nat.le_trans (length_trimEnd_le _) (length_trimStart_le _)

/-! ## Pieces and words -/

/-- The stretches between the elements that `p` holds of; there is always at least one. -/
def splitWhere {α : Type} (p : α → Bool) : List α → List (List α)
  | [] => [[]]
  | a :: rest =>
    if p a then [] :: splitWhere p rest
    else match splitWhere p rest with
      | [] => [[a]]
      | piece :: pieces => (a :: piece) :: pieces

theorem splitWhere_ne_nil {α : Type} (p : α → Bool) (as : List α) : splitWhere p as ≠ [] := by
  induction as with
  | nil => simp [splitWhere]
  | cons a rest ih =>
    unfold splitWhere
    split
    · simp
    · split <;> simp

theorem not_of_mem_splitWhere {α : Type} {p : α → Bool} {piece as : List α}
    (h : piece ∈ splitWhere p as) : ∀ a ∈ piece, p a = false := by
  induction as generalizing piece with
  | nil => simp_all [splitWhere]
  | cons x rest ih =>
    unfold splitWhere at h
    split at h
    · rcases List.mem_cons.mp h with rfl | h
      · simp
      · exact ih h
    · rename_i hx
      split at h
      · exact absurd ‹_› (splitWhere_ne_nil p rest)
      · rename_i first pieces hrest
        rcases List.mem_cons.mp h with rfl | h
        · intro a ha
          rcases List.mem_cons.mp ha with rfl | ha
          · simpa using hx
          · exact ih (by simp [hrest]) a ha
        · exact ih (by simp [hrest, h])

/-- The maximal stretches without blanks. -/
def words (cs : List Char) : List (List Char) :=
  (splitWhere isBlank cs).filter (fun word => !word.isEmpty)

theorem ne_nil_of_mem_words {word cs : List Char} (h : word ∈ words cs) : word ≠ [] := by
  have := (List.mem_filter.mp h).2
  cases word <;> simp_all

theorem not_isBlank_of_mem_words {word cs : List Char} (h : word ∈ words cs) :
    ∀ c ∈ word, isBlank c = false :=
  not_of_mem_splitWhere (List.mem_filter.mp h).1

/-- Every run of blanks becomes one space, and the ends are trimmed. -/
def collapse (cs : List Char) : List Char := [' '].intercalate (words cs)

/-! ## Case-insensitive comparison of ASCII letters -/

/-- Lower case for ASCII letters only. -/
def asciiLower (c : Char) : Char := c.toLower

/-- Equal up to the case of ASCII letters. -/
def sameIgnoringCase (a b : Char) : Bool := asciiLower a == asciiLower b

/-- Equal texts up to the case of ASCII letters. -/
def equalIgnoringCase (as bs : List Char) : Bool := as.map asciiLower == bs.map asciiLower

/-- What follows `word` at the front of the text, up to the case of ASCII letters. -/
def stripWord : List Char → List Char → Option (List Char)
  | [], cs => some cs
  | _ :: _, [] => none
  | w :: ws, c :: cs => if sameIgnoringCase w c then stripWord ws cs else none

theorem length_stripWord {ws cs rest : List Char} (h : stripWord ws cs = some rest) :
    ws.length + rest.length = cs.length := by
  induction ws generalizing cs with
  | nil => simp_all [stripWord]
  | cons w ws ih =>
    cases cs with
    | nil => simp [stripWord] at h
    | cons c cs =>
      simp only [stripWord] at h
      split at h
      · have := ih h
        simp only [List.length_cons]
        omega
      · cases h

/-! ## Plain prefixes and suffixes -/

/-- What follows `lead` at the front of the text. -/
def stripStart : List Char → List Char → Option (List Char)
  | [], cs => some cs
  | _ :: _, [] => none
  | w :: ws, c :: cs => if w = c then stripStart ws cs else none

/-- What precedes `tail` at the end of the text. -/
def stripEnd (tail cs : List Char) : Option (List Char) :=
  (stripStart tail.reverse cs.reverse).map List.reverse

/-- The parts before and after the first occurrence of `mark`. -/
def splitOnce (mark : List Char) : List Char → Option (List Char × List Char)
  | [] => (stripStart mark []).map ([], ·)
  | c :: cs =>
    match stripStart mark (c :: cs) with
    | some rest => some ([], rest)
    | none => (splitOnce mark cs).map fun (before, after) => (c :: before, after)

end QueryScore.Text
