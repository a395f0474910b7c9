/-
# QueryScore.Text.Keyword -- keywords at the top level of a text

A keyword is one or more words; in a text any run of blanks may stand between them, and the
case of ASCII letters does not matter. An occurrence begins at a top-level word start: an
ASCII letter that no identifier character, dot or dollar sign precedes, so that property and
parameter names are no keywords. It ends where no identifier character follows. Occurrences
are found from left to right, and the search resumes after each.
-/

import QueryScore.Text.Alphabetic
import QueryScore.Text.Scan

namespace QueryScore.Text

/-- Characters of an identifier: letters and digits of any script, and the underscore. -/
def isIdentifierChar (c : Char) : Bool := isAlphanumeric c || c == '_'

/-- The text goes on with an identifier character. -/
def startsInsideWord : List Char → Bool
  | [] => false
  | c :: _ => isIdentifierChar c

/-- A keyword may begin with `c` after the character `before`. -/
def isWordStart (before : Option Char) (c : Char) : Bool :=
  c.isAlpha && !before.any fun b => isIdentifierChar b || b == '.' || b == '$'

/-! ## Matching at one place -/

/-- What follows the words at the front of the text, each after one or more blanks. -/
def stripSpacedWords : List (List Char) → List Char → Option (List Char)
  | [], cs => some cs
  | w :: ws, cs =>
    match cs with
    | [] => none
    | c :: _ =>
      if isBlank c then (stripWord w (trimStart cs)).bind (stripSpacedWords ws) else none

/-- What follows a keyword at the front of the text, if no identifier character does. -/
def stripKeyword (keyword cs : List Char) : Option (List Char) :=
  let after :=
    match words keyword with
    | [] => some cs
    | w :: ws => (stripWord w cs).bind (stripSpacedWords ws)
  after.filter fun rest => !startsInsideWord rest

theorem length_stripSpacedWords_le {ws : List (List Char)} {cs rest : List Char}
    (h : stripSpacedWords ws cs = some rest) : rest.length ≤ cs.length := by
  induction ws generalizing cs with
  | nil => simp_all [stripSpacedWords]
  | cons w ws ih =>
    cases cs with
    | nil => simp [stripSpacedWords] at h
    | cons c cs =>
      simp only [stripSpacedWords] at h
      split at h
      · obtain ⟨mid, hmid, hrest⟩ := Option.bind_eq_some_iff.mp h
        have h1 := length_stripWord hmid
        have h2 := ih hrest
        have h3 := length_trimStart_le (c :: cs)
        omega
      · cases h

/-- A keyword that has a word takes characters. -/
theorem length_stripKeyword_lt {keyword cs rest : List Char} (hw : words keyword ≠ [])
    (h : stripKeyword keyword cs = some rest) : rest.length < cs.length := by
  unfold stripKeyword at h
  have h := (Option.filter_eq_some_iff.mp h).1
  split at h
  · contradiction
  · rename_i w ws hws
    obtain ⟨mid, hmid, hrest⟩ := Option.bind_eq_some_iff.mp h
    have h1 := length_stripWord hmid
    have h2 := length_stripSpacedWords_le hrest
    have h3 : w ≠ [] := ne_nil_of_mem_words (by rw [hws]; simp)
    have h4 : 0 < w.length := List.length_pos_iff.mpr h3
    omega

/-- What follows a keyword at the front of a text whose leading blanks do not count; the
blanks after the keyword go with it. -/
def stripKeywordPrefix (keyword cs : List Char) : Option (List Char) :=
  (stripKeyword keyword (trimStart cs)).map trimStart

/-! ## Finding occurrences -/

/-- An occurrence of a keyword: the index of its first character, the index after its last,
and the keyword as it was asked for. -/
structure Hit where
  /-- Index of the first character. -/
  start : Nat
  /-- Index after the last character. -/
  stop : Nat
  /-- The keyword that was found. -/
  keyword : String
  deriving DecidableEq, Repr

/-- The first of the keywords that stands at the front of the text, with its length there. -/
def firstKeyword (keywords : List String) (cs : List Char) : Option (String × Nat) :=
  keywords.findSome? fun keyword =>
    (stripKeyword keyword.toList cs).map fun rest => (keyword, cs.length - rest.length)

/-- The occurrences in a text that starts at `index`, with the scanner's state and the character
before it; none may start below `resume`. -/
def hitsFrom (keywords : List String) (s : Scanner) (before : Option Char) (index resume : Nat) :
    List Char → List Hit
  | [] => []
  | c :: cs =>
    if s.isTop c && resume ≤ index && isWordStart before c then
      match firstKeyword keywords (c :: cs) with
      | some (keyword, size) =>
        ⟨index, index + size, keyword⟩ ::
          hitsFrom keywords (s.step c) (some c) (index + 1) (index + size) cs
      | none => hitsFrom keywords (s.step c) (some c) (index + 1) resume cs
    else hitsFrom keywords (s.step c) (some c) (index + 1) resume cs

theorem of_mem_hitsFrom {keywords : List String} (hk : ∀ k ∈ keywords, words k.toList ≠ [])
    {h : Hit} {s : Scanner} {before : Option Char} {index resume : Nat} {cs : List Char}
    (hh : h ∈ hitsFrom keywords s before index resume cs) :
    index ≤ h.start ∧ h.start < h.stop ∧ h.stop ≤ index + cs.length := by
  induction cs generalizing s before index resume with
  | nil => simp [hitsFrom] at hh
  | cons c cs ih =>
    have later {resume : Nat}
        (hh : h ∈ hitsFrom keywords (s.step c) (some c) (index + 1) resume cs) :
        index ≤ h.start ∧ h.start < h.stop ∧ h.stop ≤ index + (c :: cs).length := by
      have := ih hh
      simp only [List.length_cons]
      omega
    unfold hitsFrom at hh
    split at hh
    · split at hh
      · rename_i keyword size hfound
        rcases List.mem_cons.mp hh with rfl | hh
        · obtain ⟨k, hmem, hsome⟩ := List.exists_of_findSome?_eq_some hfound
          obtain ⟨rest, hrest, heq⟩ := Option.map_eq_some_iff.mp hsome
          have hlt := length_stripKeyword_lt (hk k hmem) hrest
          have hsize : (c :: cs).length - rest.length = size := (Prod.mk.inj heq).2
          simp only
          omega
        · exact later hh
      · exact later hh
    · exact later hh

/-- All occurrences of any of the keywords at the top level, in the order of the text. -/
def findKeywords (keywords : List String) (cs : List Char) : List Hit :=
  hitsFrom keywords {} none 0 0 cs

/-- Occurrences of keywords that have words are non-empty stretches of the text. -/
theorem of_mem_findKeywords {keywords : List String} (hk : ∀ k ∈ keywords, words k.toList ≠ [])
    {h : Hit} {cs : List Char} (hh : h ∈ findKeywords keywords cs) :
    h.start < h.stop ∧ h.stop ≤ cs.length := by
  have := of_mem_hitsFrom hk hh
  omega

/-- The first occurrence of any of the keywords at the top level. -/
def findKeyword (keywords : List String) (cs : List Char) : Option Hit :=
  (findKeywords keywords cs).head?

end QueryScore.Text
