/-
# QueryScore.Text.Scan -- reading past quotes and brackets

A scanner walks over query text and knows at each character whether it stands inside a quoted
stretch and how many brackets are open. Three marks quote: `'`, `"` and the back quote; inside
the first two a backslash hides the next character. The bracket depth never falls below zero,
so a stray closing bracket changes nothing. A character is at the top level when it is not
quoted, lies in no bracket, and is itself neither a quote nor a bracket.

The scanner does not know any query language: comments and doubled quotes mean nothing to it.
-/

import QueryScore.Text.Blank

namespace QueryScore.Text

/-! ## The quote layer -/

/-- What a scanner is inside of: nothing, or a stretch opened by `mark`, with the next
character hidden by a backslash or not. -/
inductive Mode where
  /-- Outside quotes. -/
  | outside
  /-- Inside a stretch that the next unhidden `mark` ends. -/
  | quoted (mark : Char) (hidden : Bool)
  deriving DecidableEq, Repr

/-- The marks that open and close quoted stretches. -/
def isQuote (c : Char) : Bool := c == '\'' || c == '"' || c == '`'

/-- The mode after a character. -/
def Mode.step : Mode → Char → Mode
  | .outside, c => if isQuote c then .quoted c false else .outside
  | .quoted mark true, _ => .quoted mark false
  | .quoted mark false, c =>
    if c = '\\' && mark != '`' then .quoted mark true
    else if c = mark then .outside
    else .quoted mark false

/-- The character is seen: it stands outside quotes and opens none. -/
def Mode.shows (m : Mode) (c : Char) : Bool := m == .outside && !isQuote c

/-! ## The bracket layer -/

/-- Brackets that open a group. -/
def isOpening (c : Char) : Bool := c == '(' || c == '[' || c == '{'

/-- Brackets that close a group. -/
def isClosing (c : Char) : Bool := c == ')' || c == ']' || c == '}'

/-- The depth after a seen character. -/
def depthAfter (depth : Nat) (c : Char) : Nat :=
  if isOpening c then depth + 1 else if isClosing c then depth - 1 else depth

/-- The state of a scan: quote mode and bracket depth. -/
structure Scanner where
  /-- The quote mode. -/
  mode : Mode := .outside
  /-- The number of open brackets. -/
  depth : Nat := 0
  deriving DecidableEq, Repr

/-- The state after a character. -/
def Scanner.step (s : Scanner) (c : Char) : Scanner :=
  { mode := s.mode.step c
    depth := if s.mode.shows c then depthAfter s.depth c else s.depth }

/-- The state after a text. -/
def Scanner.run (s : Scanner) (cs : List Char) : Scanner := cs.foldl Scanner.step s

/-- The character is at the top level. -/
def Scanner.isTop (s : Scanner) (c : Char) : Bool :=
  s.mode.shows c && !isOpening c && !isClosing c && s.depth == 0

theorem Scanner.run_append (s : Scanner) (as bs : List Char) :
    s.run (as ++ bs) = (s.run as).run bs := by
  simp [Scanner.run]

/-! ## Views of a scanned text -/

/-- Each character with whether it is at the top level. -/
def annotate (s : Scanner) : List Char → List (Char × Bool)
  | [] => []
  | c :: cs => (c, s.isTop c) :: annotate (s.step c) cs

theorem annotate_append (s : Scanner) (as bs : List Char) :
    annotate s (as ++ bs) = annotate s as ++ annotate (s.run as) bs := by
  induction as generalizing s with
  | nil => rfl
  | cons a as ih => simp [annotate, ih, Scanner.run]

/-- Annotation adds to the characters and changes none. -/
theorem map_fst_annotate (s : Scanner) (cs : List Char) :
    (annotate s cs).map Prod.fst = cs := by
  induction cs generalizing s with
  | nil => rfl
  | cons c cs ih => simp [annotate, ih]

/-- The size in bytes of a text in UTF-8. -/
def byteSize : List Char → Nat
  | [] => 0
  | c :: cs => c.utf8Size + byteSize cs

/-- The byte offset of the character at an index. -/
def byteOffset (cs : List Char) (index : Nat) : Nat := byteSize (cs.take index)

/-- The byte offsets of the flagged characters, counted from `start`. -/
def flaggedOffsets (start : Nat) : List (Char × Bool) → List Nat
  | [] => []
  | (c, flag) :: rest =>
    let later := flaggedOffsets (start + c.utf8Size) rest
    if flag then start :: later else later

/-- The byte offsets of the characters at the top level. -/
def topLevelOffsets (cs : List Char) : List Nat := flaggedOffsets 0 (annotate {} cs)

/-- The greatest depth of a scan, the present one included. -/
def Scanner.deepest (s : Scanner) : List Char → Nat
  | [] => s.depth
  | c :: cs => max s.depth ((s.step c).deepest cs)

/-- The deepest nesting of brackets outside quotes. -/
def maxNestingDepth (cs : List Char) : Nat := Scanner.deepest {} cs

/-- The stretches between top-level separators, trimmed, the empty ones dropped. -/
def splitTopLevel (separator : Char) (cs : List Char) : List (List Char) :=
  ((splitWhere (fun (c, top) => top && c == separator) (annotate {} cs)).map
    (fun piece => trim (piece.map Prod.fst))).filter (fun piece => !piece.isEmpty)

/-! ## Wrapping parentheses -/

/-- Counting only parentheses outside quotes, the group that is open at `depth` closes exactly
at the last character. -/
def closesAtEnd (m : Mode) (depth : Nat) : List Char → Bool
  | [] => false
  | c :: cs =>
    if m.shows c && c == ')' then
      if depth ≤ 1 then cs.isEmpty else closesAtEnd (m.step c) (depth - 1) cs
    else if m.shows c && c == '(' then closesAtEnd (m.step c) (depth + 1) cs
    else closesAtEnd (m.step c) depth cs

/-- The inside of a text that one pair of parentheses wraps as a whole. -/
def unwrap? : List Char → Option (List Char)
  | '(' :: rest => if closesAtEnd .outside 1 rest then some rest.dropLast else none
  | _ => none

theorem length_lt_of_unwrap? {cs inner : List Char} (h : unwrap? cs = some inner) :
    inner.length < cs.length := by
  unfold unwrap? at h
  split at h
  · split at h
    · cases h
      simp only [List.length_dropLast, List.length_cons]
      omega
    · cases h
  · cases h

/-- The trimmed text without the pairs of parentheses that wrap it as a whole. -/
def stripWrappingParens (cs : List Char) : List Char :=
  match _h : unwrap? (trim cs) with
  | some inner => stripWrappingParens inner
  | none => trim cs
termination_by cs.length
decreasing_by exact Nat.lt_of_lt_of_le (length_lt_of_unwrap? _h) (length_trim_le cs)

theorem length_stripWrappingParens_le (cs : List Char) :
    (stripWrappingParens cs).length ≤ cs.length := by
  induction cs using stripWrappingParens.induct with
  | case1 cs inner h ih =>
    rw [stripWrappingParens, h]
    have h1 := length_lt_of_unwrap? h
    have h2 := length_trim_le cs
    simp only
    omega
  | case2 cs h =>
    rw [stripWrappingParens, h]
    exact length_trim_le cs

end QueryScore.Text
