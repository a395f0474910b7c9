/-
# QueryScore.Score.Rows -- comparing what two queries return

Rows are JSON values: arrays for positional rows, objects for records. Two result sets are
equal when they hold the same rows, compared as compact JSON text, without regard to order and
repetition. Partial agreement is scored on a looser view: a row is reduced to the sorted texts
of its normalized leaves that are not null, so that shape, key names and the spelling of
numbers no longer matter. Members that merely identify a graph element are left out.
-/

import QueryScore.Decimal.Binary64
import QueryScore.Json.Writer
import QueryScore.Score.Sets
import QueryScore.Text.Blank

namespace QueryScore.Score

open Text

/-! ## Scalars -/

/-- Integers of smaller magnitude replace the floats and numerals that equal them. -/
def integerLimit : Nat := twoTo 63

/-- The integer that a float equals, if it is small enough. -/
def smallInteger? (x : Float) : Option Int :=
  (Decimal.integer? x).filter fun n => n.natAbs < integerLimit

/-- The characters of numerals. -/
def isNumeralChar (c : Char) : Bool :=
  c.isDigit || c == '.' || c == '-' || c == '+' || c == 'e' || c == 'E'

/-- The integer that a text spells as a number. -/
def integerOfText? (cs : List Char) : Option Int :=
  if cs.all isNumeralChar then (Decimal.float? cs).bind smallInteger? else none

/-- The texts that stand for a missing value. -/
def namesNull (cs : List Char) : Bool := cs == ['\\', 'N'] || equalIgnoringCase "null".toList cs

/-- How many units a rounded float distinguishes. -/
def unitsPerOne : Float := Float.ofNat 1000000

/-- A float rounded to six places. -/
def roundSixPlaces (x : Float) : Float :=
  Decimal.roundAwayFromZero (x * unitsPerOne) / unitsPerOne

/-- The canonical form of a scalar: texts for missing values become null, whole floats and
texts that spell one become integers, other floats are rounded to six places (their text
stands in where that overflows), and other texts are trimmed. -/
def normalizeScalar : Json → Json
  | .str s =>
    let body := trim s.toList
    if namesNull body then .null
    else
      match integerOfText? body with
      | some n => .int n
      | none => .str (String.ofList body)
  | .float x =>
    match smallInteger? x with
    | some n => .int n
    | none =>
      let rounded := roundSixPlaces x
      match Decimal.Binary64.ofFloat rounded with
      | .finite .. => .float rounded
      | _ => .str (String.ofList (Decimal.Style.plain.text x))
  | other => other

/-! ## Rows -/

/-- Keys of members that identify a graph element and do not describe it. -/
def identifyingKeys : List String := ["element_id", "labels", "id"]

mutual

/-- The normalized leaves of a value, in order, identifying members left out at every depth. -/
def leaves : Json → List Json
  | .arr items => itemLeaves items
  | .obj members => memberLeaves members
  | .null => [normalizeScalar .null]
  | .bool b => [normalizeScalar (.bool b)]
  | .int n => [normalizeScalar (.int n)]
  | .float x => [normalizeScalar (.float x)]
  | .str s => [normalizeScalar (.str s)]

/-- The leaves of the items of an array. -/
def itemLeaves : List Json → List Json
  | [] => []
  | item :: rest => leaves item ++ itemLeaves rest

/-- The leaves of the members of an object. -/
def memberLeaves : List (String × Json) → List Json
  | [] => []
  | (key, value) :: rest =>
    (if identifyingKeys.contains key then [] else leaves value) ++ memberLeaves rest

end

/-- The text of a leaf: a string as it is, anything else as JSON. -/
def leafText : Json → String
  | .str s => s
  | other => other.render

/-- The order of texts, by code points. -/
def textLe (a b : String) : Bool := (compare a b).isLE

/-- A row reduced to the sorted texts of its leaves that are not null. -/
def normalizeRow (row : Json) : List String :=
  (((leaves row).filter fun leaf => !leaf.isNull).map leafText).mergeSort textLe

/-- The reduced rows, each once. -/
def normalizeRows (rows : List Json) : SortedSet (List String) := .ofList (rows.map normalizeRow)

/-! ## Comparison -/

/-- The rows of a result as compact texts, each once. -/
def rowTexts (rows : List Json) : SortedSet String := .ofList (rows.map Json.render)

/-- The two results hold the same rows. -/
def sameRows (expected generated : List Json) : Bool := rowTexts expected == rowTexts generated

/-- The comparison of two results. -/
structure RowComparison (α : Type) where
  /-- They hold the same rows. -/
  same : Bool
  /-- The scores of the reduced rows. -/
  scores : SetScores α
  deriving DecidableEq, Repr

/-- A generated result compared with the expected one. -/
def compareRows {α : Type} [Scalar α] (expected generated : List Json) : RowComparison α :=
  ⟨sameRows expected generated, compareSets (normalizeRows expected) (normalizeRows generated)⟩

end QueryScore.Score
