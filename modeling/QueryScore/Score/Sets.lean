/-
# QueryScore.Score.Sets -- precision, recall and F1 of two sets

Precision is the share of the generated members that were expected, recall the share of the
expected members that were generated, and F1 their harmonic mean. A quotient with an empty
denominator is zero, so two empty sets score zero: an empty component is no evidence.

The definitions are generic in what they compute with. Programs run them on floats; their laws
are stated over exact numbers.
-/

import QueryScore.SortedSet

namespace QueryScore.Score

/-- Numbers that scores are computed in. -/
class Scalar (α : Type) extends Add α, Mul α, Div α, LT α where
  /-- The number that counts `n` things. -/
  ofCount : Nat → α
  /-- Comparison is decidable. -/
  decideLt : DecidableRel (fun a b : α => a < b)

instance Scalar.decidableLt {α : Type} [Scalar α] : DecidableRel (fun a b : α => a < b) :=
  Scalar.decideLt

instance : Scalar Float where
  ofCount := Float.ofNat
  decideLt := fun a b => inferInstanceAs (Decidable (a < b))

/-- The number zero. -/
def Scalar.zero {α : Type} [Scalar α] : α := Scalar.ofCount 0

/-- Precision, recall and F1. -/
structure SetScores (α : Type) where
  /-- Share of the generated members that were expected. -/
  precision : α
  /-- Recall: the share of the expected members that were generated. -/
  coverage : α
  /-- Harmonic mean of the two. -/
  f1 : α
  deriving DecidableEq, Repr

variable {α : Type} [Scalar α]

/-- All scores zero. -/
def SetScores.zero : SetScores α := ⟨Scalar.zero, Scalar.zero, Scalar.zero⟩

/-- A quotient, zero unless the denominator is positive. -/
def share (part whole : α) : α := if Scalar.zero < whole then part / whole else Scalar.zero

/-- The harmonic mean, zero unless one of the numbers is positive. -/
def harmonicMean (precision coverage : α) : α :=
  if Scalar.zero < precision + coverage then
    Scalar.ofCount 2 * precision * coverage / (precision + coverage)
  else Scalar.zero

/-- The scores of a generated set against the expected one. -/
def compareSets {β : Type} [Ord β] [DecidableEq β] (expected generated : SortedSet β) :
    SetScores α :=
  let overlap : α := Scalar.ofCount (expected.overlap generated)
  let precision := share overlap (Scalar.ofCount generated.size)
  let coverage := share overlap (Scalar.ofCount expected.size)
  ⟨precision, coverage, harmonicMean precision coverage⟩

/-- The F1 of a generated set against the expected one. -/
def f1 {β : Type} [Ord β] [DecidableEq β] (expected generated : SortedSet β) : α :=
  (compareSets expected generated).f1

end QueryScore.Score
