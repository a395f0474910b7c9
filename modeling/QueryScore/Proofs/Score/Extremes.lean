/-
# QueryScore.Proofs.Score.Extremes -- the scores of nothing and of everything

Where nothing was generated every score is zero, on floats too: the overlap is zero, and zero
divided by a positive float is zero, infinity included (`zero_div`). Where exactly the expected
set was generated every score is one in exact arithmetic, unless the set is empty, which scores
zero.
-/

import QueryScore.Score.Components
import QueryScore.Score.Rows
import Mathlib.Algebra.Order.Field.Rat
import Mathlib.Tactic.NormNum
import Mathlib.Tactic.Positivity

namespace QueryScore.Score

open Float.Model (UnpackedFloat)

section Sets

variable {β : Type} [Ord β] [DecidableEq β]

theorem overlap_empty (s : SortedSet β) : s.overlap .empty = 0 := by
  unfold SortedSet.overlap
  exact List.countP_eq_zero.mpr fun a _ => by simp

theorem overlap_self (s : SortedSet β) : s.overlap s = s.size := by
  unfold SortedSet.overlap SortedSet.size
  exact List.countP_eq_length.mpr fun a ha => decide_eq_true ha

omit [DecidableEq β] in
theorem isEmpty_iff_size (s : SortedSet β) : s.isEmpty = true ↔ s.size = 0 := by
  simp [SortedSet.isEmpty, SortedSet.size]

end Sets

/-! ## Nothing generated, on floats -/

theorem unpack_zero : (Scalar.zero : Float).toModel.unpack = .zero .positive := by rfl

/-- Zero divided by a positive float is zero. -/
theorem zero_div {x : Float} (h : Scalar.zero < x) : Scalar.zero / x = Scalar.zero := by
  have hlt : UnpackedFloat.lt (Scalar.zero : Float).toModel.unpack x.toModel.unpack = true :=
    of_decide_eq_true h
  rw [unpack_zero] at hlt
  have hdiv : UnpackedFloat.div .binary64 (.zero .positive) x.toModel.unpack = .zero .positive := by
    cases hx : x.toModel.unpack with
    | notANumber | zero sign =>
      rw [hx] at hlt
      cases hlt
    | infinity sign | finite sign _ _ _ =>
      rw [hx] at hlt
      cases sign with
      | positive => rfl
      | negative => cases hlt
  show (⟨.pack (UnpackedFloat.div .binary64 (Scalar.zero : Float).toModel.unpack
    x.toModel.unpack)⟩ : Float) = _
  rw [unpack_zero, hdiv]
  decide +kernel

theorem share_zero (whole : Float) : share Scalar.zero whole = Scalar.zero := by
  unfold share
  split
  · next h => exact zero_div h
  · rfl

theorem harmonicMean_zero : harmonicMean Scalar.zero Scalar.zero = (Scalar.zero : Float) := by
  decide +kernel

variable {β : Type} [Ord β] [DecidableEq β]

/-- Where nothing was generated every score is zero. -/
theorem compareSets_empty (expected : SortedSet β) :
    compareSets expected .empty = (SetScores.zero : SetScores Float) := by
  have hoverlap : (Scalar.ofCount (expected.overlap .empty) : Float) = Scalar.zero := by
    rw [overlap_empty]
    rfl
  simp only [compareSets, hoverlap, share_zero, harmonicMean_zero]
  rfl

theorem f1_scoreDimension_empty (expected : SortedSet β) :
    (scoreDimension expected .empty : DimensionScore Float).f1 = Scalar.zero :=
  congrArg SetScores.f1 (compareSets_empty expected)

/-- **A structure without components scores zero in every dimension.** -/
theorem f1_compareStructures_unparsed (expected : Structure) (d : Dimension) :
    ((compareStructures expected .unparsed : ComponentScores Float).get d).f1 = Scalar.zero := by
  cases d <;> exact f1_scoreDimension_empty _

/-! ## Everything generated, in exact arithmetic -/

instance : Scalar ℚ where
  ofCount n := n
  decideLt := fun a b => inferInstanceAs (Decidable (a < b))

theorem zero_eq : (Scalar.zero : ℚ) = 0 := Nat.cast_zero

theorem share_self {n : Nat} (h : 0 < n) : share (Scalar.ofCount n) (Scalar.ofCount n) = (1 : ℚ) := by
  have hpos : (0 : ℚ) < n := by exact_mod_cast h
  unfold share
  rw [if_pos (by rw [zero_eq]; exact hpos)]
  exact div_self hpos.ne'

theorem harmonicMean_one : harmonicMean 1 1 = (1 : ℚ) := by
  decide +kernel

/-- **A set that has members scores one against itself.** -/
theorem compareSets_self {s : SortedSet β} (h : s.isEmpty = false) :
    compareSets s s = (⟨1, 1, 1⟩ : SetScores ℚ) := by
  have hsize : 0 < s.size := by
    apply Nat.pos_of_ne_zero
    intro hzero
    rw [(isEmpty_iff_size s).mpr hzero] at h
    cases h
  simp only [compareSets, overlap_self, share_self hsize, harmonicMean_one]

theorem scoreDimension_self (s : SortedSet β)
    (h : (scoreDimension s s : DimensionScore ℚ).applicable = true) :
    (scoreDimension s s : DimensionScore ℚ).f1 = 1 := by
  have hmember : s.isEmpty = false := by
    cases hs : s.isEmpty with
    | true =>
      simp only [scoreDimension, hs] at h
      cases h
    | false => rfl
  exact congrArg SetScores.f1 (compareSets_self hmember)

/-- **Against itself a structure scores one in every dimension that applies.** -/
theorem f1_compareStructures_self (s : Structure) (d : Dimension)
    (h : ((compareStructures s s : ComponentScores ℚ).get d).applicable = true) :
    ((compareStructures s s : ComponentScores ℚ).get d).f1 = 1 := by
  cases d <;> exact scoreDimension_self _ h

/-! ## The same rows -/

theorem sameRows_self (rows : List Json) : sameRows rows rows = true := beq_self_eq_true _

theorem isEmpty_ofList {γ : Type} [Ord γ] [Std.TransOrd γ] [Std.LawfulEqOrd γ] {x : γ}
    {xs : List γ} : (SortedSet.ofList (x :: xs)).isEmpty = false := by
  have hmem : x ∈ (SortedSet.ofList (x :: xs)).toList :=
    SortedSet.mem_def.mp (SortedSet.mem_ofList.mpr List.mem_cons_self)
  unfold SortedSet.isEmpty
  cases hlist : (SortedSet.ofList (x :: xs)).toList with
  | nil => rw [hlist] at hmem; cases hmem
  | cons _ _ => rfl

/-- **The same rows score one**, whatever they reduce to, unless there is none. -/
theorem compareRows_self {rows : List Json} (h : rows ≠ []) :
    compareRows rows rows = (⟨true, ⟨1, 1, 1⟩⟩ : RowComparison ℚ) := by
  have hmember : (normalizeRows rows).isEmpty = false := by
    cases rows with
    | nil => exact absurd rfl h
    | cons row rest => exact isEmpty_ofList
  unfold compareRows
  rw [sameRows_self, compareSets_self hmember]

end QueryScore.Score
