/-
# QueryScore.Proofs.Score.SameRows -- when two results hold the same rows

Rows are compared by their texts. The texts of canonical rows are those of the same rows only
(`Json.render_eq_render_iff`), so two results hold the same rows exactly if each row of either is
the same as some row of the other (`sameRows_iff`), in any order and however often. The results
then hold equal rows, reduce to one set, and score one against each other unless there is no row.
-/

import QueryScore.Proofs.Json.Equality
import QueryScore.Proofs.Score.Count

namespace QueryScore.Score

open Json (Same canonical floats DistinctFloats)

/-! ## Sets of lists -/

section Sets

variable {γ : Type} [Ord γ] [Std.TransOrd γ]

omit [Std.TransOrd γ] in
theorem length_insertAscending (a : γ) (bs : List γ) :
    (SortedSet.insertAscending a bs).length ≤ bs.length + 1 := by
  induction bs with
  | nil => rfl
  | cons b bs ih =>
    rw [SortedSet.insertAscending]
    split <;> simp only [List.length_cons] <;> omega

/-- A set of the elements of a list has no more members than the list. -/
theorem size_ofList_le (as : List γ) : (SortedSet.ofList as).size ≤ as.length := by
  have hfold (s : SortedSet γ) : (as.foldl (fun s a => s.insert a) s).size ≤ s.size + as.length := by
    induction as generalizing s with
    | nil => rfl
    | cons a as ih =>
      have hinsert : (s.insert a).size ≤ s.size + 1 := length_insertAscending a s.toList
      have hmore := ih (s.insert a)
      simp only [List.foldl_cons, List.length_cons]
      omega
  simpa [SortedSet.ofList, SortedSet.empty, SortedSet.size] using hfold .empty

variable [Std.LawfulEqOrd γ]

/-- Lists make one set exactly if either holds the elements of the other. -/
theorem ofList_eq_ofList_iff {as bs : List γ} :
    SortedSet.ofList as = SortedSet.ofList bs ↔ as ⊆ bs ∧ bs ⊆ as := by
  constructor
  · intro h
    constructor
    · exact fun a ha => SortedSet.mem_ofList.mp (h ▸ SortedSet.mem_ofList.mpr ha)
    · exact fun b hb => SortedSet.mem_ofList.mp (h ▸ SortedSet.mem_ofList.mpr hb)
  · rintro ⟨has, hbs⟩
    refine SortedSet.ext fun x => ?_
    rw [SortedSet.mem_ofList, SortedSet.mem_ofList]
    exact ⟨fun hx => has hx, fun hx => hbs hx⟩

end Sets

/-! ## The same rows -/

/-- **Each row of either result is the same as a row of the other.** -/
def HoldSameRows (expected generated : List Json) : Prop :=
  (∀ row ∈ expected, ∃ other ∈ generated, Same row other) ∧
    ∀ row ∈ generated, ∃ other ∈ expected, Same row other

/-- The floats of some rows. -/
abbrev rowFloats (rows : List Json) : List Float := rows.flatMap floats

variable {expected generated : List Json}

/-- The texts of canonical rows are among those of others exactly if each row is the same as one of them. -/
theorem map_render_subset_iff {rows others : List Json} (hrows : ∀ row ∈ rows ++ others, canonical row = true)
    (hfloats : DistinctFloats (rowFloats (rows ++ others))) :
    rows.map Json.render ⊆ others.map Json.render ↔ ∀ row ∈ rows, ∃ other ∈ others, Same row other := by
  refine List.forall_mem_map.trans (forall₂_congr fun row hrow => ?_)
  have hiff (other : Json) (hother : other ∈ others) : row.render = other.render ↔ Same row other := by
    refine Json.render_eq_render_iff (hrows _ (by simp [hrow])) (hrows _ (by simp [hother]))
      (hfloats.subset fun x hx => ?_)
    rcases List.mem_append.mp hx with hx | hx
    · exact List.mem_flatMap.mpr ⟨row, by simp [hrow], hx⟩
    · exact List.mem_flatMap.mpr ⟨other, by simp [hother], hx⟩
  rw [List.mem_map]
  constructor
  · rintro ⟨other, hother, heq⟩
    exact ⟨other, hother, (hiff other hother).mp heq.symm⟩
  · rintro ⟨other, hother, hsame⟩
    exact ⟨other, hother, ((hiff other hother).mpr hsame).symm⟩

/-- **Two results compare as the same exactly if they hold the same rows.** -/
theorem sameRows_iff (hrows : ∀ row ∈ expected ++ generated, canonical row = true)
    (hfloats : DistinctFloats (rowFloats (expected ++ generated))) :
    sameRows expected generated = true ↔ HoldSameRows expected generated := by
  have hrows' : ∀ row ∈ generated ++ expected, canonical row = true := fun row hrow =>
    hrows row (by simpa [or_comm] using hrow)
  have hfloats' : DistinctFloats (rowFloats (generated ++ expected)) := hfloats.subset fun x hx => by
    simpa [or_comm] using hx
  rw [sameRows, beq_iff_eq, rowTexts, rowTexts, ofList_eq_ofList_iff, HoldSameRows,
    map_render_subset_iff hrows hfloats, map_render_subset_iff hrows' hfloats']

/-- Results that hold the same canonical rows reduce to one set. -/
theorem normalizeRows_eq (hrows : ∀ row ∈ expected ++ generated, canonical row = true)
    (h : HoldSameRows expected generated) : normalizeRows expected = normalizeRows generated := by
  have hmem {rows others : List Json} (hcanonical : ∀ r ∈ rows ++ others, canonical r = true)
      (hsame : ∀ row ∈ rows, ∃ other ∈ others, Same row other) : rows ⊆ others := by
    intro row hrow
    obtain ⟨other, hother, halike⟩ := hsame row hrow
    rwa [Json.eq_of_same (hcanonical row (by simp [hrow])) (hcanonical other (by simp [hother])) halike]
  have hrows' : ∀ row ∈ generated ++ expected, canonical row = true := fun row hrow =>
    hrows row (by simpa [or_comm] using hrow)
  rw [normalizeRows, normalizeRows, ofList_eq_ofList_iff]
  exact ⟨List.map_subset _ (hmem hrows h.1), List.map_subset _ (hmem hrows' h.2)⟩

/-- The scores of two results that hold the same rows: one each, or zero if there is no row. -/
theorem compareSets_normalizeRows_self (rows : List Json) (hsize : rows.length < 2 ^ 64) :
    compareSets (normalizeRows rows) (normalizeRows rows) =
      if rows = [] then (SetScores.zero : SetScores Float)
      else ⟨Scalar.ofCount 1, Scalar.ofCount 1, Scalar.ofCount 1⟩ := by
  cases rows with
  | nil => exact compareSets_empty _
  | cons row rest =>
    rw [if_neg (by simp)]
    refine compareSets_self_float isEmpty_ofList (Nat.lt_of_le_of_lt (size_ofList_le _) ?_)
    simpa using hsize

/-- **The comparison of two results.** They compare as the same exactly if each row of either is the
same as a row of the other, whatever the order of the rows and their repetitions; and then precision,
recall and F1 are one, or zero if there is no row. The rows are canonical, as all values that the
program holds are, their number fits 64 bits, and the texts of their floats tell these apart. -/
theorem compareRows_same_iff (hrows : ∀ row ∈ expected ++ generated, canonical row = true)
    (hfloats : DistinctFloats (rowFloats (expected ++ generated))) (hsize : expected.length < 2 ^ 64) :
    ((compareRows expected generated : RowComparison Float).same = true ↔ HoldSameRows expected generated) ∧
      ((compareRows expected generated : RowComparison Float).same = true →
        (compareRows expected generated).scores =
          if expected = [] then (SetScores.zero : SetScores Float)
          else ⟨Scalar.ofCount 1, Scalar.ofCount 1, Scalar.ofCount 1⟩) := by
  have hiff := sameRows_iff hrows hfloats
  refine ⟨hiff, fun hsame => ?_⟩
  have hreduced := normalizeRows_eq hrows (hiff.mp hsame)
  show compareSets (normalizeRows expected) (normalizeRows generated) = _
  rw [← hreduced]
  exact compareSets_normalizeRows_self expected hsize

/-- Two rows, one of them twice. -/
def measuredRows : List Json :=
  [.arr [.int 1, .float 0.5, .str "a\n"], .obj [("n", .obj [("x", .float 1.0), ("y", .null)])],
    .arr [.int 1, .float 0.5, .str "a\n"]]

/-- The same rows the other way round. -/
def reorderedRows : List Json :=
  [.obj [("n", .obj [("x", .float 1.0), ("y", .null)])], .arr [.int 1, .float 0.5, .str "a\n"]]

theorem compareRows_same_measuredRows :
    (∀ row ∈ measuredRows ++ reorderedRows, canonical row = true) ∧
      DistinctFloats (rowFloats (measuredRows ++ reorderedRows)) ∧ measuredRows.length < 2 ^ 64 ∧
      HoldSameRows measuredRows reorderedRows ∧
      (compareRows measuredRows reorderedRows : RowComparison Float).scores =
        ⟨Scalar.ofCount 1, Scalar.ofCount 1, Scalar.ofCount 1⟩ := by
  have hrows : ∀ row ∈ measuredRows ++ reorderedRows, canonical row = true := by decide +kernel
  have hfloats : DistinctFloats (rowFloats (measuredRows ++ reorderedRows)) := by decide +kernel
  obtain ⟨hiff, hscores⟩ := compareRows_same_iff hrows hfloats (by decide)
  have hsame : (compareRows measuredRows reorderedRows : RowComparison Float).same = true := by
    show sameRows measuredRows reorderedRows = true
    decide +kernel
  exact ⟨hrows, hfloats, by decide, hiff.mp hsame, hscores hsame⟩

end QueryScore.Score
