/-
# QueryScore.Text.CodeRange -- sets of code points as ascending ranges

A character class of a standard is a list of closed ranges of code points, disjoint and in
ascending order. Looking a code point up walks the list and stops where the ranges start
beyond it, so plain text never pays for the length of a table.
-/

namespace QueryScore.Text

/-- The code points from the first component to the second, both included. -/
abbrev CodeRange := Nat × Nat

/-- The code point `n` lies in one of the ascending ranges. -/
def covers : List CodeRange → Nat → Bool
  | [], _ => false
  | (first, last) :: rest, n =>
    if n < first then false
    else if n ≤ last then true
    else covers rest n

/-- A covered code point lies in a listed range; this needs no order of the ranges. -/
theorem exists_mem_of_covers {ranges : List CodeRange} {n : Nat} (h : covers ranges n = true) :
    ∃ r ∈ ranges, r.1 ≤ n ∧ n ≤ r.2 := by
  induction ranges with
  | nil => simp [covers] at h
  | cons r rest ih =>
    simp only [covers] at h
    by_cases h1 : n < r.1
    · simp [h1] at h
    · by_cases h2 : n ≤ r.2
      · exact ⟨r, by simp, by omega, h2⟩
      · simp only [h1, h2, if_false] at h
        obtain ⟨s, hs, hn⟩ := ih h
        exact ⟨s, by simp [hs], hn⟩

/-- The ranges stand in ascending order, none empty, with no code point in two of them. -/
def IsAscending (ranges : List CodeRange) : Prop :=
  (∀ r ∈ ranges, r.1 ≤ r.2) ∧ ranges.Pairwise fun r s => r.2 < s.1

/-- In ascending ranges exactly the code points of a listed range are covered. -/
theorem covers_iff {ranges : List CodeRange} (hr : IsAscending ranges) {n : Nat} :
    covers ranges n = true ↔ ∃ r ∈ ranges, r.1 ≤ n ∧ n ≤ r.2 := by
  refine ⟨exists_mem_of_covers, ?_⟩
  induction ranges with
  | nil => rintro ⟨r, hmem, _⟩; cases hmem
  | cons r rest ih =>
    obtain ⟨hne, hpair⟩ := hr
    obtain ⟨hlt, hrest⟩ := List.pairwise_cons.mp hpair
    rintro ⟨s, hs, h1, h2⟩
    simp only [covers]
    rcases List.mem_cons.mp hs with rfl | hs
    · rw [if_neg (by omega), if_pos h2]
    · have hrs := hlt s hs
      have hr := hne r (by simp)
      rw [if_neg (by omega), if_neg (by omega)]
      exact ih ⟨fun t ht => hne t (by simp [ht]), hrest⟩ ⟨s, hs, h1, h2⟩

end QueryScore.Text
