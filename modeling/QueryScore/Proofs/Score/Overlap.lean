/-
# QueryScore.Proofs.Score.Overlap -- what the scores of two sets measure

In exact arithmetic the scores of two sets are functions of three counts: the members of the one, of
the other, and of both (`compareSets_eq`). The two guarded quotients and the guarded mean then come
down to one fraction, twice the common members over all members (`agreement`), with zero for nothing
over nothing. Its bounds, its extreme values and how it moves with one more member are facts about
these counts.
-/

import QueryScore.Proofs.Score.Extremes
import Mathlib.Data.Finset.Card
import Mathlib.Tactic.FieldSimp
import Mathlib.Tactic.Linarith

namespace QueryScore.Score

/-! ## One fraction of counts -/

/-- **`agreement common expected generated`** -- twice the common members over the members of both sides. -/
def agreement (common expected generated : ℕ) : ℚ := 2 * common / (expected + generated)

variable {common expected generated : ℕ}

/-- The guard of a quotient of counts only says what is so anyway: nothing over nothing is zero. -/
theorem share_eq_div (part whole : ℕ) : share (part : ℚ) whole = part / whole := by
  unfold share
  rcases Nat.eq_zero_or_pos whole with rfl | hpos
  · simp [zero_eq]
  · rw [if_pos (by rw [zero_eq]; exact_mod_cast hpos)]

/-- The guarded mean of the two shares of the common members is their agreement. -/
theorem harmonicMean_shares (hexpected : common ≤ expected) (hgenerated : common ≤ generated) :
    harmonicMean (common / generated : ℚ) (common / expected) = agreement common expected generated := by
  unfold harmonicMean agreement
  rcases Nat.eq_zero_or_pos common with rfl | hpos
  · simp [zero_eq]
  · have hcommon : (0 : ℚ) < common := by exact_mod_cast hpos
    have hg : (0 : ℚ) < generated := by exact_mod_cast Nat.lt_of_lt_of_le hpos hgenerated
    have he : (0 : ℚ) < expected := by exact_mod_cast Nat.lt_of_lt_of_le hpos hexpected
    have hsum : (0 : ℚ) < common / generated + common / expected := by positivity
    have htwo : (Scalar.ofCount 2 : ℚ) = 2 := Nat.cast_ofNat
    rw [zero_eq, if_pos hsum, htwo]
    field_simp

theorem part_of_whole {part whole : ℕ} (h : part ≤ whole) :
    0 ≤ (part / whole : ℚ) ∧ (part / whole : ℚ) ≤ 1 := by
  have hle : (part : ℚ) ≤ whole := by exact_mod_cast h
  exact ⟨by positivity, div_le_one_of_le₀ hle (by positivity)⟩

theorem agreement_bounds (hexpected : common ≤ expected) (hgenerated : common ≤ generated) :
    0 ≤ agreement common expected generated ∧ agreement common expected generated ≤ 1 := by
  have h : 0 ≤ ((2 * common : ℕ) / (expected + generated : ℕ) : ℚ) ∧
      ((2 * common : ℕ) / (expected + generated : ℕ) : ℚ) ≤ 1 :=
    part_of_whole (by omega)
  push_cast at h
  exact h

theorem agreement_eq_one_iff :
    agreement common expected generated = 1 ↔ 2 * common = expected + generated ∧ 0 < expected + generated := by
  unfold agreement
  rcases Nat.eq_zero_or_pos (expected + generated) with hzero | hpos
  · have hsum : (expected + generated : ℚ) = 0 := by exact_mod_cast hzero
    simp [hsum, hzero]
  · have hsum : (expected + generated : ℚ) ≠ 0 := by exact_mod_cast hpos.ne'
    rw [div_eq_one_iff_eq hsum]
    constructor
    · intro h
      exact ⟨by exact_mod_cast h, hpos⟩
    · rintro ⟨h, -⟩
      exact_mod_cast h

theorem agreement_eq_zero_iff (hexpected : common ≤ expected) :
    agreement common expected generated = 0 ↔ common = 0 := by
  unfold agreement
  constructor
  · intro h
    rcases div_eq_zero_iff.mp h with htop | hbottom
    · have hcommon : 2 * common = 0 := by exact_mod_cast htop
      omega
    · have hsum : expected + generated = 0 := by exact_mod_cast hbottom
      omega
  · rintro rfl
    simp

theorem agreement_comm : agreement common generated expected = agreement common expected generated := by
  unfold agreement
  rw [add_comm]

/-- One more common member on a side raises the agreement, unless it was complete. -/
theorem agreement_lt_of_common (h : common < expected + generated) :
    agreement common expected generated < agreement (common + 1) expected (generated + 1) := by
  have hcommon : (common : ℚ) < expected + generated := by exact_mod_cast h
  have hsum : (0 : ℚ) < expected + generated := lt_of_le_of_lt (by positivity) hcommon
  unfold agreement
  push_cast
  rw [div_lt_div_iff₀ hsum (by linarith)]
  linarith

/-- One more member on a side lowers the agreement, unless there was none. -/
theorem agreement_lt_of_other (hpos : 0 < common) (h : common ≤ expected) :
    agreement common expected (generated + 1) < agreement common expected generated := by
  have hcommon : (0 : ℚ) < common := by exact_mod_cast hpos
  have hexpected : (common : ℚ) ≤ expected := by exact_mod_cast h
  have hgenerated : (0 : ℚ) ≤ generated := by positivity
  have hsum : (0 : ℚ) < expected + generated := by linarith
  unfold agreement
  push_cast
  rw [div_lt_div_iff₀ (by linarith) hsum]
  linarith

/-! ## Counting members -/

variable {β : Type} [Ord β] [DecidableEq β]

/-- The members of a set. -/
def members (s : SortedSet β) : Finset β := s.toList.toFinset

@[simp]
theorem mem_members {a : β} {s : SortedSet β} : a ∈ members s ↔ a ∈ s := List.mem_toFinset

variable {s t : SortedSet β} {a : β}

theorem card_inter_le_left (s t : SortedSet β) : (members s ∩ members t).card ≤ (members s).card :=
  Finset.card_le_card Finset.inter_subset_left

theorem card_inter_le_right (s t : SortedSet β) : (members s ∩ members t).card ≤ (members t).card :=
  Finset.card_le_card Finset.inter_subset_right

theorem card_inter_eq_zero_iff : (members s ∩ members t).card = 0 ↔ ∀ a ∈ s, a ∉ t := by
  rw [Finset.card_eq_zero, Finset.ext_iff]
  simp

variable [Std.TransOrd β]

omit [DecidableEq β] in
theorem nodup_toList (s : SortedSet β) : s.toList.Nodup := by
  apply s.ascending.imp
  intro a b hlt heq
  subst heq
  rw [Std.ReflOrd.compare_self] at hlt
  cases hlt

theorem card_members (s : SortedSet β) : (members s).card = s.size :=
  List.toFinset_card_of_nodup (nodup_toList s)

/-- The overlap counts the common members. -/
theorem overlap_eq_card (s t : SortedSet β) : s.overlap t = (members s ∩ members t).card := by
  unfold SortedSet.overlap
  rw [List.countP_eq_length_filter, ← List.toFinset_card_of_nodup ((nodup_toList s).filter _)]
  congr 1
  ext a
  simp [SortedSet.mem_def]

theorem members_inj : members s = members t ↔ s = t := by
  constructor
  · intro h
    apply SortedSet.ext
    intro a
    rw [← mem_members, h, mem_members]
  · rintro rfl
    rfl

/-- **The scores of two sets**, from the numbers of their members. -/
theorem compareSets_eq (s t : SortedSet β) :
    compareSets s t = (⟨(members s ∩ members t).card / (members t).card,
      (members s ∩ members t).card / (members s).card,
      agreement (members s ∩ members t).card (members s).card (members t).card⟩ : SetScores ℚ) := by
  have hcount (n : ℕ) : (Scalar.ofCount n : ℚ) = n := rfl
  unfold compareSets
  simp only [hcount, overlap_eq_card, ← card_members, share_eq_div,
    harmonicMean_shares (card_inter_le_left s t) (card_inter_le_right s t)]

/-- Twice the common members are all members exactly if the sets are the same. -/
theorem two_mul_card_inter_eq_iff :
    2 * (members s ∩ members t).card = (members s).card + (members t).card ↔ s = t := by
  have hs := card_inter_le_left s t
  have ht := card_inter_le_right s t
  constructor
  · intro h
    have hleft : members s ∩ members t = members s :=
      Finset.eq_of_subset_of_card_le Finset.inter_subset_left (by omega)
    have hright : members s ∩ members t = members t :=
      Finset.eq_of_subset_of_card_le Finset.inter_subset_right (by omega)
    exact members_inj.mp (hleft.symm.trans hright)
  · rintro rfl
    rw [Finset.inter_self]
    omega

theorem card_members_pos_iff : 0 < (members s).card ↔ s.isEmpty = false := by
  rw [card_members, Nat.pos_iff_ne_zero, ne_eq, ← isEmpty_iff_size, Bool.not_eq_true]

/-! ## One more member -/

section Insert

variable [Std.LawfulEqOrd β]

theorem members_insert (a : β) (s : SortedSet β) : members (s.insert a) = insert a (members s) := by
  ext b
  simp [SortedSet.mem_insert]

theorem card_members_insert (h : a ∉ s) : (members (s.insert a)).card = (members s).card + 1 := by
  rw [members_insert, Finset.card_insert_of_notMem (by simpa using h)]

theorem card_inter_insert_of_mem (hs : a ∈ s) (ht : a ∉ t) :
    (members s ∩ members (t.insert a)).card = (members s ∩ members t).card + 1 := by
  rw [members_insert, Finset.inter_insert_of_mem (by simpa using hs), Finset.card_insert_of_notMem]
  simp [ht]

theorem card_inter_insert_of_not_mem (hs : a ∉ s) :
    (members s ∩ members (t.insert a)).card = (members s ∩ members t).card := by
  rw [members_insert, Finset.inter_insert_of_notMem (by simpa using hs)]

/-- An expected member that was missing raises F1. -/
theorem f1_lt_insert_of_mem (hs : a ∈ s) (ht : a ∉ t) :
    (compareSets s t : SetScores ℚ).f1 < (compareSets s (t.insert a)).f1 := by
  have hpos : 0 < (members s).card := Finset.card_pos.mpr ⟨a, by simpa using hs⟩
  have hle := card_inter_le_right s t
  rw [compareSets_eq, compareSets_eq, card_inter_insert_of_mem hs ht, card_members_insert ht]
  apply agreement_lt_of_common
  omega

/-- A member that was not expected lowers F1 where something is in common. -/
theorem f1_insert_lt_of_not_mem (hs : a ∉ s) (ht : a ∉ t) (hcommon : ∃ b ∈ s, b ∈ t) :
    (compareSets s (t.insert a) : SetScores ℚ).f1 < (compareSets s t).f1 := by
  obtain ⟨b, hbs, hbt⟩ := hcommon
  have hpos : 0 < (members s ∩ members t).card := by
    apply Nat.pos_of_ne_zero
    intro hzero
    exact card_inter_eq_zero_iff.mp hzero b hbs hbt
  rw [compareSets_eq, compareSets_eq, card_inter_insert_of_not_mem hs, card_members_insert ht]
  exact agreement_lt_of_other hpos (card_inter_le_left s t)

end Insert

/-- **What the scores of two sets measure.** F1 is twice the common members over the members of both
sets, zero if there is none; the scores lie between zero and one; F1 is one exactly for equal sets that
have members, and zero exactly for disjoint ones; the other way round precision and recall change places
and F1 stays; an expected member that was missing strictly raises F1, and a member that was not expected
strictly lowers it where something is in common. -/
theorem compareSets_measures [Std.LawfulEqOrd β] (s t : SortedSet β) :
    (compareSets s t : SetScores ℚ).f1 =
      2 * (members s ∩ members t).card / ((members s).card + (members t).card) ∧
    (0 ≤ (compareSets s t : SetScores ℚ).precision ∧ (compareSets s t : SetScores ℚ).precision ≤ 1) ∧
    (0 ≤ (compareSets s t : SetScores ℚ).coverage ∧ (compareSets s t : SetScores ℚ).coverage ≤ 1) ∧
    (0 ≤ (compareSets s t : SetScores ℚ).f1 ∧ (compareSets s t : SetScores ℚ).f1 ≤ 1) ∧
    ((compareSets s t : SetScores ℚ).f1 = 1 ↔ s = t ∧ s.isEmpty = false) ∧
    ((compareSets s t : SetScores ℚ).f1 = 0 ↔ ∀ a ∈ s, a ∉ t) ∧
    (compareSets t s : SetScores ℚ) =
      ⟨(compareSets s t).coverage, (compareSets s t).precision, (compareSets s t).f1⟩ ∧
    (∀ a ∈ s, a ∉ t → (compareSets s t : SetScores ℚ).f1 < (compareSets s (t.insert a)).f1) ∧
    ∀ a, a ∉ s → a ∉ t → (∃ b ∈ s, b ∈ t) →
      (compareSets s (t.insert a) : SetScores ℚ).f1 < (compareSets s t).f1 := by
  have hs := card_inter_le_left s t
  have ht := card_inter_le_right s t
  refine ⟨?_, ?_, ?_, ?_, ?_, ?_, ?_, fun a => f1_lt_insert_of_mem, fun a => f1_insert_lt_of_not_mem⟩
  · rw [compareSets_eq]
    rfl
  · rw [compareSets_eq]
    exact part_of_whole ht
  · rw [compareSets_eq]
    exact part_of_whole hs
  · rw [compareSets_eq]
    exact agreement_bounds hs ht
  · rw [compareSets_eq]
    show agreement _ _ _ = 1 ↔ _
    rw [agreement_eq_one_iff, two_mul_card_inter_eq_iff, ← card_members_pos_iff]
    constructor
    · rintro ⟨rfl, hpos⟩
      exact ⟨rfl, by omega⟩
    · rintro ⟨rfl, hpos⟩
      exact ⟨rfl, by omega⟩
  · rw [compareSets_eq]
    show agreement _ _ _ = 0 ↔ _
    rw [agreement_eq_zero_iff hs, card_inter_eq_zero_iff]
  · rw [compareSets_eq, compareSets_eq, Finset.inter_comm, agreement_comm]

/-- Three expected tables. -/
def expectedTables : SortedSet String := .ofList ["drivers", "races", "results"]

/-- Two of them, and one more. -/
def generatedTables : SortedSet String := .ofList ["circuits", "drivers"]

theorem compareSets_measures_tables :
    (compareSets expectedTables generatedTables : SetScores ℚ).f1 = 2 / 5 ∧
      (compareSets generatedTables expectedTables : SetScores ℚ) = ⟨1 / 3, 1 / 2, 2 / 5⟩ ∧
      (compareSets expectedTables generatedTables : SetScores ℚ).f1 <
        (compareSets expectedTables (generatedTables.insert "races")).f1 ∧
      (compareSets expectedTables (generatedTables.insert "seasons") : SetScores ℚ).f1 <
        (compareSets expectedTables generatedTables).f1 := by
  obtain ⟨-, -, -, -, -, -, hswap, hraises, hlowers⟩ := compareSets_measures expectedTables generatedTables
  have hscores : (compareSets expectedTables generatedTables : SetScores ℚ) = ⟨1 / 2, 1 / 3, 2 / 5⟩ := by
    decide +kernel
  refine ⟨by rw [hscores], by rw [hswap, hscores], hraises _ (by decide) (by decide), ?_⟩
  exact hlowers _ (by decide) (by decide) ⟨"drivers", by decide, by decide⟩

end QueryScore.Score
