/-
# QueryScore.Proofs.Decimal.Nearest -- which float is nearest

A positive float stands for `significand * 2 ^ exponent`, in one canonical way: the significand has 53
bits, or fewer and the least exponent (`IsCanonical`). `Nearest v m q` says that this is the float
nearest to `v`, and the even one of two: `v` lies between the midpoints to the neighbours, on a
midpoint only if `m` is even. Just above a power of two the lower neighbour is twice as close
(`gapBelow`). There is only one such float (`Nearest.unique`), and no other is closer
(`Nearest.dist_le`). Exponents are unbounded above: what is too large for a float is nearest to a
number with an exponent that floats do not have.
-/

import Mathlib.Algebra.Order.Field.Power
import Mathlib.Algebra.Order.Field.Rat
import Mathlib.Tactic.Linarith
import Mathlib.Tactic.NormNum
import Mathlib.Tactic.Positivity
import Mathlib.Tactic.Ring
import QueryScore.Decimal.Layout

namespace QueryScore.Decimal

/-! ## Canonical floats -/

/-- The number that a significand and an exponent stand for. -/
def magnitude (m : ℕ) (q : ℤ) : ℚ := m * 2 ^ q

/-- **`IsCanonical m q`** -- the significand and the exponent of a float, of any size. -/
structure IsCanonical (m : ℕ) (q : ℤ) : Prop where
  bits : m < 2 ^ 53
  least : -1074 ≤ q
  full : q = -1074 ∨ 2 ^ 52 ≤ m

variable {m m' r : ℕ} {q q' t : ℤ} {v w : ℚ}

theorem two_zpow_pos (q : ℤ) : (0 : ℚ) < 2 ^ q := zpow_pos (by norm_num) q

theorem two_zpow_add (q : ℤ) (k : ℕ) : (2 : ℚ) ^ (q + k) = 2 ^ k * 2 ^ q := by
  rw [zpow_add₀ (by norm_num), zpow_natCast, mul_comm]

theorem magnitude_nonneg (m : ℕ) (q : ℤ) : 0 ≤ magnitude m q :=
  mul_nonneg (Nat.cast_nonneg m) (two_zpow_pos q).le

/-- A number in units of a smaller exponent. -/
theorem magnitude_add (m : ℕ) (q : ℤ) (k : ℕ) : magnitude m (q + k) = magnitude (m * 2 ^ k) q := by
  unfold magnitude
  rw [two_zpow_add]
  push_cast
  ring

theorem magnitude_lt_iff : magnitude m q < magnitude m' q ↔ m < m' := by
  unfold magnitude
  rw [mul_lt_mul_iff_left₀ (two_zpow_pos q), Nat.cast_lt]

theorem magnitude_le_iff : magnitude m q ≤ magnitude m' q ↔ m ≤ m' := by
  unfold magnitude
  rw [mul_le_mul_iff_left₀ (two_zpow_pos q), Nat.cast_le]

theorem magnitude_inj : magnitude m q = magnitude m' q ↔ m = m' := by
  unfold magnitude
  rw [mul_left_inj' (two_zpow_pos q).ne', Nat.cast_inj]

/-- The powers of two are floats. -/
theorem isCanonical_power (hq : -1074 ≤ q) : IsCanonical (2 ^ 52) q := ⟨by norm_num, hq, .inr le_rfl⟩

theorem magnitude_power (q : ℤ) : magnitude (2 ^ 52) q = 2 ^ (q + 52) := by
  rw [show q + 52 = q + (52 : ℕ) from rfl, two_zpow_add, magnitude]
  push_cast
  rfl

/-- A smaller float has no larger exponent: its significand would have too many bits otherwise. -/
theorem IsCanonical.exponent_le (h : IsCanonical m q) (h' : IsCanonical m' q')
    (hle : magnitude m q ≤ magnitude m' q') :
    q ≤ q' := by
  by_contra hlt
  obtain ⟨k, rfl⟩ : ∃ k : ℕ, q = q' + (k + 1 : ℕ) := ⟨(q - q' - 1).toNat, by omega⟩
  have hfull : 2 ^ 52 ≤ m := h.full.resolve_left (by have := h'.least; omega)
  rw [magnitude_add, magnitude_le_iff] at hle
  have hmany : 2 ^ 53 ≤ m * 2 ^ (k + 1) := by
    calc 2 ^ 53 = 2 ^ 52 * 2 := by norm_num
      _ ≤ m * 2 ^ (k + 1) :=
        Nat.mul_le_mul hfull (by rw [Nat.pow_succ]; exact Nat.le_mul_of_pos_left 2 (Nat.two_pow_pos k))
  have hbits := h'.bits
  omega

theorem IsCanonical.eq_of_magnitude_eq (h : IsCanonical m q) (h' : IsCanonical m' q')
    (heq : magnitude m q = magnitude m' q') : m = m' ∧ q = q' := by
  have hexp : q = q' := le_antisymm (h.exponent_le h' heq.le) (h'.exponent_le h heq.ge)
  subst hexp
  exact ⟨magnitude_inj.mp heq, rfl⟩

/-- The next larger float is one unit away, or farther. -/
theorem IsCanonical.add_le (h : IsCanonical m q) (h' : IsCanonical m' q')
    (hlt : magnitude m q < magnitude m' q') :
    magnitude m q + 2 ^ q ≤ magnitude m' q' := by
  obtain ⟨k, rfl⟩ : ∃ k : ℕ, q' = q + k := ⟨(q' - q).toNat, by have := h.exponent_le h' hlt.le; omega⟩
  rw [magnitude_add] at hlt ⊢
  have hnext : magnitude m q + 2 ^ q = magnitude (m + 1) q := by
    unfold magnitude
    push_cast
    ring
  rw [hnext, magnitude_le_iff]
  exact magnitude_lt_iff.mp hlt

theorem gapBelow_cases (m : ℕ) (q : ℤ) :
    (gapBelow m q = 1 ∧ m = 2 ^ 52 ∧ -1074 < q) ∨ (gapBelow m q = 2 ∧ ¬(m = 2 ^ 52 ∧ -1074 < q)) := by
  unfold gapBelow minExponent
  have hbit : hiddenBit = 2 ^ 52 := rfl
  rw [hbit]
  by_cases h : m = 2 ^ 52 ∧ -1074 < q
  · exact .inl ⟨by simp [h], h⟩
  · refine .inr ⟨?_, h⟩
    simpa using fun hm => by omega

/-- The next smaller float is one unit away, or half a unit if its exponent is smaller. -/
theorem IsCanonical.le_sub (h : IsCanonical m q) (h' : IsCanonical m' q')
    (hlt : magnitude m q < magnitude m' q') :
    magnitude m q ≤ magnitude m' q' - gapBelow m' q' / 2 * 2 ^ q' := by
  obtain ⟨k, hk⟩ : ∃ k : ℕ, q' = q + k := ⟨(q' - q).toNat, by have := h.exponent_le h' hlt.le; omega⟩
  have hunit := two_zpow_pos q
  cases k with
  | zero =>
    obtain rfl : q' = q := by omega
    have hm : m + 1 ≤ m' := magnitude_lt_iff.mp hlt
    have hm' : (m + 1 : ℚ) ≤ m' := by exact_mod_cast hm
    have hgap : (gapBelow m' q' / 2 : ℚ) ≤ 1 := by
      rcases gapBelow_cases m' q' with ⟨hg, -⟩ | ⟨hg, -⟩ <;> rw [hg] <;> norm_num
    unfold magnitude
    nlinarith
  | succ k =>
    -- the larger float has a larger exponent, so that its significand has all its bits
    have hfull : 2 ^ 52 ≤ m' := h'.full.resolve_left (by have := h.least; omega)
    have hbits : m + 1 ≤ 2 ^ 53 := h.bits
    have hpow : 1 ≤ 2 ^ k := Nat.one_le_two_pow
    subst hk
    have hbelow : (m : ℚ) ≤ (m' - gapBelow m' (q + (k + 1 : ℕ)) / 2) * 2 ^ (k + 1) := by
      have hpow' : (1 : ℚ) ≤ 2 ^ k := by exact_mod_cast hpow
      have hbits' : (m : ℚ) + 1 ≤ 2 ^ 53 := by exact_mod_cast hbits
      rw [pow_succ]
      rcases gapBelow_cases m' (q + (k + 1 : ℕ)) with ⟨hg, rfl, -⟩ | ⟨hg, hnot⟩
      · rw [hg]
        push_cast
        nlinarith
      · have hmore : 2 ^ 52 + 1 ≤ m' := by
          have := h.least
          by_contra hsmall
          exact hnot ⟨by omega, by omega⟩
        have hmore' : (2 ^ 52 + 1 : ℚ) ≤ m' := by exact_mod_cast hmore
        rw [hg]
        push_cast
        nlinarith
    unfold magnitude
    rw [two_zpow_add]
    nlinarith [mul_le_mul_of_nonneg_right hbelow hunit.le]

/-! ## The nearest float -/

/-- **`Nearest v m q`** -- the float nearest to `v`, the even one of two. -/
structure Nearest (v : ℚ) (m : ℕ) (q : ℤ) : Prop extends IsCanonical m q where
  low : magnitude m q - gapBelow m q / 4 * 2 ^ q ≤ v
  high : v ≤ magnitude m q + 2 ^ q / 2
  even : m % 2 = 1 → magnitude m q - gapBelow m q / 4 * 2 ^ q < v ∧ v < magnitude m q + 2 ^ q / 2

theorem gapBelow_bounds (m : ℕ) (q : ℤ) : (0 : ℚ) < gapBelow m q ∧ (gapBelow m q : ℚ) ≤ 2 := by
  rcases gapBelow_cases m q with ⟨hg, -⟩ | ⟨hg, -⟩ <;> rw [hg] <;> norm_num

/-- A float is nearest to itself. -/
theorem IsCanonical.nearest (h : IsCanonical m q) : Nearest (magnitude m q) m q := by
  have hunit := two_zpow_pos q
  have hgap := mul_pos (gapBelow_bounds m q).1 hunit
  exact ⟨h, by linarith, by linarith, fun _ => ⟨by linarith, by linarith⟩⟩

/-- Half a unit is the farthest that the nearest float is away. -/
theorem Nearest.dist_le_half (h : Nearest v m q) : |v - magnitude m q| ≤ 2 ^ q / 2 := by
  have hlow := h.low
  have hhigh := h.high
  have hgap := mul_le_mul_of_nonneg_right (gapBelow_bounds m q).2 (two_zpow_pos q).le
  rw [abs_le]
  constructor <;> linarith

/-- **No float is closer than the nearest one.** -/
theorem Nearest.dist_le (h : Nearest v m q) (h' : IsCanonical m' q') :
    |v - magnitude m q| ≤ |v - magnitude m' q'| := by
  have hlow := h.low
  have hhigh := h.high
  rw [abs_le]
  rcases lt_trichotomy (magnitude m q) (magnitude m' q') with hlt | heq | hgt
  · have hnext := h.toIsCanonical.add_le h' hlt
    have hfar := neg_le_abs (v - magnitude m' q')
    constructor <;> linarith
  · rw [heq]
    exact abs_le.mp le_rfl
  · have hnext := h'.le_sub h.toIsCanonical hgt
    have hfar := le_abs_self (v - magnitude m' q')
    constructor <;> linarith

/-- What is not above a float is nearest to none above it. -/
theorem Nearest.magnitude_le (h : Nearest v m q) (h' : IsCanonical m' q') (hv : v ≤ magnitude m' q') :
    magnitude m q ≤ magnitude m' q' := by
  have hdist := h.dist_le h'
  rw [abs_of_nonpos (sub_nonpos.mpr hv)] at hdist
  have hfar := neg_le_abs (v - magnitude m q)
  linarith

/-- What is not below a float is nearest to none below it. -/
theorem Nearest.le_magnitude (h : Nearest v m q) (h' : IsCanonical m' q') (hv : magnitude m' q' ≤ v) :
    magnitude m' q' ≤ magnitude m q := by
  have hdist := h.dist_le h'
  rw [abs_of_nonneg (sub_nonneg.mpr hv)] at hdist
  have hfar := le_abs_self (v - magnitude m q)
  linarith

/-- Two floats that are both nearest lie on both sides of a midpoint, and one of them is odd. -/
theorem Nearest.not_lt (h : Nearest v m q) (h' : Nearest v m' q') : ¬ magnitude m q < magnitude m' q' := by
  intro hlt
  have hnext := h.toIsCanonical.add_le h'.toIsCanonical hlt
  have hprev := h.toIsCanonical.le_sub h'.toIsCanonical hlt
  have hhigh := h.high
  have hlow := h'.low
  have heven : m % 2 = 0 := by
    by_contra hodd
    have hstrict := (h.even (by omega)).2
    linarith
  have heven' : m' % 2 = 0 := by
    by_contra hodd
    have hstrict := (h'.even (by omega)).1
    linarith
  have hunits : (2 : ℚ) ^ q = gapBelow m' q' / 2 * 2 ^ q' := by linarith
  have hstep : magnitude m' q' = magnitude (m + 1) q := by
    unfold magnitude at hprev hhigh hlow hnext ⊢
    push_cast
    linarith
  rcases gapBelow_cases m' q' with ⟨hg, rfl, -⟩ | ⟨hg, -⟩
  · have hexp : q' = q + (1 : ℕ) := by
      rw [hg] at hunits
      apply zpow_right_injective₀ (by norm_num : (0 : ℚ) < 2) (by norm_num)
      show (2 : ℚ) ^ q' = 2 ^ (q + (1 : ℕ))
      rw [two_zpow_add]
      push_cast at hunits ⊢
      linarith
    rw [hexp, magnitude_add, magnitude_inj] at hstep
    omega
  · have hexp : q' = q := by
      rw [hg] at hunits
      apply zpow_right_injective₀ (by norm_num : (0 : ℚ) < 2) (by norm_num)
      show (2 : ℚ) ^ q' = 2 ^ q
      push_cast at hunits
      linarith
    rw [hexp, magnitude_inj] at hstep
    omega

/-- **There is one nearest float.** -/
theorem Nearest.unique (h : Nearest v m q) (h' : Nearest v m' q') : m = m' ∧ q = q' :=
  h.toIsCanonical.eq_of_magnitude_eq h'.toIsCanonical
    (le_antisymm (le_of_not_gt (h'.not_lt h)) (le_of_not_gt (h.not_lt h')))

/-- A number that a float holds is nearest to that one. -/
theorem Nearest.magnitude_eq (h : Nearest v m q) (h' : IsCanonical m' q') (hv : v = magnitude m' q') :
    magnitude m q = v := by
  obtain ⟨rfl, rfl⟩ := h.unique (hv ▸ h'.nearest)
  exact hv.symm

/-- **How far the nearest float is away**, for numbers up to a power of two. -/
theorem Nearest.dist_le_of_le {k : ℤ} (h : Nearest v m q) (hk : -1021 ≤ k) (hv : v ≤ 2 ^ k) :
    |v - magnitude m q| ≤ 2 ^ (k - 54) := by
  have hpower : magnitude (2 ^ 52) (k - 52) = 2 ^ k := by rw [magnitude_power, sub_add_cancel]
  have hcanonical : IsCanonical (2 ^ 52) (k - 52) := isCanonical_power (by omega)
  have hle := h.magnitude_le hcanonical (hpower ▸ hv)
  have hexp := h.toIsCanonical.exponent_le hcanonical hle
  have hquarter : (2 : ℚ) ^ (k - 54) * 4 = 2 ^ (k - 52) := by
    rw [show k - 52 = k - 54 + (2 : ℕ) by push_cast; ring, two_zpow_add]
    ring
  rcases eq_or_ne q (k - 52) with rfl | hne
  · -- the float is the power of two itself, whose lower neighbour is close
    have hm : m ≤ 2 ^ 52 := magnitude_le_iff.mp hle
    have hfull : m = 2 ^ 52 := le_antisymm hm (h.full.resolve_left (by omega))
    subst hfull
    have hgap : gapBelow (2 ^ 52) (k - 52) = 1 := by
      rcases gapBelow_cases (2 ^ 52) (k - 52) with ⟨hg, -⟩ | ⟨-, hnot⟩
      · exact hg
      · exact absurd ⟨rfl, by omega⟩ hnot
    have hlow := h.low
    rw [hgap, Nat.cast_one] at hlow
    rw [abs_of_nonpos (sub_nonpos.mpr (hpower ▸ hv))]
    generalize magnitude (2 ^ 52) (k - 52) = power at hlow ⊢
    linarith
  · refine h.dist_le_half.trans ?_
    have hsmaller : (2 : ℚ) ^ q ≤ 2 ^ (k - 53) := zpow_le_zpow_right₀ (by norm_num) (by omega)
    have hhalf : (2 : ℚ) ^ (k - 54) * 2 = 2 ^ (k - 53) := by
      rw [show k - 53 = k - 54 + (1 : ℕ) by push_cast; ring, two_zpow_add]
      ring
    linarith

/-! ## Rounding a significand -/

/-- **`RoundsTo w r`** -- the natural number nearest to `w`, the even one of two. -/
structure RoundsTo (w : ℚ) (r : ℕ) : Prop where
  low : (r : ℚ) - 1 / 2 ≤ w
  high : w ≤ r + 1 / 2
  even : r % 2 = 1 → (r : ℚ) - 1 / 2 < w ∧ w < r + 1 / 2

/-- A quotient is its floor and the rest. -/
theorem cast_div_eq (num den : ℕ) (hden : 0 < den) :
    (num : ℚ) / den = (num / den : ℕ) + (num % den : ℕ) / den := by
  have hpos : (den : ℚ) ≠ 0 := by exact_mod_cast hden.ne'
  rw [add_div' _ _ _ hpos, div_left_inj' hpos]
  exact_mod_cast (Nat.div_add_mod' num den).symm

/-- **Rounding to nearest even rounds so.** -/
theorem roundsTo_roundHalfEven {num den : ℕ} (hden : 0 < den) :
    RoundsTo (num / den) (roundHalfEven num den) := by
  have hpos : (0 : ℚ) < den := by exact_mod_cast hden
  have hrest : (0 : ℚ) ≤ (num % den : ℕ) / den := by positivity
  have hless : ((num % den : ℕ) : ℚ) / den < 1 := by
    rw [div_lt_one hpos]
    exact_mod_cast Nat.mod_lt num hden
  have hhalf : 2 * (num % den) < den ↔ ((num % den : ℕ) : ℚ) / den < 1 / 2 := by
    have hcast : 2 * (num % den) < den ↔ (2 * (num % den : ℕ) : ℚ) < den := by norm_cast
    rw [div_lt_iff₀ hpos, hcast]
    constructor <;> intro h <;> linarith
  have hhalf' : den < 2 * (num % den) ↔ 1 / 2 < ((num % den : ℕ) : ℚ) / den := by
    have hcast : den < 2 * (num % den) ↔ (den : ℚ) < 2 * (num % den : ℕ) := by norm_cast
    rw [lt_div_iff₀ hpos, hcast]
    constructor <;> intro h <;> linarith
  have hnext : ((num / den + 1 : ℕ) : ℚ) = (num / den : ℕ) + 1 := Nat.cast_succ _
  rw [cast_div_eq num den hden]
  simp only [roundHalfEven]
  split
  · next hlow =>
    have := hhalf.mp hlow
    exact ⟨by linarith, by linarith, fun _ => ⟨by linarith, by linarith⟩⟩
  · next hlow =>
    rw [hhalf] at hlow
    split
    · next hhigh =>
      have := hhalf'.mp hhigh
      exact ⟨by linarith, by linarith, fun _ => ⟨by linarith, by linarith⟩⟩
    · next hhigh =>
      -- exactly halfway
      rw [hhalf'] at hhigh
      split
      · next heven => exact ⟨by linarith, by linarith, by omega⟩
      · next hodd => exact ⟨by linarith, by linarith, by omega⟩

/-- The rounded number of a number between natural bounds lies between them. -/
theorem RoundsTo.le {n : ℕ} (h : RoundsTo w r) (hw : w ≤ n) : r ≤ n := by
  have hlow := h.low
  by_contra hlt
  have hmore : (n + 1 : ℚ) ≤ r := by exact_mod_cast (by omega : n + 1 ≤ r)
  linarith

theorem RoundsTo.ge {n : ℕ} (h : RoundsTo w r) (hw : n ≤ w) : n ≤ r := by
  have hhigh := h.high
  by_contra hlt
  have hmore : (r + 1 : ℚ) ≤ n := by exact_mod_cast (by omega : r + 1 ≤ n)
  linarith

/-- A rounded significand of 53 bits is that of the nearest float. -/
theorem nearest_of_bits (h : RoundsTo w r) (hc : IsCanonical r t) (hfull : t = -1074 ∨ 2 ^ 52 ≤ w) :
    Nearest (w * 2 ^ t) r t := by
  have hunit := two_zpow_pos t
  have hlow := mul_le_mul_of_nonneg_right h.low hunit.le
  have hhigh := mul_le_mul_of_nonneg_right h.high hunit.le
  have hscale : magnitude r t = r * 2 ^ t := rfl
  refine ⟨hc, ?_, by linarith, ?_⟩
  · rcases gapBelow_cases r t with ⟨hg, hr, hleast⟩ | ⟨hg, -⟩
    · -- the significand has been cut at the power of two, so that nothing below it was rounded up
      have hw : (2 : ℚ) ^ 52 ≤ w := hfull.resolve_left (by omega)
      have hmore := mul_le_mul_of_nonneg_right hw hunit.le
      rw [hscale, hg, hr]
      push_cast
      linarith
    · rw [hg]
      push_cast
      linarith
  · intro hodd
    obtain ⟨hlow', hhigh'⟩ := h.even hodd
    have hl := mul_lt_mul_of_pos_right hlow' hunit
    have hh := mul_lt_mul_of_pos_right hhigh' hunit
    rcases gapBelow_cases r t with ⟨-, hr, -⟩ | ⟨hg, -⟩
    · omega
    · rw [hg]
      push_cast
      exact ⟨by linarith, by linarith⟩

/-- A significand that is rounded up to the next power of two carries into the exponent. -/
theorem nearest_of_carry (h : RoundsTo w (2 ^ 53)) (ht : -1074 ≤ t) (hbits : w < 2 ^ 53) :
    Nearest (w * 2 ^ t) (2 ^ 52) (t + 1) := by
  have hunit := two_zpow_pos t
  have hlow := mul_le_mul_of_nonneg_right h.low hunit.le
  have hbelow := mul_lt_mul_of_pos_right hbits hunit
  have hdouble : (2 : ℚ) ^ (t + 1) = 2 * 2 ^ t := by
    rw [show t + 1 = t + (1 : ℕ) from rfl, two_zpow_add, pow_one]
  have hvalue : magnitude (2 ^ 52) (t + 1) = 2 ^ 53 * 2 ^ t := by
    unfold magnitude
    rw [hdouble]
    push_cast
    ring
  have hgap : gapBelow (2 ^ 52) (t + 1) = 1 := by
    rcases gapBelow_cases (2 ^ 52) (t + 1) with ⟨hg, -⟩ | ⟨-, hnot⟩
    · exact hg
    · exact absurd ⟨rfl, by omega⟩ hnot
  push_cast at hlow
  refine ⟨isCanonical_power (by omega), ?_, ?_, by omega⟩
  · rw [hgap, hvalue, hdouble, Nat.cast_one]
    linarith
  · rw [hvalue, hdouble]
    linarith

/-- **The nearest float has the rounded significand**, or the next power of two if that has too many bits. -/
theorem nearest_of_roundsTo (h : RoundsTo w r) (ht : -1074 ≤ t) (hfull : t = -1074 ∨ 2 ^ 52 ≤ w)
    (hbits : w < 2 ^ 53) :
    ∃ m q, Nearest (w * 2 ^ t) m q ∧ ((m = r ∧ q = t) ∨ (r = 2 ^ 53 ∧ m = 2 ^ 52 ∧ q = t + 1)) := by
  have hle : r ≤ 2 ^ 53 := h.le (by push_cast; exact hbits.le)
  rcases Nat.lt_or_ge r (2 ^ 53) with hlt | hcarry
  · have hge : t = -1074 ∨ 2 ^ 52 ≤ r := hfull.imp_right fun hw => h.ge (by push_cast; exact hw)
    exact ⟨r, t, nearest_of_bits h ⟨hlt, ht, hge⟩ hfull, .inl ⟨rfl, rfl⟩⟩
  · obtain rfl : r = 2 ^ 53 := le_antisymm hle hcarry
    exact ⟨2 ^ 52, t + 1, nearest_of_carry h ht hbits, .inr ⟨rfl, rfl, rfl⟩⟩

/-- The nearest float has the magnitude of the rounded significand. -/
theorem magnitude_of_carry (h : (m = r ∧ q = t) ∨ (r = 2 ^ 53 ∧ m = 2 ^ 52 ∧ q = t + 1)) :
    magnitude m q = magnitude r t := by
  rcases h with ⟨rfl, rfl⟩ | ⟨rfl, rfl, rfl⟩
  · rfl
  · rw [show t + 1 = t + (1 : ℕ) from rfl, magnitude_add, ← Nat.pow_add]

/-- Natural numbers of up to 53 bits, and the next one, are floats. -/
theorem exists_canonical_of_le {n : ℕ} (h : n ≤ 2 ^ 53) :
    ∃ m q, IsCanonical m q ∧ q ≤ 1 ∧ magnitude m q = n := by
  rcases Nat.eq_zero_or_pos n with rfl | hpos
  · exact ⟨0, -1074, ⟨by norm_num, le_rfl, .inl rfl⟩, by omega, by simp [magnitude]⟩
  · have hlow := Nat.log2_self_le hpos.ne'
    have hhigh : n < 2 ^ (n.log2 + 1) := Nat.lt_log2_self
    rcases Nat.lt_or_ge n (2 ^ 53) with hlt | hge
    · obtain ⟨k, hk⟩ : ∃ k, n.log2 + k = 52 := ⟨52 - n.log2, by have := (Nat.log2_lt hpos.ne').mpr hlt; omega⟩
      refine ⟨n * 2 ^ k, -k, ⟨?_, by omega, .inr ?_⟩, by omega, ?_⟩
      · calc n * 2 ^ k < 2 ^ (n.log2 + 1) * 2 ^ k := Nat.mul_lt_mul_of_pos_right hhigh (Nat.two_pow_pos k)
          _ = 2 ^ 53 := by rw [← Nat.pow_add]; congr 1; omega
      · calc 2 ^ 52 = 2 ^ n.log2 * 2 ^ k := by rw [← Nat.pow_add, hk]
          _ ≤ n * 2 ^ k := Nat.mul_le_mul_right _ hlow
      · rw [← magnitude_add, neg_add_cancel]
        simp [magnitude]
    · obtain rfl : n = 2 ^ 53 := le_antisymm h hge
      refine ⟨2 ^ 52, 1, isCanonical_power (by omega), le_rfl, ?_⟩
      rw [magnitude_power]
      norm_num

/-- The number nearest to a natural number of up to 53 bits is that number. -/
theorem Nearest.magnitude_natCast {n : ℕ} (h : Nearest n m q) (hn : n ≤ 2 ^ 53) : magnitude m q = n := by
  obtain ⟨m', q', hcanonical, -, hvalue⟩ := exists_canonical_of_le hn
  exact h.magnitude_eq hcanonical hvalue.symm

end QueryScore.Decimal
