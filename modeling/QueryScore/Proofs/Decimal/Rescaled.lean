/-
# QueryScore.Proofs.Decimal.Rescaled -- scaled up, made whole, scaled down

A float is rounded to six places by multiplying it by a million, rounding to a whole number and dividing
by a million; both operations round once more. A second time the same whole number is found
(`wholePart_rescaled`): above 2^52 millionths a product is whole anyway, and the quotient is no farther
from it than the float was; below 2^32 both errors together are less than half a millionth. Between the
two they may add up to more, but to less than a whole one.
-/

import QueryScore.Proofs.Decimal.Value

namespace QueryScore.Decimal

variable {m n p p' r r' num den : ℕ} {q s t t' : ℤ} {v w : ℚ}

/-! ## Whole numbers -/

/-- **`RoundsUp w r`** -- the natural number nearest to `w`, the larger one of two. -/
structure RoundsUp (w : ℚ) (r : ℕ) : Prop where
  low : (r : ℚ) - 1 / 2 ≤ w
  high : w < r + 1 / 2

theorem RoundsUp.unique (h : RoundsUp w r) (h' : RoundsUp w r') : r = r' := by
  have hle : (r : ℚ) < r' + 1 := by
    have hlow := h.low
    have hhigh := h'.high
    linarith
  have hge : (r' : ℚ) < r + 1 := by
    have hlow := h'.low
    have hhigh := h.high
    linarith
  have hle' : r < r' + 1 := by exact_mod_cast hle
  have hge' : r' < r + 1 := by exact_mod_cast hge
  omega

theorem roundsUp_roundHalfUp (num : ℕ) (hden : 0 < den) : RoundsUp (num / den) (roundHalfUp num den) := by
  have hpos : (0 : ℚ) < den := by exact_mod_cast hden
  have hdouble : 0 < 2 * den := by omega
  have hlow : roundHalfUp num den * (2 * den) ≤ 2 * num + den := Nat.div_mul_le_self _ _
  have hhigh : 2 * num + den < (roundHalfUp num den + 1) * (2 * den) := by
    rw [← Nat.div_lt_iff_lt_mul hdouble]
    exact Nat.lt_succ_self _
  have hlow' : (roundHalfUp num den * (2 * den) : ℚ) ≤ 2 * num + den := by exact_mod_cast hlow
  have hhigh' : (2 * num + den : ℚ) < (roundHalfUp num den + 1) * (2 * den) := by exact_mod_cast hhigh
  constructor
  · rw [le_div_iff₀ hpos]
    linarith
  · rw [div_lt_iff₀ hpos]
    linarith

/-- **`wholePart m q`** -- the whole number nearest to a magnitude, a half going up. -/
def wholePart (m : ℕ) (q : ℤ) : ℕ := roundHalfUp (ratio m q).1 (ratio m q).2

theorem roundsUp_wholePart (m : ℕ) (q : ℤ) : RoundsUp (magnitude m q) (wholePart m q) := by
  obtain ⟨hpos, hvalue⟩ := ratio_spec m q
  rw [← hvalue]
  exact roundsUp_roundHalfUp _ hpos

/-- A magnitude without fraction is whole. -/
theorem magnitude_of_nonneg (hq : 0 ≤ q) : magnitude m q = wholePart m q := by
  obtain ⟨k, rfl⟩ : ∃ k : ℕ, q = k := ⟨q.toNat, by omega⟩
  have hvalue : magnitude m k = (m * 2 ^ k : ℕ) := by
    unfold magnitude
    rw [zpow_natCast]
    push_cast
    rfl
  have hwhole : RoundsUp (magnitude m k) (m * 2 ^ k) := by
    rw [hvalue]
    constructor <;> linarith
  rw [hvalue, (roundsUp_wholePart m k).unique hwhole]

/-- A magnitude with a fraction has fewer bits. -/
theorem magnitude_lt_of_neg (hm : m < 2 ^ 53) (hq : q < 0) : magnitude m q < 2 ^ 52 := by
  have hunit : (2 : ℚ) ^ q ≤ 2 ^ (-1 : ℤ) := zpow_le_zpow_right₀ (by norm_num) (by omega)
  have hm' : (m : ℚ) < 2 ^ 53 := by exact_mod_cast hm
  calc magnitude m q ≤ m * 2 ^ (-1 : ℤ) := mul_le_mul_of_nonneg_left hunit (Nat.cast_nonneg m)
    _ < 2 ^ 53 * 2 ^ (-1 : ℤ) := mul_lt_mul_of_pos_right hm' (two_zpow_pos _)
    _ = 2 ^ 52 := by norm_num

theorem RoundsUp.le {k : ℕ} (h : RoundsUp w r) (hw : w ≤ k) : r ≤ k := by
  have hlow := h.low
  have hlt : (r : ℚ) < k + 1 := by linarith
  have hlt' : r < k + 1 := by exact_mod_cast hlt
  omega

/-- The whole part of a float is a float. -/
theorem exists_canonical_wholePart (h : IsCanonical p t) :
    ∃ m q, IsCanonical m q ∧ q ≤ max t 1 ∧ magnitude m q = wholePart p t := by
  rcases lt_or_ge t 0 with hneg | hnonneg
  · have hle : wholePart p t ≤ 2 ^ 52 :=
      (roundsUp_wholePart p t).le (by push_cast; exact (magnitude_lt_of_neg h.bits hneg).le)
    obtain ⟨m, q, hc, hq, hvalue⟩ := exists_canonical_of_le (by omega : wholePart p t ≤ 2 ^ 53)
    exact ⟨m, q, hc, hq.trans (le_max_right _ _), hvalue⟩
  · exact ⟨p, t, h, le_max_left _ _, magnitude_of_nonneg hnonneg⟩

/-! ## The second time -/

/-- A product that lies in the upper half above a power of two is found again. -/
theorem nearest_power (ht : 0 ≤ t) (hy : Nearest (magnitude (2 ^ 52) t / 10 ^ 6) n s) :
    magnitude (2 ^ 52) t - 1 / 4 * 2 ^ t ≤ magnitude n s * 10 ^ 6 := by
  have hunit := two_zpow_pos (t - 20)
  have hpower : (2 : ℚ) ^ t = 2 ^ 20 * 2 ^ (t - 20) := by
    rw [← two_zpow_add]
    congr 1
    push_cast
    ring
  have hvalue : magnitude (2 ^ 52) t / 10 ^ 6 = 2 ^ 72 / 10 ^ 6 * 2 ^ (t - 20) := by
    unfold magnitude
    rw [hpower]
    push_cast
    ring
  have hexplicit : Nearest (magnitude (2 ^ 52) t / 10 ^ 6) 4722366482869645 (t - 20) := by
    have hgap : gapBelow 4722366482869645 (t - 20) = 2 := by
      rcases gapBelow_cases 4722366482869645 (t - 20) with ⟨-, hm, -⟩ | ⟨hg, -⟩
      · norm_num at hm
      · exact hg
    rw [hvalue]
    refine ⟨⟨by norm_num, by omega, .inr (by norm_num)⟩, ?_, ?_, fun _ => ⟨?_, ?_⟩⟩ <;> unfold magnitude
    · rw [hgap]
      push_cast
      linarith
    · push_cast
      linarith
    · rw [hgap]
      push_cast
      linarith
    · push_cast
      linarith
  obtain ⟨rfl, rfl⟩ := hy.unique hexplicit
  unfold magnitude
  rw [hpower]
  push_cast
  linarith

/-- **A whole product is found again**: its quotient is no farther from it than the float was. -/
theorem nearest_rescaled (hm : IsCanonical m q) (hp : Nearest (magnitude m q * 10 ^ 6) p t) (ht : 0 ≤ t)
    (hy : Nearest (magnitude p t / 10 ^ 6) n s) : Nearest (magnitude n s * 10 ^ 6) p t := by
  have hunit := two_zpow_pos t
  have hcloser : |magnitude n s * 10 ^ 6 - magnitude p t| ≤ |magnitude m q * 10 ^ 6 - magnitude p t| := by
    have hdist := hy.dist_le hm
    have hscale (w : ℚ) : |w * 10 ^ 6 - magnitude p t| = |magnitude p t / 10 ^ 6 - w| * 10 ^ 6 := by
      have hsplit : w * 10 ^ 6 - magnitude p t = -(magnitude p t / 10 ^ 6 - w) * 10 ^ 6 := by ring
      rw [hsplit, abs_mul, abs_neg, abs_of_pos (by norm_num : (0 : ℚ) < 10 ^ 6)]
    rw [hscale, hscale]
    linarith
  have hlow := hp.low
  have hhigh := hp.high
  rcases gapBelow_cases p t with ⟨hg, hpower, hleast⟩ | ⟨hg, -⟩
  · -- below a power of two the interval is shorter than above it
    subst hpower
    have hbelow := nearest_power ht hy
    have hhalf := hp.dist_le_half
    have habove := (abs_le.mp (hcloser.trans hhalf)).2
    refine ⟨hp.toIsCanonical, ?_, by linarith, by omega⟩
    rw [hg, Nat.cast_one]
    exact hbelow
  · rw [hg] at hlow
    push_cast at hlow
    have hgap : (gapBelow p t : ℚ) / 4 = 1 / 2 := by
      rw [hg]
      norm_num
    have hhalf : |magnitude m q * 10 ^ 6 - magnitude p t| ≤ 2 ^ t / 2 := abs_le.mpr ⟨by linarith, by linarith⟩
    obtain ⟨hge, hle⟩ := abs_le.mp (hcloser.trans hhalf)
    refine ⟨hp.toIsCanonical, by rw [hgap]; linarith, by linarith, fun hodd => ?_⟩
    obtain ⟨hlow', hhigh'⟩ := hp.even hodd
    rw [hgap] at hlow' ⊢
    have hless : |magnitude m q * 10 ^ 6 - magnitude p t| < 2 ^ t / 2 := abs_lt.mpr ⟨by linarith, by linarith⟩
    obtain ⟨hgt, hlt⟩ := abs_lt.mp (lt_of_le_of_lt hcloser hless)
    exact ⟨by linarith, by linarith⟩

/-- **A small product is found again**: the errors of quotient and product are less than half a unit
together. -/
theorem wholePart_rescaled_of_lt (hp : Nearest (w * 10 ^ 6) p t) (hw : w < 2 ^ 32)
    (hy : Nearest (wholePart p t / 10 ^ 6) n s) (hp' : Nearest (magnitude n s * 10 ^ 6) p' t') :
    wholePart p' t' = wholePart p t ∧ t' ≤ 1 := by
  obtain ⟨m, q, hc, -, hbound⟩ := exists_canonical_of_le (by norm_num : 2 ^ 32 * 10 ^ 6 ≤ 2 ^ 53)
  have hproduct : magnitude p t ≤ (2 ^ 32 * 10 ^ 6 : ℕ) := by
    rw [← hbound]
    apply hp.magnitude_le hc
    rw [hbound]
    push_cast
    linarith
  have hwhole : wholePart p t ≤ 2 ^ 32 * 10 ^ 6 := (roundsUp_wholePart p t).le hproduct
  have hwhole' : (wholePart p t : ℚ) ≤ 2 ^ 32 * 10 ^ 6 := by exact_mod_cast hwhole
  -- the quotient
  have hquotient : |(wholePart p t : ℚ) / 10 ^ 6 - magnitude n s| ≤ 2 ^ ((32 : ℤ) - 54) := by
    apply hy.dist_le_of_le (by norm_num)
    rw [div_le_iff₀ (by norm_num)]
    exact hwhole'
  have herror : |magnitude n s * 10 ^ 6 - wholePart p t| < 1 / 4 := by
    have hsplit :
        magnitude n s * 10 ^ 6 - wholePart p t = -((wholePart p t : ℚ) / 10 ^ 6 - magnitude n s) * 10 ^ 6 := by ring
    rw [hsplit, abs_mul, abs_neg, abs_of_pos (by norm_num : (0 : ℚ) < 10 ^ 6)]
    calc |(wholePart p t : ℚ) / 10 ^ 6 - magnitude n s| * 10 ^ 6
        ≤ 2 ^ ((32 : ℤ) - 54) * 10 ^ 6 := mul_le_mul_of_nonneg_right hquotient (by norm_num)
      _ < 1 / 4 := by norm_num
  -- its product
  obtain ⟨a, b, hcanonical, -, hvalue⟩ :=
    exists_canonical_of_le (hwhole.trans (by norm_num : 2 ^ 32 * 10 ^ 6 ≤ 2 ^ 53))
  have hdist := hp'.dist_le hcanonical
  rw [hvalue] at hdist
  obtain ⟨hlow, hhigh⟩ := abs_lt.mp herror
  obtain ⟨hlow', hhigh'⟩ := abs_lt.mp (lt_of_le_of_lt hdist herror)
  constructor
  · apply (roundsUp_wholePart p' t').unique
    constructor <;> linarith
  · have hlimit : IsCanonical (2 ^ 52) 1 := isCanonical_power (by norm_num)
    apply hp'.toIsCanonical.exponent_le hlimit
    apply hp'.magnitude_le hlimit
    have hpower : (2 : ℚ) ^ ((1 : ℤ) + 52) = 2 ^ 53 := by norm_num
    rw [magnitude_power, hpower]
    linarith

/-- **The whole number is found again**, outside the stretch in which a product may still have a fraction
and the quotient is too coarse to recover it. -/
theorem wholePart_rescaled (hm : IsCanonical m q) (hp : Nearest (magnitude m q * 10 ^ 6) p t)
    (hapart : magnitude m q < 2 ^ 32 ∨ 2 ^ 52 ≤ magnitude m q * 10 ^ 6)
    (hy : Nearest (wholePart p t / 10 ^ 6) n s) (hp' : Nearest (magnitude n s * 10 ^ 6) p' t') :
    wholePart p' t' = wholePart p t ∧ t' ≤ max t 1 := by
  rcases lt_or_ge t 0 with hneg | hnonneg
  · have hfraction := magnitude_lt_of_neg hp.bits hneg
    rcases hapart with hsmall | hlarge
    · obtain ⟨hsame, hle⟩ := wholePart_rescaled_of_lt hp hsmall hy hp'
      exact ⟨hsame, hle.trans (le_max_right _ _)⟩
    · have hpower : magnitude (2 ^ 52) 0 = 2 ^ 52 := by
        rw [magnitude_power]
        norm_num
      have hlimit : IsCanonical (2 ^ 52) 0 := isCanonical_power (by norm_num)
      have hge := hp.le_magnitude hlimit (by rw [hpower]; exact hlarge)
      linarith
  · rw [← magnitude_of_nonneg hnonneg] at hy
    obtain ⟨rfl, rfl⟩ := (nearest_rescaled hm hp hnonneg hy).unique hp'
    exact ⟨rfl, le_max_left _ _⟩

end QueryScore.Decimal
