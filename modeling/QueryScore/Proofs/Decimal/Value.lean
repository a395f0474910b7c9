/-
# QueryScore.Proofs.Decimal.Value -- the number that a float stands for

A finite float has an exact value (`value?`), and is a whole number when that is one
(`integer?_eq_some_iff`). Rounding to a whole number goes by the exact value (`RoundsUp`). A rounded
number that is not too large is finite (`IsRounded.exists_finite`), so a natural number becomes the one
with its 53 leading bits, rounded (`significant`, `integer?_nearest`).
-/

import QueryScore.Proofs.Decimal.Arithmetic

namespace QueryScore.Decimal

variable {m m' n r num den : ℕ} {q q' : ℤ} {v w : ℚ} {x : Float} {negative : Bool}

/-! ## Values -/

/-- A magnitude with a sign. -/
def signed (negative : Bool) (v : ℚ) : ℚ := if negative then -v else v

/-- **`value? x`** -- the number that a finite float stands for. -/
def value? (x : Float) : Option ℚ :=
  match Binary64.ofFloat x with
  | .finite negative m q => some (signed negative (magnitude m q))
  | .infinite _ | .nan => none

theorem value?_of_finite (h : Binary64.ofFloat x = .finite negative m q) :
    value? x = some (signed negative (magnitude m q)) := by
  rw [value?, h]

theorem abs_signed (negative : Bool) (hv : 0 ≤ v) : |signed negative v| = v := by
  cases negative
  · exact abs_of_nonneg hv
  · show |-v| = v
    rw [abs_neg, abs_of_nonneg hv]

/-- A float with a value is finite. -/
theorem exists_of_value? (h : value? x = some v) :
    ∃ negative m q, Binary64.ofFloat x = .finite negative m q ∧ signed negative (magnitude m q) = v := by
  rw [value?] at h
  split at h
  · next negative m q hview => exact ⟨negative, m, q, hview, Option.some.inj h⟩
  · cases h
  · cases h

/-- The magnitude as a quotient. -/
theorem ratio_spec (m : ℕ) (q : ℤ) :
    0 < (ratio m q).2 ∧ ((ratio m q).1 : ℚ) / (ratio m q).2 = magnitude m q := by
  rw [ratio]
  split
  · next hq =>
    obtain ⟨k, rfl⟩ : ∃ k : ℕ, q = k := ⟨q.toNat, by omega⟩
    refine ⟨Nat.one_pos, ?_⟩
    simp only [Int.toNat_natCast, Nat.cast_mul, cast_twoTo, Nat.cast_one, div_one, magnitude, zpow_natCast]
  · next hq =>
    obtain ⟨k, rfl⟩ : ∃ k : ℕ, q = -k := ⟨(-q).toNat, by omega⟩
    refine ⟨Nat.two_pow_pos _, ?_⟩
    simp only [neg_neg, Int.toNat_natCast, cast_twoTo, magnitude, zpow_neg, zpow_natCast]
    rw [div_eq_mul_inv]

theorem div_eq_natCast_iff (hden : 0 < den) : (num / den : ℚ) = n ↔ num % den = 0 ∧ num / den = n := by
  have hpos : (den : ℚ) ≠ 0 := by exact_mod_cast hden.ne'
  rw [div_eq_iff hpos]
  constructor
  · intro h
    obtain rfl : num = n * den := by exact_mod_cast h
    exact ⟨Nat.mul_mod_left n den, Nat.mul_div_cancel n hden⟩
  · rintro ⟨hmod, rfl⟩
    exact_mod_cast (Nat.div_mul_cancel (Nat.dvd_of_mod_eq_zero hmod)).symm

/-- **A float is a whole number when its value is one.** -/
theorem integer?_eq_some_iff {n : ℤ} : integer? x = some n ↔ value? x = some (n : ℚ) := by
  rw [integer?, value?]
  cases hview : Binary64.ofFloat x with
  | nan | infinite negative => simp
  | finite negative m q =>
    obtain ⟨hden, hvalue⟩ := ratio_spec m q
    set num := (ratio m q).1
    set den := (ratio m q).2
    have hsigned (k : ℕ) : (if negative then -((k : ℕ) : ℤ) else k : ℤ) = n ↔ signed negative (k : ℚ) = n := by
      cases negative <;> simp [signed] <;> norm_cast
    show (if num % den = 0 then some (if negative then -(num / den : ℤ) else num / den) else none) = some n ↔ _
    rw [Option.some.injEq, ← Int.natCast_ediv]
    split
    · next hmod =>
      have hwhole : magnitude m q = (num / den : ℕ) :=
        hvalue.symm.trans ((div_eq_natCast_iff hden).mpr ⟨hmod, rfl⟩)
      rw [hwhole, Option.some.injEq]
      exact hsigned _
    · next hmod =>
      have hfraction (k : ℕ) : magnitude m q ≠ k :=
        fun h => hmod ((div_eq_natCast_iff hden).mp (hvalue.trans h)).1
      refine iff_of_false (by simp) fun h => hfraction n.natAbs ?_
      rw [← abs_signed negative (magnitude_nonneg m q), h, ← Int.cast_abs, Int.abs_eq_natAbs, Int.cast_natCast]

/-! ## Rounded numbers that are finite -/

/-- What is no larger than a float is not rounded to an infinity. -/
theorem IsRounded.exists_finite (h : IsRounded x negative v) (hc : IsCanonical m q) (hq : q ≤ maxExponent)
    (hv : v ≤ magnitude m q) : ∃ m' q', Nearest v m' q' ∧ Binary64.ofFloat x = .finite negative m' q' := by
  obtain ⟨m', q', hnearest, hview⟩ := h
  have hexponent := hnearest.toIsCanonical.exponent_le hc (hnearest.magnitude_le hc hv)
  rw [Binary64.bounded, if_pos (hexponent.trans hq)] at hview
  exact ⟨m', q', hnearest, hview⟩

/-- The value of a float is rounded to itself. -/
theorem IsRounded.ofFloat_eq (h : IsRounded x negative (magnitude m q)) (hc : IsCanonical m q)
    (hq : q ≤ maxExponent) :
    Binary64.ofFloat x = .finite negative m q := by
  obtain ⟨m', q', hnearest, hview⟩ := h.exists_finite hc hq le_rfl
  obtain ⟨rfl, rfl⟩ := hc.nearest.unique hnearest
  exact hview

/-- A float that is nearest to something finite. -/
theorem IsRounded.nearest_of_finite (h : IsRounded x negative v) {negative' : Bool}
    (hview : Binary64.ofFloat x = .finite negative' m q) : negative' = negative ∧ Nearest v m q := by
  obtain ⟨m', q', hnearest, hbounded⟩ := h
  rw [hview, Binary64.bounded] at hbounded
  split at hbounded
  · cases hbounded
    exact ⟨rfl, hnearest⟩
  · cases hbounded

/-! ## Natural numbers -/

/-- **`significant n`** -- the natural number with the 53 leading bits of `n`, rounded. -/
def significant (n : ℕ) : ℕ := roundHalfEven n (twoTo (n.log2 - 52)) * twoTo (n.log2 - 52)

theorem roundHalfEven_one (n : ℕ) : roundHalfEven n 1 = n := by
  rw [roundHalfEven, Nat.mod_one, Nat.div_one]
  rfl

/-- A number of up to 53 bits has no others. -/
theorem significant_of_lt (h : n < 2 ^ 53) : significant n = n := by
  have hlog : n.log2 - 52 = 0 := by
    rcases Nat.eq_zero_or_pos n with rfl | hpos
    · rfl
    · have := (Nat.log2_lt hpos.ne').mpr h
      omega
  rw [significant, hlog, show twoTo 0 = 1 from rfl, roundHalfEven_one, Nat.mul_one]

/-- The float nearest to a natural number has its leading bits. -/
theorem exists_nearest_natCast (n : ℕ) :
    ∃ m q, Nearest n m q ∧ magnitude m q = significant n ∧ q ≤ max 1 (n.log2 - 51 : ℤ) := by
  rcases Nat.lt_or_ge n (2 ^ 53) with hsmall | hlarge
  · obtain ⟨m, q, hc, hq, hvalue⟩ := exists_canonical_of_le hsmall.le
    refine ⟨m, q, hvalue ▸ hc.nearest, ?_, hq.trans (le_max_left _ _)⟩
    rw [hvalue, significant_of_lt hsmall]
  · have hne : n ≠ 0 := by omega
    have hlog : 53 ≤ n.log2 := (Nat.le_log2 hne).mpr hlarge
    obtain ⟨k, hk⟩ : ∃ k, k = n.log2 - 52 := ⟨_, rfl⟩
    have hpow : (0 : ℚ) < 2 ^ k := by positivity
    have hround : RoundsTo (n / 2 ^ k) (roundHalfEven n (twoTo k)) := by
      rw [← cast_twoTo]
      exact roundsTo_roundHalfEven (Nat.two_pow_pos k)
    have hlow : (2 ^ 52 : ℚ) ≤ n / 2 ^ k := by
      rw [le_div_iff₀ hpow]
      have hle : 2 ^ 52 * 2 ^ k ≤ n := by
        rw [← Nat.pow_add, show 52 + k = n.log2 by omega]
        exact Nat.log2_self_le hne
      exact_mod_cast hle
    have hhigh : (n / 2 ^ k : ℚ) < 2 ^ 53 := by
      rw [div_lt_iff₀ hpow]
      have hlt : n < 2 ^ 53 * 2 ^ k := by
        rw [← Nat.pow_add, show 53 + k = n.log2 + 1 by omega]
        exact Nat.lt_log2_self
      exact_mod_cast hlt
    obtain ⟨m, q, hnearest, hcarry⟩ := nearest_of_roundsTo (t := (k : ℤ)) hround (by omega) (.inr hlow) hhigh
    rw [zpow_natCast, div_mul_cancel₀ _ hpow.ne'] at hnearest
    refine ⟨m, q, hnearest, ?_, by omega⟩
    rw [magnitude_of_carry hcarry, significant, ← hk, magnitude, zpow_natCast, Nat.cast_mul, cast_twoTo]

/-- **A natural number becomes the float of its leading bits.** -/
theorem integer?_nearest (negative : Bool) (hn : n.log2 ≤ 1022) :
    integer? (nearest negative n 1) = some (if negative then -(significant n : ℤ) else significant n) := by
  obtain ⟨m, q, hnearest, hvalue, hq⟩ := exists_nearest_natCast n
  have hsize : q ≤ maxExponent := by
    unfold maxExponent
    omega
  obtain ⟨m', q', hnearest', hview⟩ := isRounded_nearest negative n Nat.one_pos
  rw [Nat.cast_one, div_one] at hnearest'
  obtain ⟨rfl, rfl⟩ := hnearest.unique hnearest'
  rw [Binary64.bounded, if_pos hsize] at hview
  rw [integer?_eq_some_iff, value?_of_finite hview, hvalue]
  cases negative <;> simp [signed]

/-- A natural number is a float exactly when it has no other bits than the leading ones. -/
theorem significant_eq_self_iff : significant n = n ↔ ∃ m q, IsCanonical m q ∧ magnitude m q = n := by
  obtain ⟨m, q, hnearest, hvalue, -⟩ := exists_nearest_natCast n
  constructor
  · intro h
    exact ⟨m, q, hnearest.toIsCanonical, by rw [hvalue, h]⟩
  · rintro ⟨m', q', hc, hn⟩
    have hsame := hnearest.magnitude_eq hc hn.symm
    rw [hvalue] at hsame
    exact_mod_cast hsame

/-- Digits without a power of ten are turned into the nearest float. -/
theorem nearestScaled_zero (negative : Bool) (hlength : (Nat.toDigits 10 n).length ≤ 310) :
    nearestScaled negative n 0 = nearest negative n 1 := by
  have hone : n * tenTo (0 : ℤ).toNat = n := Nat.mul_one n
  rw [nearestScaled]
  split
  · next hguard =>
    have hzero : n = 0 := by
      simp only [Bool.or_eq_true, decide_eq_true_eq] at hguard
      omega
    rw [hzero]
  · rw [if_neg (by omega), if_pos le_rfl, hone]

end QueryScore.Decimal
