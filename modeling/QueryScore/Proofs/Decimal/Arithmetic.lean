/-
# QueryScore.Proofs.Decimal.Arithmetic -- floats as rounded exact numbers

A product or a quotient of floats, and the float that a ratio is turned into, are described in one way
(`IsRounded`): the sign, and the float nearest to the exact magnitude, or an infinity where that is too
large (`isRounded_mul`, `isRounded_div`, `isRounded_nearest`). A product and a quotient are cut off
first, and what is cut off is remembered in two bits; that is enough to round them (`Describes`).
-/

import QueryScore.Proofs.Decimal.Bits

namespace QueryScore.Decimal

open Float.Model Float.Model.UnpackedFloat

variable {m n r : ℕ} {q t : ℤ} {v w : ℚ} {x y : Float} {negative : Bool}

/-! ## Rounding -/

/-- **`IsRounded x negative v`** -- the float of that sign nearest to `v` in magnitude, an infinity
where that is too large. -/
def IsRounded (x : Float) (negative : Bool) (v : ℚ) : Prop :=
  ∃ m q, Nearest v m q ∧ Binary64.ofFloat x = .bounded negative m q

/-- **`Describes em w`** -- a significand cut off a number, with the next bit, and with a mark for what
stands behind it. -/
def Describes (em : ExtendedMantissa) (w : ℚ) : Prop :=
  ∃ f : ℚ, 0 ≤ f ∧ f < 1 / 2 ∧ (em.stickyBit = true ↔ 0 < f) ∧
    w = em.mantissa + (if em.roundBit then 1 / 2 else 0) + f

variable {em : ExtendedMantissa}

theorem Describes.shiftRightOne (h : Describes em w) : Describes em.shiftRightOne (w / 2) := by
  obtain ⟨f, hf, hlt, hsticky, rfl⟩ := h
  have hsplit : (em.mantissa : ℚ) = 2 * (em.mantissa / 2 : ℕ) + (em.mantissa % 2 : ℕ) := by
    exact_mod_cast (Nat.div_add_mod em.mantissa 2).symm
  have hparity : ((em.mantissa % 2 : ℕ) : ℚ) / 2 = if em.mantissa % 2 != 0 then 1 / 2 else 0 := by
    rcases Nat.mod_two_eq_zero_or_one em.mantissa with h0 | h1
    · simp [h0]
    · simp [h1]
  refine ⟨(if em.roundBit then 1 / 4 else 0) + f / 2, ?_, ?_, ?_, ?_⟩
  · split <;> linarith
  · split <;> linarith
  · show (em.roundBit || em.stickyBit) = true ↔ _
    cases hround : em.roundBit with
    | true =>
      simp
      linarith
    | false => simp [hsticky]
  · show _ = ((em.mantissa / 2 : ℕ) : ℚ) + (if em.mantissa % 2 != 0 then 1 / 2 else 0) + _
    rw [← hparity, hsplit]
    split <;> ring

theorem Describes.shiftRight (h : Describes em w) (k : ℕ) : Describes (em >>> k) (w / 2 ^ k) := by
  induction k with
  | zero =>
    rw [pow_zero, div_one]
    exact h
  | succ k ih =>
    rw [pow_succ, ← div_div]
    exact ih.shiftRightOne

/-- What is cut off decides the rounding. -/
theorem Describes.roundsTo (h : Describes em w) : RoundsTo w em.roundedMantissa := by
  obtain ⟨f, hf, hlt, hsticky, rfl⟩ := h
  obtain ⟨m, roundBit, stickyBit⟩ := em
  simp only at hsticky ⊢
  have hexact : stickyBit = false → f = 0 := by
    rintro rfl
    by_contra hne
    simpa using hsticky.mpr (lt_of_le_of_ne hf (Ne.symm hne))
  cases roundBit with
  | false =>
    have hr : ExtendedMantissa.roundedMantissa ⟨m, false, stickyBit⟩ = m := by cases stickyBit <;> rfl
    rw [hr]
    simp only [Bool.false_eq_true, if_false]
    exact ⟨by linarith, by linarith, fun _ => ⟨by linarith, by linarith⟩⟩
  | true =>
    simp only [if_true]
    cases stickyBit with
    | true =>
      have hpos := hsticky.mp rfl
      have hr : ExtendedMantissa.roundedMantissa ⟨m, true, true⟩ = m + 1 := rfl
      have hnext : ((m + 1 : ℕ) : ℚ) = m + 1 := Nat.cast_succ m
      rw [hr]
      exact ⟨by linarith, by linarith, fun _ => ⟨by linarith, by linarith⟩⟩
    | false =>
      have hr : ExtendedMantissa.roundedMantissa ⟨m, true, false⟩ = m + m % 2 := rfl
      rw [hr, hexact rfl]
      rcases Nat.mod_two_eq_zero_or_one m with h0 | h1
      · rw [h0]
        exact ⟨by simp; linarith, by simp, by omega⟩
      · have hnext : ((m + 1 : ℕ) : ℚ) = m + 1 := Nat.cast_succ m
        rw [h1]
        exact ⟨by linarith, by linarith, by omega⟩

theorem Describes.bounds (h : Describes em w) : (em.mantissa : ℚ) ≤ w ∧ w < em.mantissa + 1 := by
  obtain ⟨f, hf, hlt, -, rfl⟩ := h
  split <;> constructor <;> linarith

theorem mantissa_ofMantissaAndAccuracy (m : ℕ) (acc : Accuracy) :
    (ExtendedMantissa.ofMantissaAndAccuracy m acc).mantissa = m := by
  rcases acc with _ | (_ | _ | _) <;> rfl

theorem describes_exact (m : ℕ) : Describes (.ofMantissaAndAccuracy m .exact) m :=
  ⟨0, le_rfl, by norm_num, by simp [ExtendedMantissa.ofMantissaAndAccuracy],
    by simp [ExtendedMantissa.ofMantissaAndAccuracy]⟩

/-- The exponent that the model shifts a significand to. -/
theorem targetExponent_eq (m : ℕ) (e : ℤ) :
    Format.binary64.targetExponent (totalExponent m e) = max (m.log2 + 1 + e - 53) (-1074) := rfl

/-- A significand shifted to its target has 53 bits, or fewer and the least exponent. -/
theorem shifted_bounds {e : ℤ} {k : ℕ} (hk : k = (max (m.log2 + 1 + e - 53) (-1074) - e).toNat)
    (hle : (m : ℚ) ≤ w)
    (hlt : w < m + 1) (hsize : 2 ^ 52 ≤ m ∨ e ≤ -1074) :
    (e + k = -1074 ∨ 2 ^ 52 ≤ w / 2 ^ k) ∧ w / 2 ^ k < 2 ^ 53 := by
  have hpow : (0 : ℚ) < 2 ^ k := by positivity
  constructor
  · by_cases hleast : e + k = -1074
    · exact .inl hleast
    · have hm : 2 ^ 52 * 2 ^ k ≤ m := by
        rcases Nat.eq_zero_or_pos m with rfl | hpos
        · have hlog : (0 : ℕ).log2 = 0 := rfl
          omega
        · have hlog : 52 ≤ m.log2 := by
            rcases hsize with hm | he
            · exact (Nat.le_log2 hpos.ne').mpr hm
            · omega
          calc 2 ^ 52 * 2 ^ k = 2 ^ (52 + k) := (Nat.pow_add ..).symm
            _ ≤ 2 ^ m.log2 := Nat.pow_le_pow_right (by decide) (by omega)
            _ ≤ m := Nat.log2_self_le hpos.ne'
      have hm' : (2 ^ 52 * 2 ^ k : ℚ) ≤ m := by exact_mod_cast hm
      exact .inr ((le_div_iff₀ hpow).mpr (hm'.trans hle))
  · have hmore : m + 1 ≤ 2 ^ 53 * 2 ^ k := by
      calc m + 1 ≤ 2 ^ (m.log2 + 1) := Nat.lt_log2_self
        _ ≤ 2 ^ (53 + k) := Nat.pow_le_pow_right (by decide) (by omega)
        _ = 2 ^ 53 * 2 ^ k := Nat.pow_add ..
    have hmore' : (m + 1 : ℚ) ≤ 2 ^ 53 * 2 ^ k := by exact_mod_cast hmore
    exact (div_lt_iff₀ hpow).mpr (hlt.trans_le hmore')

/-- Shifting a rounded significand once more only brings a carry back. -/
theorem shiftToTargetExponent_carry (hc : IsCanonical m q)
    (hcarry : (m = r ∧ q = t) ∨ (r = 2 ^ 53 ∧ m = 2 ^ 52 ∧ q = t + 1)) :
    shiftToTargetExponent .binary64 r t .exact = (⟨m, false, false⟩, q) := by
  have hbits := hc.bits
  have hleast := hc.least
  rcases hcarry with ⟨rfl, rfl⟩ | ⟨rfl, rfl, rfl⟩
  · have hamount : (Format.binary64.targetExponent (totalExponent m q) - q).toNat = 0 := by
      rw [targetExponent_eq]
      rcases Nat.eq_zero_or_pos m with rfl | hpos
      · have hlog : (0 : ℕ).log2 = 0 := rfl
        omega
      · have hlog := (Nat.log2_lt hpos.ne').mpr hbits
        omega
    rw [shiftToTargetExponent, shiftToExponent, hamount, Nat.cast_zero, add_zero]
    rfl
  · have hfull := hc.full
    have hamount : (Format.binary64.targetExponent (totalExponent (2 ^ 53) t) - t).toNat = 1 := by
      have hlog : (2 ^ 53).log2 = 53 := Nat.log2_two_pow
      rw [targetExponent_eq, hlog]
      omega
    rw [shiftToTargetExponent, shiftToExponent, hamount]
    rfl

/-- Brought to 53 bits or to the least exponent, a significand is rounded to the nearest float. -/
theorem isRounded_roundWithAccuracy (s : Sign) {e : ℤ} {acc : Accuracy}
    (hw : Describes (.ofMantissaAndAccuracy m acc) w)
    (hsize : 2 ^ 52 ≤ m ∨ e ≤ -1074) :
    IsRounded ⟨.pack (roundWithAccuracy .binary64 s m e acc)⟩ (isNegative s) (w * 2 ^ e) := by
  obtain ⟨k, hk⟩ : ∃ k : ℕ, k = (max (m.log2 + 1 + e - 53) (-1074) - e).toNat := ⟨_, rfl⟩
  obtain ⟨r, hr⟩ : ∃ r, r = (ExtendedMantissa.ofMantissaAndAccuracy m acc >>> k).roundedMantissa := ⟨_, rfl⟩
  obtain ⟨hle, hlt⟩ := hw.bounds
  rw [mantissa_ofMantissaAndAccuracy] at hle hlt
  obtain ⟨hfull, hbits⟩ := shifted_bounds hk hle hlt hsize
  have hround : RoundsTo (w / 2 ^ k) r := by
    rw [hr]
    exact (hw.shiftRight k).roundsTo
  obtain ⟨M, Q, hnearest, hcarry⟩ := nearest_of_roundsTo hround (by omega : -1074 ≤ e + k) hfull hbits
  have hvalue : w / 2 ^ k * 2 ^ (e + k) = w * 2 ^ e := by
    rw [two_zpow_add, ← mul_assoc, div_mul_cancel₀ _ (by positivity)]
  rw [hvalue] at hnearest
  have hresult : roundWithAccuracy .binary64 s m e acc =
      if h : M = 0 then .zero s else .finite s M Q (Nat.pos_of_ne_zero h) := by
    have hfirst :
        shiftToTargetExponent .binary64 m e acc = (ExtendedMantissa.ofMantissaAndAccuracy m acc >>> k, e + k) := by
      rw [shiftToTargetExponent, shiftToExponent, targetExponent_eq, hk]
    rw [roundWithAccuracy, hfirst]
    simp only [← hr, shiftToTargetExponent_carry hnearest.toIsCanonical hcarry]
  refine ⟨M, Q, hnearest, ?_⟩
  rw [hresult]
  split
  · next hzero =>
    have hleast : Q = -1074 := hnearest.toIsCanonical.full.resolve_right (by omega)
    rw [ofFloat_pack_zero, hzero, hleast]
    rfl
  · exact ofFloat_pack s _ hnearest.toIsCanonical

/-! ## Products and quotients -/

/-- A finite float, unpacked. -/
theorem unpack_of_ofFloat (h : Binary64.ofFloat x = .finite negative m q) :
    (∃ s, isNegative s = negative ∧ m = 0 ∧ x.toModel.unpack = .zero s) ∨
      ∃ s hm, isNegative s = negative ∧ x.toModel.unpack = .finite s m q hm := by
  rw [ofFloat_eq_view] at h
  cases hx : x.toModel.unpack with
  | infinity s => rw [hx] at h; cases h
  | notANumber => rw [hx] at h; cases h
  | zero s =>
    rw [hx] at h
    cases h
    exact .inl ⟨s, rfl, rfl, rfl⟩
  | finite s m' q' hm =>
    rw [hx] at h
    cases h
    exact .inr ⟨s, hm, rfl, rfl⟩

theorem isNegative_mul (s s' : Sign) : isNegative (s * s') = (isNegative s != isNegative s') := by
  cases s <;> cases s' <;> rfl

theorem isNegative_div (s s' : Sign) : isNegative (s / s') = (isNegative s != isNegative s') := by
  cases s <;> cases s' <;> rfl

theorem isRounded_zero (s : Sign) : IsRounded ⟨.pack (.zero s)⟩ (isNegative s) 0 := by
  refine ⟨0, minExponent, ?_, ofFloat_pack_zero s⟩
  have hzero : IsCanonical 0 minExponent := ⟨by norm_num, le_rfl, .inl rfl⟩
  simpa [magnitude] using hzero.nearest

/-- **The product of two floats is the exact product, rounded.** -/
theorem isRounded_mul {a b : Bool} (hx : Binary64.ofFloat x = .finite a m q)
    (hy : Binary64.ofFloat y = .finite b n t) :
    IsRounded (x * y) (a != b) (magnitude m q * magnitude n t) := by
  have hmul : x * y = ⟨.pack (UnpackedFloat.mul .binary64 x.toModel.unpack y.toModel.unpack)⟩ := rfl
  have hm := (canonical_of_ofFloat hx).1
  have hn := (canonical_of_ofFloat hy).1
  rw [hmul]
  rcases unpack_of_ofFloat hx with ⟨s, rfl, rfl, hxs⟩ | ⟨s, hpos, rfl, hxs⟩ <;>
    rcases unpack_of_ofFloat hy with ⟨s', rfl, rfl, hys⟩ | ⟨s', hpos', rfl, hys⟩ <;>
      rw [hxs, hys, ← isNegative_mul]
  · rw [show magnitude 0 q * magnitude 0 t = 0 by simp [magnitude]]
    exact isRounded_zero _
  · rw [show magnitude 0 q * magnitude n t = 0 by simp [magnitude]]
    exact isRounded_zero _
  · rw [show magnitude m q * magnitude 0 t = 0 by simp [magnitude]]
    exact isRounded_zero _
  · have hsize : 2 ^ 52 ≤ m * n ∨ q + t ≤ -1074 := by
      rcases hm.full with hleast | hfull
      · rcases hn.full with hleast' | hfull'
        · exact .inr (by omega)
        · exact .inl (hfull'.trans (Nat.le_mul_of_pos_left n hpos))
      · exact .inl (hfull.trans (Nat.le_mul_of_pos_right m hpos'))
    have hproduct : magnitude m q * magnitude n t = ((m * n : ℕ) : ℚ) * 2 ^ (q + t) := by
      unfold magnitude
      rw [zpow_add₀ (by norm_num)]
      push_cast
      ring
    rw [hproduct]
    exact isRounded_roundWithAccuracy _ (describes_exact _) hsize

/-- A quotient, described by its floor and the rest. -/
theorem describes_quotient (m : ℕ) (hn : 0 < n) :
    Describes (.ofMantissaAndAccuracy (m / n) (accuracyOfFraction (m % n) n)) (m / n) := by
  have hpos : (0 : ℚ) < n := by exact_mod_cast hn
  rw [cast_div_eq m n hn]
  have hrest : (0 : ℚ) ≤ (m % n : ℕ) / n := by positivity
  have hless : ((m % n : ℕ) : ℚ) / n < 1 := by
    rw [div_lt_one hpos]
    exact_mod_cast Nat.mod_lt m hn
  rw [accuracyOfFraction]
  split
  · next hzero =>
    rw [hzero, Nat.cast_zero, zero_div, add_zero]
    exact describes_exact _
  · next hne =>
    have hsome : (0 : ℚ) < (m % n : ℕ) / n := by
      have : 0 < m % n := Nat.pos_of_ne_zero hne
      positivity
    rcases hcompare : compare (2 * (m % n)) n with _ | _ | _
    · have hcast : (2 * (m % n : ℕ) : ℚ) < n := by exact_mod_cast compare_lt_iff_lt.mp hcompare
      have hhalf : ((m % n : ℕ) : ℚ) / n < 1 / 2 := by
        rw [div_lt_iff₀ hpos]
        linarith
      exact ⟨_, hrest, hhalf, by simpa [ExtendedMantissa.ofMantissaAndAccuracy] using hsome,
        by simp [ExtendedMantissa.ofMantissaAndAccuracy]⟩
    · have hcast : (2 * (m % n : ℕ) : ℚ) = n := by exact_mod_cast compare_eq_iff_eq.mp hcompare
      have hhalf : ((m % n : ℕ) : ℚ) / n = 1 / 2 := by
        rw [div_eq_iff hpos.ne']
        linarith
      refine ⟨0, le_rfl, by norm_num, by simp [ExtendedMantissa.ofMantissaAndAccuracy], ?_⟩
      rw [hhalf]
      simp [ExtendedMantissa.ofMantissaAndAccuracy]
    · have hcast : (n : ℚ) < 2 * (m % n : ℕ) := by exact_mod_cast compare_gt_iff_gt.mp hcompare
      have hhalf : 1 / 2 < ((m % n : ℕ) : ℚ) / n := by
        rw [lt_div_iff₀ hpos]
        linarith
      refine ⟨(m % n : ℕ) / n - 1 / 2, by linarith, by linarith, ?_, ?_⟩
      · simpa [ExtendedMantissa.ofMantissaAndAccuracy] using hhalf
      · simp [ExtendedMantissa.ofMantissaAndAccuracy]

/-- **The quotient of two floats is the exact quotient, rounded.** -/
theorem isRounded_div {a b : Bool} (hx : Binary64.ofFloat x = .finite a m q)
    (hy : Binary64.ofFloat y = .finite b n t)
    (hn : 0 < n) : IsRounded (x / y) (a != b) (magnitude m q / magnitude n t) := by
  have hdiv : x / y = ⟨.pack (UnpackedFloat.div .binary64 x.toModel.unpack y.toModel.unpack)⟩ := rfl
  rw [hdiv]
  rcases unpack_of_ofFloat hy with ⟨s', -, hzero, -⟩ | ⟨s', _, rfl, hys⟩
  · omega
  rcases unpack_of_ofFloat hx with ⟨s, rfl, rfl, hxs⟩ | ⟨s, hpos, rfl, hxs⟩ <;> rw [hxs, hys, ← isNegative_div]
  · rw [show magnitude 0 q / magnitude n t = 0 by simp [magnitude]]
    exact isRounded_zero _
  · obtain ⟨e, he⟩ : ∃ e, e = min (q - t) (max (m.log2 + 1 + q - (n.log2 + 1 + t) - 53) (-1074)) := ⟨_, rfl⟩
    obtain ⟨k, hk⟩ : ∃ k : ℕ, k = (q - t - e).toNat := ⟨_, rfl⟩
    have hcore : divCore .binary64 m q n t = (m * 2 ^ k / n, e, accuracyOfFraction (m * 2 ^ k % n) n) := by
      rw [hk, he, ← Nat.shiftLeft_eq]
      rfl
    have hsize : 2 ^ 52 ≤ m * 2 ^ k / n ∨ e ≤ -1074 := by
      by_cases hleast : e ≤ -1074
      · exact .inr hleast
      · refine .inl ((Nat.le_div_iff_mul_le hn).mpr ?_)
        calc 2 ^ 52 * n ≤ 2 ^ 52 * 2 ^ (n.log2 + 1) := Nat.mul_le_mul_left _ Nat.lt_log2_self.le
          _ = 2 ^ (52 + (n.log2 + 1)) := (Nat.pow_add ..).symm
          _ ≤ 2 ^ (m.log2 + k) := Nat.pow_le_pow_right (by decide) (by omega)
          _ = 2 ^ m.log2 * 2 ^ k := Nat.pow_add ..
          _ ≤ m * 2 ^ k := Nat.mul_le_mul_right _ (Nat.log2_self_le hpos.ne')
    have hquotient : magnitude m q / magnitude n t = ((m * 2 ^ k : ℕ) : ℚ) / n * 2 ^ e := by
      have hne : (n : ℚ) ≠ 0 := by exact_mod_cast hn.ne'
      have hexponent : q = e + k + t := by omega
      unfold magnitude
      rw [hexponent, zpow_add₀ (by norm_num), two_zpow_add]
      have ht := (two_zpow_pos t).ne'
      push_cast
      field_simp
    rw [hquotient]
    show IsRounded ⟨.pack (roundWithAccuracy .binary64 (s / s') (divCore .binary64 m q n t).1
      (divCore .binary64 m q n t).2.1 (divCore .binary64 m q n t).2.2)⟩ _ _
    rw [hcore]
    exact isRounded_roundWithAccuracy _ (describes_quotient _ hn) hsize

/-! ## From a ratio to a float -/

/-- A ratio in units of a power of two. -/
def scaledRatio (num den : ℕ) (q : ℤ) : ℕ × ℕ :=
  if 0 ≤ q then (num, den * twoTo q.toNat) else (num * twoTo (-q).toNat, den)

/-- The exponent at which a ratio is rounded. -/
def roundingExponent (num den : ℕ) : ℤ :=
  let guess : ℤ := num.log2 - den.log2 - 52
  let (n, d) := scaledRatio num den guess
  max minExponent (if n / d < hiddenBit then guess - 1 else guess)

variable {num den : ℕ}

theorem nearestBits_of_pos (h : num ≠ 0) :
    nearestBits num den = min infinityBits ((roundingExponent num den - minExponent).toNat * hiddenBit +
      roundHalfEven (scaledRatio num den (roundingExponent num den)).1
        (scaledRatio num den (roundingExponent num den)).2) := by
  rw [nearestBits, if_neg h]
  rfl

theorem cast_twoTo (k : ℕ) : ((twoTo k : ℕ) : ℚ) = 2 ^ k := by
  show ((2 ^ k : ℕ) : ℚ) = 2 ^ k
  push_cast
  rfl

theorem scaledRatio_spec (num : ℕ) (hden : 0 < den) (q : ℤ) :
    0 < (scaledRatio num den q).2 ∧
      ((scaledRatio num den q).1 : ℚ) / (scaledRatio num den q).2 = num / den / 2 ^ q := by
  have hd : (den : ℚ) ≠ 0 := by exact_mod_cast hden.ne'
  unfold scaledRatio
  split
  · next hq =>
    obtain ⟨k, rfl⟩ : ∃ k : ℕ, q = k := ⟨q.toNat, by omega⟩
    refine ⟨Nat.mul_pos hden (Nat.two_pow_pos _), ?_⟩
    simp only [Int.toNat_natCast, Nat.cast_mul, cast_twoTo, zpow_natCast, div_div]
  · next hq =>
    obtain ⟨k, rfl⟩ : ∃ k : ℕ, q = -k := ⟨(-q).toNat, by omega⟩
    refine ⟨hden, ?_⟩
    simp only [neg_neg, Int.toNat_natCast, Nat.cast_mul, cast_twoTo, zpow_neg, zpow_natCast]
    field_simp

/-- The size of a ratio, from the sizes of its numerator and denominator. -/
theorem ratio_bounds (hnum : 0 < num) (hden : 0 < den) :
    2 ^ ((num.log2 : ℤ) - den.log2 - 1) < (num / den : ℚ) ∧
      (num / den : ℚ) < 2 ^ ((num.log2 : ℤ) - den.log2 + 1) := by
  have hd : (0 : ℚ) < den := by exact_mod_cast hden
  have hpow (k : ℕ) : (0 : ℚ) < 2 ^ k := by positivity
  have hnum_ge : (2 ^ num.log2 : ℚ) ≤ num := by exact_mod_cast Nat.log2_self_le hnum.ne'
  have hnum_lt : (num : ℚ) < 2 ^ (num.log2 + 1) := by exact_mod_cast Nat.lt_log2_self
  have hden_ge : (2 ^ den.log2 : ℚ) ≤ den := by exact_mod_cast Nat.log2_self_le hden.ne'
  have hden_lt : (den : ℚ) < 2 ^ (den.log2 + 1) := by exact_mod_cast Nat.lt_log2_self
  have hlow : (2 : ℚ) ^ ((num.log2 : ℤ) - den.log2 - 1) = 2 ^ num.log2 / 2 ^ (den.log2 + 1) := by
    rw [sub_sub, zpow_sub₀ (by norm_num), zpow_natCast]
    norm_cast
  have hhigh : (2 : ℚ) ^ ((num.log2 : ℤ) - den.log2 + 1) = 2 ^ (num.log2 + 1) / 2 ^ den.log2 := by
    rw [sub_add_eq_add_sub, zpow_sub₀ (by norm_num), zpow_natCast]
    norm_cast
  rw [hlow, hhigh, div_lt_div_iff₀ (hpow _) hd, div_lt_div_iff₀ hd (hpow _)]
  constructor
  · calc (2 : ℚ) ^ num.log2 * den < 2 ^ num.log2 * 2 ^ (den.log2 + 1) := mul_lt_mul_of_pos_left hden_lt (hpow _)
      _ ≤ num * 2 ^ (den.log2 + 1) := mul_le_mul_of_nonneg_right hnum_ge (hpow _).le
  · calc (num : ℚ) * 2 ^ den.log2 < 2 ^ (num.log2 + 1) * 2 ^ den.log2 := mul_lt_mul_of_pos_right hnum_lt (hpow _)
      _ ≤ 2 ^ (num.log2 + 1) * den := mul_le_mul_of_nonneg_left hden_ge (hpow _).le

/-- At the chosen exponent the ratio has 53 bits, or fewer and the least exponent. -/
theorem roundingExponent_spec (hnum : 0 < num) (hden : 0 < den) :
    -1074 ≤ roundingExponent num den ∧
      (roundingExponent num den = -1074 ∨ 2 ^ 52 ≤ (num / den / 2 ^ roundingExponent num den : ℚ)) ∧
        (num / den / 2 ^ roundingExponent num den : ℚ) < 2 ^ 53 := by
  obtain ⟨guess, hguess⟩ : ∃ guess : ℤ, guess = num.log2 - den.log2 - 52 := ⟨_, rfl⟩
  obtain ⟨hlow, hhigh⟩ := ratio_bounds hnum hden
  obtain ⟨hpos, hscaled⟩ := scaledRatio_spec num hden guess
  have hexponent : roundingExponent num den = max (-1074)
      (if (scaledRatio num den guess).1 / (scaledRatio num den guess).2 < hiddenBit then guess - 1 else guess) := by
    rw [hguess]
    rfl
  have hcut : (scaledRatio num den guess).1 / (scaledRatio num den guess).2 < hiddenBit ↔
      (num / den / 2 ^ guess : ℚ) < 2 ^ 52 := by
    have hpos' : (0 : ℚ) < (scaledRatio num den guess).2 := by exact_mod_cast hpos
    rw [← hscaled, Nat.div_lt_iff_lt_mul hpos, div_lt_iff₀ hpos', show hiddenBit = 2 ^ 52 from rfl]
    norm_cast
  -- before the bound on the exponent there are exactly 53 bits
  obtain ⟨e, he, hge, hlt⟩ : ∃ e, roundingExponent num den = max (-1074) e ∧
      2 ^ 52 * (2 : ℚ) ^ e ≤ num / den ∧ (num / den : ℚ) < 2 ^ 53 * 2 ^ e := by
    have hunit := two_zpow_pos guess
    have hdouble : (2 : ℚ) ^ guess = 2 * 2 ^ (guess - 1) := by
      have hstep := two_zpow_add (guess - 1) 1
      rwa [Nat.cast_one, sub_add_cancel, pow_one] at hstep
    refine ⟨_, hexponent, ?_⟩
    split
    · next hsmall =>
      rw [hcut, div_lt_iff₀ hunit] at hsmall
      have hbottom : (2 : ℚ) ^ ((num.log2 : ℤ) - den.log2 - 1) = 2 ^ 52 * 2 ^ (guess - 1) := by
        rw [← two_zpow_add]
        congr 1
        push_cast
        omega
      exact ⟨by linarith, by linarith⟩
    · next hlarge =>
      rw [hcut, div_lt_iff₀ hunit, not_lt] at hlarge
      have htop : (2 : ℚ) ^ ((num.log2 : ℤ) - den.log2 + 1) = 2 ^ 53 * 2 ^ guess := by
        rw [← two_zpow_add]
        congr 1
        push_cast
        omega
      exact ⟨hlarge, by linarith⟩
  rw [he]
  refine ⟨le_max_left _ _, ?_, ?_⟩
  · rcases le_total e (-1074) with hle | hle
    · exact .inl (max_eq_left hle)
    · rw [max_eq_right hle, le_div_iff₀ (two_zpow_pos e)]
      exact .inr hge
  · have hmono : (2 : ℚ) ^ e ≤ 2 ^ max (-1074) e := zpow_le_zpow_right₀ (by norm_num) (le_max_right _ _)
    rw [div_lt_iff₀ (two_zpow_pos _)]
    linarith

/-- **The bits are those of the nearest float**, or of infinity. -/
theorem exists_nearestBits (num : ℕ) (hden : 0 < den) :
    ∃ m q, Nearest (num / den) m q ∧
      nearestBits num den = min infinityBits ((q + 1074).toNat * 2 ^ 52 + m) := by
  rcases Nat.eq_zero_or_pos num with rfl | hnum
  · have hzero : IsCanonical 0 (-1074) := ⟨by norm_num, le_rfl, .inl rfl⟩
    refine ⟨0, -1074, by simpa [magnitude] using hzero.nearest, ?_⟩
    rw [nearestBits, if_pos rfl, neg_add_cancel, Int.toNat_zero, Nat.zero_mul, Nat.add_zero, Nat.min_zero]
  · obtain ⟨hleast, hfull, hbits⟩ := roundingExponent_spec hnum hden
    obtain ⟨hpos, hscaled⟩ := scaledRatio_spec num hden (roundingExponent num den)
    obtain ⟨r, hr⟩ : ∃ r, r = roundHalfEven (scaledRatio num den (roundingExponent num den)).1
        (scaledRatio num den (roundingExponent num den)).2 := ⟨_, rfl⟩
    have hround : RoundsTo (num / den / 2 ^ roundingExponent num den) r := by
      rw [hr, ← hscaled]
      exact roundsTo_roundHalfEven hpos
    obtain ⟨m, q, hnearest, hcarry⟩ := nearest_of_roundsTo hround hleast hfull hbits
    rw [div_mul_cancel₀ _ (two_zpow_pos _).ne'] at hnearest
    refine ⟨m, q, hnearest, ?_⟩
    have hsame :
        (roundingExponent num den - minExponent).toNat * hiddenBit + r = (q + 1074).toNat * 2 ^ 52 + m := by
      rw [show hiddenBit = 2 ^ 52 from rfl, show minExponent = -1074 from rfl]
      rcases hcarry with ⟨hm, hq⟩ | ⟨hmany, hm, hq⟩ <;> omega
    rw [nearestBits_of_pos hnum.ne', ← hr, hsame]

/-- **A ratio is turned into the nearest float.** -/
theorem isRounded_nearest (negative : Bool) (num : ℕ) (hden : 0 < den) :
    IsRounded (nearest negative num den) negative (num / den) := by
  obtain ⟨m, q, hnearest, hbits⟩ := exists_nearestBits num hden
  have hm := hnearest.toIsCanonical
  have hlt := hm.bits
  have hleast := hm.least
  have hsign : (if negative then twoTo 63 + nearestBits num den else nearestBits num den) =
      signBits negative + nearestBits num den := by
    have hpow : twoTo 63 = 2 ^ 63 := rfl
    rw [hpow]
    cases negative
    · rw [if_neg Bool.false_ne_true, signBits, if_neg Bool.false_ne_true, Nat.zero_add]
    · rw [if_pos rfl, signBits, if_pos rfl]
  have hinfinity : infinityBits = 2047 * 2 ^ 52 := rfl
  have hvalue : (nearest negative num den).toBits.toNat = signBits negative + nearestBits num den := by
    rw [nearest, hsign]
    apply toBits_ofBits
    · rcases signBits_cases negative with ⟨-, hs⟩ | ⟨-, hs⟩ <;> rw [hs] <;> omega
    · rcases signBits_cases negative with ⟨-, hs⟩ | ⟨-, hs⟩ <;> rw [hs] <;> omega
  refine ⟨m, q, hnearest, ?_⟩
  unfold Binary64.bounded
  split
  · next hq =>
    refine ofFloat_of_toBits ?_ hm hq
    unfold maxExponent at hq
    rw [hvalue, hbits, min_eq_right (by omega)]
  · next hq =>
    have hfull := hm.full
    unfold maxExponent at hq
    apply ofFloat_of_toBits_infinite
    rw [hvalue, hbits, min_eq_left (by omega), hinfinity]

end QueryScore.Decimal
