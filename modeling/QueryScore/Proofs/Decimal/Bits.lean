/-
# QueryScore.Proofs.Decimal.Bits -- the fields of a float

The exact view of a float (`Binary64.ofFloat`), its bits and what it is unpacked to carry the same
information: sign, exponent and significand are the fields of one number (`ofFloat_of_toBits`), and the
view is the unpacked float (`ofFloat_eq_view`). The significand and the exponent of a finite float are
canonical, and packing them gives the float back (`ofFloat_pack`); an exponent that is too large gives
an infinity.
-/

import Mathlib
import QueryScore.Proofs.Decimal.Nearest

namespace QueryScore.Decimal

open Float.Model Float.Model.UnpackedFloat

variable {m : ℕ} {q : ℤ} {x : Float} {negative : Bool}

/-! ## Fields -/

theorem toNat_unpackExponent (b : BitVec Format.binary64.numBits) :
    (unpackExponent b).toNat = b.toNat / 2 ^ 52 % 2048 := by
  show (BitVec.extractLsb 62 52 b).toNat = _
  rw [BitVec.extractLsb_toNat, Nat.shiftRight_eq_div_pow]

theorem toNat_unpackMantissa (b : BitVec Format.binary64.numBits) :
    (unpackMantissa b).toNat = b.toNat % 2 ^ 52 := by
  show (BitVec.extractLsb 51 0 b).toNat = _
  rw [BitVec.extractLsb_toNat, Nat.shiftRight_zero]

theorem toNat_unpackSign (b : BitVec Format.binary64.numBits) :
    (unpackSign b).toNat = b.toNat / 2 ^ 63 := by
  show (BitVec.extractLsb 63 63 b).toNat = _
  have hb : b.toNat < 2 ^ 64 := b.isLt
  rw [BitVec.extractLsb_toNat, Nat.shiftRight_eq_div_pow]
  omega

theorem toNat_packComponents (s : Sign) (e : BitVec 11) (f : BitVec 52) :
    (packComponents .binary64 s e f).toNat = s.toBitVec.toNat * 2 ^ 63 + e.toNat * 2 ^ 52 + f.toNat := by
  show (s.toBitVec ++ e ++ f).toNat = _
  rw [BitVec.toNat_append, BitVec.toNat_append, ← Nat.shiftLeft_add_eq_or_of_lt f.isLt,
    ← Nat.shiftLeft_add_eq_or_of_lt e.isLt, Nat.shiftLeft_eq, Nat.shiftLeft_eq]
  omega

/-- The sign as the view has it. -/
def isNegative : Sign → Bool
  | .positive => false
  | .negative => true

/-- The sign bit at its place. -/
def signBits (negative : Bool) : ℕ := if negative then 2 ^ 63 else 0

/-- The largest exponent of a finite float. -/
def maxExponent : ℤ := 971

/-- **`Binary64.bounded negative m q`** -- a float of any size, an infinity in place of one too large. -/
def Binary64.bounded (negative : Bool) (m : ℕ) (q : ℤ) : Binary64 :=
  if q ≤ maxExponent then .finite negative m q else .infinite negative

/-- A float is viewed as it is unpacked. -/
def view : UnpackedFloat → Binary64
  | .infinity s => .infinite (isNegative s)
  | .notANumber => .nan
  | .zero s => .finite (isNegative s) 0 minExponent
  | .finite s m q _ => .finite (isNegative s) m q

theorem toNat_toBitVec_sign (s : Sign) : s.toBitVec.toNat * 2 ^ 63 = signBits (isNegative s) := by
  cases s <;> rfl

theorem signBits_cases (negative : Bool) :
    (negative = false ∧ signBits negative = 0) ∨ (negative = true ∧ signBits negative = 2 ^ 63) := by
  cases negative <;> simp [signBits]

/-- **The exact view is the unpacked float.** -/
theorem ofFloat_eq_view (x : Float) : Binary64.ofFloat x = view x.toModel.unpack := by
  obtain ⟨b, hb⟩ : ∃ b : BitVec Format.binary64.numBits, b = x.toModel.toBits.toBitVec := ⟨_, rfl⟩
  have hbits : x.toBits.toNat = b.toNat := by rw [hb]; rfl
  have hexponent := toNat_unpackExponent b
  have hmantissa := toNat_unpackMantissa b
  have hsign := toNat_unpackSign b
  have hnegative : decide (2 ^ 63 ≤ b.toNat) = isNegative (Sign.ofBitVec (unpackSign b)) := by
    rw [Sign.ofBitVec]
    split
    · next hpositive =>
      rw [hpositive] at hsign
      have hzero : (0#1).toNat = 0 := rfl
      exact decide_eq_false (by omega)
    · next hother =>
      have hone : (unpackSign b).toNat ≠ 0 := fun h => hother (BitVec.eq_of_toNat_eq h)
      exact decide_eq_true (by omega)
  have hones : unpackExponent b = -1#11 ↔ b.toNat / 2 ^ 52 % 2048 = 2047 := by
    rw [← hexponent]
    exact ⟨fun h => by rw [h]; rfl, fun h => BitVec.eq_of_toNat_eq h⟩
  have hzero : unpackExponent b = 0#11 ↔ b.toNat / 2 ^ 52 % 2048 = 0 := by
    rw [← hexponent]
    exact ⟨fun h => by rw [h]; rfl, fun h => BitVec.eq_of_toNat_eq h⟩
  have hempty : unpackMantissa b = 0#52 ↔ b.toNat % 2 ^ 52 = 0 := by
    rw [← hmantissa]
    exact ⟨fun h => by rw [h]; rfl, fun h => BitVec.eq_of_toNat_eq h⟩
  rw [Float.Model.unpack, ← hb, UnpackedFloat.unpack]
  simp only [Binary64.ofFloat, hbits, show hiddenBit = 2 ^ 52 from rfl,
    show twoTo 63 = 2 ^ 63 from rfl, hnegative]
  by_cases hall : b.toNat / 2 ^ 52 % 2048 = 2047
  · rw [if_pos hall, if_pos (hones.mpr hall)]
    by_cases hnone : b.toNat % 2 ^ 52 = 0
    · rw [if_pos hnone, if_pos (hempty.mpr hnone)]
      rfl
    · rw [if_neg hnone, if_neg (mt hempty.mp hnone)]
      rfl
  · rw [if_neg hall, if_neg (mt hones.mp hall)]
    by_cases hsub : b.toNat / 2 ^ 52 % 2048 = 0
    · rw [if_pos hsub, if_pos (hzero.mpr hsub)]
      by_cases hnone : b.toNat % 2 ^ 52 = 0
      · rw [dif_pos (hempty.mpr hnone), hnone]
        rfl
      · rw [dif_neg (mt hempty.mp hnone)]
        show _ = Binary64.finite _ _ _
        rw [hmantissa, hexponent, hsub]
        rfl
    · rw [if_neg hsub, if_neg (mt hzero.mp hsub)]
      have hlt : b.toNat % 2 ^ 52 < 2 ^ 52 := Nat.mod_lt _ (by decide)
      have hfull : (1#1 ++ unpackMantissa b).toNat = 2 ^ 52 + b.toNat % 2 ^ 52 := by
        rw [BitVec.toNat_append, hmantissa]
        exact (Nat.shiftLeft_add_eq_or_of_lt hlt 1).symm
      have hbias : (Format.binary64.exponentBias : ℤ) = 1023 := rfl
      show _ = Binary64.finite _ _ _
      rw [hfull, hexponent, hbias, minExponent]
      congr 1
      push_cast
      ring

/-- The significand and the exponent of a finite float. -/
theorem canonical_of_ofFloat (h : Binary64.ofFloat x = .finite negative m q) :
    IsCanonical m q ∧ q ≤ maxExponent := by
  simp only [Binary64.ofFloat, show hiddenBit = 2 ^ 52 from rfl] at h
  split at h
  · split at h <;> cases h
  · split at h
    · cases h
      exact ⟨⟨by omega, le_rfl, .inl rfl⟩, by decide⟩
    · cases h
      exact ⟨⟨by omega, by unfold minExponent; omega, .inr (by omega)⟩, by unfold minExponent maxExponent; omega⟩

/-- **The fields of a float in one number.** -/
theorem ofFloat_of_toBits (h : x.toBits.toNat = signBits negative + ((q + 1074).toNat * 2 ^ 52 + m))
    (hm : IsCanonical m q) (hq : q ≤ maxExponent) : Binary64.ofFloat x = .finite negative m q := by
  obtain ⟨k, rfl⟩ : ∃ k : ℕ, q = k - 1074 := ⟨(q + 1074).toNat, by have := hm.least; omega⟩
  have hk : ((k : ℤ) - 1074 + 1074).toNat = k := by omega
  have hbits := hm.bits
  have hle : k ≤ 2045 := by unfold maxExponent at hq; omega
  rw [hk] at h
  have hsign : decide (2 ^ 63 ≤ x.toBits.toNat) = negative := by
    rcases signBits_cases negative with ⟨rfl, hs⟩ | ⟨rfl, hs⟩ <;> rw [hs] at h <;> simp <;> omega
  simp only [Binary64.ofFloat, show hiddenBit = 2 ^ 52 from rfl, show twoTo 63 = 2 ^ 63 from rfl, hsign]
  have hfull := hm.full
  rcases Nat.lt_or_ge m (2 ^ 52) with hsub | hnormal
  · obtain rfl : k = 0 := by omega
    have hfield : x.toBits.toNat / 2 ^ 52 % 2048 = 0 := by
      rcases signBits_cases negative with ⟨-, hs⟩ | ⟨-, hs⟩ <;> rw [hs] at h <;> omega
    have hfraction : x.toBits.toNat % 2 ^ 52 = m := by
      rcases signBits_cases negative with ⟨-, hs⟩ | ⟨-, hs⟩ <;> rw [hs] at h <;> omega
    rw [hfield, hfraction]
    rfl
  · have hfield : x.toBits.toNat / 2 ^ 52 % 2048 = k + 1 := by
      rcases signBits_cases negative with ⟨-, hs⟩ | ⟨-, hs⟩ <;> rw [hs] at h <;> omega
    have hfraction : 2 ^ 52 + x.toBits.toNat % 2 ^ 52 = m := by
      rcases signBits_cases negative with ⟨-, hs⟩ | ⟨-, hs⟩ <;> rw [hs] at h <;> omega
    rw [hfield, hfraction, if_neg (by omega), if_neg (by omega), minExponent]
    congr 1
    push_cast
    ring

/-- The bits of a finite float. -/
theorem toBits_of_ofFloat (h : Binary64.ofFloat x = .finite negative m q) :
    x.toBits.toNat = signBits negative + ((q + 1074).toNat * 2 ^ 52 + m) := by
  have hlt : x.toBits.toNat < 2 ^ 64 := x.toBits.toNat_lt
  simp only [Binary64.ofFloat, show hiddenBit = 2 ^ 52 from rfl, show twoTo 63 = 2 ^ 63 from rfl,
    show minExponent = -1074 from rfl] at h
  have hsign (hdecide : decide (2 ^ 63 ≤ x.toBits.toNat) = negative) :
      signBits negative = x.toBits.toNat / 2 ^ 63 * 2 ^ 63 := by
    rcases signBits_cases negative with ⟨rfl, hs⟩ | ⟨rfl, hs⟩ <;> simp at hdecide <;> omega
  split at h
  · split at h <;> cases h
  · split at h
    · injection h with hdecide hm hq
      have hbits := hsign hdecide
      omega
    · injection h with hdecide hm hq
      have hbits := hsign hdecide
      omega

/-- Finite floats are told apart by their views. -/
theorem eq_of_ofFloat {y : Float} (hx : Binary64.ofFloat x = .finite negative m q)
    (hy : Binary64.ofFloat y = .finite negative m q) : x = y := by
  apply Float.toBits_inj.mp
  apply UInt64.toNat_inj.mp
  rw [toBits_of_ofFloat hx, toBits_of_ofFloat hy]

theorem ofFloat_of_toBits_infinite (h : x.toBits.toNat = signBits negative + 2047 * 2 ^ 52) :
    Binary64.ofFloat x = .infinite negative := by
  have hsign : decide (2 ^ 63 ≤ x.toBits.toNat) = negative := by
    rcases signBits_cases negative with ⟨rfl, hs⟩ | ⟨rfl, hs⟩ <;> rw [hs] at h <;> simp <;> omega
  have hfield : x.toBits.toNat / 2 ^ 52 % 2048 = 2047 := by
    rcases signBits_cases negative with ⟨-, hs⟩ | ⟨-, hs⟩ <;> rw [hs] at h <;> omega
  have hfraction : x.toBits.toNat % 2 ^ 52 = 0 := by
    rcases signBits_cases negative with ⟨-, hs⟩ | ⟨-, hs⟩ <;> rw [hs] at h <;> omega
  simp only [Binary64.ofFloat, show hiddenBit = 2 ^ 52 from rfl, show twoTo 63 = 2 ^ 63 from rfl,
    hsign, hfield, hfraction,
    if_true]

/-- **Packing keeps the sign, and the significand and exponent of a float.** -/
theorem ofFloat_pack (s : Sign) (h : 0 < m) (hm : IsCanonical m q) :
    Binary64.ofFloat ⟨.pack (.finite s m q h)⟩ = .bounded (isNegative s) m q := by
  obtain ⟨k, rfl⟩ : ∃ k : ℕ, q = k - 1074 := ⟨(q + 1074).toNat, by have := hm.least; omega⟩
  have hbits := hm.bits
  have hbiased : ((k : ℤ) - 1074 + (Format.binary64.exponentBias : ℕ) + (52 : ℕ)).toNat = k + 1 := by
    have hbias : Format.binary64.exponentBias = 1023 := rfl
    rw [hbias]
    omega
  have htoNat (u : UnpackedFloat) :
      (⟨.pack u⟩ : Float).toBits.toNat = (UnpackedFloat.pack .binary64 u).toNat := rfl
  have hpack : UnpackedFloat.pack .binary64 (.finite s m (k - 1074) h) =
      if 2 ^ 11 ≤ k + 1 + 1 then packedInfinity .binary64 s
      else if m.log2 + 1 = 53 then packComponents .binary64 s (BitVec.ofNat 11 (k + 1)) (BitVec.ofNat 52 m)
      else packComponents .binary64 s 0#11 (BitVec.ofNat 52 m) := by
    rw [← hbiased]
    rfl
  unfold Binary64.bounded maxExponent
  by_cases hlarge : 2 ^ 11 ≤ k + 1 + 1
  · rw [if_neg (by omega)]
    apply ofFloat_of_toBits_infinite
    rw [htoNat, hpack, if_pos hlarge, packedInfinity, toNat_packComponents, toNat_toBitVec_sign]
    rfl
  · rw [if_pos (by omega)]
    refine ofFloat_of_toBits ?_ hm (by unfold maxExponent; omega)
    rw [htoNat, hpack, if_neg hlarge]
    have hexponent : ((k : ℤ) - 1074 + 1074).toNat = k := by omega
    have hfield : (BitVec.ofNat 11 (k + 1)).toNat = k + 1 := by
      rw [BitVec.toNat_ofNat, Nat.mod_eq_of_lt (by omega)]
    have hfraction : (BitVec.ofNat 52 m).toNat = m % 2 ^ 52 := BitVec.toNat_ofNat ..
    rw [hexponent]
    rcases Nat.lt_or_ge m (2 ^ 52) with hsub | hnormal
    · have hlog : m.log2 < 52 := (Nat.log2_lt h.ne').mpr hsub
      have hleast : k = 0 := by have := hm.full; omega
      rw [if_neg (by omega), toNat_packComponents, toNat_toBitVec_sign, hfraction,
        Nat.mod_eq_of_lt hsub, hleast]
      show _ + 0 * 2 ^ 52 + m = _
      omega
    · have hlog : m.log2 = 52 := (Nat.log2_eq_iff h.ne').mpr ⟨hnormal, hbits⟩
      rw [if_pos (by omega), toNat_packComponents, toNat_toBitVec_sign, hfield, hfraction]
      omega

theorem ofFloat_pack_zero (s : Sign) :
    Binary64.ofFloat ⟨.pack (.zero s)⟩ = .finite (isNegative s) 0 minExponent := by
  cases s <;> rfl

/-- Bits that are not those of a NaN are kept. -/
theorem toBits_ofBits {b : ℕ} (hb : b < 2 ^ 64) (h : b / 2 ^ 52 % 2048 = 2047 → b % 2 ^ 52 = 0) :
    (Float.ofBits (UInt64.ofNat b)).toBits.toNat = b := by
  have hvec : (UInt64.ofNat b).toBitVec.toNat = b := Nat.mod_eq_of_lt hb
  have hkept : @isNaNBits Format.binary64 (UInt64.ofNat b).toBitVec = false := by
    rw [isNaNBits, decide_eq_false_iff_not]
    rintro ⟨hones, hsome⟩
    apply hsome
    apply BitVec.eq_of_toNat_eq
    have hexponent := toNat_unpackExponent (UInt64.ofNat b).toBitVec
    rw [hones, hvec] at hexponent
    rw [toNat_unpackMantissa, hvec]
    exact h hexponent.symm
  show (UnpackedFloat.pack .binary64 (UnpackedFloat.unpack .binary64 (UInt64.ofNat b).toBitVec)).toNat = b
  rw [pack_unpack, hkept]
  exact hvec

end QueryScore.Decimal
