/-
# QueryScore.Proofs.Score.Count -- counts as floats

A share divides one count by another, both as floats. A count below 2^64 is a positive finite float
unless it is zero (`hasScale_ofCount`): it is rounded to 53 bits, and its exponent stays far from the
bounds. Such a float divided by itself is exactly one (`div_self_float`), so a set scores one
against itself on floats too (`compareSets_self_float`). How large a float is, up to its 53 bits, is
the range of its exponent (`HasScale`).
-/

import Mathlib
import QueryScore.Proofs.Score.Extremes

namespace QueryScore.Score

open Float.Model Float.Model.UnpackedFloat

/-! ## Rounding a positive number -/

theorem mantissa_shiftRight (em : ExtendedMantissa) (k : Nat) : (em >>> k).mantissa = em.mantissa / 2 ^ k := by
  induction k with
  | zero => exact (Nat.div_one _).symm
  | succ k ih =>
    show (em >>> k).mantissa / 2 = _
    rw [ih, Nat.div_div_eq_div_mul, Nat.pow_succ]

theorem targetExponent_binary64 (e : Int) : Format.binary64.targetExponent e = max (e - 53) (-1074) := rfl

theorem roundToNearestEven_cases (m : Nat) (acc : Accuracy) :
    acc.roundToNearestEven m = m ∨ acc.roundToNearestEven m = m + 1 := by
  rcases acc with _ | (_ | _ | _) <;> simp [Accuracy.roundToNearestEven]
  omega

/-- A shift that brings a significand down to 53 bits. -/
theorem shiftToTargetExponent_normal {m : Nat} {e : Int} (acc : Accuracy) (hm : 2 ^ 52 ≤ m)
    (he : -1074 ≤ e) :
    (shiftToTargetExponent .binary64 m e acc).1.mantissa = m / 2 ^ (m.log2 - 52) ∧
      (shiftToTargetExponent .binary64 m e acc).2 = e + (m.log2 - 52 : Nat) := by
  have hlog : 52 ≤ m.log2 := (Nat.le_log2 (by omega)).mpr hm
  have hamount : (Format.binary64.targetExponent (totalExponent m e) - e).toNat = m.log2 - 52 := by
    rw [targetExponent_binary64, totalExponent]
    omega
  simp only [shiftToTargetExponent, shiftToExponent, hamount]
  refine ⟨?_, trivial⟩
  rw [mantissa_shiftRight]
  rcases acc with _ | (_ | _ | _) <;> rfl

/-- Brought down to 53 bits, a significand has exactly that many. -/
theorem log2_shifted {m : Nat} (hm : 2 ^ 52 ≤ m) : (m / 2 ^ (m.log2 - 52)).log2 = 52 := by
  have hne : m ≠ 0 := by omega
  have hlog : 52 ≤ m.log2 := (Nat.le_log2 hne).mpr hm
  obtain ⟨k, hk⟩ := Nat.exists_eq_add_of_le hlog
  obtain ⟨hlow, hhigh⟩ := (Nat.log2_eq_iff hne).mp hk
  rw [hk, Nat.add_sub_cancel_left]
  have hpos : 0 < 2 ^ k := Nat.two_pow_pos k
  have hge : 2 ^ 52 ≤ m / 2 ^ k := (Nat.le_div_iff_mul_le hpos).mpr (by rwa [← Nat.pow_add])
  refine (Nat.log2_eq_iff (by omega)).mpr ⟨hge, (Nat.div_lt_iff_lt_mul hpos).mpr ?_⟩
  rw [← Nat.pow_add]
  convert hhigh using 2
  omega

/-- Rounding keeps a significand of 53 or more bits normal. -/
theorem roundWithAccuracy_normal {m : Nat} {e : Int} (acc : Accuracy) (hm : 2 ^ 52 ≤ m) (he : -1074 ≤ e) :
    ∃ m' e' h, roundWithAccuracy .binary64 .positive m e acc = .finite .positive m' e' h ∧
      m'.log2 = 52 ∧ e + m.log2 - 52 ≤ e' ∧ e' ≤ e + m.log2 - 51 := by
  have hlog : 52 ≤ m.log2 := (Nat.le_log2 (by omega)).mpr hm
  obtain ⟨hmantissa, hexponent⟩ := shiftToTargetExponent_normal acc hm he
  have hnormal := log2_shifted hm
  set first := shiftToTargetExponent .binary64 m e acc
  rw [← hmantissa] at hnormal
  obtain ⟨hlow, hhigh⟩ := (Nat.log2_eq_iff (by intro h; simp [h] at hnormal)).mp hnormal
  have hround := roundToNearestEven_cases first.1.mantissa first.1.accuracy
  set rounded := first.1.accuracy.roundToNearestEven first.1.mantissa
  have hge : 2 ^ 52 ≤ rounded := by omega
  have hbits : rounded.log2 < 54 := (Nat.log2_lt (by omega)).mpr (by omega)
  obtain ⟨hmantissa', hexponent'⟩ := shiftToTargetExponent_normal .exact hge (e := first.2) (by omega)
  have hnormal' := log2_shifted hge
  set second := shiftToTargetExponent .binary64 rounded first.2 .exact
  rw [← hmantissa'] at hnormal'
  have hne : second.1.mantissa ≠ 0 := by
    intro h
    simp [h] at hnormal'
  have hresult : roundWithAccuracy .binary64 .positive m e acc =
      if h : second.1.mantissa = 0 then .zero .positive
      else .finite .positive second.1.mantissa second.2 (Nat.pos_of_ne_zero h) := rfl
  exact ⟨_, _, Nat.pos_of_ne_zero hne, by rw [hresult, dif_neg hne], hnormal', by omega, by omega⟩

/-! ## Bits of a normal float -/

/-- The value of a normal float is read back from its bits. -/
theorem unpack_pack_normal {m : Nat} {e : Int} {h : 0 < m} (hm : m.log2 = 52) (hlow : -1074 ≤ e)
    (hhigh : e < 972) :
    ∃ m' h', 2 ^ 52 ≤ m' ∧ m' < 2 ^ 53 ∧ (Float.Model.pack (.finite .positive m e h)).unpack = .finite .positive m' e h' := by
  obtain ⟨b, hb⟩ : ∃ b : Nat, (e + 1075 : Int) = b := ⟨(e + 1075).toNat, by omega⟩
  have hpack : UnpackedFloat.pack .binary64 (.finite .positive m e h) =
      packComponents .binary64 .positive (BitVec.ofNat 11 b) (BitVec.ofNat 52 m) := by
    have hbias : (e + (1023 : Nat) + (52 : Nat)).toNat = b := by omega
    have hpow : (2 : Nat) ^ 11 = 2048 := rfl
    show (if 2 ^ 11 ≤ (e + (1023 : Nat) + (52 : Nat)).toNat + 1 then _ else if m.log2 + 1 = 53 then
      packComponents .binary64 .positive (BitVec.ofNat 11 (e + (1023 : Nat) + (52 : Nat)).toNat) (BitVec.ofNat 52 m)
      else _) = _
    rw [hbias, if_neg (by omega), if_pos (by omega)]
  have hexponent : (BitVec.ofNat 11 b).toNat = b := by
    rw [BitVec.toNat_ofNat, Nat.mod_eq_of_lt (by omega)]
  rw [Float.Model.unpack, Float.Model.pack, UInt64.toBitVec_ofBitVec, hpack]
  simp only [UnpackedFloat.unpack, unpackExponent_packComponents, unpackMantissa_packComponents,
    unpackSign_packComponents]
  have hnan : BitVec.ofNat 11 b ≠ -1#11 := by
    intro hb'
    have hall : (BitVec.ofNat 11 b).toNat = (-1#11).toNat := by rw [hb']
    rw [hexponent, show (-1#11).toNat = 2047 from rfl] at hall
    omega
  have hzero : BitVec.ofNat 11 b ≠ 0#11 := by
    intro hb'
    have hall : (BitVec.ofNat 11 b).toNat = (0#11).toNat := by rw [hb']
    rw [hexponent, show (0#11).toNat = 0 from rfl] at hall
    omega
  have hmantissa : 2 ^ 52 ≤ (1#1 ++ BitVec.ofNat 52 m).toNat := by
    rw [BitVec.toNat_append]
    exact Nat.left_le_or
  have he : (b : Int) - (1023 + 52) = e := by omega
  refine ⟨_, by omega, hmantissa, (1#1 ++ BitVec.ofNat 52 m).isLt, ?_⟩
  rw [if_neg hnan, if_neg hzero]
  show finite .positive (1#1 ++ BitVec.ofNat 52 m).toNat ((BitVec.ofNat 11 b).toNat - ((1023 : Nat) + (52 : Nat))) _ = _
  congr
  rw [hexponent]
  exact he

/-- **`HasScale low high x`** -- a positive float of 53 bits, whose exponent lies in these bounds. -/
def HasScale (low high : Int) (x : Float) : Prop :=
  ∃ m e h, x.toModel.unpack = .finite .positive m e h ∧ 2 ^ 52 ≤ m ∧ m < 2 ^ 53 ∧ low ≤ e ∧ e ≤ high

/-- A number rounded to a float is positive and finite, if it is neither too small nor too large. -/
theorem hasScale_pack_round {m j k : Nat} {e : Int} (acc : Accuracy) (hj : 52 ≤ j) (hm : 2 ^ j ≤ m) (hk : m < 2 ^ k)
    (he : -1074 ≤ e) (hhigh : e + k < 1024) :
    HasScale (e + j - 52) (e + k - 52) ⟨.pack (roundWithAccuracy .binary64 .positive m e acc)⟩ := by
  have hpos : 0 < 2 ^ j := Nat.two_pow_pos j
  have hnormal : 2 ^ 52 ≤ m := Nat.le_trans (Nat.pow_le_pow_right (by decide) hj) hm
  obtain ⟨m', e', h, hround, hlog, hlow, hle⟩ := roundWithAccuracy_normal acc hnormal he
  have hbits : m.log2 < k := (Nat.log2_lt (by omega)).mpr hk
  have hbits' : j ≤ m.log2 := (Nat.le_log2 (by omega)).mpr hm
  obtain ⟨m'', h'', hge, hlt, hunpack⟩ := unpack_pack_normal (e := e') (h := h) hlog (by omega) (by omega)
  exact ⟨m'', e', h'', by rw [hround, hunpack], hge, hlt, by omega, by omega⟩

theorem HasScale.mono {low high low' high' : Int} {x : Float} (h : HasScale low high x) (hlow : low' ≤ low)
    (hhigh : high ≤ high') : HasScale low' high' x := by
  obtain ⟨m, e, hm, hunpack, hge, hlt, hle, hle'⟩ := h
  exact ⟨m, e, hm, hunpack, hge, hlt, by omega, by omega⟩

/-! ## A float divided by itself -/

/-- A significand divided by itself. -/
theorem divCore_self {m : Nat} (h : 0 < m) (e : Int) : divCore .binary64 m e m e = (2 ^ 53, -53, .exact) := by
  have htarget : min (e - e) (Format.binary64.targetExponent (totalExponent m e - totalExponent m e)) = -53 := by
    rw [Int.sub_self, Int.sub_self]
    rfl
  have hshift : m <<< (e - e - (-53)).toNat = 2 ^ 53 * m := by
    rw [Int.sub_self, Nat.shiftLeft_eq, Nat.mul_comm]
    rfl
  rw [divCore, htarget, hshift, Nat.mul_div_cancel _ h, Nat.mul_mod_left]
  rfl

/-- **A positive finite float divided by itself is one.** -/
theorem div_self_float {x : Float} {m : Nat} {e : Int} {h : 0 < m}
    (hx : x.toModel.unpack = .finite .positive m e h) : x / x = Scalar.ofCount 1 := by
  show (⟨.pack (UnpackedFloat.div .binary64 x.toModel.unpack x.toModel.unpack)⟩ : Float) = _
  rw [hx, UnpackedFloat.div, divCore_self h]
  decide +kernel

/-! ## Counts -/

theorem unpack_one : (Float.ofBits 0x3FF0000000000000).toModel.unpack = .finite .positive (2 ^ 52) (-52) (by decide) := by
  rfl

/-- A 64-bit count, rounded to a float. -/
theorem hasScale_toFloat {n : Nat} (hpos : 0 < n) (hn : n < 2 ^ 64) :
    HasScale (n.log2 - 52) (n.log2 - 51) n.toUInt64.toFloat := by
  have hcount : n.toUInt64.toNat = n := Nat.mod_eq_of_lt hn
  have hlow := Nat.log2_self_le (by omega : n ≠ 0)
  have hhigh : n < 2 ^ (n.log2 + 1) := Nat.lt_log2_self
  have hbits : n.log2 < 64 := (Nat.log2_lt (by omega)).mpr hn
  have htarget : Format.binary64.targetExponent (totalExponent n 0) = (n.log2 : Int) - 52 := by
    rw [targetExponent_binary64, totalExponent]
    omega
  have hround : UnpackedFloat.ofNat .binary64 n =
      roundWithAccuracy .binary64 .positive (n <<< (52 - n.log2)) (-(52 - n.log2 : Nat)) .exact := by
    have hsign : compare (n : Int) 0 = .gt := by
      rw [compare_gt_iff_gt]
      omega
    have hshift : (-((n.log2 : Int) - 52)).toNat = 52 - n.log2 := by omega
    simp only [UnpackedFloat.ofNat, UnpackedFloat.ofInt, UnpackedFloat.normalize, hsign, UnpackedFloat.round,
      decreaseExponent, Int.toNat_natCast, htarget, hshift, Int.zero_sub]
  have hshifted : 2 ^ (n.log2 + (52 - n.log2)) ≤ n <<< (52 - n.log2) ∧
      n <<< (52 - n.log2) < 2 ^ (n.log2 + 1 + (52 - n.log2)) := by
    rw [Nat.shiftLeft_eq, Nat.pow_add, Nat.pow_add 2 (n.log2 + 1)]
    exact ⟨Nat.mul_le_mul_right _ hlow, Nat.mul_lt_mul_of_pos_right hhigh (Nat.two_pow_pos _)⟩
  have hscale := hasScale_pack_round .exact (by omega) hshifted.1 hshifted.2 (e := -(52 - n.log2 : Nat)) (by omega)
    (by omega)
  have hfloat : n.toUInt64.toFloat = ⟨.pack (UnpackedFloat.ofNat .binary64 n)⟩ := by
    show (⟨.pack (UnpackedFloat.ofNat .binary64 n.toUInt64.toNat)⟩ : Float) = _
    rw [hcount]
  rw [hfloat, hround]
  exact hscale.mono (by omega) (by omega)

/-- **Counts below 2^64 are positive finite floats**, unless they are zero. -/
theorem hasScale_ofCount {n : Nat} (hpos : 0 < n) (hn : n < 2 ^ 64) :
    HasScale (n.log2 - 52) (n.log2 - 49) (Scalar.ofCount n) := by
  have hlow := Nat.log2_self_le (by omega : n ≠ 0)
  have hhigh : n < 2 ^ (n.log2 + 1) := Nat.lt_log2_self
  have hbits : n.log2 < 64 := (Nat.log2_lt (by omega)).mpr hn
  show HasScale _ _ (Float.ofScientific n false 0)
  rw [Float.ofScientific]
  by_cases hsmall : n < 2 ^ 53
  · rw [dif_pos ⟨hsmall, by decide⟩]
    obtain ⟨m, e, h, hunpack, hge, hlt, hlow, hle⟩ := hasScale_toFloat hpos hn
    have hscale := hasScale_pack_round .exact (m := m * 2 ^ 52) (j := 104) (k := 105) (e := e + -52) (by omega) (by omega)
      (by omega) (by omega) (by omega)
    have hproduct : n.toUInt64.toFloat * Float.ofBits 0x3FF0000000000000 =
        ⟨.pack (roundWithAccuracy .binary64 .positive (m * 2 ^ 52) (e + -52) .exact)⟩ := by
      show (⟨.pack (UnpackedFloat.mul .binary64 n.toUInt64.toFloat.toModel.unpack
        (Float.ofBits 0x3FF0000000000000).toModel.unpack)⟩ : Float) = _
      rw [hunpack, unpack_one]
      rfl
    show HasScale _ _ (n.toUInt64.toFloat * Float.ofBits 0x3FF0000000000000)
    rw [hproduct]
    exact hscale.mono (by omega) (by omega)
  · rw [dif_neg (by omega)]
    have hscale := hasScale_pack_round .exact (m := n <<< 53 * 1) (j := n.log2 + 53) (k := n.log2 + 1 + 53)
      (e := -53 + 0) (by omega)
      (by rw [Nat.shiftLeft_eq, Nat.mul_one, Nat.pow_add]; exact Nat.mul_le_mul_right _ hlow)
      (by rw [Nat.shiftLeft_eq, Nat.mul_one, Nat.pow_add]; exact Nat.mul_lt_mul_of_pos_right hhigh (Nat.two_pow_pos _))
      (by omega) (by omega)
    have hnotSmall : ¬(0 : Int) < -((2 : Int) ^ 11 + n.log2) := by omega
    have hround : UnpackedFloat.ofScientific .binary64 n 0 =
        roundWithAccuracy .binary64 .positive (n <<< 53 * 1) (-53 + 0) .exact := by
      rw [UnpackedFloat.ofScientific, dif_neg (by omega), if_neg (by decide), if_neg hnotSmall, if_pos (by decide)]
      rfl
    show HasScale _ _ ⟨.pack (UnpackedFloat.ofScientific .binary64 n 0)⟩
    rw [hround]
    exact hscale.mono (by omega) (by omega)

/-! ## Everything generated, on floats -/

theorem share_self_float {n : Nat} (hpos : 0 < n) (hn : n < 2 ^ 64) :
    share (Scalar.ofCount n) (Scalar.ofCount n) = (Scalar.ofCount 1 : Float) := by
  obtain ⟨m, e, h, hunpack, -⟩ := hasScale_ofCount hpos hn
  have hlt : UnpackedFloat.lt (Scalar.zero : Float).toModel.unpack (Scalar.ofCount n : Float).toModel.unpack = true := by
    rw [unpack_zero, hunpack]
    rfl
  have hpositive : (Scalar.zero : Float) < Scalar.ofCount n := decide_eq_true hlt
  rw [share, if_pos hpositive]
  exact div_self_float hunpack

theorem harmonicMean_one_float :
    harmonicMean (Scalar.ofCount 1) (Scalar.ofCount 1) = (Scalar.ofCount 1 : Float) := by
  decide +kernel

variable {β : Type} [Ord β] [DecidableEq β]

/-- **A set that has members scores one against itself**, on floats as in exact arithmetic. -/
theorem compareSets_self_float {s : SortedSet β} (h : s.isEmpty = false) (hsize : s.size < 2 ^ 64) :
    compareSets s s = (⟨Scalar.ofCount 1, Scalar.ofCount 1, Scalar.ofCount 1⟩ : SetScores Float) := by
  have hpos : 0 < s.size := by
    apply Nat.pos_of_ne_zero
    intro hzero
    rw [(isEmpty_iff_size s).mpr hzero] at h
    cases h
  simp only [compareSets, overlap_self, share_self_float hpos hsize, harmonicMean_one_float]

end QueryScore.Score
