/-
# QueryScore.Proofs.Score.Rounded -- normalizing a scalar twice

A canonical scalar should be its own canonical form. Texts, integers and missing values are
(`normalizeScalar_str_settled`), and so is the text that stands in for a float too large to be scaled. A
float is first asked whether it is whole and then rounded, so that one which only becomes whole by rounding
is a float after the first normalization and an integer after the second; no other change is left
(`normalizeScalar_twice`), outside the stretch of magnitudes in which scaling up and down is too coarse.
-/

import QueryScore.Proofs.Decimal.Plain
import QueryScore.Proofs.Decimal.Rescaled
import QueryScore.Proofs.Score.Whole

namespace QueryScore.Score

open Decimal Json Text
open Float.Model (UnpackedFloat)
open Float.Model.UnpackedFloat (Sign)

variable {x : Float} {negative : Bool} {m n p : ℕ} {q s t : ℤ} {v w : ℚ}

/-! ## Six places -/

theorem ofFloat_unitsPerOne : Binary64.ofFloat unitsPerOne = .finite false (10 ^ 6 * 2 ^ 33) (-33) := by
  decide +kernel

theorem magnitude_unitsPerOne : magnitude (10 ^ 6 * 2 ^ 33) (-33) = 10 ^ 6 := by
  unfold magnitude
  norm_num

/-- **`fromUnits negative r`** -- so many millionths, as a float. -/
def fromUnits (negative : Bool) (r : ℕ) : Float := nearest negative r 1 / unitsPerOne

/-- The millionths of a float, rounded. -/
theorem isRounded_scaled (h : Binary64.ofFloat x = .finite negative m q) :
    IsRounded (x * unitsPerOne) negative (magnitude m q * 10 ^ 6) := by
  have hproduct := isRounded_mul h ofFloat_unitsPerOne
  rwa [Bool.bne_false, magnitude_unitsPerOne] at hproduct

/-- Six places are the whole millionths. -/
theorem roundSixPlaces_of_scaled (h : Binary64.ofFloat (x * unitsPerOne) = .finite negative p t) :
    roundSixPlaces x = fromUnits negative (wholePart p t) := by
  rw [roundSixPlaces, roundAwayFromZero, h]
  rfl

/-- Whole millionths of a float are a float. -/
theorem exists_fromUnits (negative : Bool) (h : IsCanonical p t) (ht : t ≤ maxExponent) :
    ∃ n s, Nearest (wholePart p t / 10 ^ 6) n s ∧
      Binary64.ofFloat (fromUnits negative (wholePart p t)) = .finite negative n s := by
  obtain ⟨a, b, hc, hb, hvalue⟩ := exists_canonical_wholePart h
  have hlimit : b ≤ maxExponent := hb.trans (max_le ht (by decide))
  have hwhole : IsRounded (nearest negative (wholePart p t) 1) negative (magnitude a b) := by
    rw [hvalue]
    have hnearest := isRounded_nearest negative (wholePart p t) Nat.one_pos
    rwa [Nat.cast_one, div_one] at hnearest
  have hquotient := isRounded_div (hwhole.ofFloat_eq hc hlimit) ofFloat_unitsPerOne (by norm_num)
  rw [Bool.bne_false, magnitude_unitsPerOne, hvalue] at hquotient
  apply hquotient.exists_finite hc hlimit
  rw [hvalue]
  exact div_le_self (Nat.cast_nonneg _) (by norm_num)

/-! ## Floats without a value -/

theorem isFinite_iff : isFinite x = true ↔ ∃ negative m q, Binary64.ofFloat x = .finite negative m q := by
  rw [isFinite]
  cases hview : Binary64.ofFloat x <;> simp

theorem value?_of_not_isFinite (h : isFinite x = false) : value? x = none := by
  rw [value?]
  rw [isFinite] at h
  cases hview : Binary64.ofFloat x with
  | finite => rw [hview] at h; cases h
  | infinite | nan => rfl

theorem not_isFinite_pack_infinity (s : Sign) : isFinite ⟨.pack (.infinity s)⟩ = false := by
  cases s <;> rfl

theorem not_isFinite_pack_nan : isFinite ⟨.pack .notANumber⟩ = false := rfl

/-- Scaling makes nothing finite. -/
theorem not_isFinite_scaled (h : isFinite x = false) :
    isFinite (x * unitsPerOne) = false ∧ isFinite (x / unitsPerOne) = false := by
  have hmul :
      x * unitsPerOne = ⟨.pack (UnpackedFloat.mul .binary64 x.toModel.unpack unitsPerOne.toModel.unpack)⟩ := rfl
  have hdiv :
      x / unitsPerOne = ⟨.pack (UnpackedFloat.div .binary64 x.toModel.unpack unitsPerOne.toModel.unpack)⟩ := rfl
  rcases unpack_of_ofFloat ofFloat_unitsPerOne with ⟨s, -, hzero, -⟩ | ⟨s, hm, -, hunits⟩
  · norm_num at hzero
  rw [hmul, hdiv, hunits]
  rw [isFinite, ofFloat_eq_view] at h
  cases hx : x.toModel.unpack with
  | infinity s => exact ⟨not_isFinite_pack_infinity _, not_isFinite_pack_infinity _⟩
  | notANumber => exact ⟨not_isFinite_pack_nan, not_isFinite_pack_nan⟩
  | zero s => rw [hx] at h; cases h
  | finite s m q hm => rw [hx] at h; cases h

/-- Six places of a float are a float exactly if its millionths are. -/
theorem isFinite_roundSixPlaces : isFinite (roundSixPlaces x) = isFinite (x * unitsPerOne) := by
  cases hscaled : isFinite (x * unitsPerOne) with
  | true =>
    obtain ⟨negative, p, t, hview⟩ := isFinite_iff.mp hscaled
    obtain ⟨hc, ht⟩ := canonical_of_ofFloat hview
    obtain ⟨n, s, -, hunits⟩ := exists_fromUnits negative hc ht
    rw [roundSixPlaces_of_scaled hview]
    exact isFinite_iff.mpr ⟨negative, n, s, hunits⟩
  | false =>
    have hkept : roundAwayFromZero (x * unitsPerOne) = x * unitsPerOne := by
      rw [isFinite] at hscaled
      rw [roundAwayFromZero]
      cases hview : Binary64.ofFloat (x * unitsPerOne) with
      | finite => rw [hview] at hscaled; cases hscaled
      | infinite | nan => rfl
    rw [roundSixPlaces, hkept]
    exact (not_isFinite_scaled hscaled).2

/-! ## What a float normalizes to -/

/-- **`IsWhole x`** -- the float equals an integer of the range that replaces floats. -/
def IsWhole (x : Float) : Prop := ∃ n : ℤ, value? x = some (n : ℚ) ∧ n.natAbs < 2 ^ 63

theorem smallInteger?_eq_some_iff {n : ℤ} :
    smallInteger? x = some n ↔ value? x = some (n : ℚ) ∧ n.natAbs < 2 ^ 63 := by
  rw [← integer?_eq_some_iff, smallInteger?, Option.filter_eq_some_iff, show integerLimit = 2 ^ 63 from rfl]
  simp

theorem smallInteger?_eq_none_iff : smallInteger? x = none ↔ ¬ IsWhole x := by
  rw [Option.eq_none_iff_forall_ne_some]
  unfold IsWhole
  simp only [ne_eq, smallInteger?_eq_some_iff, not_exists]

theorem normalizeScalar_of_isWhole (h : IsWhole x) : ∃ n : ℤ, normalizeScalar (.float x) = .int n := by
  obtain ⟨n, hvalue⟩ := h
  exact ⟨n, by simp only [normalizeScalar, smallInteger?_eq_some_iff.mpr hvalue]⟩

theorem normalizeScalar_of_scaled (h : ¬ IsWhole x) (hscaled : isFinite (x * unitsPerOne) = true) :
    normalizeScalar (.float x) = .float (roundSixPlaces x) := by
  rw [← isFinite_roundSixPlaces, isFinite_iff] at hscaled
  obtain ⟨negative, n, s, hview⟩ := hscaled
  simp only [normalizeScalar, smallInteger?_eq_none_iff.mpr h, hview]

theorem normalizeScalar_of_not_scaled (h : ¬ IsWhole x) (hscaled : isFinite (x * unitsPerOne) = false) :
    normalizeScalar (.float x) = .str (String.ofList (Style.plain.text x)) := by
  rw [← isFinite_roundSixPlaces, isFinite] at hscaled
  rw [normalizeScalar]
  simp only [smallInteger?_eq_none_iff.mpr h]
  cases hview : Binary64.ofFloat (roundSixPlaces x) with
  | finite => rw [hview] at hscaled; cases hscaled
  | infinite | nan => rfl

/-! ## Texts -/

/-- A trimmed text that spells nothing is kept. -/
theorem normalizeScalar_str {cs : List Char} (htrim : trim cs = cs) (hnull : namesNull cs = false)
    (hinteger : integerOfText? cs = none) :
    normalizeScalar (.str (String.ofList cs)) = .str (String.ofList cs) := by
  simp only [normalizeScalar, String.toList_ofList, htrim, hnull, hinteger, Bool.false_eq_true, if_false]

/-- **A text is normalized once and for all.** -/
theorem normalizeScalar_str_settled (s : String) :
    normalizeScalar (normalizeScalar (.str s)) = normalizeScalar (.str s) := by
  by_cases hnull : namesNull (trim s.toList) = true
  · have hfirst : normalizeScalar (.str s) = .null := by simp only [normalizeScalar, hnull, if_true]
    rw [hfirst]
    rfl
  · cases hinteger : integerOfText? (trim s.toList) with
    | some n =>
      have hfirst : normalizeScalar (.str s) = .int n := by
        simp only [normalizeScalar, hnull, hinteger, Bool.false_eq_true, if_false]
      rw [hfirst]
      rfl
    | none =>
      have hfirst : normalizeScalar (.str s) = .str (String.ofList (trim s.toList)) := by
        simp only [normalizeScalar, hnull, hinteger, Bool.false_eq_true, if_false]
      rw [hfirst]
      exact normalizeScalar_str (trim_trim _) (Bool.eq_false_iff.mpr hnull) hinteger

/-- A number out of range stays a text. -/
theorem smallInteger?_nearest_large {k : ℕ} (negative : Bool) (hk : 2 ^ 63 ≤ k) :
    smallInteger? (nearest negative k 1) = none := by
  rw [smallInteger?_eq_none_iff]
  rintro ⟨n, hvalue, hn⟩
  obtain ⟨negative', m, q, hview, hsigned⟩ := exists_of_value? hvalue
  obtain ⟨-, hnearest⟩ := (isRounded_nearest negative k Nat.one_pos).nearest_of_finite hview
  rw [Nat.cast_one, div_one] at hnearest
  have hpower : magnitude (2 ^ 52) 11 = 2 ^ 63 := by
    rw [magnitude_power]
    norm_num
  have hlimit : IsCanonical (2 ^ 52) 11 := isCanonical_power (by norm_num)
  have hge := hnearest.le_magnitude hlimit (by rw [hpower]; exact_mod_cast hk)
  rw [hpower, ← abs_signed negative' (magnitude_nonneg m q), hsigned, ← Int.cast_abs, Int.abs_eq_natAbs,
    Int.cast_natCast] at hge
  have hge' : 2 ^ 63 ≤ n.natAbs := by exact_mod_cast hge
  omega

theorem twoTo_le {j k : ℕ} (h : j ≤ k) : twoTo j ≤ twoTo k := Nat.pow_le_pow_right (by decide) h

theorem smallInteger?_nearestScaled_large {k : ℕ} (negative : Bool) (hk : 2 ^ 63 ≤ k) :
    smallInteger? (nearestScaled negative k 0) = none := by
  by_cases hlength : (Nat.toDigits 10 k).length ≤ 310
  · rw [nearestScaled_zero negative hlength]
    exact smallInteger?_nearest_large negative hk
  · have hlimit : nearestScaled negative k 0 = nearest negative (twoTo 1024) 1 := by
      have hguard : (decide (k = 0) || decide (((Nat.toDigits 10 k).length : ℤ) + 0 < -330)) = false := by
        simp only [Bool.or_eq_false_iff, decide_eq_false_iff_not]
        omega
      rw [nearestScaled, hguard, if_neg Bool.false_ne_true, if_pos (by omega)]
    rw [hlimit]
    exact smallInteger?_nearest_large negative (twoTo_le (by decide : 63 ≤ 1024))

/-- **The text of a float that is too large to be scaled is kept.** -/
theorem normalizeScalar_text_of_not_scaled (hscaled : isFinite (x * unitsPerOne) = false) :
    normalizeScalar (.str (String.ofList (Style.plain.text x))) = .str (String.ofList (Style.plain.text x)) := by
  cases hview : Binary64.ofFloat x with
  | nan =>
    have htext : Style.plain.text x = "NaN".toList := by rw [Style.text, hview]
    rw [htext]
    exact normalizeScalar_str (by decide) (by decide) (by decide)
  | infinite negative =>
    have htext : Style.plain.text x = if negative then "-inf".toList else "inf".toList := by
      rw [Style.text, hview]
    rw [htext]
    cases negative <;> exact normalizeScalar_str (by decide) (by decide) (by decide)
  | finite negative m q =>
    obtain ⟨hc, -⟩ := canonical_of_ofFloat hview
    have hlarge : 950 < q := by
      by_contra hsmall
      have hcanonical : IsCanonical (2 ^ 52) (q + 21) := isCanonical_power (by have := hc.least; omega)
      have hbound : magnitude m q * 10 ^ 6 ≤ magnitude (2 ^ 52) (q + 21) := by
        have hbits : (m : ℚ) ≤ 2 ^ 53 := by exact_mod_cast hc.bits.le
        have hstep : magnitude (2 ^ 52) (q + 21) = 2 ^ 73 * 2 ^ q := by
          rw [magnitude_power, ← two_zpow_add]
          congr 1
          push_cast
          ring
        have hmul := mul_le_mul_of_nonneg_right hbits (two_zpow_pos q).le
        rw [hstep, magnitude]
        linarith [two_zpow_pos q]
      obtain ⟨p, t, -, hfinite⟩ :=
        (isRounded_scaled hview).exists_finite hcanonical (by unfold maxExponent; omega) hbound
      rw [isFinite_iff.mpr ⟨negative, p, t, hfinite⟩] at hscaled
      cases hscaled
    obtain ⟨ds, hds, htext, hvalue⟩ := plain_text_of_large hview hc (by omega)
    have hmany : 2 ^ 63 ≤ digitsValue ds := by
      have hm : 2 ^ 52 ≤ m := hc.full.resolve_left (by omega)
      have hpow : 2 ^ 20 ≤ 2 ^ q.toNat := Nat.pow_le_pow_right (by decide) (by omega)
      have hproduct := Nat.mul_le_mul hm hpow
      omega
    have hwhole : Style.plain.text x = wholeText negative ds := htext
    rw [hwhole, normalizeScalar_wholeText negative hds, smallInteger?_nearestScaled_large negative hmany]
    rfl

/-! ## Floats -/

/-- The magnitude is not in the stretch in which scaling up and down is too coarse. -/
def IsRecovered (v : ℚ) : Prop := |v| < 2 ^ 32 ∨ 2 ^ 52 ≤ |v| * 10 ^ 6

/-- **Six places of six places are the same six places.** -/
theorem roundSixPlaces_settled (hscaled : isFinite (x * unitsPerOne) = true)
    (hvalue : value? x = some v) (hv : IsRecovered v) :
    isFinite (roundSixPlaces x * unitsPerOne) = true ∧ roundSixPlaces (roundSixPlaces x) = roundSixPlaces x := by
  obtain ⟨negative, m, q, hview, rfl⟩ := exists_of_value? hvalue
  obtain ⟨negative', p, t, hproduct⟩ := isFinite_iff.mp hscaled
  obtain ⟨rfl, hp⟩ := (isRounded_scaled hview).nearest_of_finite hproduct
  obtain ⟨hc, ht⟩ := canonical_of_ofFloat hproduct
  obtain ⟨n, s, hy, hunits⟩ := exists_fromUnits negative' hc ht
  unfold IsRecovered at hv
  rw [abs_signed negative' (magnitude_nonneg m q)] at hv
  rw [roundSixPlaces_of_scaled hproduct]
  obtain ⟨p', t', hp', hagain⟩ := isRounded_scaled hunits
  obtain ⟨hsame, hle⟩ := wholePart_rescaled (canonical_of_ofFloat hview).1 hp hv hy hp'
  rw [Binary64.bounded, if_pos (hle.trans (max_le ht (by decide)))] at hagain
  refine ⟨isFinite_iff.mpr ⟨negative', p', t', hagain⟩, ?_⟩
  rw [roundSixPlaces_of_scaled hagain, hsame]

/-- Millionths near a whole number of units are that many. -/
theorem wholePart_of_close {k : ℕ} (hk : k ≤ 10 ^ 6) (hv : |v - k| < 4 / 10 ^ 7)
    (hp : Nearest (v * 10 ^ 6) p t) :
    wholePart p t = k * 10 ^ 6 := by
  obtain ⟨hlow, hhigh⟩ := abs_lt.mp hv
  have hk' : (k : ℚ) ≤ 10 ^ 6 := by exact_mod_cast hk
  have hdist : |v * 10 ^ 6 - magnitude p t| ≤ 1 / 10 ^ 4 := by
    refine (hp.dist_le_of_le (k := 40) (by norm_num) ?_).trans (by norm_num)
    have hbound : v * 10 ^ 6 ≤ (10 ^ 6 + 1) * 10 ^ 6 := by linarith
    exact hbound.trans (by norm_num)
  obtain ⟨hlow', hhigh'⟩ := abs_le.mp hdist
  apply (roundsUp_wholePart p t).unique
  constructor <;> push_cast <;> linarith

/-- The sign of a number near an integer is that of the integer. -/
theorem signed_of_close {k : ℤ} (hv : 0 ≤ v) (h : |signed negative v - k| < 4 / 10 ^ 7) :
    |v - k.natAbs| < 4 / 10 ^ 7 ∧ signed negative (k.natAbs : ℚ) = k := by
  obtain ⟨hlow, hhigh⟩ := abs_lt.mp h
  cases negative with
  | false =>
    have hlow' : -(4 / 10 ^ 7) < v - k := hlow
    have hhigh' : v - k < 4 / 10 ^ 7 := hhigh
    have hsign : 0 ≤ k := by
      by_contra hneg
      have hk : (k : ℚ) ≤ -1 := by exact_mod_cast (by omega : k ≤ -1)
      linarith
    have hcast : (k.natAbs : ℚ) = k := by
      rw [← Int.cast_natCast, Int.natAbs_of_nonneg hsign]
    rw [hcast]
    exact ⟨h, rfl⟩
  | true =>
    have hlow' : -(4 / 10 ^ 7) < -v - k := hlow
    have hhigh' : -v - k < 4 / 10 ^ 7 := hhigh
    have hsign : k ≤ 0 := by
      by_contra hpos
      have hk : (1 : ℚ) ≤ k := by exact_mod_cast (by omega : 1 ≤ k)
      linarith
    have hcast : (k.natAbs : ℚ) = -k := by
      rw [← Int.cast_natCast, Int.ofNat_natAbs_of_nonpos hsign, Int.cast_neg]
    rw [hcast]
    exact ⟨abs_lt.mpr ⟨by linarith, by linarith⟩, neg_neg _⟩

/-- **A float near an integer becomes that integer by rounding.** -/
theorem roundSixPlaces_of_close {k : ℤ} (hvalue : value? x = some v) (hk : k.natAbs < 10 ^ 6)
    (hv : |v - k| < 4 / 10 ^ 7) :
    isFinite (x * unitsPerOne) = true ∧ value? (roundSixPlaces x) = some (k : ℚ) := by
  obtain ⟨negative, m, q, hview, rfl⟩ := exists_of_value? hvalue
  obtain ⟨hclose, hsigned⟩ := signed_of_close (magnitude_nonneg m q) hv
  have hk' : (k.natAbs : ℚ) ≤ 10 ^ 6 := by exact_mod_cast hk.le
  have hbound : magnitude m q * 10 ^ 6 ≤ magnitude (2 ^ 52) 1 := by
    have hpower : (2 : ℚ) ^ ((1 : ℤ) + 52) = 2 ^ 53 := by norm_num
    obtain ⟨-, hhigh⟩ := abs_lt.mp hclose
    rw [magnitude_power, hpower]
    linarith
  obtain ⟨p, t, hp, hproduct⟩ :=
    (isRounded_scaled hview).exists_finite (isCanonical_power (by norm_num)) (by decide) hbound
  obtain ⟨hc, ht⟩ := canonical_of_ofFloat hproduct
  obtain ⟨n, s, hy, hunits⟩ := exists_fromUnits negative hc ht
  refine ⟨isFinite_iff.mpr ⟨negative, p, t, hproduct⟩, ?_⟩
  have hwhole : (wholePart p t : ℚ) / 10 ^ 6 = k.natAbs := by
    rw [wholePart_of_close hk.le hclose hp]
    push_cast
    ring
  rw [hwhole] at hy
  rw [roundSixPlaces_of_scaled hproduct, value?_of_finite hunits, hy.magnitude_natCast (by omega), hsigned]

/-! ## Twice -/

/-- What normalizing a second time does to a float. -/
theorem normalizeScalar_float_twice (hv : ∀ v, value? x = some v → IsRecovered v) :
    (normalizeScalar (normalizeScalar (.float x)) = normalizeScalar (.float x) ↔
        (IsWhole (roundSixPlaces x) → IsWhole x)) ∧
      normalizeScalar (normalizeScalar (normalizeScalar (.float x))) = normalizeScalar (normalizeScalar (.float x)) := by
  by_cases hwhole : IsWhole x
  · obtain ⟨n, hfirst⟩ := normalizeScalar_of_isWhole hwhole
    rw [hfirst]
    exact ⟨iff_of_true rfl fun _ => hwhole, rfl⟩
  · cases hscaled : isFinite (x * unitsPerOne) with
    | false =>
      have hrounded : ¬ IsWhole (roundSixPlaces x) := by
        rintro ⟨n, hvalue, -⟩
        rw [value?_of_not_isFinite (isFinite_roundSixPlaces.trans hscaled)] at hvalue
        cases hvalue
      have htext := normalizeScalar_text_of_not_scaled hscaled
      rw [normalizeScalar_of_not_scaled hwhole hscaled, htext]
      exact ⟨iff_of_true rfl fun h => absurd h hrounded, htext⟩
    | true =>
      have hfirst := normalizeScalar_of_scaled hwhole hscaled
      rw [hfirst]
      by_cases hrounded : IsWhole (roundSixPlaces x)
      · obtain ⟨n, hsecond⟩ := normalizeScalar_of_isWhole hrounded
        rw [hsecond]
        exact ⟨iff_of_false nofun fun h => hwhole (h hrounded), rfl⟩
      · have hfinite : isFinite x = true := by
          by_contra hnot
          rw [(not_isFinite_scaled (Bool.eq_false_iff.mpr hnot)).1] at hscaled
          cases hscaled
        obtain ⟨negative, m, q, hview⟩ := isFinite_iff.mp hfinite
        have hvalue := value?_of_finite hview
        obtain ⟨hagain, hsame⟩ := roundSixPlaces_settled hscaled hvalue (hv _ hvalue)
        have hsecond := normalizeScalar_of_scaled hrounded hagain
        rw [hsame] at hsecond
        rw [hsecond]
        exact ⟨iff_of_true rfl fun h => absurd h hrounded, hsecond⟩

/-- A float near an integer is that integer after two normalizations, and equals it after one. -/
theorem normalizeScalar_of_close {k : ℤ} (hvalue : value? x = some v) (hk : k.natAbs < 10 ^ 6)
    (hv : |v - k| < 4 / 10 ^ 7) :
    (normalizeScalar (.float x) = .int k ∨ ∃ y, normalizeScalar (.float x) = .float y ∧ value? y = some (k : ℚ)) ∧
      normalizeScalar (normalizeScalar (.float x)) = .int k := by
  have hrange : k.natAbs < 2 ^ 63 := by omega
  obtain ⟨hscaled, hrounded⟩ := roundSixPlaces_of_close hvalue hk hv
  have hsmall := smallInteger?_eq_some_iff.mpr ⟨hrounded, hrange⟩
  by_cases hwhole : IsWhole x
  · obtain ⟨n, hn, -⟩ := hwhole
    have hsame : n = k := by
      rw [hvalue] at hn
      rw [Option.some.inj hn, ← Int.cast_sub, ← Int.cast_abs] at hv
      have hlt : ((|n - k| : ℤ) : ℚ) < 1 := hv.trans (by norm_num)
      have hlt' : |n - k| < 1 := by exact_mod_cast hlt
      have hzero := Int.abs_lt_one_iff.mp hlt'
      omega
    subst hsame
    have hfirst : normalizeScalar (.float x) = .int n := by
      simp only [normalizeScalar, smallInteger?_eq_some_iff.mpr ⟨hn, hrange⟩]
    rw [hfirst]
    exact ⟨.inl rfl, rfl⟩
  · rw [normalizeScalar_of_scaled hwhole hscaled]
    refine ⟨.inr ⟨_, rfl, hrounded⟩, ?_⟩
    simp only [normalizeScalar, hsmall]

/-- **Normalizing a scalar twice.** Outside the stretch in which scaling is too coarse, a second
normalization changes a scalar exactly if it is a float that is no integer and becomes one by rounding to six
places, and a third changes nothing more. A float within 4 / 10^7 of an integer below a million is
such a float, or that integer: it equals the integer after one normalization, and is the integer after two. -/
theorem normalizeScalar_twice (v : Json) (hv : ∀ x w, v = .float x → value? x = some w → IsRecovered w) :
    (normalizeScalar (normalizeScalar v) = normalizeScalar v ↔
      ∀ x, v = .float x → IsWhole (roundSixPlaces x) → IsWhole x) ∧
    normalizeScalar (normalizeScalar (normalizeScalar v)) = normalizeScalar (normalizeScalar v) ∧
    ∀ x w (k : ℤ), v = .float x → value? x = some w → k.natAbs < 10 ^ 6 → |w - k| < 4 / 10 ^ 7 →
      (normalizeScalar v = .int k ∨ ∃ y, normalizeScalar v = .float y ∧ value? y = some (k : ℚ)) ∧
        normalizeScalar (normalizeScalar v) = .int k := by
  cases v with
  | float x =>
    obtain ⟨htwice, hthrice⟩ := normalizeScalar_float_twice fun w hw => hv x w rfl hw
    refine ⟨?_, hthrice, ?_⟩
    · rw [htwice]
      constructor
      · rintro h y ⟨⟩
        exact h
      · intro h
        exact h x rfl
    · rintro y w k ⟨⟩ hw hk hclose
      exact normalizeScalar_of_close hw hk hclose
  | str s =>
    have hsettled := normalizeScalar_str_settled s
    refine ⟨iff_of_true hsettled nofun, ?_, nofun⟩
    rw [hsettled, hsettled]
  | null | bool | int | arr | obj => exact ⟨iff_of_true rfl nofun, rfl, nofun⟩

/-- A float that is one, but for float noise. -/
def almostOne : Float := 0.9999999

theorem value?_almostOne : value? almostOne = some (9007198354021067 / 2 ^ 53) := by
  have hview : Binary64.ofFloat almostOne = .finite false 9007198354021067 (-53) := by decide +kernel
  rw [value?_of_finite hview, signed, magnitude]
  norm_num

theorem normalizeScalar_twice_almostOne :
    (∀ x w, Json.float almostOne = .float x → value? x = some w → IsRecovered w) ∧
      normalizeScalar (normalizeScalar (.float almostOne)) = .int 1 := by
  have hrecovered : ∀ x w, Json.float almostOne = .float x → value? x = some w → IsRecovered w := by
    rintro x w ⟨⟩ hw
    rw [value?_almostOne] at hw
    rw [← Option.some.inj hw]
    left
    norm_num
  obtain ⟨-, -, hclose⟩ := normalizeScalar_twice (.float almostOne) hrecovered
  refine ⟨hrecovered, (hclose almostOne _ 1 rfl value?_almostOne (by decide) ?_).2⟩
  norm_num [abs_lt]

theorem normalizeScalar_of_rounded {y : Float} (hnone : smallInteger? x = none)
    (hrounded : roundSixPlaces x = y)
    (hy : Binary64.ofFloat y = .finite negative m q) : normalizeScalar (.float x) = .float y := by
  simp only [normalizeScalar, hnone, hrounded, hy]

/-- **Two floats whose canonical forms are not canonical**: one becomes whole only by rounding, and the other,
where scaling is too coarse, is rounded up by a millionth each time. -/
theorem normalizeScalar_twice_ne :
    normalizeScalar (normalizeScalar (.float almostOne)) ≠ normalizeScalar (.float almostOne) ∧
      normalizeScalar (normalizeScalar (.float 4388745664.776858)) ≠ normalizeScalar (.float 4388745664.776858) := by
  have hunit : Binary64.ofFloat 1.0 = .finite false (2 ^ 52) (-52) := by decide +kernel
  have hfine : Binary64.ofFloat 4388745664.776859 = .finite false 4601933374189060 (-20) := by decide +kernel
  have hfiner : Binary64.ofFloat 4388745664.77686 = .finite false 4601933374189061 (-20) := by decide +kernel
  constructor
  · have hfirst : normalizeScalar (.float almostOne) = .float 1.0 :=
      normalizeScalar_of_rounded (by decide +kernel) (by decide +kernel) hunit
    have hone : smallInteger? 1.0 = some 1 := by decide +kernel
    have hsecond : normalizeScalar (.float 1.0) = .int 1 := by simp only [normalizeScalar, hone]
    rw [hfirst, hsecond]
    intro h
    cases h
  · have hfirst : normalizeScalar (.float 4388745664.776858) = .float 4388745664.776859 :=
      normalizeScalar_of_rounded (by decide +kernel) (by decide +kernel) hfine
    have hsecond : normalizeScalar (.float 4388745664.776859) = .float 4388745664.77686 :=
      normalizeScalar_of_rounded (by decide +kernel) (by decide +kernel) hfiner
    rw [hfirst, hsecond, ne_eq, Json.float.injEq]
    decide +kernel

end QueryScore.Score
