/-
# QueryScore.Proofs.Json.Moderate -- floats whose texts are read

The reader refuses a number that is too large. The text of a moderate float never is: its point
stands within the first few digits or in front of them (`place_shortest`), so that the digits behind
the point scale the significand down (`Numeral.IsMagnitude.isSome`), and scaling down always gives a
float. Which float that is, is another question: the reader does not round to the nearest one.
-/

import QueryScore.Proofs.Decimal.Bits
import QueryScore.Proofs.Json.Decoding
import QueryScore.Proofs.Score.Scale

namespace QueryScore

open Decimal Score
open Float.Model Float.Model.UnpackedFloat

/-! ## The view of a float with a scale -/

/-- A positive float is viewed as it is unpacked. -/
theorem ofFloat_of_unpack {x : Float} {m : Nat} {e : Int} {h : 0 < m}
    (hx : x.toModel.unpack = .finite .positive m e h) : Binary64.ofFloat x = .finite false m e := by
  rw [ofFloat_eq_view, hx]
  rfl

theorem Score.HasScale.ofFloat {low high : Int} {x : Float} (h : HasScale low high x) :
    ∃ m e, Binary64.ofFloat x = .finite false m e ∧ 2 ^ 52 ≤ m ∧ m < 2 ^ 53 ∧ low ≤ e ∧ e ≤ high := by
  obtain ⟨m, e, hm, hunpack, hge, hlt, hlow, hhigh⟩ := h
  exact ⟨m, e, ofFloat_of_unpack hunpack, hge, hlt, hlow, hhigh⟩

/-! ## Where the point stands -/

variable {m : Nat} {q : Int}

theorem ratio_of_neg (hq : q < 0) : ratio m q = (m, 2 ^ (-q).toNat) := by
  rw [ratio, if_neg (by omega)]
  rfl

/-- A value below 2^14. -/
theorem lt_mul_of_exponent (hm : m < 2 ^ 53) (hq : q ≤ -39) : m < 2 ^ 14 * 2 ^ (-q).toNat := by
  have hpow : 2 ^ 39 ≤ 2 ^ (-q).toNat := Nat.pow_le_pow_right (by decide) (by omega)
  calc m < 2 ^ 14 * 2 ^ 39 := by omega
    _ ≤ 2 ^ 14 * 2 ^ (-q).toNat := Nat.mul_le_mul_left _ hpow

/-- Scaled by a power of ten and cut off, it stays below 2^14 of that power. -/
theorem scaled_lt {j d : Nat} (hm : m < 2 ^ 53) (hq : q ≤ -39) (hd : 0 < d) :
    m * tenTo j / (2 ^ (-q).toNat * d) < 2 ^ 14 * tenTo j := by
  have hvalue := lt_mul_of_exponent hm hq
  have hten : 0 < tenTo j := Nat.pow_pos (by decide)
  rw [Nat.div_lt_iff_lt_mul (Nat.mul_pos (Nat.two_pow_pos _) hd)]
  calc m * tenTo j < 2 ^ 14 * 2 ^ (-q).toNat * tenTo j := Nat.mul_lt_mul_of_pos_right hvalue hten
    _ = 2 ^ 14 * tenTo j * 2 ^ (-q).toNat := Nat.mul_right_comm ..
    _ ≤ 2 ^ 14 * tenTo j * (2 ^ (-q).toNat * d) := Nat.mul_le_mul_left _ (Nat.le_mul_of_pos_right _ hd)

theorem length_toDigits_le {j n : Nat} (hn : n ≤ 2 ^ 14 * tenTo j) : (Nat.toDigits 10 n).length ≤ 5 + j := by
  have hten : 0 < tenTo j := Nat.pow_pos (by decide)
  rw [Nat.length_toDigits_le_iff (by decide) (by omega), Nat.pow_add]
  show n < 10 ^ 5 * tenTo j
  omega

theorem decimalExponent_le (hm : m < 2 ^ 53) (hq : q ≤ -39) : decimalExponent m q ≤ 5 := by
  have hbound {j : Nat} : (Nat.toDigits 10 (m * tenTo j / 2 ^ (-q).toNat)).length ≤ 5 + j := by
    have hscaled := scaled_lt (j := j) hm hq Nat.one_pos
    rw [Nat.mul_one] at hscaled
    exact length_toDigits_le hscaled.le
  have hlength := hbound (j := 330)
  simp only [decimalExponent, ratio_of_neg (by omega : q < 0)]
  omega

/-- The digits of a value below 2^14 that is scaled by a power of ten, and those of the next number. -/
theorem length_digits_le {k : Int} {n : Nat} (hm : m < 2 ^ 53) (hq : q ≤ -39) (hk : k ≤ 4)
    (hn : n ≤ m * tenTo (-k).toNat / (2 ^ (-q).toNat * tenTo k.toNat) + 1) :
    (Nat.toDigits 10 n).length + k ≤ 9 := by
  have hscaled := scaled_lt (j := (-k).toNat) hm hq (Nat.pow_pos (by decide) : 0 < tenTo k.toNat)
  have hlength := length_toDigits_le (Nat.le_trans hn hscaled)
  omega

/-- **The shortest decimal of a moderate value has its point within the first nine digits.** -/
theorem place_shortest (hm : m < 2 ^ 53) (hq : q ≤ -39) :
    (Nat.toDigits 10 (shortest m q).digits).length + (shortest m q).exponent ≤ 9 := by
  have hexponent := decimalExponent_le hm hq
  have hsize {size : Nat} {d : Scaled} (h1 : 1 ≤ size) (h : shortestOfSize? m q size = some d) :
      (Nat.toDigits 10 d.digits).length + d.exponent ≤ 9 := by
    simp only [shortestOfSize?, ratio_of_neg (by omega : q < 0)] at h
    split at h
    · obtain rfl := Option.some.inj h
      refine length_digits_le (k := decimalExponent m q - size) hm hq (by omega) ?_
      split
      · exact Nat.le_succ _
      · exact le_refl _
    · obtain rfl := Option.some.inj h
      exact length_digits_le (k := decimalExponent m q - size) hm hq (by omega) (Nat.le_succ _)
    · obtain rfl := Option.some.inj h
      exact length_digits_le (k := decimalExponent m q - size) hm hq (by omega) (le_refl _)
    · cases h
  unfold shortest
  split
  · decide
  · cases hfound : (List.range' 1 17).findSome? (shortestOfSize? m q) with
    | none => decide
    | some d =>
      obtain ⟨size, hmem, hd⟩ := List.exists_of_findSome?_eq_some hfound
      exact hsize (by simp at hmem; omega) hd

/-! ## What the reader makes of it -/

namespace Json

open Document

theorem digitValue_le {c : Char} (h : c.isDigit = true) : digitValue c ≤ 9 := by
  have hc : c.toNat ≤ '9'.toNat := by
    simp only [Char.isDigit, Bool.and_eq_true, decide_eq_true_eq] at h
    exact h.2
  have hnine : '9'.toNat = 57 := rfl
  have hzero : '0'.toNat = 48 := rfl
  rw [digitValue]
  omega

/-- Few digits all fit the significand. -/
theorem takeSignificand_all {ds : List Char} {v : Nat} (h : ∀ c ∈ ds, c.isDigit = true)
    (hfits : (v + 1) * 10 ^ ds.length ≤ significandLimit) :
    ∃ w, takeSignificand v ds = (w, []) ∧ w < (v + 1) * 10 ^ ds.length := by
  induction ds generalizing v with
  | nil => exact ⟨v, rfl, by simp⟩
  | cons c cs ih =>
    have hc := digitValue_le (h c List.mem_cons_self)
    rw [List.length_cons, Nat.pow_succ'] at hfits
    have hstep : (10 * v + digitValue c + 1) * 10 ^ cs.length ≤ (v + 1) * (10 * 10 ^ cs.length) := by
      rw [← Nat.mul_assoc]
      exact Nat.mul_le_mul_right _ (by omega)
    have hone : 1 ≤ 10 ^ cs.length := Nat.pow_pos (by decide)
    have hnext : 10 * v + digitValue c < significandLimit := by
      have hmore := Nat.le_mul_of_pos_right (10 * v + digitValue c + 1) hone
      omega
    obtain ⟨w, hw, hlt⟩ := ih (fun d hd => h d (List.mem_cons_of_mem _ hd)) (Nat.le_trans hstep hfits)
    refine ⟨w, ?_, ?_⟩
    · simp only [takeSignificand, hnext, if_true]
      exact hw
    · rw [List.length_cons, Nat.pow_succ']
      exact Nat.lt_of_lt_of_le hlt hstep

theorem length_takeSignificand_le (v : Nat) (ds : List Char) : (takeSignificand v ds).2.length ≤ ds.length := by
  induction ds generalizing v with
  | nil => exact le_refl _
  | cons c cs ih =>
    simp only [takeSignificand]
    split
    · exact Nat.le_succ_of_le (ih _)
    · exact le_refl _

/-- The first digit behind the point is counted where there are few in front of it. -/
theorem length_takeSignificand_lt {v : Nat} {c : Char} {cs : List Char} (hc : c.isDigit = true) (hv : v < 10 ^ 9) :
    (takeSignificand v (c :: cs)).2.length ≤ cs.length := by
  have hdigit := digitValue_le hc
  have hnext : 10 * v + digitValue c < significandLimit := by
    have hlimit : significandLimit = 2 ^ 64 := rfl
    omega
  simp only [takeSignificand, hnext, if_true]
  exact length_takeSignificand_le _ cs

/-- **Scaling down always gives a float.** -/
theorem scaleFloat?_of_neg {power : Int} (significand : Nat) (h : power < 0) :
    ∃ x, scaleFloat? significand power = some x := by
  simp only [scaleFloat?]
  split
  · exact ⟨_, rfl⟩
  · rw [if_neg (by omega)]
    split
    · exact ⟨_, rfl⟩
    · split <;> exact ⟨_, rfl⟩

/-- **A magnitude whose point stands within the first nine digits is read.** -/
theorem Numeral.IsMagnitude.isSome {n : Numeral} {place : Int} (h : n.IsMagnitude place) (hplace : place ≤ 9) :
    ∃ x, n.magnitude? = some x := by
  have hlength : n.whole.length ≤ 9 := by
    have hshort := h.short
    omega
  have hpow : 10 ^ n.whole.length ≤ 10 ^ 9 := Nat.pow_le_pow_right (by decide) hlength
  obtain ⟨start, hstart, hlt⟩ := takeSignificand_all (v := 0) h.proper.whole.digit (by
    have hlimit : significandLimit = 2 ^ 64 := rfl
    omega)
  have hdropped := length_takeSignificand_le start n.fraction
  simp only [Numeral.magnitude?, hstart]
  cases hpower : n.power with
  | none =>
    -- some digit stands behind the point, and the first of them is counted
    cases hfraction : n.fraction with
    | nil =>
      have hpointed := h.pointed
      simp [Numeral.isWhole, hpower, hfraction] at hpointed
    | cons c cs =>
      have hcounted : (takeSignificand start (c :: cs)).2.length ≤ cs.length :=
        length_takeSignificand_lt (h.proper.fraction c (by rw [hfraction]; exact List.mem_cons_self)) (by omega)
      exact scaleFloat?_of_neg _ (by simp only [List.length_nil, List.length_cons]; omega)
  | some p =>
    obtain ⟨hfar, rfl⟩ := h.power p hpower
    have hvalue : digitsValue (Nat.toDigits 10 (place - 1).natAbs) = (place - 1).natAbs :=
      Nat.ofDigitChars_ten_toDigits
    simp only [hvalue, show place - 1 < 0 by omega, decide_true, Bool.not_true, Bool.and_false, if_true]
    split
    · exact ⟨_, rfl⟩
    · exact scaleFloat?_of_neg _ (by simp only [List.length_nil]; omega)

/-- **The text of a moderate float is read as a float.** -/
theorem exists_float?_document {x : Float} (h : IsModerate x) : ∃ y, (document (.float x)).float? = some y := by
  rcases h with rfl | hscale
  · exact Option.isSome_iff_exists.mp (by decide)
  · obtain ⟨m, q, hview, -, hm, -, hq⟩ := hscale.ofFloat
    obtain ⟨n, place, hn, htext, hplace⟩ := exists_spelled (shortest m q)
    have hfirst := place_shortest hm hq
    obtain ⟨y, hy⟩ := hn.isSome (by omega)
    have hfinite : isFinite x = true := by rw [isFinite, hview]
    have hspelled : floatText x = n.text := by
      simp only [floatText, hview, Style.text, htext, Bool.false_eq_true, if_false]
    refine ⟨y, ?_⟩
    have hint : n.int? = none := by simp [Numeral.int?, hn.pointed]
    simp [document, hfinite, hspelled, numeralOf_text hn.proper, Document.float?, Numeral.asFloat?, hint, Numeral.float?, hy,
      hn.positive]

end Json

end QueryScore
