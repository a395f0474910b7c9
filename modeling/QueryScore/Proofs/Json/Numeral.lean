/-
# QueryScore.Proofs.Json.Numeral -- numbers as they are written

A number is written from a numeral: sign, digits before the point, digits after it, power of ten
(`Numeral.text`), and is read back as that numeral wherever nothing stands behind that would go on
with it (`readNumeral_text`). Integers and finite floats are written so (`exists_intNumeral`,
`exists_floatNumeral`), a float never as a whole number, so no integer has the text of a float.
-/

import QueryScore.Json.Document
import QueryScore.Json.Writer

namespace QueryScore.Json

open Decimal

/-! ## Digits -/

/-- **`Digits ds`** -- one or more decimal digits. -/
structure Digits (ds : List Char) : Prop where
  digit : ∀ c ∈ ds, c.isDigit = true
  ne_nil : ds ≠ []

/-- The text goes on with no digit. -/
def stopsDigits (cs : List Char) : Bool := cs.head?.all fun c => !c.isDigit

/-- **`endsNumeral cs`** -- the text goes on with nothing that a number could go on with. -/
def endsNumeral (cs : List Char) : Bool :=
  cs.head?.all fun c => !c.isDigit && c != '.' && c != 'e' && c != 'E'

variable {ds cs rest : List Char} {n : Nat}

theorem stopsDigits_of_ends (h : endsNumeral rest = true) : stopsDigits rest = true := by
  cases rest with
  | nil => rfl
  | cons c rest => simp_all [endsNumeral, stopsDigits]

theorem digits_toDigits (n : Nat) : Digits (Nat.toDigits 10 n) where
  digit := fun _ hc => Nat.isDigit_of_mem_toDigits (by decide) (by decide) hc
  ne_nil := Nat.toDigits_ne_nil

theorem splitDigits_append (h : ∀ c ∈ ds, c.isDigit = true) (hrest : stopsDigits rest = true) :
    splitDigits (ds ++ rest) = (ds, rest) := by
  induction ds with
  | nil =>
    cases rest with
    | nil => rfl
    | cons c rest =>
      have hc : c.isDigit = false := by simpa [stopsDigits] using hrest
      simp [splitDigits, hc]
  | cons c ds ih =>
    have hc := h c (by simp)
    have hmore := ih fun d hd => h d (by simp [hd])
    simp_all [splitDigits]

/-- The digits of a positive number do not begin with a zero. -/
theorem head_toDigits (h : 0 < n) : (Nat.toDigits 10 n).head? ≠ some '0' := by
  induction n using Nat.strongRecOn with
  | ind n ih =>
    by_cases hsmall : n < 10
    · rw [Nat.toDigits_of_lt_base hsmall]
      simp only [List.head?_cons, ne_eq, Option.some.injEq, Nat.digitChar_eq_zero]
      omega
    · have hmore := ih (n / 10) (by omega) (by omega)
      rw [Nat.toDigits_of_base_le (by decide) (by omega), List.head?_append]
      cases hdigits : Nat.toDigits 10 (n / 10) with
      | nil => exact absurd hdigits Nat.toDigits_ne_nil
      | cons c cs => simpa [hdigits] using hmore

/-! ## A numeral and its text -/

/-- The digits behind the point, with the point if there are any. -/
def fractionText (ds : List Char) : List Char := if ds.isEmpty then [] else '.' :: ds

/-- The power of ten, if there is one. -/
def powerText : Option (Bool × List Char) → List Char
  | none => []
  | some (negative, digits) => 'e' :: (if negative then '-' else '+') :: digits

/-- **`n.text`** -- how a number is written. -/
def Numeral.text (n : Numeral) : List Char :=
  (if n.negative then ['-'] else []) ++ (n.whole ++ (fractionText n.fraction ++ powerText n.power))

/-- **`n.IsProper`** -- the numeral can be written: digits at their places, no leading zero. -/
structure Numeral.IsProper (n : Numeral) : Prop where
  whole : Digits n.whole
  leading : n.whole.head? = some '0' → n.whole = ['0']
  fraction : ∀ c ∈ n.fraction, c.isDigit = true
  power : ∀ p ∈ n.power, Digits p.2

theorem Digits.head (h : Digits ds) : ∃ c cs, ds = c :: cs ∧ c.isDigit = true := by
  cases ds with
  | nil => exact absurd rfl h.ne_nil
  | cons c cs => exact ⟨c, cs, rfl, h.digit c (by simp)⟩

theorem readWhole_append (h : Digits ds) (hleading : ds.head? = some '0' → ds = ['0'])
    (hrest : stopsDigits rest = true) : readWhole (ds ++ rest) = some (ds, rest) := by
  obtain ⟨c, cs, rfl, hc⟩ := h.head
  by_cases hzero : c = '0'
  · subst hzero
    obtain rfl : cs = [] := by simpa using hleading rfl
    have hstop : rest.head?.any Char.isDigit = false := by
      cases rest <;> simp_all [stopsDigits]
    simp [readWhole, hstop]
  · have hsplit := splitDigits_append h.digit hrest
    rw [List.cons_append, readWhole, ← List.cons_append, hsplit]
    · rfl
    · rintro _ ⟨⟩
      exact hzero rfl

theorem readFraction_append (h : ∀ c ∈ ds, c.isDigit = true) (hrest : stopsDigits rest = true)
    (hpoint : rest.head? ≠ some '.') : readFraction (fractionText ds ++ rest) = some (ds, rest) := by
  cases ds with
  | nil =>
    show readFraction rest = _
    cases rest with
    | nil => rfl
    | cons c rest =>
      rw [readFraction]
      rintro _ ⟨⟩
      exact hpoint rfl
  | cons d ds =>
    have hsplit := splitDigits_append h hrest
    simp only [fractionText, List.isEmpty_cons, Bool.false_eq_true, if_false, List.cons_append] at hsplit ⊢
    simp [readFraction, hsplit]

theorem readPower_append {power : Option (Bool × List Char)} (h : ∀ p ∈ power, Digits p.2)
    (hrest : endsNumeral rest = true) : readPower (powerText power ++ rest) = some (power, rest) := by
  cases power with
  | none =>
    cases rest with
    | nil => rfl
    | cons c rest =>
      simp only [endsNumeral, List.head?_cons, Option.all_some, Bool.and_eq_true, bne_iff_ne] at hrest
      simp [powerText, readPower, hrest]
  | some p =>
    obtain ⟨negative, digits⟩ := p
    have hdigits : Digits digits := h _ rfl
    have hsplit := splitDigits_append hdigits.digit (stopsDigits_of_ends hrest)
    have hne : digits.isEmpty = false := by simpa using hdigits.ne_nil
    cases negative <;> simp [powerText, readPower, splitSign, hsplit, hne]

theorem stopsDigits_power {power : Option (Bool × List Char)} (hrest : endsNumeral rest = true) :
    stopsDigits (powerText power ++ rest) = true ∧ (powerText power ++ rest).head? ≠ some '.' := by
  cases power with
  | none =>
    refine ⟨stopsDigits_of_ends hrest, ?_⟩
    cases rest with
    | nil => simp [powerText]
    | cons c rest => simp_all [powerText, endsNumeral]
  | some p => exact ⟨rfl, by simp [powerText]⟩

theorem stopsDigits_fraction (h : stopsDigits rest = true) : stopsDigits (fractionText ds ++ rest) = true := by
  rw [fractionText]
  split
  · exact h
  · rfl

/-- **A written number is read back.** -/
theorem readNumeral_text {n : Numeral} (h : n.IsProper) (hrest : endsNumeral rest = true) :
    readNumeral (n.text ++ rest) = some (n, rest) := by
  obtain ⟨negative, whole, fraction, power⟩ := n
  obtain ⟨hpower, hpoint⟩ : stopsDigits (powerText power ++ rest) = true ∧ (powerText power ++ rest).head? ≠ some '.' :=
    stopsDigits_power hrest
  have hdigits : stopsDigits (fractionText fraction ++ (powerText power ++ rest)) = true := stopsDigits_fraction hpower
  have hwhole := readWhole_append h.whole h.leading hdigits
  have hfraction := readFraction_append h.fraction hpower hpoint
  have hpower' := readPower_append h.power hrest
  cases negative with
  | true => simp [Numeral.text, readNumeral, hwhole, hfraction, hpower']
  | false =>
    obtain ⟨c, cs, hds, hc⟩ := h.whole.head
    have hsign : c ≠ '-' := by
      rintro rfl
      cases hc
    simp only at hds
    subst hds
    simp_all [Numeral.text, readNumeral]

/-! ## Integers and floats -/

/-- **An integer is written as a whole number.** -/
theorem exists_intNumeral (i : Int) : ∃ m : Numeral, m.IsProper ∧ m.isWhole = true ∧ intText i = m.text := by
  refine ⟨⟨i < 0, Nat.toDigits 10 i.natAbs, [], none⟩, ?_, rfl, ?_⟩
  · refine ⟨digits_toDigits _, fun hleading => ?_, by simp, by simp⟩
    rcases Nat.eq_zero_or_pos i.natAbs with hzero | hpos
    · simp [hzero]
    · exact absurd hleading (head_toDigits hpos)
  · by_cases h : i < 0 <;> simp [intText, Numeral.text, fractionText, powerText, h]

/-- The digits of a positive decimal, without the zeros at its end. -/
theorem digits_significantDigits {d : Scaled} (h : d.digits ≠ 0) :
    Digits (significantDigits d).1 ∧ (significantDigits d).1.head? ≠ some '0' := by
  have hall := digits_toDigits d.digits
  obtain ⟨c, cs, hcs, hc⟩ := hall.head
  have hzero : c ≠ '0' := by
    have := head_toDigits (Nat.pos_of_ne_zero h)
    rw [hcs] at this
    simpa using this
  -- The first digit is no zero, so it is not taken away from the end.
  have hkept : ∃ kept, ((c :: cs).reverse.dropWhile (· == '0')).reverse = c :: kept ∧ kept <+: cs := by
    rw [List.reverse_cons, List.dropWhile_append]
    split
    · exact ⟨[], by simp [hzero], List.nil_prefix⟩
    · refine ⟨(cs.reverse.dropWhile (· == '0')).reverse, by simp, ?_⟩
      rw [← List.reverse_suffix, List.reverse_reverse]
      exact List.dropWhile_suffix _
  obtain ⟨kept, hkept, hstart⟩ := hkept
  simp only [significantDigits, hcs, hkept, List.isEmpty_cons, Bool.false_eq_true, if_false]
  refine ⟨⟨fun x hx => ?_, by simp⟩, by simpa using hzero⟩
  rcases List.mem_cons.mp hx with rfl | hx
  · exact hc
  · exact hall.digit x (hcs ▸ List.mem_cons_of_mem _ (hstart.subset hx))

/-- **`m.IsMagnitude place`** -- a magnitude whose point stands at a place of its digits: it is written
with a point there, or far from there with a power. -/
structure Numeral.IsMagnitude (place : Int) (m : Numeral) : Prop where
  proper : m.IsProper
  positive : m.negative = false
  pointed : m.isWhole = false
  /-- Before the point stand no more digits than its place says. -/
  short : m.whole.length ≤ max 1 place.toNat
  /-- The power is that of the first digit. -/
  power : ∀ p ∈ m.power, (place < -4 ∨ 16 < place) ∧ p = (decide (place - 1 < 0), Nat.toDigits 10 (place - 1).natAbs)

variable {place : Int}

theorem digit_of_mem_replicate {k : Nat} : ∀ c ∈ List.replicate k '0', c.isDigit = true := by
  intro c hc
  rw [List.eq_of_mem_replicate hc]
  rfl

/-- A magnitude from its digits before and behind the point. -/
theorem isMagnitude_of_point {whole fraction : List Char} (hwhole : Digits whole)
    (hleading : whole.head? = some '0' → whole = ['0']) (hfraction : Digits fraction)
    (hshort : whole.length ≤ max 1 place.toNat) : Numeral.IsMagnitude place ⟨false, whole, fraction, none⟩ := by
  have hne : fraction.isEmpty = false := by simpa using hfraction.ne_nil
  exact ⟨⟨hwhole, hleading, hfraction.digit, by simp⟩, rfl, by simp [Numeral.isWhole, hne], hshort, by simp⟩

theorem exists_positional (h : Digits ds) (hhead : ds.head? ≠ some '0') (point : Int) :
    ∃ m : Numeral, m.IsMagnitude point ∧ positionalText true ds point = m.text := by
  obtain ⟨c, cs, rfl, hc⟩ := h.head
  rw [positionalText]
  split
  · refine ⟨⟨false, ['0'], List.replicate (-point).toNat '0' ++ c :: cs, none⟩,
      isMagnitude_of_point ⟨by simp, by simp⟩ (by simp) ⟨fun x hx => ?_, by simp⟩ (Nat.le_max_left 1 _), ?_⟩
    · rcases List.mem_append.mp hx with hx | hx
      · exact digit_of_mem_replicate x hx
      · exact h.digit x hx
    · simp [Numeral.text, fractionText, powerText]
  · split
    · next hlength =>
      refine ⟨⟨false, c :: cs ++ List.replicate (point - (c :: cs).length).toNat '0', ['0'], none⟩,
        isMagnitude_of_point ⟨fun x hx => ?_, by simp⟩ (fun hleading => absurd hleading hhead)
          ⟨by simp, by simp⟩ ?_, ?_⟩
      · rcases List.mem_append.mp hx with hx | hx
        · exact h.digit x hx
        · exact digit_of_mem_replicate x hx
      · rw [List.length_append, List.length_replicate]
        omega
      · simp [Numeral.text, fractionText, powerText]
    · next hpoint hlength =>
      obtain ⟨k, hk⟩ : ∃ k, point.toNat = k + 1 := ⟨point.toNat - 1, by omega⟩
      have hbehind : (c :: cs).drop point.toNat ≠ [] := by
        rw [ne_eq, List.drop_eq_nil_iff]
        omega
      refine ⟨⟨false, (c :: cs).take point.toNat, (c :: cs).drop point.toNat, none⟩,
        isMagnitude_of_point ⟨fun x hx => h.digit x (List.mem_of_mem_take hx), by simp [hk]⟩
          (fun hleading => ?_) ⟨fun x hx => h.digit x (List.mem_of_mem_drop hx), hbehind⟩
          (Nat.le_trans (List.length_take_le _ _) (Nat.le_max_right 1 _)), ?_⟩
      · rw [hk] at hleading
        exact absurd hleading hhead
      · simp [Numeral.text, fractionText, powerText, hbehind]

theorem exists_scientific (h : Digits ds) (hhead : ds.head? ≠ some '0') (hfar : place < -4 ∨ 16 < place) :
    ∃ m : Numeral, m.IsMagnitude place ∧ scientificText ds (place - 1) = m.text := by
  obtain ⟨c, cs, rfl, hc⟩ := h.head
  refine ⟨⟨false, [c], cs, some (place - 1 < 0, Nat.toDigits 10 (place - 1).natAbs)⟩,
    ⟨⟨⟨by simpa using hc, by simp⟩, fun hleading => absurd hleading hhead,
      fun x hx => h.digit x (by simp [hx]), fun p hp => ?_⟩, rfl, by simp [Numeral.isWhole], Nat.le_max_left 1 _,
        fun p hp => ⟨hfar, (Option.mem_some.mp hp).symm⟩⟩, ?_⟩
  · obtain rfl := Option.mem_some.mp hp
    exact digits_toDigits _
  · cases cs <;> simp [scientificText, Numeral.text, fractionText, powerText]

/-- **A decimal is written with its point behind its leading digits**, and zero with one digit. -/
theorem exists_spelled (d : Scaled) :
    ∃ (m : Numeral) (place : Int), m.IsMagnitude place ∧ Style.json.spell d = m.text ∧
      place ≤ max 1 ((Nat.toDigits 10 d.digits).length + d.exponent) := by
  rw [Style.spell]
  split
  · exact ⟨⟨false, ['0'], ['0'], none⟩, 1, isMagnitude_of_point ⟨by simp, by simp⟩ (by simp) ⟨by simp, by simp⟩ (by simp),
      rfl, by omega⟩
  · next hdigits =>
    obtain ⟨hds, hhead⟩ := digits_significantDigits hdigits
    have hplace : (significantDigits d).2 ≤ max 1 ((Nat.toDigits 10 d.digits).length + d.exponent) :=
      Int.le_max_right 1 _
    simp only [Style.json]
    split
    · obtain ⟨m, hm, htext⟩ := exists_positional hds hhead (significantDigits d).2
      exact ⟨m, _, hm, htext, hplace⟩
    · next hfar =>
      have hfar : (significantDigits d).2 < -4 ∨ 16 < (significantDigits d).2 := by
        simp only [Bool.and_eq_true, decide_eq_true_eq, not_and] at hfar
        omega
      obtain ⟨m, hm, htext⟩ := exists_scientific hds hhead hfar
      exact ⟨m, _, hm, htext, hplace⟩

/-- The float is finite. -/
def isFinite (x : Float) : Bool :=
  match Binary64.ofFloat x with
  | .finite .. => true
  | _ => false

/-- **A finite float is written with a point or a power.** -/
theorem exists_floatNumeral {x : Float} (h : isFinite x = true) :
    ∃ m : Numeral, m.IsProper ∧ m.isWhole = false ∧ floatText x = m.text := by
  cases hview : Binary64.ofFloat x with
  | finite negative significand exponent =>
    obtain ⟨m, place, hm, htext, -⟩ := exists_spelled (shortest significand exponent)
    have hproper := hm.proper
    refine ⟨{ m with negative := negative }, ⟨hproper.whole, hproper.leading, hproper.fraction, hproper.power⟩,
      hm.pointed, ?_⟩
    simp only [floatText, hview, Style.text, htext]
    cases negative <;> simp [Numeral.text, hm.positive]
  | nan | infinite negative => simp [isFinite, hview] at h

/-- A float that is not finite has no number to write. -/
theorem floatText_of_not_isFinite {x : Float} (h : isFinite x = false) : floatText x = "null".toList := by
  cases hview : Binary64.ofFloat x with
  | finite negative significand exponent => simp [isFinite, hview] at h
  | nan | infinite negative => simp only [floatText, hview]

end QueryScore.Json
