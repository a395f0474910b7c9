/-
# QueryScore.Proofs.Score.Whole -- integers, their texts and their floats

An integer can stand in a row as itself, as a text and as a float. A text of digits, with a minus sign or
without one, holds no blank and names nothing that is missing, so normalizing it goes by the float that is
read from it (`normalizeScalar_wholeText`), which keeps 53 bits (`heldAs`).

So the three forms normalize alike where a float holds the integer, up to the least 64-bit integer, which
has no form as a float that becomes an integer. Where no float holds it, the text normalizes to the integer
that a float holds instead, and stays as it is if that is out of range (`normalizeScalar_forms`).
-/

import QueryScore.Proofs.Decimal.Value
import QueryScore.Proofs.Json.Equality
import QueryScore.Proofs.Score.Reduced
import QueryScore.Proofs.Text.Letter
import QueryScore.Proofs.Text.Trim

namespace QueryScore.Score

open Decimal Json Text

variable {cs ds : List Char} {k n : ℤ} {x : Float}

/-! ## Numeral characters -/

theorem isAscii_of_isNumeralChar {c : Char} (h : isNumeralChar c = true) : isAscii c = true := by
  simp only [isNumeralChar, Bool.or_eq_true, beq_iff_eq] at h
  rcases h with ((((hdigit | rfl) | rfl) | rfl) | rfl) | rfl
  · exact isAscii_of_isAlphanum (by simp [Char.isAlphanum, hdigit])
  all_goals rfl

/-- No numeral character is a blank, and none begins a text that stands for a missing value. -/
theorem isNumeralChar_apart {c : Char} (h : isNumeralChar c = true) :
    isBlank c = false ∧ c ≠ '\\' ∧ asciiLower c ≠ 'n' := by
  have hall :=
    of_isAscii (p := fun c => !isNumeralChar c || (!isBlank c && c != '\\' && asciiLower c != 'n')) (by decide)
    (isAscii_of_isNumeralChar h)
  simpa [h, and_assoc] using hall

theorem trim_of_numeral (h : ∀ c ∈ cs, isNumeralChar c = true) : trim cs = cs :=
  trim_of_ends (fun c hc => (isNumeralChar_apart (h c (List.mem_of_mem_head? hc))).1)
    fun c hc => (isNumeralChar_apart (h c (List.mem_of_mem_getLast? hc))).1

theorem namesNull_of_numeral (h : ∀ c ∈ cs, isNumeralChar c = true) : namesNull cs = false := by
  cases cs with
  | nil => rfl
  | cons c cs =>
    obtain ⟨-, hslash, hn⟩ := isNumeralChar_apart (h c List.mem_cons_self)
    have hlower : asciiLower 'n' = 'n' := rfl
    simp [namesNull, equalIgnoringCase, hslash, hlower, hn.symm]

/-! ## Digits with a sign -/

/-- Digits, behind a minus sign if the number is negative. -/
def wholeText (negative : Bool) (ds : List Char) : List Char := if negative then '-' :: ds else ds

theorem numeral_wholeText (negative : Bool) (h : Digits ds) :
    ∀ c ∈ wholeText negative ds, isNumeralChar c = true := by
  intro c hc
  have hdigit : c ∈ ds → isNumeralChar c = true := fun hmem => by simp [isNumeralChar, h.digit c hmem]
  cases negative with
  | false => exact hdigit hc
  | true =>
    rcases List.mem_cons.mp hc with rfl | hmem
    · rfl
    · exact hdigit hmem

theorem splitSign_wholeText (negative : Bool) (h : Digits ds) :
    splitSign (wholeText negative ds) = (negative, ds) := by
  cases negative with
  | true => rfl
  | false =>
    obtain ⟨c, cs, rfl, hc⟩ := h.head
    show splitSign (c :: cs) = _
    unfold splitSign
    split
    · next heq =>
      cases heq
      cases hc
    · next heq =>
      cases heq
      cases hc
    · rfl

/-- **Digits are read as the float nearest to their number.** -/
theorem float?_wholeText (negative : Bool) (h : Digits ds) :
    Decimal.float? (wholeText negative ds) = some (nearestScaled negative (digitsValue ds) 0) := by
  have hsplit : splitDigits ds = (ds, []) := by
    rw [← splitDigits_append h.digit rfl, List.append_nil]
  have hne : ds.isEmpty = false := by simpa using h.ne_nil
  simp [Decimal.float?, splitSign_wholeText negative h, hsplit, hne, exponentPart?]

/-- **A text of digits is normalized by the float that it spells.** -/
theorem normalizeScalar_wholeText (negative : Bool) (h : Digits ds) :
    normalizeScalar (.str (String.ofList (wholeText negative ds))) =
      (smallInteger? (nearestScaled negative (digitsValue ds) 0)).elim
        (.str (String.ofList (wholeText negative ds))) .int := by
  have hnumeral := numeral_wholeText negative h
  have hinteger :
      integerOfText? (wholeText negative ds) = smallInteger? (nearestScaled negative (digitsValue ds) 0) := by
    rw [integerOfText?, if_pos (List.all_eq_true.mpr hnumeral), float?_wholeText negative h, Option.bind_some]
  simp only [normalizeScalar, String.toList_ofList, trim_of_numeral hnumeral, namesNull_of_numeral hnumeral,
    Bool.false_eq_true, if_false, hinteger]
  cases smallInteger? (nearestScaled negative (digitsValue ds) 0) <;> rfl

/-! ## Integers -/

/-- What a float that equals an integer is replaced by. -/
theorem smallInteger?_of_integer? (h : integer? x = some n) :
    smallInteger? x = if n.natAbs < 2 ^ 63 then some n else none := by
  rw [smallInteger?, h, show integerLimit = 2 ^ 63 from rfl]
  simp [Option.filter]

/-- The text of an integer is its digits behind its sign. -/
theorem intText_eq_wholeText (n : ℤ) : intText n = wholeText (decide (n < 0)) (Nat.toDigits 10 n.natAbs) := by
  rw [intText, wholeText]
  by_cases h : n < 0 <;> simp [h]

theorem toString_eq_wholeText (n : ℤ) :
    toString n = String.ofList (wholeText (decide (n < 0)) (Nat.toDigits 10 n.natAbs)) := by
  cases n with
  | ofNat k => rfl
  | negSucc k =>
    have hsplit : toString (Int.negSucc k) = "-" ++ Nat.repr (k + 1) := by simp [toString, Int.repr]
    have hnegative : Int.negSucc k < 0 := by omega
    rw [hsplit, wholeText, if_pos (decide_eq_true hnegative), ← String.toList_inj,
      String.toList_append, Nat.repr]
    simp only [String.toList_ofList]
    rfl

theorem digitsValue_toDigits (n : ℕ) : digitsValue (Nat.toDigits 10 n) = n := Nat.ofDigitChars_ten_toDigits

/-! ## The integer that a float holds -/

/-- **`heldAs n`** -- the integer with the 53 leading bits of `n`, rounded. -/
def heldAs (n : ℤ) : ℤ := if n < 0 then -(significant n.natAbs : ℤ) else significant n.natAbs

theorem heldAs_eq_self_iff : heldAs n = n ↔ significant n.natAbs = n.natAbs := by
  unfold heldAs
  split <;> omega

/-- The float nearest to an integer. -/
theorem integer?_nearest_natAbs (hn : n.natAbs ≤ 2 ^ 63) :
    integer? (nearest (decide (n < 0)) n.natAbs 1) = some (heldAs n) := by
  have hlog : n.natAbs.log2 ≤ 1022 := by
    rcases Nat.eq_zero_or_pos n.natAbs with hzero | hpos
    · rw [hzero]
      decide
    · have hbits : n.natAbs.log2 < 64 := (Nat.log2_lt hpos.ne').mpr (lt_of_le_of_lt hn (by decide))
      omega
  rw [integer?_nearest _ hlog, heldAs]
  by_cases h : n < 0 <;> simp [h]

/-- **Some float equals the integer exactly if it has no more bits than its leading ones.** -/
theorem heldAs_eq_self_iff_exists (hn : n.natAbs ≤ 2 ^ 63) : heldAs n = n ↔ ∃ x, value? x = some (n : ℚ) := by
  constructor
  · intro h
    refine ⟨nearest (decide (n < 0)) n.natAbs 1, ?_⟩
    rw [← integer?_eq_some_iff, integer?_nearest_natAbs hn, h]
  · rintro ⟨x, hx⟩
    obtain ⟨negative, m, q, hview, hvalue⟩ := exists_of_value? hx
    rw [heldAs_eq_self_iff, significant_eq_self_iff]
    refine ⟨m, q, (canonical_of_ofFloat hview).1, ?_⟩
    rw [← abs_signed negative (magnitude_nonneg m q), hvalue, ← Int.cast_abs, Int.abs_eq_natAbs,
      Int.cast_natCast]

/-! ## The forms of an integer -/

theorem toString_eq_intText (n : ℤ) : toString n = String.ofList (intText n) := by
  rw [toString_eq_wholeText, intText_eq_wholeText]

theorem toString_injective (h : toString k = toString n) : k = n := by
  rw [toString_eq_intText, toString_eq_intText] at h
  exact intText_injective (String.ofList_injective h)

/-- **The text of an integer normalizes to the integer that a float holds in its place.** -/
theorem normalizeScalar_toString (hn : n.natAbs ≤ 2 ^ 63) :
    normalizeScalar (.str (toString n)) =
      if (heldAs n).natAbs < 2 ^ 63 then .int (heldAs n) else .str (toString n) := by
  have hlength : (Nat.toDigits 10 n.natAbs).length ≤ 310 := by
    have hdigits : (Nat.toDigits 10 n.natAbs).length ≤ 20 :=
      (Nat.length_toDigits_le_iff (by decide) (by decide)).mpr (lt_of_le_of_lt hn (by decide))
    omega
  have hread : smallInteger? (nearestScaled (decide (n < 0)) (digitsValue (Nat.toDigits 10 n.natAbs)) 0) =
      if (heldAs n).natAbs < 2 ^ 63 then some (heldAs n) else none := by
    rw [digitsValue_toDigits, nearestScaled_zero _ hlength]
    exact smallInteger?_of_integer? (integer?_nearest_natAbs hn)
  rw [toString_eq_wholeText, normalizeScalar_wholeText _ (digits_toDigits _), hread]
  split <;> rfl

theorem normalizeScalar_of_heldAs {s : String} (hn : n.natAbs ≤ 2 ^ 63) (hheld : heldAs n = k)
    (hk : k.natAbs < 2 ^ 63)
    (hs : toString n = s) : normalizeScalar (.str s) = .int k := by
  rw [← hs, normalizeScalar_toString hn, hheld, if_pos hk]

/-- A float that equals an integer normalizes to it. -/
theorem normalizeScalar_float (h : value? x = some (n : ℚ)) (hn : n.natAbs < 2 ^ 63) :
    normalizeScalar (.float x) = .int n := by
  have hsmall := smallInteger?_of_integer? (integer?_eq_some_iff.mpr h)
  rw [if_pos hn] at hsmall
  simp only [normalizeScalar, hsmall]

/-- The least 64-bit integer, as a float. -/
def leastWhole : Float := Float.ofBits 0xC3E0000000000000

theorem ofFloat_leastWhole : Binary64.ofFloat leastWhole = .finite true (2 ^ 52) 11 := by
  decide +kernel

/-- Its float stays a float. -/
theorem normalizeScalar_leastWhole : normalizeScalar (.float leastWhole) = .float leastWhole := by
  have hlarge : smallInteger? leastWhole = none := by decide +kernel
  have hrounded : Binary64.ofFloat (roundSixPlaces leastWhole) = .finite true (2 ^ 52) 11 := by decide +kernel
  rw [normalizeScalar]
  simp only [hlarge, hrounded]
  rw [eq_of_ofFloat hrounded ofFloat_leastWhole]

theorem eq_leastWhole (h : value? x = some (-2 ^ 63)) : x = leastWhole := by
  obtain ⟨negative, m, q, hview, hvalue⟩ := exists_of_value? h
  have hpower : magnitude (2 ^ 52) 11 = 2 ^ 63 := by
    rw [magnitude_power]
    norm_num
  have hmagnitude : magnitude m q = magnitude (2 ^ 52) 11 := by
    rw [hpower, ← abs_signed negative (magnitude_nonneg m q), hvalue, abs_neg, abs_of_nonneg (by norm_num)]
  obtain ⟨rfl, rfl⟩ :=
    (canonical_of_ofFloat hview).1.eq_of_magnitude_eq (isCanonical_power (by norm_num)) hmagnitude
  cases negative with
  | true => exact eq_of_ofFloat hview ofFloat_leastWhole
  | false =>
    rw [hpower] at hvalue
    norm_num [signed] at hvalue

/-! ## Places in a row -/

/-- **`Place`** -- a place in a JSON value, at any depth. -/
inductive Place where
  | here
  /-- In an item of an array, with the items before and after it. -/
  | item (before : List Json) (place : Place) (after : List Json)
  /-- In a member of an object, with the members before and after it. -/
  | member (before : List (String × Json)) (key : String) (place : Place) (after : List (String × Json))

/-- The value with something at the place. -/
def Place.fill (v : Json) : Place → Json
  | .here => v
  | .item before place after => .arr (before ++ place.fill v :: after)
  | .member before key place after => .obj (before ++ (key, place.fill v) :: after)

/-- What is shown alike may be put in each other's place. -/
theorem shownTexts_fill {v w : Json} (h : shownTexts v = shownTexts w) (place : Place) :
    shownTexts (place.fill v) = shownTexts (place.fill w) := by
  induction place with
  | here => exact h
  | item before place after ih =>
    unfold shownTexts at ih ⊢
    rw [Place.fill, Place.fill, shownLeaves_arr, shownLeaves_arr]
    simp only [List.flatMap_append, List.flatMap_cons, List.map_append, ih]
  | member before key place after ih =>
    unfold shownTexts at ih ⊢
    rw [Place.fill, Place.fill, shownLeaves_obj, shownLeaves_obj]
    simp only [List.flatMap_append, List.flatMap_cons, List.map_append, shownMember]
    split
    · rfl
    · rw [ih]

theorem normalizeRow_fill {v w : Json} (h : shownTexts v = shownTexts w) (place : Place) :
    normalizeRow (place.fill v) = normalizeRow (place.fill w) := by
  rw [normalizeRow_eq_mergeSort, normalizeRow_eq_mergeSort, shownTexts_fill h]

/-- A scalar that is not missing shows its text. -/
theorem shownTexts_scalar {leaf : Json} (hshown : shown leaf = [leaf])
    (hnull : (normalizeScalar leaf).isNull = false) :
    shownTexts leaf = [leafText (normalizeScalar leaf)] := by
  unfold shownTexts shownLeaves
  rw [hshown, List.filter_cons_of_pos (by simp [hnull]), List.filter_nil]
  rfl

theorem normalizeRow_scalar {leaf : Json} (hshown : shown leaf = [leaf])
    (hnull : (normalizeScalar leaf).isNull = false) :
    normalizeRow leaf = [leafText (normalizeScalar leaf)] := by
  rw [normalizeRow_eq_mergeSort, shownTexts_scalar hshown hnull, List.mergeSort_singleton]

theorem leafText_int (n : ℤ) : leafText (.int n) = toString n := (toString_eq_intText n).symm

/-! ## The forms in rows -/

/-- The text of an integer is shown as the integer where it normalizes to it, or where it stays as it is. -/
theorem row_toString_iff (hn : n.natAbs ≤ 2 ^ 63) :
    (∀ place : Place, normalizeRow (place.fill (.str (toString n))) = normalizeRow (place.fill (.int n))) ↔
      heldAs n = n ∨ 2 ^ 63 ≤ (heldAs n).natAbs := by
  have htext := normalizeScalar_toString hn
  have hint : shownTexts (.int n) = [leafText (.int n)] := shownTexts_scalar rfl rfl
  constructor
  · intro h
    by_contra hnot
    have hsmall : (heldAs n).natAbs < 2 ^ 63 := by omega
    rw [if_pos hsmall] at htext
    have hrow : normalizeRow (.str (toString n)) = normalizeRow (.int n) := h .here
    rw [normalizeRow_scalar rfl (by rw [htext]; rfl), htext, normalizeRow_scalar rfl rfl,
      List.cons.injEq] at hrow
    exact hnot (.inl (intText_injective (String.ofList_injective hrow.1)))
  · intro h place
    apply normalizeRow_fill
    by_cases hsmall : (heldAs n).natAbs < 2 ^ 63
    · have hheld : heldAs n = n := by omega
      rw [if_pos hsmall, hheld] at htext
      rw [shownTexts_scalar rfl (by rw [htext]; rfl), htext, hint]
    · rw [if_neg hsmall] at htext
      rw [shownTexts_scalar rfl (by rw [htext]; rfl), htext, hint, leafText_int]
      rfl

/-- A float that equals an integer normalizes to it, but for the least one. -/
theorem normalizeScalar_float_iff (h : value? x = some (n : ℚ)) (hlow : -2 ^ 63 ≤ n) (hhigh : n < 2 ^ 63) :
    normalizeScalar (.float x) = .int n ↔ n ≠ -2 ^ 63 := by
  constructor
  · rintro hwhole rfl
    obtain rfl : x = leastWhole := eq_leastWhole (by exact_mod_cast h)
    rw [normalizeScalar_leastWhole] at hwhole
    cases hwhole
  · intro hne
    exact normalizeScalar_float h (by omega)

/-- A float that equals an integer is shown as the integer, but for the least one. -/
theorem row_float_iff (h : value? x = some (n : ℚ)) (hlow : -2 ^ 63 ≤ n) (hhigh : n < 2 ^ 63) :
    (∀ place : Place, normalizeRow (place.fill (.float x)) = normalizeRow (place.fill (.int n))) ↔ n ≠ -2 ^ 63 := by
  constructor
  · rintro hrows rfl
    obtain rfl : x = leastWhole := eq_leastWhole (by exact_mod_cast h)
    have hrow : normalizeRow (.float leastWhole) = normalizeRow (.int (-2 ^ 63)) := hrows .here
    have hfinite : isFinite leastWhole = true := by rw [isFinite, ofFloat_leastWhole]
    rw [normalizeRow_scalar rfl (by rw [normalizeScalar_leastWhole]; rfl), normalizeScalar_leastWhole,
      normalizeRow_scalar rfl rfl, List.cons.injEq] at hrow
    -- a float is written with a point
    apply numeralOf_intText_ne hfinite
    exact congrArg numeralOf (String.ofList_injective hrow.1).symm
  · intro hne place
    have hwhole := (normalizeScalar_float_iff h hlow hhigh).mpr hne
    have hint : shownTexts (.int n) = [leafText (.int n)] := shownTexts_scalar rfl rfl
    apply normalizeRow_fill
    rw [shownTexts_scalar rfl (by rw [hwhole]; rfl), hwhole, hint]

/-! ## Two integers -/

/-- Two texts of integers are normalized alike where floats do not tell the integers apart. -/
theorem normalizeScalar_toString_eq_iff (hk : k.natAbs ≤ 2 ^ 63) (hn : n.natAbs ≤ 2 ^ 63) :
    normalizeScalar (.str (toString k)) = normalizeScalar (.str (toString n)) ↔
      k = n ∨ (heldAs k = heldAs n ∧ (heldAs n).natAbs < 2 ^ 63) := by
  rw [normalizeScalar_toString hk, normalizeScalar_toString hn]
  by_cases hksmall : (heldAs k).natAbs < 2 ^ 63 <;> by_cases hnsmall : (heldAs n).natAbs < 2 ^ 63
  · rw [if_pos hksmall, if_pos hnsmall, Json.int.injEq]
    constructor
    · intro h
      exact .inr ⟨h, hnsmall⟩
    · rintro (rfl | ⟨h, -⟩)
      · rfl
      · exact h
  · rw [if_pos hksmall, if_neg hnsmall]
    refine iff_of_false nofun ?_
    rintro (rfl | ⟨-, h⟩)
    · exact hnsmall hksmall
    · exact hnsmall h
  · rw [if_neg hksmall, if_pos hnsmall]
    refine iff_of_false nofun ?_
    rintro (rfl | ⟨h, -⟩)
    · exact hksmall hnsmall
    · rw [h] at hksmall
      exact hksmall hnsmall
  · rw [if_neg hksmall, if_neg hnsmall, Json.str.injEq]
    constructor
    · intro h
      exact .inl (toString_injective h)
    · rintro (rfl | ⟨-, h⟩)
      · rfl
      · exact absurd h hnsmall

/-- **The three forms of a 64-bit integer.** Its text normalizes to the integer that a float holds in its
place, or stays as it is if that is out of range; so it normalizes to the integer itself exactly if some
float equals the integer and the integer is not the least one, and up to 53 bits some float does. A float
that equals the integer normalizes to it, but for the least one. At every place of a row the
text is shown as the integer unless it becomes another one, and the float unless it is the least one. Texts
of two integers are normalized alike only where one float is held in place of both. -/
theorem normalizeScalar_forms (hlow : -2 ^ 63 ≤ n) (hhigh : n < 2 ^ 63) :
    normalizeScalar (.int n) = .int n ∧
    normalizeScalar (.str (toString n)) =
      (if (heldAs n).natAbs < 2 ^ 63 then .int (heldAs n) else .str (toString n)) ∧
    (normalizeScalar (.str (toString n)) = .int n ↔ (∃ x, value? x = some (n : ℚ)) ∧ n ≠ -2 ^ 63) ∧
    (heldAs n = n ↔ ∃ x, value? x = some (n : ℚ)) ∧
    (n.natAbs ≤ 2 ^ 53 → heldAs n = n) ∧
    (∀ x, value? x = some (n : ℚ) → (normalizeScalar (.float x) = .int n ↔ n ≠ -2 ^ 63)) ∧
    ((∀ place : Place, normalizeRow (place.fill (.str (toString n))) = normalizeRow (place.fill (.int n))) ↔
      heldAs n = n ∨ 2 ^ 63 ≤ (heldAs n).natAbs) ∧
    (∀ x, value? x = some (n : ℚ) →
      ((∀ place : Place, normalizeRow (place.fill (.float x)) = normalizeRow (place.fill (.int n))) ↔ n ≠ -2 ^ 63)) ∧
    ∀ k, -2 ^ 63 ≤ k → k < 2 ^ 63 →
      (normalizeScalar (.str (toString k)) = normalizeScalar (.str (toString n)) ↔
        k = n ∨ (heldAs k = heldAs n ∧ (heldAs n).natAbs < 2 ^ 63)) := by
  have hn : n.natAbs ≤ 2 ^ 63 := by omega
  have htext := normalizeScalar_toString hn
  have hexists := heldAs_eq_self_iff_exists hn
  refine ⟨rfl, htext, ?_, hexists, ?_, fun x h => normalizeScalar_float_iff h hlow hhigh, row_toString_iff hn,
    fun x h => row_float_iff h hlow hhigh, fun k hk hk' => normalizeScalar_toString_eq_iff (by omega) hn⟩
  · rw [← hexists, htext]
    split
    · next hsmall =>
      rw [Json.int.injEq]
      omega
    · next hlarge =>
      refine iff_of_false nofun ?_
      rintro ⟨hheld, hne⟩
      omega
  · intro hbits
    obtain ⟨m, q, hc, -, hvalue⟩ := exists_canonical_of_le hbits
    exact heldAs_eq_self_iff.mpr (significant_eq_self_iff.mpr ⟨m, q, hc, hvalue⟩)

theorem normalizeScalar_forms_longIdentifier :
    (-2 ^ 63 ≤ (9007199254740994 : ℤ) ∧ (9007199254740994 : ℤ) < 2 ^ 63) ∧
      normalizeScalar (.str "9007199254740994") = .int 9007199254740994 ∧
      ∀ place : Place, normalizeRow (place.fill (.str "9007199254740994")) =
        normalizeRow (place.fill (.int 9007199254740994)) := by
  have hheld : heldAs 9007199254740994 = 9007199254740994 := by decide +kernel
  have htext : toString (9007199254740994 : ℤ) = "9007199254740994" := by decide +kernel
  have hrange : -2 ^ 63 ≤ (9007199254740994 : ℤ) ∧ (9007199254740994 : ℤ) < 2 ^ 63 := by decide
  obtain ⟨-, hscalar, -, -, -, -, hrows, -, -⟩ := normalizeScalar_forms hrange.1 hrange.2
  rw [htext, hheld, if_pos (by decide)] at hscalar
  rw [htext] at hrows
  exact ⟨hrange, hscalar, hrows.mpr (.inl hheld)⟩

/-- **Two texts that become one integer**: 2^53 + 1 lies between two floats. And the least 64-bit integer,
as a float, becomes none. -/
theorem normalizeScalar_roundedIdentifier :
    normalizeScalar (.str "9007199254740993") ≠ .int 9007199254740993 ∧
      normalizeScalar (.str "9007199254740993") = normalizeScalar (.str "9007199254740992") ∧
      value? leastWhole = some (-2 ^ 63) ∧ normalizeScalar (.float leastWhole) ≠ .int (-2 ^ 63) := by
  have hodd : normalizeScalar (.str "9007199254740993") = .int 9007199254740992 := by
    have hheld : heldAs 9007199254740993 = 9007199254740992 := by decide +kernel
    exact normalizeScalar_of_heldAs (by decide) hheld (by decide) (by decide +kernel)
  have heven : normalizeScalar (.str "9007199254740992") = .int 9007199254740992 := by
    have hheld : heldAs 9007199254740992 = 9007199254740992 := by decide +kernel
    exact normalizeScalar_of_heldAs (by decide) hheld (by decide) (by decide +kernel)
  refine ⟨?_, hodd.trans heven.symm, ?_, ?_⟩
  · rw [hodd]
    simp
  · rw [value?_of_finite ofFloat_leastWhole, signed, magnitude]
    norm_num
  · rw [normalizeScalar_leastWhole]
    intro h
    cases h

end QueryScore.Score
