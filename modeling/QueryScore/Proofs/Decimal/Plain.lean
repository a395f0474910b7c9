/-
# QueryScore.Proofs.Decimal.Plain -- large floats in plain digits

From 2^54 on a float is a whole number of seventeen digits or more. Seventeen digits always read back as
it (`exists_readsBack`), so the search for the fewest ends with a decimal whose point stands where the
number's own does, and in plain notation it is written with as many digits as the number has
(`plain_text_of_large`).
-/

import QueryScore.Proofs.Decimal.Nearest
import QueryScore.Proofs.Json.Numeral

namespace QueryScore.Decimal

open Json

variable {m n k size : ℕ} {q : ℤ} {ds : List Char}

/-! ## Digits of a number -/

/-- The number of digits, by powers of ten. -/
theorem lt_length_toDigits_iff (hk : 0 < k) : k < (Nat.toDigits 10 n).length ↔ 10 ^ k ≤ n := by
  rw [← not_le, Nat.length_toDigits_le_iff (by decide) hk, not_lt]

theorem length_toDigits_eq (hk : 0 < k) (hlow : 10 ^ k ≤ n) (hhigh : n < 10 ^ (k + 1)) :
    (Nat.toDigits 10 n).length = k + 1 := by
  have hgt := (lt_length_toDigits_iff hk).mpr hlow
  have hle := (Nat.length_toDigits_le_iff (by decide) (Nat.succ_pos k)).mpr hhigh
  omega

/-- Every power of ten adds one digit. -/
theorem length_toDigits_mul (j : ℕ) (hk : 0 < k) (hlow : 10 ^ k ≤ n) (hhigh : n < 10 ^ (k + 1)) :
    (Nat.toDigits 10 (n * tenTo j)).length = k + 1 + j := by
  have hten : tenTo j = 10 ^ j := rfl
  rw [show k + 1 + j = k + j + 1 by omega]
  apply length_toDigits_eq (by omega)
  · rw [Nat.pow_add, hten]
    exact Nat.mul_le_mul_right _ hlow
  · rw [show k + j + 1 = k + 1 + j by omega, Nat.pow_add, hten]
    exact Nat.mul_lt_mul_of_pos_right hhigh (Nat.pow_pos (by decide))

/-- Digits make up a number of their length. -/
theorem le_digitsFrom (v : ℕ) (ds : List Char) : v * 10 ^ ds.length ≤ digitsFrom v ds := by
  induction ds generalizing v with
  | nil => exact le_of_eq (Nat.mul_one v)
  | cons d ds ih =>
    show _ ≤ digitsFrom (10 * v + digitValue d) ds
    refine Nat.le_trans ?_ (ih _)
    rw [List.length_cons, Nat.pow_succ']
    calc v * (10 * 10 ^ ds.length) = 10 * v * 10 ^ ds.length := by ring
      _ ≤ (10 * v + digitValue d) * 10 ^ ds.length := Nat.mul_le_mul_right _ (Nat.le_add_right _ _)

/-- Digits that do not begin with a zero make up a number of their length. -/
theorem le_digitsValue (h : Digits ds) (hhead : ds.head? ≠ some '0') (hk : ds.length = k + 1) :
    10 ^ k ≤ digitsValue ds := by
  obtain ⟨c, cs, rfl, hc⟩ := h.head
  have hvalue : 1 ≤ digitValue c := by
    have hzero : '0'.toNat ≤ c.toNat := by
      simp only [Char.isDigit, Bool.and_eq_true, decide_eq_true_eq] at hc
      exact hc.1
    have hne : c.toNat ≠ '0'.toNat := fun heq => hhead (by rw [List.head?_cons, Char.toNat_inj.mp heq])
    rw [digitValue]
    omega
  have hmore := le_digitsFrom (10 * 0 + digitValue c) cs
  have hlength : cs.length = k := by simpa using hk
  rw [hlength] at hmore
  show 10 ^ k ≤ digitsFrom (10 * 0 + digitValue c) cs
  exact Nat.le_trans (Nat.le_mul_of_pos_left _ (by omega)) hmore

/-! ## The shortest decimal of a large float -/

theorem ratio_of_nonneg (hq : 0 ≤ q) : ratio m q = (m * 2 ^ q.toNat, 1) := by
  rw [ratio, if_pos hq]
  rfl

/-- The power of ten above a whole number is its number of digits. -/
theorem decimalExponent_of_nonneg (hq : 0 ≤ q) (hk : 0 < k) (hlow : 10 ^ k ≤ m * 2 ^ q.toNat)
    (hhigh : m * 2 ^ q.toNat < 10 ^ (k + 1)) : decimalExponent m q = k + 1 := by
  simp only [decimalExponent, ratio_of_nonneg hq, Nat.div_one, length_toDigits_mul 330 hk hlow hhigh]
  omega

/-- Reading back, for whole numbers in quarters of a unit. -/
theorem readsBack_of_between {u a s : ℕ} (hq : q = u + 2) (hlow : (4 * m - gapBelow m q) * 2 ^ u < a * 10 ^ s)
    (hhigh : a * 10 ^ s < (4 * m + 2) * 2 ^ u) : readsBack m q a s = true := by
  subst hq
  have hcrossed (quarters : ℕ) : crossed a s quarters (u + 2) = (a * 10 ^ s, quarters * 2 ^ u) := by
    have htwo : (2 - ((u : ℤ) + 2)).toNat = 0 := by omega
    have hunit : ((u : ℤ) + 2 - 2).toNat = u := by omega
    have hten : (-(s : ℤ)).toNat = 0 := by omega
    rw [crossed, htwo, hunit, hten, Int.toNat_natCast]
    show (a * 10 ^ s * 1, quarters * 2 ^ u * 1) = _
    rw [Nat.mul_one, Nat.mul_one]
  rw [readsBack, hcrossed, hcrossed]
  by_cases heven : m % 2 = 0
  · simp [heven, hlow.le, hhigh.le]
  · simp [heven, hlow, hhigh]

/-- **Seventeen digits read back**: one of the two neighbours on a grid finer than the unit lies between
the midpoints. -/
theorem exists_readsBack {u a s : ℕ} (hc : IsCanonical m q) (hq : q = u + 2)
    (hfine : 10 ^ s * 10 ^ 16 ≤ 4 * m * 2 ^ u)
    (hbelow : a * 10 ^ s ≤ 4 * m * 2 ^ u) (habove : 4 * m * 2 ^ u < (a + 1) * 10 ^ s) :
    readsBack m q a s = true ∨ readsBack m q (a + 1) s = true := by
  have hunit : 0 < 2 ^ u := Nat.two_pow_pos u
  have hfull : 2 ^ 52 ≤ m := hc.full.resolve_left (by omega)
  have hbits := hc.bits
  have hgap : gapBelow m q ≤ 2 ∧ 0 < gapBelow m q := by
    rcases gapBelow_cases m q with ⟨hg, -⟩ | ⟨hg, -⟩ <;> omega
  have hhigh : 4 * m * 2 ^ u < (4 * m + 2) * 2 ^ u := Nat.mul_lt_mul_of_pos_right (by omega) hunit
  have hlow : (4 * m - gapBelow m q) * 2 ^ u < 4 * m * 2 ^ u := Nat.mul_lt_mul_of_pos_right (by omega) hunit
  by_cases hlower : (4 * m - gapBelow m q) * 2 ^ u < a * 10 ^ s
  · exact .inl (readsBack_of_between hq hlower (lt_of_le_of_lt hbelow hhigh))
  · refine .inr (readsBack_of_between hq (hlow.trans habove) ?_)
    by_contra hupper
    -- the grid would be at least as coarse as the interval is wide
    have hstep : (a + 1) * 10 ^ s = a * 10 ^ s + 10 ^ s := by ring
    have hwide : (2 + gapBelow m q) * 2 ^ u ≤ 10 ^ s := by
      have hsum : (4 * m + 2) * 2 ^ u = (4 * m - gapBelow m q) * 2 ^ u + (2 + gapBelow m q) * 2 ^ u := by
        rw [← Nat.add_mul]
        congr 1
        omega
      omega
    have hmany : (2 + gapBelow m q) * 10 ^ 16 ≤ 4 * m := by
      have hmul := Nat.mul_le_mul_right (10 ^ 16) hwide
      have hall : (2 + gapBelow m q) * 10 ^ 16 * 2 ^ u ≤ 4 * m * 2 ^ u := by
        calc (2 + gapBelow m q) * 10 ^ 16 * 2 ^ u = (2 + gapBelow m q) * 2 ^ u * 10 ^ 16 := by ring
          _ ≤ 10 ^ s * 10 ^ 16 := hmul
          _ ≤ 4 * m * 2 ^ u := hfine
      exact Nat.le_of_mul_le_mul_right hall hunit
    rcases gapBelow_cases m q with ⟨hg, hm, -⟩ | ⟨hg, -⟩
    · rw [hg, hm] at hmany
      omega
    · rw [hg] at hmany
      omega

/-- **`IsWide m q k`** -- the float is a whole number of `k + 1` digits, more than seventeen. -/
structure IsWide (m : ℕ) (q : ℤ) (k : ℕ) : Prop extends IsCanonical m q where
  large : 2 ≤ q
  digits : 16 ≤ k
  low : 10 ^ k ≤ m * 2 ^ q.toNat
  high : m * 2 ^ q.toNat < 10 ^ (k + 1)

theorem IsWide.decimalExponent_eq (h : IsWide m q k) : decimalExponent m q = k + 1 :=
  decimalExponent_of_nonneg (by have := h.large; omega) (by have := h.digits; omega) h.low h.high

/-- The candidates of a size are the neighbours of the number on its grid. -/
theorem IsWide.shortestOfSize?_cases (h : IsWide m q k) {s : ℕ} (hs : s + size = k + 1) :
    (shortestOfSize? m q size = none ∧ readsBack m q (m * 2 ^ q.toNat / 10 ^ s) s = false ∧
        readsBack m q (m * 2 ^ q.toNat / 10 ^ s + 1) s = false) ∨
      ∃ digits, shortestOfSize? m q size = some ⟨digits, s⟩ ∧ m * 2 ^ q.toNat / 10 ^ s ≤ digits := by
  have hexponent : decimalExponent m q - size = (s : ℤ) := by
    rw [h.decimalExponent_eq]
    omega
  have hlower :
      m * 2 ^ q.toNat * tenTo (-(s : ℤ)).toNat / (1 * tenTo (s : ℤ).toNat) = m * 2 ^ q.toNat / 10 ^ s := by
    have hzero : (-(s : ℤ)).toNat = 0 := by omega
    have hone : tenTo 0 = 1 := rfl
    rw [hzero, hone, Nat.mul_one, Nat.one_mul, Int.toNat_natCast]
    rfl
  have hq : 0 ≤ q := by have := h.large; omega
  simp only [shortestOfSize?, hexponent, ratio_of_nonneg hq, hlower]
  split
  · refine .inr ⟨_, rfl, ?_⟩
    split
    · exact le_rfl
    · exact Nat.le_succ _
  · exact .inr ⟨_, rfl, le_rfl⟩
  · exact .inr ⟨_, rfl, Nat.le_succ _⟩
  · next hlow hhigh => exact .inl ⟨rfl, hlow, hhigh⟩

/-- A decimal of a size that reads back has the point of the number. -/
theorem IsWide.place_of_size (h : IsWide m q k) {d : Scaled} {s : ℕ} (hs : s + size = k + 1) (hsize : 0 < size)
    (hd : shortestOfSize? m q size = some d) :
    d.digits ≠ 0 ∧ 0 ≤ d.exponent ∧ (k + 1 : ℤ) ≤ (Nat.toDigits 10 d.digits).length + d.exponent := by
  have hlower : 10 ^ (size - 1) ≤ m * 2 ^ q.toNat / 10 ^ s := by
    rw [Nat.le_div_iff_mul_le (Nat.pow_pos (by decide)), ← Nat.pow_add, show size - 1 + s = k by omega]
    exact h.low
  rcases h.shortestOfSize?_cases hs with ⟨hnone, -⟩ | ⟨digits, hsome, hdigits⟩
  · rw [hnone] at hd
    cases hd
  · rw [hsome] at hd
    obtain rfl := Option.some.inj hd
    have hle := hlower.trans hdigits
    have hone : 0 < 10 ^ (size - 1) := Nat.pow_pos (by decide)
    have hlength : size ≤ (Nat.toDigits 10 digits).length := by
      rcases Nat.eq_zero_or_pos (size - 1) with hzero | hpos
      · have hne : 0 < (Nat.toDigits 10 digits).length := List.length_pos_iff.mpr Nat.toDigits_ne_nil
        omega
      · have hlt := (lt_length_toDigits_iff hpos).mpr hle
        omega
    refine ⟨by show digits ≠ 0; omega, Int.natCast_nonneg s, ?_⟩
    show (k + 1 : ℤ) ≤ (Nat.toDigits 10 digits).length + (s : ℤ)
    omega

/-- **The shortest decimal of a large float** has the point of the number. -/
theorem IsWide.place_shortest (h : IsWide m q k) :
    (shortest m q).digits ≠ 0 ∧ 0 ≤ (shortest m q).exponent ∧
      (k + 1 : ℤ) ≤ (Nat.toDigits 10 (shortest m q).digits).length + (shortest m q).exponent := by
  have hk := h.digits
  obtain ⟨u, hu⟩ : ∃ u : ℕ, q = u + 2 := ⟨(q - 2).toNat, by have := h.large; omega⟩
  obtain ⟨s, hs⟩ : ∃ s, s + 17 = k + 1 := ⟨k - 16, by omega⟩
  have hpow : 0 < 10 ^ s := Nat.pow_pos (by decide)
  have hvalue : m * 2 ^ q.toNat = 4 * m * 2 ^ u := by
    have htoNat : q.toNat = u + 2 := by omega
    rw [htoNat, Nat.pow_add]
    ring
  have hlow := h.low
  have hfound : shortestOfSize? m q 17 ≠ none := by
    have hfine : 10 ^ s * 10 ^ 16 ≤ 4 * m * 2 ^ u := by
      rw [← Nat.pow_add, ← hvalue, show s + 16 = k by omega]
      exact hlow
    have hread := exists_readsBack h.toIsCanonical hu hfine (a := m * 2 ^ q.toNat / 10 ^ s)
      (by rw [← hvalue]; exact Nat.div_mul_le_self _ _)
      (by rw [← hvalue, ← Nat.div_lt_iff_lt_mul hpow]; exact Nat.lt_succ_self _)
    rcases h.shortestOfSize?_cases hs with ⟨-, hlower, hupper⟩ | ⟨digits, hsome, -⟩
    · rw [hlower, hupper] at hread
      simp at hread
    · rw [hsome]
      exact Option.some_ne_none _
  have hm : m ≠ 0 := by
    rintro rfl
    have hten : 0 < 10 ^ k := Nat.pow_pos (by decide)
    omega
  rw [shortest, if_neg hm]
  cases hsearch : (List.range' 1 17).findSome? (shortestOfSize? m q) with
  | none =>
    rw [List.findSome?_eq_none_iff] at hsearch
    exact absurd (hsearch 17 (by simp)) hfound
  | some d =>
    obtain ⟨size, hmem, hd⟩ := List.exists_of_findSome?_eq_some hsearch
    have hsize : 1 ≤ size ∧ size ≤ 17 := by
      simp at hmem
      omega
    exact h.place_of_size (s := k + 1 - size) (by omega) hsize.1 hd

theorem exists_isWide (hc : IsCanonical m q) (hq : 2 ≤ q) : ∃ k, IsWide m q k := by
  have hlarge : 10 ^ 16 ≤ m * 2 ^ q.toNat := by
    have hm : 2 ^ 52 ≤ m := hc.full.resolve_left (by omega)
    calc 10 ^ 16 ≤ 2 ^ 52 * 2 ^ 2 := by norm_num
      _ ≤ m * 2 ^ q.toNat := Nat.mul_le_mul hm (Nat.pow_le_pow_right (by decide) (by omega))
  have hlength : 16 < (Nat.toDigits 10 (m * 2 ^ q.toNat)).length :=
    (lt_length_toDigits_iff (by decide)).mpr hlarge
  obtain ⟨k, hk⟩ : ∃ k, (Nat.toDigits 10 (m * 2 ^ q.toNat)).length = k + 1 :=
    ⟨_, (Nat.succ_pred_eq_of_pos (by omega)).symm⟩
  refine ⟨k, hc, hq, by omega, (lt_length_toDigits_iff (by omega)).mp (by omega), ?_⟩
  exact (Nat.length_toDigits_le_iff (by decide) (Nat.succ_pos k)).mp hk.le

/-! ## Plain notation -/

theorem length_significantDigits_le (d : Scaled) :
    (significantDigits d).1.length ≤ (Nat.toDigits 10 d.digits).length := by
  have hkept :
      (((Nat.toDigits 10 d.digits).reverse.dropWhile (· == '0')).reverse).length ≤
        (Nat.toDigits 10 d.digits).length := by
    have hreversed : (Nat.toDigits 10 d.digits).reverse.length = (Nat.toDigits 10 d.digits).length :=
      List.length_reverse
    rw [List.length_reverse, ← hreversed]
    exact (List.dropWhile_suffix _).length_le
  simp only [significantDigits]
  split
  · exact List.length_pos_iff.mpr Nat.toDigits_ne_nil
  · exact hkept

/-- **A large float is written with all its digits** before the point, and no others. -/
theorem IsWide.exists_digits (h : IsWide m q k) :
    ∃ ds, Digits ds ∧ Style.plain.spell (shortest m q) = ds ∧ 10 ^ k ≤ digitsValue ds := by
  obtain ⟨hne, hexponent, hplace⟩ := h.place_shortest
  obtain ⟨hdigits, hhead⟩ := digits_significantDigits hne
  have hshort := length_significantDigits_le (shortest m q)
  obtain ⟨ds, hds⟩ : ∃ ds, ds = (significantDigits (shortest m q)).1 := ⟨_, rfl⟩
  obtain ⟨point, hpoint⟩ :
      ∃ point : ℕ, (significantDigits (shortest m q)).2 = point ∧ ds.length ≤ point ∧ k + 1 ≤ point := by
    have hsum : (significantDigits (shortest m q)).2 =
        (Nat.toDigits 10 (shortest m q).digits).length + (shortest m q).exponent := rfl
    rw [← hds] at hshort
    exact ⟨((Nat.toDigits 10 (shortest m q).digits).length + (shortest m q).exponent).toNat,
      by omega, by omega, by omega⟩
  rw [← hds] at hdigits hhead
  have hall : Digits (ds ++ List.replicate (point - ds.length) '0') := by
    refine ⟨fun c hc => ?_, by simp [hdigits.ne_nil]⟩
    rcases List.mem_append.mp hc with hc | hc
    · exact hdigits.digit c hc
    · exact digit_of_mem_replicate c hc
  refine ⟨ds ++ List.replicate (point - ds.length) '0', hall, ?_, ?_⟩
  · have hspell : Style.plain.spell (shortest m q) = positionalText false ds point := by
      rw [Style.spell, if_neg hne, hds, ← hpoint.1]
      rfl
    have hzeros : ((point : ℤ) - ds.length).toNat = point - ds.length := by omega
    rw [hspell, positionalText, if_neg (by omega), if_pos (by omega), hzeros, if_neg (by simp), List.append_nil]
  · have hfirst : (ds ++ List.replicate (point - ds.length) '0').head? ≠ some '0' := by
      obtain ⟨c, cs, hcs, -⟩ := hdigits.head
      rw [hcs] at hhead ⊢
      exact hhead
    have hlength : (ds ++ List.replicate (point - ds.length) '0').length = point - 1 + 1 := by
      rw [List.length_append, List.length_replicate]
      omega
    exact Nat.le_trans (Nat.pow_le_pow_right (by decide) (by omega)) (le_digitsValue hall hfirst hlength)

/-- The plain text of a large float, sign included. -/
theorem plain_text_of_large {x : Float} {negative : Bool} (hview : Binary64.ofFloat x = .finite negative m q)
    (hc : IsCanonical m q) (hq : 2 ≤ q) :
    ∃ ds, Digits ds ∧ Style.plain.text x = (if negative then '-' :: ds else ds) ∧
      m * 2 ^ q.toNat < 10 * digitsValue ds := by
  obtain ⟨k, hwide⟩ := exists_isWide hc hq
  obtain ⟨ds, hds, hspell, hvalue⟩ := hwide.exists_digits
  refine ⟨ds, hds, ?_, ?_⟩
  · simp only [Style.text, hview, hspell]
  · have hhigh := hwide.high
    rw [Nat.pow_succ] at hhigh
    omega

end QueryScore.Decimal
