/-
# QueryScore.Proofs.Score.Scale -- how large scores are

A score is zero, or a positive float of moderate size. Sizes are followed through the operations by
the exponents alone: a product adds them, a quotient subtracts them, a sum has the larger one, and
each rounds by one place at most (`HasScale.mul`, `HasScale.div`, `HasScale.add`). A share of one
count in another is then at most about one, and so is the harmonic mean of two shares, because it
is no larger than twice the smaller of them. The bounds are generous: nothing here says that a score
is at most one, only that it is far from the limits of floats.
-/

import QueryScore.Proofs.Score.Count

namespace QueryScore.Score

open Float.Model Float.Model.UnpackedFloat

variable {x y : Float} {e f low high : Int}

/-! ## The scale of results -/

theorem HasScale.exists_exact (h : HasScale low high x) : ∃ e, low ≤ e ∧ e ≤ high ∧ HasScale e e x := by
  obtain ⟨m, e, hm, hunpack, hge, hlt, hlow, hhigh⟩ := h
  exact ⟨e, hlow, hhigh, m, e, hm, hunpack, hge, hlt, le_refl e, le_refl e⟩

theorem HasScale.unpack (h : HasScale e e x) :
    ∃ m h, x.toModel.unpack = .finite .positive m e h ∧ 2 ^ 52 ≤ m ∧ m < 2 ^ 53 := by
  obtain ⟨m, e', hm, hunpack, hge, hlt, hlow, hhigh⟩ := h
  obtain rfl : e' = e := by omega
  exact ⟨m, hm, hunpack, hge, hlt⟩

theorem HasScale.pos (h : HasScale low high x) : Scalar.zero < x := by
  obtain ⟨m, e, hm, hunpack, -⟩ := h
  have hlt : UnpackedFloat.lt (Scalar.zero : Float).toModel.unpack x.toModel.unpack = true := by
    rw [unpack_zero, hunpack]
    rfl
  exact decide_eq_true hlt

/-- **A product adds the exponents.** -/
theorem HasScale.mul (hx : HasScale e e x) (hy : HasScale f f y) (hlow : -1074 ≤ e + f) (hhigh : e + f < 900) :
    HasScale (e + f + 52) (e + f + 54) (x * y) := by
  obtain ⟨m, hm, hunpack, hge, hlt⟩ := hx.unpack
  obtain ⟨m', hm', hunpack', hge', hlt'⟩ := hy.unpack
  have hbelow : 2 ^ 104 ≤ m * m' := by
    calc 2 ^ 104 = 2 ^ 52 * 2 ^ 52 := by norm_num
      _ ≤ m * m' := Nat.mul_le_mul hge hge'
  have habove : m * m' < 2 ^ 106 := by
    calc m * m' < 2 ^ 53 * 2 ^ 53 := Nat.mul_lt_mul_of_lt_of_lt hlt hlt'
      _ = 2 ^ 106 := by norm_num
  have hproduct : x * y = ⟨.pack (roundWithAccuracy .binary64 .positive (m * m') (e + f) .exact)⟩ := by
    show (⟨.pack (UnpackedFloat.mul .binary64 x.toModel.unpack y.toModel.unpack)⟩ : Float) = _
    rw [hunpack, hunpack']
    rfl
  rw [hproduct]
  exact (hasScale_pack_round .exact (by omega) hbelow habove hlow (by omega)).mono (by omega) (by omega)

/-- **A quotient subtracts the exponents.** -/
theorem HasScale.div (hx : HasScale e e x) (hy : HasScale f f y) (hlow : -1000 ≤ e - f) (hhigh : e - f < 900) :
    HasScale (e - f - 53) (e - f - 51) (x / y) := by
  obtain ⟨m, hm, hunpack, hge, hlt⟩ := hx.unpack
  obtain ⟨m', hm', hunpack', hge', hlt'⟩ := hy.unpack
  have hlog : m.log2 = 52 := (Nat.log2_eq_iff (by omega)).mpr ⟨hge, hlt⟩
  have hlog' : m'.log2 = 52 := (Nat.log2_eq_iff (by omega)).mpr ⟨hge', hlt'⟩
  have htarget : min (e - f) (Format.binary64.targetExponent (totalExponent m e - totalExponent m' f)) =
      e - f - 53 := by
    rw [targetExponent_binary64, totalExponent, totalExponent, hlog, hlog']
    omega
  have hshift : (e - f - (e - f - 53)).toNat = 53 := by omega
  have hcore : divCore .binary64 m e m' f =
      (m * 2 ^ 53 / m', e - f - 53, accuracyOfFraction (m * 2 ^ 53 % m') m') := by
    rw [divCore, htarget, hshift, Nat.shiftLeft_eq]
  have hbelow : 2 ^ 52 ≤ m * 2 ^ 53 / m' := by
    rw [Nat.le_div_iff_mul_le (by omega)]
    exact Nat.mul_le_mul hge (by omega)
  have habove : m * 2 ^ 53 / m' < 2 ^ 54 := by
    rw [Nat.div_lt_iff_lt_mul (by omega)]
    calc m * 2 ^ 53 < 2 ^ 53 * 2 ^ 53 := Nat.mul_lt_mul_of_pos_right hlt (by decide)
      _ = 2 ^ 54 * 2 ^ 52 := by norm_num
      _ ≤ 2 ^ 54 * m' := Nat.mul_le_mul_left _ hge'
  have hquotient : x / y = ⟨.pack (roundWithAccuracy .binary64 .positive (m * 2 ^ 53 / m') (e - f - 53)
      (accuracyOfFraction (m * 2 ^ 53 % m') m'))⟩ := by
    show (⟨.pack (UnpackedFloat.div .binary64 x.toModel.unpack y.toModel.unpack)⟩ : Float) = _
    rw [hunpack, hunpack', UnpackedFloat.div, hcore]
    rfl
  rw [hquotient]
  exact (hasScale_pack_round _ (by omega) hbelow habove (by omega) (by omega)).mono (by omega) (by omega)

/-- A number that has 53 bits or more is rounded as it stands. -/
theorem normalize_of_le {m : Nat} (hm : 2 ^ 52 ≤ m) :
    UnpackedFloat.normalize .binary64 m e .positive = roundWithAccuracy .binary64 .positive m e .exact := by
  have hsign : compare (m : Int) 0 = .gt := by
    rw [compare_gt_iff_gt]
    omega
  have hlog : 52 ≤ m.log2 := (Nat.le_log2 (by omega)).mpr hm
  have htarget : (e - Format.binary64.targetExponent (totalExponent m e)).toNat = 0 := by
    rw [targetExponent_binary64, totalExponent]
    omega
  simp only [UnpackedFloat.normalize, hsign, UnpackedFloat.round, decreaseExponent, Int.toNat_natCast, htarget, Nat.shiftLeft_zero,
    Int.ofNat_zero, Int.sub_zero]

/-- **A sum has the larger exponent.** -/
theorem HasScale.add (hx : HasScale e e x) (hy : HasScale f f y) (hlow : -400 ≤ min e f) (hhigh : max e f < 400) :
    HasScale (max e f) (max e f + 2) (x + y) := by
  obtain ⟨m, hm, hunpack, hge, hlt⟩ := hx.unpack
  obtain ⟨m', hm', hunpack', hge', hlt'⟩ := hy.unpack
  obtain ⟨j, hj⟩ : ∃ j : Nat, j = (e - min e f).toNat := ⟨_, rfl⟩
  obtain ⟨j', hj'⟩ : ∃ j' : Nat, j' = (f - min e f).toNat := ⟨_, rfl⟩
  have hbelow : 2 ^ (52 + max j j') ≤ m * 2 ^ j + m' * 2 ^ j' := by
    rcases Nat.le_total j j' with h | h
    · rw [Nat.max_eq_right h, Nat.pow_add]
      exact Nat.le_add_left_of_le (Nat.mul_le_mul_right _ hge')
    · rw [Nat.max_eq_left h, Nat.pow_add]
      exact Nat.le_add_right_of_le (Nat.mul_le_mul_right _ hge)
  have habove : m * 2 ^ j + m' * 2 ^ j' < 2 ^ (54 + max j j') := by
    have hfirst : m * 2 ^ j < 2 ^ 53 * 2 ^ max j j' :=
      Nat.mul_lt_mul_of_lt_of_le hlt (Nat.pow_le_pow_right (by decide) (Nat.le_max_left j j')) (Nat.two_pow_pos _)
    have hsecond : m' * 2 ^ j' < 2 ^ 53 * 2 ^ max j j' :=
      Nat.mul_lt_mul_of_lt_of_le hlt' (Nat.pow_le_pow_right (by decide) (Nat.le_max_right j j')) (Nat.two_pow_pos _)
    rw [Nat.pow_add]
    omega
  have hsum : x + y =
      ⟨.pack (roundWithAccuracy .binary64 .positive (m * 2 ^ j + m' * 2 ^ j') (min e f) .exact)⟩ := by
    have hnormal : 2 ^ 52 ≤ m * 2 ^ j + m' * 2 ^ j' :=
      Nat.le_trans (Nat.pow_le_pow_right (by decide) (Nat.le_add_right 52 _)) hbelow
    show (⟨.pack (UnpackedFloat.add .binary64 x.toModel.unpack y.toModel.unpack)⟩ : Float) = _
    rw [hunpack, hunpack', ← normalize_of_le hnormal]
    simp only [UnpackedFloat.add, decreaseExponent, ← hj, ← hj', Nat.shiftLeft_eq, Sign.apply]
    push_cast
    rfl
  rw [hsum]
  exact (hasScale_pack_round .exact (by omega) hbelow habove (by omega) (by omega)).mono (by omega) (by omega)

/-! ## The scale of scores -/

/-- A share of one count in a larger one. -/
theorem hasScale_share {part whole : Nat} (hpos : 0 < part) (hle : part ≤ whole) (hwhole : whole < 2 ^ 64) :
    HasScale (-119) (-48) (share (Scalar.ofCount part) (Scalar.ofCount whole)) := by
  obtain ⟨e, hlow, hhigh, hpart⟩ := (hasScale_ofCount hpos (by omega)).exists_exact
  have hscale := hasScale_ofCount (by omega : 0 < whole) hwhole
  obtain ⟨f, hlow', hhigh', hof⟩ := hscale.exists_exact
  have hlog : part.log2 ≤ whole.log2 :=
    (Nat.le_log2 (by omega)).mpr (Nat.le_trans (Nat.log2_self_le (by omega)) hle)
  have hbits : whole.log2 < 64 := (Nat.log2_lt (by omega)).mpr hwhole
  rw [share, if_pos hscale.pos]
  exact (hpart.div hof (by omega) (by omega)).mono (by omega) (by omega)

theorem hasScale_two : HasScale (-51) (-48) (Scalar.ofCount 2) :=
  (hasScale_ofCount (by decide : 0 < 2) (by decide)).mono (by decide) (by decide)

/-- The harmonic mean of two shares. -/
theorem hasScale_harmonicMean (hx : HasScale (-119) (-48) x) (hy : HasScale (-119) (-48) y) :
    HasScale (-130) (-39) (harmonicMean x y) := by
  obtain ⟨e, hlow, hhigh, hxe⟩ := hx.exists_exact
  obtain ⟨f, hlow', hhigh', hyf⟩ := hy.exists_exact
  obtain ⟨two, htwo⟩ := hasScale_two.exists_exact
  obtain ⟨double, hdouble⟩ := (htwo.2.2.mul hxe (by omega) (by omega)).exists_exact
  obtain ⟨product, hproduct⟩ := (hdouble.2.2.mul hyf (by omega) (by omega)).exists_exact
  have hpositive := hxe.add hyf (by omega) (by omega)
  obtain ⟨sum, hsum⟩ := hpositive.exists_exact
  rw [harmonicMean, if_pos hpositive.pos]
  exact (hproduct.2.2.div hsum.2.2 (by omega) (by omega)).mono (by omega) (by omega)

/-- **`IsModerate x`** -- zero, or positive and far from the limits of floats. -/
def IsModerate (x : Float) : Prop := x = Scalar.zero ∨ HasScale (-130) (-39) x

/-- The three scores of two sets are moderate. -/
structure SetScores.Moderate (s : SetScores Float) : Prop where
  precision : IsModerate s.precision
  coverage : IsModerate s.coverage
  f1 : IsModerate s.f1

theorem moderate_zero : (SetScores.zero : SetScores Float).Moderate := ⟨.inl rfl, .inl rfl, .inl rfl⟩

section Sets

variable {β : Type} [Ord β] [DecidableEq β]

theorem overlap_le_expected (s t : SortedSet β) : s.overlap t ≤ s.size := List.countP_le_length

/-- The common members of two sets are members of the second, none of them twice. -/
theorem overlap_le_generated [Std.ReflOrd β] (s t : SortedSet β) : s.overlap t ≤ t.size := by
  have hdistinct : s.toList.Nodup := s.ascending.imp fun {a b} hlt heq => by
    subst heq
    rw [Std.ReflOrd.compare_self] at hlt
    cases hlt
  rw [SortedSet.overlap, List.countP_eq_length_filter]
  exact (hdistinct.filter _).length_le_of_subset fun a ha => of_decide_eq_true (List.mem_filter.mp ha).2

/-- **The scores of two sets are moderate**, if the numbers of their members fit 64 bits. -/
theorem moderate_compareSets [Std.ReflOrd β] {s t : SortedSet β} (hs : s.size < 2 ^ 64) (ht : t.size < 2 ^ 64) :
    (compareSets s t : SetScores Float).Moderate := by
  rcases Nat.eq_zero_or_pos (s.overlap t) with hzero | hpos
  · have hnothing : (Scalar.ofCount (s.overlap t) : Float) = Scalar.zero := by
      rw [hzero]
      rfl
    refine ⟨.inl ?_, .inl ?_, .inl ?_⟩ <;> simp only [compareSets, hnothing, share_zero, harmonicMean_zero]
  · have hprecision := hasScale_share hpos (overlap_le_generated s t) ht
    have hcoverage := hasScale_share hpos (overlap_le_expected s t) hs
    exact ⟨.inr (hprecision.mono (by omega) (by omega)), .inr (hcoverage.mono (by omega) (by omega)),
      .inr (hasScale_harmonicMean hprecision hcoverage)⟩

end Sets

end QueryScore.Score
