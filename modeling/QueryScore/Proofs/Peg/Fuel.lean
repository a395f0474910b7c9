/-
# QueryScore.Proofs.Peg.Fuel -- how much fuel a grammar needs

Between two characters the interpreter only descends: from an expression to its parts, and from a
rule to its body. If rules can be ranked so that a body needs no more than its rule has, and each
repeated part takes a character, then fuel in proportion to the text lasts to the end
(`Ranking.run_answers`): a descent is paid by the rank, everything behind a character by that
character.
-/

import QueryScore.Proofs.Peg.Reading

namespace QueryScore

variable {ρ : Type}

/-! ## Outcomes that are answers -/

namespace Outcome

/-- **`o.Answers`** -- the fuel did not run out. -/
def Answers : Outcome ρ → Prop
  | .matched .. | .failed => True
  | .exhausted => False

theorem Answers.andThen {o : Outcome ρ} {k : Cursor → List (Tree ρ) → Outcome ρ} (h : o.Answers)
    (hk : ∀ c nodes, o = .matched c nodes → (k c nodes).Answers) : (o.andThen k).Answers := by
  cases o with
  | matched c nodes => exact hk c nodes rfl
  | failed => trivial
  | exhausted => exact h.elim

theorem Answers.orElse {o : Outcome ρ} {k : Unit → Outcome ρ} (h : o.Answers) (hk : (k ()).Answers) :
    (o.orElse k).Answers := by
  cases o with
  | matched c nodes => trivial
  | failed => exact hk
  | exhausted => exact h.elim

theorem answers_ofRest (c : Cursor) (size : Nat) (rest : Option (List Char)) :
    (ofRest c size rest : Outcome ρ).Answers := by
  cases rest <;> trivial

theorem answers_ofChar (p : Char → Bool) (c : Cursor) : (ofChar p c : Outcome ρ).Answers := by
  rw [ofChar]
  split
  · trivial
  · split <;> trivial

end Outcome

/-! ## Ranked rules -/

/-- **`Ranking ρ`** -- what is assumed of rules: how deep they descend before the first character,
and which of them may take none. -/
structure Ranking (ρ : Type) where
  /-- The calls that a rule needs before the first character. -/
  rank : ρ → Nat
  /-- The rule may take no character. -/
  mayRest : ρ → Bool

namespace Ranking

variable (R : Ranking ρ)

/-- The expression may take no character. -/
def rests : Peg ρ → Bool
  | .text cs | .word cs => cs.isEmpty
  | .digit | .letter | .any => false
  | .rule r => R.mayRest r
  | .seq a b => rests a && rests b
  | .alt a b => rests a || rests b
  | .start | .stop | .many _ | .opt _ | .absent _ | .present _ => true

/-- The calls that an expression needs before the first character, if filler needs `gap`. -/
def need (gap : Nat) : Peg ρ → Nat
  | .text _ | .word _ | .digit | .letter | .any | .start | .stop => 1
  | .rule r => R.rank r + 1
  | .seq a b => max (need gap a) (max gap (if R.rests a then need gap b else 0)) + 1
  | .alt a b => max (need gap a) (need gap b) + 1
  | .many a => max gap (need gap a) + 1
  | .opt a | .absent a | .present a => need gap a + 1

/-- Every part of an expression needs at most `limit`, and every repeated part takes a character. -/
def fits (gap limit : Nat) : Peg ρ → Bool
  | .seq a b => R.need gap b ≤ limit && fits gap limit a && fits gap limit b
  | .alt a b => fits gap limit a && fits gap limit b
  | .many a => R.need gap (.many a) ≤ limit && !R.rests a && fits gap limit a
  | .opt a | .absent a | .present a => fits gap limit a
  | _ => true

/-- The calls that skipping needs: inside an atomic rule nothing is skipped. -/
def pause (gap : Nat) (atomic : Bool) : Nat := if atomic then 1 else gap

/-- **`R.Bounds g gap limit`** -- the ranking is right for the grammar: filler needs less than
`gap` calls, a body no more than its rule has, and nothing behind a character more than `limit`. -/
structure Bounds (g : Grammar ρ) (gap limit : Nat) : Prop where
  rule : ∀ atomic r, R.need (pause gap atomic) (g.body r) ≤ R.rank r
  rests : ∀ r, R.rests (g.body r) = true → R.mayRest r = true
  body : ∀ atomic r, R.fits (pause gap atomic) limit (g.body r) = true
  filler : R.need (pause gap true) g.filler < gap
  fits_filler : R.fits (pause gap true) limit g.filler = true

variable {R} {g : Grammar ρ} {gap limit : Nat}

/-! ## Taking characters -/

private theorem ne_nil_of_part (hR : R.Bounds g gap limit) {part : Peg.Part ρ} {atomic : Bool}
    {before cs after : List Char} {nodes : List (Tree ρ)}
    (h : g.Reads atomic part before cs after nodes) {e : Peg ρ} (hpart : part = .once e)
    (he : R.rests e = false) : cs ≠ [] := by
  induction h generalizing e with
  | text =>
    cases hpart
    simpa [Ranking.rests] using he
  | word hword =>
    cases hpart
    rintro rfl
    rw [List.map_nil, eq_comm, List.map_eq_nil_iff] at hword
    subst hword
    cases he
  | bare _ _ ih =>
    cases hpart
    refine ih rfl (Bool.eq_false_iff.mpr fun hrests => ?_)
    have hr := hR.rests _ hrests
    rw [Ranking.rests, hr] at he
    cases he
  | node _ _ ih =>
    cases hpart
    refine ih rfl (Bool.eq_false_iff.mpr fun hrests => ?_)
    have hr := hR.rests _ hrests
    rw [Ranking.rests, hr] at he
    cases he
  | tight _ _ iha ihb =>
    cases hpart
    rcases Bool.and_eq_false_iff.mp he with he | he
    · exact List.append_ne_nil_of_left_ne_nil (iha rfl he) _
    · exact List.append_ne_nil_of_right_ne_nil _ (ihb rfl he)
  | loose _ _ _ iha _ ihb =>
    cases hpart
    rcases Bool.and_eq_false_iff.mp he with he | he
    · exact List.append_ne_nil_of_left_ne_nil (iha rfl he) _
    · exact List.append_ne_nil_of_right_ne_nil _ (List.append_ne_nil_of_right_ne_nil _ (ihb rfl he))
  | left _ ih =>
    cases hpart
    exact ih rfl (Bool.or_eq_false_iff.mp he).1
  | right _ _ ih =>
    cases hpart
    exact ih rfl (Bool.or_eq_false_iff.mp he).2
  | digit | letter | any => simp
  | start | stop | never | often | given | omitted | absent | present =>
    cases hpart
    cases he
  | enough | moreTight | moreLoose => cases hpart

/-- What an expression reads is not empty, if it takes a character. -/
theorem ne_nil_of_reads (hR : R.Bounds g gap limit) {e : Peg ρ} {atomic : Bool}
    {before cs after : List Char} {nodes : List (Tree ρ)} (he : R.rests e = false)
    (h : g.Reads atomic (.once e) before cs after nodes) : cs ≠ [] :=
  ne_nil_of_part hR h rfl he

/-- Behind a match no more text is left than before, and less if a character was taken. -/
theorem length_of_matched (hR : R.Bounds g gap limit) {fuel : Nat} {atomic : Bool} {e : Peg ρ}
    {c later : Cursor} {nodes : List (Tree ρ)} (h : g.run fuel atomic e c = .matched later nodes) :
    later.rest.length ≤ c.rest.length ∧
      (R.rests e = false → later.rest.length < c.rest.length) := by
  have hgives : g.Gives atomic (.once e) (List.replicate c.index ' ') c.rest later nodes := by
    refine (g.runsRead fuel).run ?_
    rw [List.length_replicate]
    exact h
  obtain ⟨cs, after, hsplit, rfl, hread⟩ := hgives
  have hlength : c.rest.length = cs.length + after.length := by rw [hsplit, List.length_append]
  refine ⟨show after.length ≤ _ by omega, fun he => ?_⟩
  have hne := List.length_pos_iff.mpr (ne_nil_of_reads hR he hread)
  exact show after.length < _ by omega

/-! ## Fuel that lasts -/

/-- **`R.Lasts g gap limit fuel`** -- where this fuel is enough for the text that is left and for
what an expression needs, none of the three interpreters runs out of it. -/
structure Lasts (R : Ranking ρ) (g : Grammar ρ) (gap limit fuel : Nat) : Prop where
  /-- For an expression. -/
  run {atomic : Bool} {e : Peg ρ} {c : Cursor} : R.fits (pause gap atomic) limit e = true →
    limit * c.rest.length + R.need (pause gap atomic) e ≤ fuel → (g.run fuel atomic e c).Answers
  /-- For filler. -/
  skip {atomic : Bool} {c : Cursor} : limit * c.rest.length + pause gap atomic ≤ fuel →
    (g.skip fuel atomic c).Answers
  /-- For the further rounds of a repetition. -/
  again {atomic : Bool} {a : Peg ρ} {c : Cursor} {nodes : List (Tree ρ)} :
    R.fits (pause gap atomic) limit (.many a) = true → limit * c.rest.length + R.need (pause gap atomic) (.many a) ≤ fuel →
      (g.repeatFrom fuel atomic a c nodes).Answers

/-- What is left behind a character is paid by that character. -/
theorem pay {size less cost fuel : Nat} (hless : less < size) (hcost : cost ≤ limit)
    (hfuel : limit * size ≤ fuel) : limit * less + cost ≤ fuel := by
  have hstep : limit * (less + 1) ≤ limit * size := Nat.mul_le_mul_left _ hless
  rw [Nat.mul_succ] at hstep
  omega

/-- What is left without a character taken is no more than there was. -/
theorem keep {size less cost fuel : Nat} (hless : less ≤ size)
    (hfuel : limit * size + cost ≤ fuel) : limit * less + cost ≤ fuel :=
  Nat.le_trans (Nat.add_le_add_right (Nat.mul_le_mul_left _ hless) _) hfuel

section Step

variable {fuel : Nat} {atomic : Bool} {a b : Peg ρ} {c : Cursor}

/-- Filler takes nothing away from the fuel that the rest of the text needs. -/
theorem length_of_skipped (hR : R.Bounds g gap limit) {later : Cursor} {nodes : List (Tree ρ)}
    (h : g.skip fuel atomic c = .matched later nodes) : later.rest.length ≤ c.rest.length := by
  cases atomic with
  | true =>
    obtain rfl := Grammar.eq_of_skip h
    exact Nat.le_refl _
  | false =>
    cases fuel with
    | zero => cases h
    | succ fuel => exact (length_of_matched hR h).1

theorem Lasts.seq (hR : R.Bounds g gap limit) (h : R.Lasts g gap limit fuel)
    (hfits : R.fits (pause gap atomic) limit (.seq a b) = true)
    (hfuel : limit * c.rest.length + R.need (pause gap atomic) (.seq a b) ≤ fuel + 1) :
    (g.run (fuel + 1) atomic (.seq a b) c).Answers := by
  simp only [fits, Bool.and_eq_true, decide_eq_true_eq] at hfits
  obtain ⟨⟨hb, hfitsa⟩, hfitsb⟩ := hfits
  simp only [need] at hfuel
  refine Outcome.Answers.andThen (h.run hfitsa (by omega)) fun c₁ _ hmatched => ?_
  obtain ⟨hle, hlt⟩ := length_of_matched hR hmatched
  refine Outcome.Answers.andThen (h.skip (keep hle (by omega))) fun c₂ _ hskipped => ?_
  have hle₂ := length_of_skipped hR hskipped
  refine Outcome.Answers.andThen (h.run hfitsb ?_) fun _ _ _ => trivial
  -- The second part is reached before the first character or behind it.
  cases hrests : R.rests a with
  | true =>
    rw [hrests, if_pos rfl] at hfuel
    exact keep (Nat.le_trans hle₂ hle) (by omega)
  | false => exact pay (Nat.lt_of_le_of_lt hle₂ (hlt hrests)) hb (by omega)

theorem Lasts.many (hR : R.Bounds g gap limit) (h : R.Lasts g gap limit fuel)
    (hfits : R.fits (pause gap atomic) limit (.many a) = true)
    (hfuel : limit * c.rest.length + R.need (pause gap atomic) (.many a) ≤ fuel + 1) :
    (g.run (fuel + 1) atomic (.many a) c).Answers := by
  have hparts := hfits
  simp only [fits, Bool.and_eq_true, decide_eq_true_eq, Bool.not_eq_true'] at hparts
  obtain ⟨⟨hmany, hrests⟩, hfitsa⟩ := hparts
  rw [Grammar.run]
  refine Outcome.Answers.orElse (Outcome.Answers.andThen (h.run hfitsa ?_) fun c₁ _ hmatched => ?_)
    trivial
  · simp only [need] at hfuel
    omega
  · refine h.again hfits (pay ((length_of_matched hR hmatched).2 hrests) hmany ?_)
    simp only [need] at hfuel
    omega

theorem Lasts.round (hR : R.Bounds g gap limit) (h : R.Lasts g gap limit fuel)
    {nodes : List (Tree ρ)} (hfits : R.fits (pause gap atomic) limit (.many a) = true)
    (hfuel : limit * c.rest.length + R.need (pause gap atomic) (.many a) ≤ fuel + 1) :
    (g.repeatFrom (fuel + 1) atomic a c nodes).Answers := by
  have hparts := hfits
  simp only [fits, Bool.and_eq_true, decide_eq_true_eq, Bool.not_eq_true'] at hparts
  obtain ⟨⟨hmany, hrests⟩, hfitsa⟩ := hparts
  have hgap : limit * c.rest.length + max (pause gap atomic) (R.need (pause gap atomic) a) ≤ fuel := by
    simp only [need] at hfuel
    omega
  rw [Grammar.repeatFrom]
  split
  · next later more hround =>
    obtain ⟨c₁, _, hskipped, hmatched⟩ := Outcome.andThen_eq_matched hround
    have hle := length_of_skipped hR hskipped
    have hlt := (length_of_matched hR hmatched).2 hrests
    exact h.again hfits (pay (Nat.lt_of_lt_of_le hlt hle) hmany (by omega))
  · exact trivial
  · next hround =>
    have hanswers : ((g.skip fuel atomic c).andThen fun c₁ _ => g.run fuel atomic a c₁).Answers :=
      (h.skip (by omega)).andThen fun c₁ _ hskipped =>
        h.run hfitsa (keep (length_of_skipped hR hskipped) (by omega))
    rw [hround] at hanswers
    exact hanswers

theorem Lasts.step (hR : R.Bounds g gap limit) (h : R.Lasts g gap limit fuel) {e : Peg ρ}
    (hfits : R.fits (pause gap atomic) limit e = true) (hfuel : limit * c.rest.length + R.need (pause gap atomic) e ≤ fuel + 1) :
    (g.run (fuel + 1) atomic e c).Answers := by
  cases e with
  | text | word => exact Outcome.answers_ofRest _ _ _
  | digit | letter | any => exact Outcome.answers_ofChar _ _
  | start | stop =>
    rw [Grammar.run]
    split <;> exact trivial
  | rule r =>
    simp only [need] at hfuel
    have hbody := hR.rule (atomic || g.kind r = .atomic) r
    exact Outcome.Answers.andThen (h.run (hR.body _ r) (by omega)) fun _ _ _ => trivial
  | seq a b => exact h.seq hR hfits hfuel
  | alt a b =>
    obtain ⟨hfitsa, hfitsb⟩ := (Bool.and_eq_true _ _).mp hfits
    simp only [need] at hfuel
    rw [Grammar.run]
    exact Outcome.Answers.orElse (h.run hfitsa (by omega)) (h.run hfitsb (by omega))
  | many a => exact h.many hR hfits hfuel
  | opt a =>
    simp only [need] at hfuel
    rw [Grammar.run]
    exact Outcome.Answers.orElse (h.run hfits (by omega)) trivial
  | absent a =>
    simp only [need] at hfuel
    have ha : (g.run fuel atomic a c).Answers := h.run hfits (by omega)
    rw [Grammar.run]
    split
    · exact trivial
    · exact trivial
    · next hrun =>
      rw [hrun] at ha
      exact ha
  | present a =>
    simp only [need] at hfuel
    exact Outcome.Answers.andThen (h.run hfits (by omega)) fun _ _ _ => trivial

end Step

theorem need_pos (R : Ranking ρ) (gap : Nat) (e : Peg ρ) : 0 < R.need gap e := by
  cases e <;> simp [need]

theorem lasts (hR : R.Bounds g gap limit) (fuel : Nat) : R.Lasts g gap limit fuel := by
  induction fuel with
  | zero =>
    -- Every call needs fuel, so there is nothing to show.
    refine ⟨fun {atomic e _} _ h => ?_, fun {atomic _} h => ?_, fun {atomic a _ _} _ h => ?_⟩
    · have hneed := R.need_pos (pause gap atomic) e
      omega
    · have hfiller := hR.filler
      cases atomic <;> simp only [pause, if_true, Bool.false_eq_true, if_false] at h <;> omega
    · have hneed := R.need_pos (pause gap atomic) (.many a)
      omega
  | succ fuel ih =>
    refine ⟨fun hfits h => ih.step hR hfits h, fun {atomic c} h => ?_,
      fun hfits h => ih.round hR hfits h⟩
    cases atomic with
    | true => trivial
    | false =>
      have hfiller := hR.filler
      simp only [pause, Bool.false_eq_true, if_false] at h
      exact ih.run hR.fits_filler (by omega)

/-- **Fuel in proportion to the text lasts**, if rules can be ranked. -/
theorem run_answers (hR : R.Bounds g gap limit) {fuel : Nat} {atomic : Bool} {e : Peg ρ}
    {c : Cursor} (hfits : R.fits (pause gap atomic) limit e = true)
    (hfuel : limit * c.rest.length + R.need (pause gap atomic) e ≤ fuel) :
    (g.run fuel atomic e c).Answers :=
  (lasts hR fuel).run hfits hfuel

end Ranking

end QueryScore
