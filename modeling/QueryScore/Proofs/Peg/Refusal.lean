/-
# QueryScore.Proofs.Peg.Refusal -- what a refusal says of the text

A refusal is a failed run, so it can be taken apart like a match: a refused choice refuses both
sides, a refused sequence refuses its first part or reads it and refuses the second, and a
repetition or an option refuses nothing. Inside an atomic rule this says which characters do not
stand at a place, which is what makes names, keywords and comments as long as they can be
(`Reads.rounds`).
-/

import QueryScore.Proofs.Peg.Reading

namespace QueryScore

variable {ρ : Type} {g : Grammar ρ} {a b : Peg ρ} {atomic : Bool} {before after : List Char}

namespace Grammar

/-! ## Single characters -/

theorem Refuses.text {ws : List Char} (h : g.Refuses atomic (.text ws) before after) :
    ¬ ws <+: after := by
  rintro ⟨rest, rfl⟩
  obtain ⟨fuel, h⟩ := h
  cases fuel with
  | zero => cases h
  | succ fuel =>
    have hrest : Text.stripStart ws (ws ++ rest) = some rest := Text.stripStart_eq_some.mpr rfl
    rw [Grammar.run, hrest] at h
    cases h

theorem Refuses.word {ws : List Char} (h : g.Refuses atomic (.word ws) before after)
    {word : List Char} (hword : word.map Text.asciiLower = ws.map Text.asciiLower) :
    ¬ word <+: after := by
  rintro ⟨rest, rfl⟩
  obtain ⟨fuel, h⟩ := h
  cases fuel with
  | zero => cases h
  | succ fuel =>
    have hrest : Text.stripWord ws (word ++ rest) = some rest :=
      Text.stripWord_eq_some.mpr ⟨word, rfl, hword⟩
    rw [Grammar.run, hrest] at h
    cases h

theorem Refuses.digit (h : g.Refuses atomic .digit before after) :
    ∀ c ∈ after.head?, c.isDigit = false := by
  obtain ⟨fuel, h⟩ := h
  cases fuel with
  | zero => cases h
  | succ fuel =>
    cases after with
    | nil => simp
    | cons c rest => simpa [Grammar.run, Outcome.ofChar] using h

theorem Refuses.letter (h : g.Refuses atomic .letter before after) :
    ∀ c ∈ after.head?, c.isAlpha = false := by
  obtain ⟨fuel, h⟩ := h
  cases fuel with
  | zero => cases h
  | succ fuel =>
    cases after with
    | nil => simp
    | cons c rest => simpa [Grammar.run, Outcome.ofChar] using h

theorem Refuses.any (h : g.Refuses atomic .any before after) : after = [] := by
  obtain ⟨fuel, h⟩ := h
  cases fuel with
  | zero => cases h
  | succ fuel =>
    cases after with
    | nil => rfl
    | cons c rest => simp [Grammar.run, Outcome.ofChar] at h

/-! ## Combinations -/

theorem Refuses.alt (h : g.Refuses atomic (.alt a b) before after) :
    g.Refuses atomic a before after ∧ g.Refuses atomic b before after := by
  obtain ⟨fuel, h⟩ := h
  cases fuel with
  | zero => cases h
  | succ fuel =>
    rw [Grammar.run] at h
    cases ha : g.run fuel atomic a ⟨before.length, after⟩ with
    | matched c nodes =>
      rw [ha] at h
      cases h
    | failed =>
      rw [ha] at h
      exact ⟨⟨fuel, ha⟩, ⟨fuel, h⟩⟩
    | exhausted =>
      rw [ha] at h
      cases h

/-- A refused rule is refused by its body. -/
theorem Refuses.rule {r : ρ} (h : g.Refuses atomic (.rule r) before after) :
    g.Refuses (atomic || g.kind r = .atomic) (g.body r) before after := by
  obtain ⟨fuel, h⟩ := h
  cases fuel with
  | zero => cases h
  | succ fuel =>
    rw [Grammar.run] at h
    refine ⟨fuel, ?_⟩
    cases hbody : g.run fuel (atomic || g.kind r = .atomic) (g.body r) ⟨before.length, after⟩ with
    | matched c nodes =>
      rw [hbody] at h
      cases h
    | failed => rfl
    | exhausted =>
      rw [hbody] at h
      cases h

/-- What may be repeated is not refused. -/
theorem not_refuses_many : ¬ g.Refuses atomic (.many a) before after := by
  rintro ⟨fuel, h⟩
  cases fuel with
  | zero => cases h
  | succ fuel =>
    rw [Grammar.run] at h
    cases ha : g.run fuel atomic a ⟨before.length, after⟩ with
    | matched c nodes =>
      rw [ha] at h
      cases hr : g.repeatFrom fuel atomic a c nodes with
      | matched => simp [Outcome.andThen, hr, Outcome.orElse] at h
      | failed => exact g.repeatFrom_ne_failed _ _ _ _ _ hr
      | exhausted => simp [Outcome.andThen, hr, Outcome.orElse] at h
    | failed =>
      rw [ha] at h
      cases h
    | exhausted =>
      rw [ha] at h
      cases h

/-- A refused prohibition is a match. -/
theorem Refuses.absent (h : g.Refuses atomic (.absent a) before after) :
    ∃ cs rest nodes, after = cs ++ rest ∧ g.Reads atomic (.once a) before cs rest nodes := by
  obtain ⟨fuel, h⟩ := h
  cases fuel with
  | zero => cases h
  | succ fuel =>
    rw [Grammar.run] at h
    cases ha : g.run fuel atomic a ⟨before.length, after⟩ with
    | matched c nodes =>
      obtain ⟨cs, rest, hsplit, -, hreads⟩ := (g.runsRead fuel).run ha
      exact ⟨cs, rest, nodes, hsplit, hreads⟩
    | failed =>
      rw [ha] at h
      cases h
    | exhausted =>
      rw [ha] at h
      cases h

/-- A sequence that an atomic rule refuses is refused at its first or at its second part. -/
theorem Refuses.seq (h : g.Refuses true (.seq a b) before after) :
    g.Refuses true a before after ∨
      ∃ cs rest nodes, after = cs ++ rest ∧ g.Reads true (.once a) before cs rest nodes ∧
        g.Refuses true b (before ++ cs) rest := by
  obtain ⟨fuel, h⟩ := h
  cases fuel with
  | zero => cases h
  | succ fuel =>
    rw [Grammar.run] at h
    cases ha : g.run fuel true a ⟨before.length, after⟩ with
    | failed => exact .inl ⟨fuel, ha⟩
    | exhausted =>
      rw [ha] at h
      cases h
    | matched c nodes =>
      obtain ⟨cs, rest, rfl, rfl, hreads⟩ := (g.runsRead fuel).run ha
      refine .inr ⟨cs, rest, nodes, rfl, hreads, fuel, ?_⟩
      rw [ha] at h
      cases fuel with
      | zero => cases ha
      | succ fuel =>
        cases hb : g.run (fuel + 1) true b ⟨(before ++ cs).length, rest⟩ with
        | failed => rfl
        | matched c₁ nodes₁ =>
          simp only [Outcome.andThen, Grammar.skip, if_true, hb] at h
          cases h
        | exhausted =>
          simp only [Outcome.andThen, Grammar.skip, if_true, hb] at h
          cases h

/-! ## Repetitions inside atomic rules -/

/-- **`g.Rounds a before cs after`** -- `cs` is read by rounds of `a` without filler, until `a`
is refused. -/
inductive Rounds (g : Grammar ρ) (a : Peg ρ) : List Char → List Char → List Char → Prop
  | done {before after : List Char} : g.Refuses true a before after → Rounds g a before [] after
  | more {before cs ds after : List Char} {nodes : List (Tree ρ)} :
      g.Reads true (.once a) before cs (ds ++ after) nodes →
      Rounds g a (before ++ cs) ds after → Rounds g a before (cs ++ ds) after

private theorem Reads.rounds_aux {part : Peg.Part ρ} {cs : List Char} {nodes : List (Tree ρ)}
    (h : g.Reads atomic part before cs after nodes) (hatomic : atomic = true)
    (hpart : part = .again a) : g.Rounds a before cs after := by
  induction h with
  | enough hend =>
    cases hpart
    exact .done (hend hatomic)
  | moreTight hone hmore _ ih =>
    cases hpart
    exact .more hone (ih rfl rfl)
  | moreLoose => cases hatomic
  | _ => cases hpart

/-- A repetition inside an atomic rule is read in rounds. -/
theorem Reads.rounds {cs : List Char} {nodes : List (Tree ρ)}
    (h : g.Reads true (.once (.many a)) before cs after nodes) : g.Rounds a before cs after := by
  cases h with
  | never hend => exact .done hend
  | often hone hmore => exact .more hone (hmore.rounds_aux rfl rfl)

theorem Rounds.refuses {cs : List Char} (h : g.Rounds a before cs after) :
    g.Refuses true a (before ++ cs) after := by
  induction h with
  | done hend => simpa using hend
  | more _ _ ih => simpa using ih

/-- What is closed under joining and holds of each round holds of all rounds together. -/
theorem Rounds.all {P : List Char → Prop} (hnil : P [])
    (happend : ∀ {cs ds}, P cs → P ds → P (cs ++ ds))
    (hone : ∀ {before cs after nodes}, g.Reads true (.once a) before cs after nodes → P cs)
    {cs : List Char} (h : g.Rounds a before cs after) : P cs := by
  induction h with
  | done => exact hnil
  | more hread _ ih => exact happend (hone hread) ih

end Grammar

end QueryScore
