/-
# QueryScore.Proofs.Peg.Reading -- what a grammar reads, without fuel

The interpreter of a grammar takes fuel, and a run whose fuel lasts gives the same answer with
more of it (`run_settles`). So a match is a fact about the text alone: a *reading*, the
derivation of the match, built from the readings of the parts (`Reads`). What an expression
refuses stays a fact about runs (`Refuses`), kept where ordered choice, negation and the end of
a repetition need it. Every match is a reading (`runsRead`), and no place is matched and refused
(`not_refuses_of_run`).
-/

import QueryScore.Peg
import QueryScore.Proofs.Text.Letter

namespace QueryScore

variable {ρ : Type} {g : Grammar ρ}

/-! ## More fuel -/

namespace Outcome

/-- **`o.Settles o'`** -- `o` is no answer, or `o'` is the same answer. -/
def Settles (o o' : Outcome ρ) : Prop := o = .exhausted ∨ o' = o

theorem Settles.refl (o : Outcome ρ) : o.Settles o := .inr rfl

theorem Settles.andThen {o o' : Outcome ρ} {k k' : Cursor → List (Tree ρ) → Outcome ρ}
    (h : o.Settles o') (hk : ∀ c nodes, (k c nodes).Settles (k' c nodes)) :
    (o.andThen k).Settles (o'.andThen k') := by
  rcases h with rfl | rfl
  · exact .inl rfl
  · cases o' with
    | matched c nodes => exact hk c nodes
    | failed => exact .refl _
    | exhausted => exact .refl _

theorem Settles.orElse {o o' : Outcome ρ} {k k' : Unit → Outcome ρ} (h : o.Settles o')
    (hk : (k ()).Settles (k' ())) : (o.orElse k).Settles (o'.orElse k') := by
  rcases h with rfl | rfl
  · exact .inl rfl
  · cases o' with
    | matched c nodes => exact .refl _
    | failed => exact hk
    | exhausted => exact .refl _

end Outcome

open Outcome in
/-- One more unit of fuel changes no answer of the three interpreters. -/
theorem Grammar.settles_succ (g : Grammar ρ) (fuel : Nat) :
    (∀ atomic e c, (g.run fuel atomic e c).Settles (g.run (fuel + 1) atomic e c)) ∧
    (∀ atomic c, (g.skip fuel atomic c).Settles (g.skip (fuel + 1) atomic c)) ∧
    ∀ atomic a c nodes,
      (g.repeatFrom fuel atomic a c nodes).Settles (g.repeatFrom (fuel + 1) atomic a c nodes) := by
  induction fuel with
  | zero =>
    exact ⟨fun _ _ _ => .inl rfl, fun _ _ => .inl rfl, fun _ _ _ _ => .inl rfl⟩
  | succ fuel ih =>
    obtain ⟨hrun, hskip, hrepeat⟩ := ih
    -- Each call of one of the three passes the smaller fuel on, so each part of an answer settles.
    refine ⟨fun atomic e c => ?_, fun atomic c => ?_, fun atomic a c nodes => ?_⟩
    · cases e with
      | text | word | digit | letter | any | start | stop => exact .refl _
      | rule r => exact (hrun _ _ _).andThen fun _ _ => .refl _
      | seq a b =>
        exact (hrun _ _ _).andThen fun _ _ => (hskip _ _).andThen fun _ _ =>
          (hrun _ _ _).andThen fun _ _ => .refl _
      | alt a b =>
        rw [Grammar.run, Grammar.run.eq_def g (fuel + 1 + 1)]
        exact (hrun _ _ _).orElse (hrun _ _ _)
      | many a =>
        rw [Grammar.run, Grammar.run.eq_def g (fuel + 1 + 1)]
        exact ((hrun _ _ _).andThen fun _ _ => hrepeat _ _ _ _).orElse (.refl _)
      | opt a =>
        rw [Grammar.run, Grammar.run.eq_def g (fuel + 1 + 1)]
        exact (hrun _ _ _).orElse (.refl _)
      | absent a =>
        simp only [Grammar.run]
        rcases hrun atomic a c with h | h
        · exact .inl (by rw [h])
        · exact .inr (by rw [← h]; rfl)
      | present a => exact (hrun _ _ _).andThen fun _ _ => .refl _
    · cases atomic with
      | true => exact .refl _
      | false => exact hrun _ _ _
    · have hstep := (hskip atomic c).andThen fun c₁ _ => hrun atomic a c₁
      rw [Grammar.repeatFrom, Grammar.repeatFrom.eq_def g (fuel + 1 + 1)]
      rcases hstep with h | h
      · exact .inl (by rw [h])
      · simp only [h]
        split
        · exact hrepeat _ _ _ _
        · exact .refl _
        · exact .refl _

/-- A run that answers gives the same answer with more fuel. -/
theorem Grammar.run_settles (g : Grammar ρ) {fuel more : Nat} (h : fuel ≤ more) (atomic : Bool)
    (e : Peg ρ) (c : Cursor) : (g.run fuel atomic e c).Settles (g.run more atomic e c) := by
  induction h with
  | refl => exact .refl _
  | @step more _ ih =>
    rcases ih with h | h
    · exact .inl h
    · rcases (g.settles_succ more).1 atomic e c with h' | h'
      · exact .inl (by rw [← h, h'])
      · exact .inr (by rw [h', h])

/-! ## Readings -/

/-- **`g.Refuses atomic e before after`** -- the expression does not match at `after`. -/
def Grammar.Refuses (g : Grammar ρ) (atomic : Bool) (e : Peg ρ) (before after : List Char) : Prop :=
  ∃ fuel, g.run fuel atomic e ⟨before.length, after⟩ = .failed

/-- What a run matches is not refused. -/
theorem Grammar.not_refuses_of_run {fuel : Nat} {atomic : Bool} {e : Peg ρ}
    {before after : List Char} {later : Cursor} {nodes : List (Tree ρ)}
    (h : g.run fuel atomic e ⟨before.length, after⟩ = .matched later nodes) :
    ¬ g.Refuses atomic e before after := by
  rintro ⟨fuel', h'⟩
  have h₁ := g.run_settles (Nat.le_max_left fuel fuel') atomic e ⟨before.length, after⟩
  have h₂ := g.run_settles (Nat.le_max_right fuel fuel') atomic e ⟨before.length, after⟩
  simp_all [Outcome.Settles]

/-- What a reading is of: an expression, or the further rounds of a repetition. -/
inductive Peg.Part (ρ : Type) where
  /-- An expression. -/
  | once (e : Peg ρ)
  /-- The rounds of a repetition after the first. -/
  | again (e : Peg ρ)

/-- The expression of a part. -/
def Peg.Part.body : Peg.Part ρ → Peg ρ
  | .once e => e
  | .again e => e

/-- **`g.Reads atomic part before cs after nodes`** -- between `before` and `after` the part
matches `cs`, inside an atomic rule or not, and leaves `nodes`. -/
inductive Grammar.Reads (g : Grammar ρ) :
    Bool → Peg.Part ρ → List Char → List Char → List Char → List (Tree ρ) → Prop
  | text {atomic before cs after} : Reads g atomic (.once (.text cs)) before cs after []
  | word {atomic ws before cs after} : cs.map Text.asciiLower = ws.map Text.asciiLower →
      Reads g atomic (.once (.word ws)) before cs after []
  | digit {atomic before c after} : c.isDigit = true →
      Reads g atomic (.once .digit) before [c] after []
  | letter {atomic before c after} : c.isAlpha = true →
      Reads g atomic (.once .letter) before [c] after []
  | any {atomic before c after} : Reads g atomic (.once .any) before [c] after []
  | start {atomic after} : Reads g atomic (.once .start) [] [] after []
  | stop {atomic before} : Reads g atomic (.once .stop) before [] [] []
  | bare {atomic r before cs after nodes} : (g.kind r = .silent ∨ atomic = true) →
      Reads g (atomic || g.kind r = .atomic) (.once (g.body r)) before cs after nodes →
      Reads g atomic (.once (.rule r)) before cs after nodes
  | node {r before cs after nodes} : g.kind r ≠ .silent →
      Reads g (g.kind r = .atomic) (.once (g.body r)) before cs after nodes →
      Reads g false (.once (.rule r)) before cs after [.node r before.length cs nodes]
  | tight {a b before cs ds after nodes₁ nodes₂} :
      Reads g true (.once a) before cs (ds ++ after) nodes₁ →
      Reads g true (.once b) (before ++ cs) ds after nodes₂ →
      Reads g true (.once (.seq a b)) before (cs ++ ds) after (nodes₁ ++ nodes₂)
  | loose {a b before cs fs ds after nodes₁ skipped nodes₂} :
      Reads g false (.once a) before cs (fs ++ (ds ++ after)) nodes₁ →
      Reads g true (.once g.filler) (before ++ cs) fs (ds ++ after) skipped →
      Reads g false (.once b) (before ++ cs ++ fs) ds after nodes₂ →
      Reads g false (.once (.seq a b)) before (cs ++ (fs ++ ds)) after (nodes₁ ++ nodes₂)
  | left {atomic a b before cs after nodes} : Reads g atomic (.once a) before cs after nodes →
      Reads g atomic (.once (.alt a b)) before cs after nodes
  | right {atomic a b before cs after nodes} : g.Refuses atomic a before (cs ++ after) →
      Reads g atomic (.once b) before cs after nodes →
      Reads g atomic (.once (.alt a b)) before cs after nodes
  | never {atomic a before after} : g.Refuses atomic a before after →
      Reads g atomic (.once (.many a)) before [] after []
  | often {atomic a before cs ds after nodes₁ nodes₂} :
      Reads g atomic (.once a) before cs (ds ++ after) nodes₁ →
      Reads g atomic (.again a) (before ++ cs) ds after nodes₂ →
      Reads g atomic (.once (.many a)) before (cs ++ ds) after (nodes₁ ++ nodes₂)
  | enough {atomic a before after} : (atomic = true → g.Refuses true a before after) →
      Reads g atomic (.again a) before [] after []
  | moreTight {a before cs ds after nodes₁ nodes₂} :
      Reads g true (.once a) before cs (ds ++ after) nodes₁ →
      Reads g true (.again a) (before ++ cs) ds after nodes₂ →
      Reads g true (.again a) before (cs ++ ds) after (nodes₁ ++ nodes₂)
  | moreLoose {a before fs cs ds after skipped nodes₁ nodes₂} :
      Reads g true (.once g.filler) before fs (cs ++ (ds ++ after)) skipped →
      Reads g false (.once a) (before ++ fs) cs (ds ++ after) nodes₁ →
      Reads g false (.again a) (before ++ fs ++ cs) ds after nodes₂ →
      Reads g false (.again a) before (fs ++ (cs ++ ds)) after (nodes₁ ++ nodes₂)
  | given {atomic a before cs after nodes} : Reads g atomic (.once a) before cs after nodes →
      Reads g atomic (.once (.opt a)) before cs after nodes
  | omitted {atomic a before after} : g.Refuses atomic a before after →
      Reads g atomic (.once (.opt a)) before [] after []
  | absent {atomic a before after} : g.Refuses atomic a before after →
      Reads g atomic (.once (.absent a)) before [] after []
  | present {atomic a before cs after nodes} :
      Reads g atomic (.once a) before cs after nodes →
      Reads g atomic (.once (.present a)) before [] (cs ++ after) []

/-- **`g.Gives atomic part before rest later nodes`** -- a reading at the front of `rest` that
leads to the cursor `later`. -/
def Grammar.Gives (g : Grammar ρ) (atomic : Bool) (part : Peg.Part ρ) (before rest : List Char)
    (later : Cursor) (nodes : List (Tree ρ)) : Prop :=
  ∃ cs after, rest = cs ++ after ∧ later = ⟨(before ++ cs).length, after⟩ ∧
    g.Reads atomic part before cs after nodes

theorem Outcome.andThen_eq_matched {o : Outcome ρ} {k : Cursor → List (Tree ρ) → Outcome ρ}
    {later : Cursor} {nodes : List (Tree ρ)} (h : o.andThen k = .matched later nodes) :
    ∃ c ns, o = .matched c ns ∧ k c ns = .matched later nodes := by
  cases o with
  | matched c ns => exact ⟨c, ns, rfl, h⟩
  | failed => cases h
  | exhausted => cases h

theorem Outcome.orElse_eq_matched {o : Outcome ρ} {k : Unit → Outcome ρ} {later : Cursor}
    {nodes : List (Tree ρ)} (h : o.orElse k = .matched later nodes) :
    o = .matched later nodes ∨ o = .failed ∧ k () = .matched later nodes := by
  cases o with
  | matched c ns => exact .inl h
  | failed => exact .inr ⟨rfl, h⟩
  | exhausted => cases h

theorem Outcome.ofRest_eq_matched {c later : Cursor} {size : Nat} {rest : Option (List Char)}
    {nodes : List (Tree ρ)} (h : Outcome.ofRest c size rest = .matched later nodes) :
    nodes = [] ∧ ∃ after, rest = some after ∧ later = c.advance size after := by
  cases rest with
  | none => cases h
  | some after =>
    cases h
    exact ⟨rfl, after, rfl, rfl⟩

theorem Outcome.ofChar_eq_matched {p : Char → Bool} {c later : Cursor}
    {nodes : List (Tree ρ)} (h : Outcome.ofChar p c = .matched later nodes) :
    nodes = [] ∧ ∃ d after, c.rest = d :: after ∧ p d = true ∧ later = c.advance 1 after := by
  obtain ⟨index, rest⟩ := c
  cases rest with
  | nil => cases h
  | cons d rest =>
    simp only [Outcome.ofChar] at h
    split at h
    · rename_i hd
      cases h
      exact ⟨rfl, d, rest, rfl, hd, rfl⟩
    · cases h

/-- A repetition that has begun does not fail. -/
theorem Grammar.repeatFrom_ne_failed (g : Grammar ρ) (fuel : Nat) (atomic : Bool) (a : Peg ρ)
    (c : Cursor) (nodes : List (Tree ρ)) : g.repeatFrom fuel atomic a c nodes ≠ .failed := by
  induction fuel generalizing c nodes with
  | zero =>
    intro h
    cases h
  | succ fuel ih =>
    rw [Grammar.repeatFrom]
    split
    · exact ih _ _
    · intro h
      cases h
    · intro h
      cases h

/-- **`g.RunsRead fuel`** -- with this fuel, what each of the three interpreters matches is a
reading. -/
structure Grammar.RunsRead (g : Grammar ρ) (fuel : Nat) : Prop where
  /-- Of an expression. -/
  run {atomic : Bool} {e : Peg ρ} {before rest : List Char} {later : Cursor}
    {nodes : List (Tree ρ)} : g.run fuel atomic e ⟨before.length, rest⟩ = .matched later nodes →
      g.Gives atomic (.once e) before rest later nodes
  /-- Of filler. -/
  skip {before rest : List Char} {later : Cursor} {nodes : List (Tree ρ)} :
    g.skip fuel false ⟨before.length, rest⟩ = .matched later nodes →
      g.Gives true (.once g.filler) before rest later nodes
  /-- Of the further rounds of a repetition. -/
  again {atomic : Bool} {a : Peg ρ} {before rest : List Char} {later : Cursor}
    {left nodes : List (Tree ρ)} :
    g.repeatFrom fuel atomic a ⟨before.length, rest⟩ left = .matched later nodes →
      ∃ more, nodes = left ++ more ∧ g.Gives atomic (.again a) before rest later more

/-- Inside an atomic rule nothing is skipped. -/
theorem Grammar.eq_of_skip {fuel : Nat} {c later : Cursor} {nodes : List (Tree ρ)}
    (h : g.skip fuel true c = .matched later nodes) : later = c := by
  cases fuel with
  | zero => cases h
  | succ fuel =>
    cases h
    rfl

section Runs

open Outcome

variable {fuel : Nat} {atomic : Bool} {a b : Peg ρ} {before rest : List Char} {later : Cursor}
  {left nodes : List (Tree ρ)}

/-- A node spans what its rule has read. -/
theorem Grammar.RunsRead.rule (hg : g.RunsRead fuel) {r : ρ}
    (h : g.run (fuel + 1) atomic (.rule r) ⟨before.length, rest⟩ = .matched later nodes) :
    g.Gives atomic (.once (.rule r)) before rest later nodes := by
  obtain ⟨c, ns, hbody, h⟩ := andThen_eq_matched h
  obtain ⟨cs, after, rfl, rfl, hreads⟩ := hg.run hbody
  cases h
  refine ⟨cs, after, rfl, rfl, ?_⟩
  -- A silent rule, and any rule inside an atomic one, passes on what its body leaves.
  by_cases hr : g.kind r = .silent ∨ atomic = true
  · rw [leaveNode, if_pos (by simpa using hr)]
    exact .bare hr hreads
  · obtain ⟨hkind, hatomic⟩ := not_or.mp hr
    obtain rfl := Bool.eq_false_iff.mpr hatomic
    rw [leaveNode, if_neg (by simpa using hkind)]
    have htext : Cursor.textTo ⟨before.length, cs ++ after⟩
        ⟨(before ++ cs).length, after⟩ = cs := by simp [Cursor.textTo]
    rw [htext]
    exact .node hkind (by simpa using hreads)

theorem Grammar.RunsRead.seq (hg : g.RunsRead fuel)
    (h : g.run (fuel + 1) atomic (.seq a b) ⟨before.length, rest⟩ = .matched later nodes) :
    g.Gives atomic (.once (.seq a b)) before rest later nodes := by
  obtain ⟨c₁, ns₁, ha, h⟩ := andThen_eq_matched h
  obtain ⟨c₂, skipped, hs, h⟩ := andThen_eq_matched h
  obtain ⟨c₃, ns₂, hb, h⟩ := andThen_eq_matched h
  cases h
  obtain ⟨cs, rest₁, rfl, rfl, hreads⟩ := hg.run ha
  cases atomic with
  | true =>
    obtain rfl := eq_of_skip hs
    obtain ⟨ds, after, rfl, rfl, hlater⟩ := hg.run hb
    exact ⟨cs ++ ds, after, by simp, by simp, .tight hreads hlater⟩
  | false =>
    obtain ⟨fs, rest₂, rfl, rfl, hfiller⟩ := hg.skip hs
    obtain ⟨ds, after, rfl, rfl, hlater⟩ := hg.run hb
    exact ⟨cs ++ (fs ++ ds), after, by simp, by simp, .loose hreads hfiller hlater⟩

theorem Grammar.RunsRead.many (hg : g.RunsRead fuel)
    (h : g.run (fuel + 1) atomic (.many a) ⟨before.length, rest⟩ = .matched later nodes) :
    g.Gives atomic (.once (.many a)) before rest later nodes := by
  rw [Grammar.run] at h
  rcases orElse_eq_matched h with h | ⟨ha, h⟩
  · obtain ⟨c, ns, ha, h⟩ := andThen_eq_matched h
    obtain ⟨cs, rest₁, rfl, rfl, hreads⟩ := hg.run ha
    obtain ⟨more, rfl, ds, after, rfl, rfl, hmore⟩ := hg.again h
    exact ⟨cs ++ ds, after, by simp, by simp, .often hreads hmore⟩
  · cases h
    refine ⟨[], rest, rfl, by simp, .never ⟨fuel, ?_⟩⟩
    -- a first round that matches would have begun the repetition, which then cannot fail
    cases hfirst : g.run fuel atomic a ⟨before.length, rest⟩ with
    | matched c ns =>
      rw [hfirst] at ha
      exact absurd ha (g.repeatFrom_ne_failed _ _ _ _ _)
    | failed => rfl
    | exhausted =>
      rw [hfirst] at ha
      cases ha

/-- Filler before a round that does not match is given back, so the rounds end without it. -/
theorem Grammar.RunsRead.round (hg : g.RunsRead fuel)
    (h : g.repeatFrom (fuel + 1) atomic a ⟨before.length, rest⟩ left = .matched later nodes) :
    ∃ more, nodes = left ++ more ∧ g.Gives atomic (.again a) before rest later more := by
  rw [Grammar.repeatFrom] at h
  split at h
  · next c more hround =>
    obtain ⟨c₁, skipped, hs, ha⟩ := andThen_eq_matched hround
    cases atomic with
    | true =>
      obtain rfl := eq_of_skip hs
      obtain ⟨cs, rest₁, rfl, rfl, hreads⟩ := hg.run ha
      obtain ⟨more', rfl, ds, after, rfl, rfl, hmore⟩ := hg.again h
      exact ⟨more ++ more', by simp, cs ++ ds, after, by simp, by simp, .moreTight hreads hmore⟩
    | false =>
      obtain ⟨fs, rest₂, rfl, rfl, hfiller⟩ := hg.skip hs
      obtain ⟨cs, rest₁, rfl, rfl, hreads⟩ := hg.run ha
      obtain ⟨more', rfl, ds, after, rfl, rfl, hmore⟩ := hg.again h
      exact ⟨more ++ more', by simp, fs ++ (cs ++ ds), after, by simp, by simp,
        .moreLoose hfiller hreads hmore⟩
  · next hround =>
    cases h
    refine ⟨[], by simp, [], rest, rfl, by simp, .enough ?_⟩
    -- A repetition without filler ends only where the round itself fails.
    rintro rfl
    cases fuel with
    | zero => cases hround
    | succ fuel => exact ⟨fuel + 1, hround⟩
  · cases h

/-- One more unit of fuel, one case for each form of expression. -/
theorem Grammar.RunsRead.step (hg : g.RunsRead fuel) {e : Peg ρ}
    (h : g.run (fuel + 1) atomic e ⟨before.length, rest⟩ = .matched later nodes) :
    g.Gives atomic (.once e) before rest later nodes := by
  cases e with
  | text ws =>
    obtain ⟨rfl, after, hrest, rfl⟩ := ofRest_eq_matched h
    obtain rfl := Text.stripStart_eq_some.mp hrest
    exact ⟨ws, after, rfl, by simp [Cursor.advance], .text⟩
  | word ws =>
    obtain ⟨rfl, after, hrest, rfl⟩ := ofRest_eq_matched h
    obtain ⟨word, rfl, hword⟩ := Text.stripWord_eq_some.mp hrest
    have hsize : word.length = ws.length := by simpa using congrArg List.length hword
    exact ⟨word, after, rfl, by simp [Cursor.advance, hsize], .word hword⟩
  | digit =>
    obtain ⟨rfl, d, after, rfl, hd, rfl⟩ := ofChar_eq_matched h
    exact ⟨[d], after, rfl, by simp [Cursor.advance], .digit hd⟩
  | letter =>
    obtain ⟨rfl, d, after, rfl, hd, rfl⟩ := ofChar_eq_matched h
    exact ⟨[d], after, rfl, by simp [Cursor.advance], .letter hd⟩
  | any =>
    obtain ⟨rfl, d, after, rfl, -, rfl⟩ := ofChar_eq_matched h
    exact ⟨[d], after, rfl, by simp [Cursor.advance], .any⟩
  | start =>
    simp only [Grammar.run] at h
    split at h
    · next hb =>
      obtain rfl := List.eq_nil_of_length_eq_zero hb
      cases h
      exact ⟨[], rest, rfl, rfl, .start⟩
    · cases h
  | stop =>
    simp only [Grammar.run] at h
    split at h
    · next hr =>
      obtain rfl := List.isEmpty_iff.mp hr
      cases h
      exact ⟨[], [], rfl, by simp, .stop⟩
    · cases h
  | rule r => exact hg.rule h
  | seq a b => exact hg.seq h
  | many a => exact hg.many h
  | alt a b =>
    rw [Grammar.run] at h
    rcases orElse_eq_matched h with h | ⟨ha, h⟩
    · obtain ⟨cs, after, rfl, rfl, hreads⟩ := hg.run h
      exact ⟨cs, after, rfl, rfl, .left hreads⟩
    · obtain ⟨cs, after, rfl, rfl, hreads⟩ := hg.run h
      exact ⟨cs, after, rfl, rfl, .right ⟨fuel, ha⟩ hreads⟩
  | opt a =>
    rw [Grammar.run] at h
    rcases orElse_eq_matched h with h | ⟨ha, h⟩
    · obtain ⟨cs, after, rfl, rfl, hreads⟩ := hg.run h
      exact ⟨cs, after, rfl, rfl, .given hreads⟩
    · cases h
      exact ⟨[], rest, rfl, by simp, .omitted ⟨fuel, ha⟩⟩
  | absent a =>
    simp only [Grammar.run] at h
    split at h
    · cases h
    · next ha =>
      cases h
      exact ⟨[], rest, rfl, by simp, .absent ⟨fuel, ha⟩⟩
    · cases h
  | present a =>
    obtain ⟨c, ns, ha, h⟩ := andThen_eq_matched h
    obtain ⟨cs, after, rfl, rfl, hreads⟩ := hg.run ha
    cases h
    exact ⟨[], cs ++ after, rfl, by simp, .present hreads⟩

/-- **What the interpreters match is a reading**, whatever the fuel. -/
theorem Grammar.runsRead (g : Grammar ρ) (fuel : Nat) : g.RunsRead fuel := by
  induction fuel with
  | zero => refine ⟨fun h => ?_, fun h => ?_, fun h => ?_⟩ <;> cases h
  | succ fuel hg => exact ⟨hg.step, hg.run, hg.round⟩

end Runs

/-! ## Taking a reading apart -/

namespace Grammar

variable {a b : Peg ρ} {atomic : Bool} {before cs after : List Char} {nodes : List (Tree ρ)}

theorem Reads.of_text {ws : List Char} (h : g.Reads atomic (.once (.text ws)) before cs after nodes) :
    cs = ws ∧ nodes = [] := by
  cases h
  exact ⟨rfl, rfl⟩

theorem Reads.of_word {ws : List Char} (h : g.Reads atomic (.once (.word ws)) before cs after nodes) :
    cs.map Text.asciiLower = ws.map Text.asciiLower ∧ nodes = [] := by
  cases h with
  | word h => exact ⟨h, rfl⟩

theorem Reads.of_alt (h : g.Reads atomic (.once (.alt a b)) before cs after nodes) :
    g.Reads atomic (.once a) before cs after nodes ∨
      g.Refuses atomic a before (cs ++ after) ∧ g.Reads atomic (.once b) before cs after nodes := by
  cases h with
  | left h => exact .inl h
  | right hno h => exact .inr ⟨hno, h⟩

theorem Reads.of_opt (h : g.Reads atomic (.once (.opt a)) before cs after nodes) :
    g.Reads atomic (.once a) before cs after nodes ∨
      cs = [] ∧ nodes = [] ∧ g.Refuses atomic a before after := by
  cases h with
  | given h => exact .inl h
  | omitted hno => exact .inr ⟨rfl, rfl, hno⟩

theorem Reads.of_absent (h : g.Reads atomic (.once (.absent a)) before cs after nodes) :
    cs = [] ∧ nodes = [] ∧ g.Refuses atomic a before after := by
  cases h with
  | absent hno => exact ⟨rfl, rfl, hno⟩

private theorem Reads.nodes_of_atomic {part : Peg.Part ρ}
    (h : g.Reads atomic part before cs after nodes) (hatomic : atomic = true) : nodes = [] := by
  induction h with
  | bare _ _ ih => exact ih (by simp [hatomic])
  | node | loose | moreLoose => cases hatomic
  | tight _ _ iha ihb => rw [iha rfl, ihb rfl]; rfl
  | left _ ih | right _ _ ih | given _ ih => exact ih hatomic
  | often _ _ iha ihb => rw [iha hatomic, ihb hatomic]; rfl
  | moreTight _ _ iha ihb => rw [iha rfl, ihb rfl]; rfl
  | _ => rfl

/-- Inside an atomic rule no node arises. -/
theorem Reads.nodes_eq_nil {part : Peg.Part ρ} (h : g.Reads true part before cs after nodes) :
    nodes = [] :=
  h.nodes_of_atomic rfl

/-- A normal rule is read by its body and leaves one node. -/
theorem Reads.of_normal {r : ρ} (hkind : g.kind r = .normal)
    (h : g.Reads false (.once (.rule r)) before cs after nodes) :
    ∃ ns, nodes = [.node r before.length cs ns] ∧
      g.Reads false (.once (g.body r)) before cs after ns := by
  cases h with
  | bare hr =>
    rw [hkind] at hr
    simp at hr
  | node _ hbody =>
    rw [hkind] at hbody
    exact ⟨_, rfl, hbody⟩

/-- An atomic rule is read by its body and leaves one node without parts. -/
theorem Reads.of_atomic {r : ρ} (hkind : g.kind r = .atomic)
    (h : g.Reads false (.once (.rule r)) before cs after nodes) :
    nodes = [.node r before.length cs []] ∧ g.Reads true (.once (g.body r)) before cs after [] := by
  cases h with
  | bare hr =>
    rw [hkind] at hr
    simp at hr
  | node _ hbody =>
    rw [hkind] at hbody
    obtain rfl := hbody.nodes_eq_nil
    exact ⟨rfl, hbody⟩

/-- The rules whose nodes an expression may leave. -/
def tops : Peg ρ → List ρ
  | .rule r => [r]
  | .seq a b | .alt a b => tops a ++ tops b
  | .many a | .opt a => tops a
  | _ => []

private theorem Reads.rule_mem_tops {part : Peg.Part ρ}
    (h : g.Reads atomic part before cs after nodes) (hatomic : atomic = false)
    (hkind : ∀ r ∈ tops part.body, g.kind r ≠ .silent) : ∀ n ∈ nodes, n.rule ∈ tops part.body := by
  induction h with
  | bare hr =>
    subst hatomic
    exact absurd (hr.resolve_right (by simp)) (hkind _ (List.mem_singleton.mpr rfl))
  | node => exact fun n hn => List.mem_singleton.mp hn ▸ List.mem_singleton.mpr rfl
  | tight | moreTight => cases hatomic
  | loose _ _ _ iha _ ihb =>
    intro n hn
    rcases List.mem_append.mp hn with hn | hn
    · exact List.mem_append_left _ (iha rfl (fun r hr => hkind r (List.mem_append_left _ hr)) n hn)
    · exact List.mem_append_right _ (ihb rfl (fun r hr => hkind r (List.mem_append_right _ hr)) n hn)
  | left _ ih =>
    exact fun n hn => List.mem_append_left _
      (ih hatomic (fun r hr => hkind r (List.mem_append_left _ hr)) n hn)
  | right _ _ ih =>
    exact fun n hn => List.mem_append_right _
      (ih hatomic (fun r hr => hkind r (List.mem_append_right _ hr)) n hn)
  | often _ _ iha ihb =>
    intro n hn
    rcases List.mem_append.mp hn with hn | hn
    · exact iha hatomic hkind n hn
    · exact ihb hatomic hkind n hn
  | moreLoose _ _ _ _ iha ihb =>
    intro n hn
    rcases List.mem_append.mp hn with hn | hn
    · exact iha rfl hkind n hn
    · exact ihb rfl hkind n hn
  | given _ ih => exact ih hatomic hkind
  | _ => intro n hn; cases hn

/-- The nodes that an expression leaves are those of its own rules. -/
theorem Reads.rule_mem {a : Peg ρ} (h : g.Reads false (.once a) before cs after nodes)
    (hkind : ∀ r ∈ tops a, g.kind r ≠ .silent) : ∀ n ∈ nodes, n.rule ∈ tops a :=
  h.rule_mem_tops rfl hkind

/-- Inside an atomic rule a sequence is read without filler. -/
theorem Reads.of_tight_seq (h : g.Reads true (.once (.seq a b)) before cs after nodes) :
    ∃ xs ys ns ms, cs = xs ++ ys ∧ nodes = ns ++ ms ∧
      g.Reads true (.once a) before xs (ys ++ after) ns ∧
      g.Reads true (.once b) (before ++ xs) ys after ms := by
  cases h with
  | tight ha hb => exact ⟨_, _, _, _, rfl, rfl, ha, hb⟩

/-- Elsewhere filler stands between the parts of a sequence. -/
theorem Reads.of_loose_seq (h : g.Reads false (.once (.seq a b)) before cs after nodes) :
    ∃ xs fs ys ns skipped ms, cs = xs ++ (fs ++ ys) ∧ nodes = ns ++ ms ∧
      g.Reads false (.once a) before xs (fs ++ (ys ++ after)) ns ∧
      g.Reads true (.once g.filler) (before ++ xs) fs (ys ++ after) skipped ∧
      g.Reads false (.once b) (before ++ xs ++ fs) ys after ms := by
  cases h with
  | loose ha hf hb => exact ⟨_, _, _, _, _, _, rfl, rfl, ha, hf, hb⟩

end Grammar

end QueryScore
