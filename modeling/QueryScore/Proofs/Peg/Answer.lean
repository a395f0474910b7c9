/-
# QueryScore.Proofs.Peg.Answer -- the answer of a match, and two matches side by side

A match either runs out of fuel or gives one answer, whatever the fuel. So what an expression does
at a place can be worked out part by part (`Grammar.Yields`), and two matches can be compared as
far as both give answers (`Outcome.Alike`): they mismatch together, or lead to places and nodes
that are related.
-/

import QueryScore.Proofs.Peg.Reading

namespace QueryScore

/-! ## Signs and words at the front of a text -/

namespace Text

/-- **`Strips same strip`** -- `strip` takes a text off the front of another, character by
character, up to `same`. -/
structure Strips (same : Char → Char → Bool)
    (strip : List Char → List Char → Option (List Char)) : Prop where
  nil : ∀ cs, strip [] cs = some cs
  short : ∀ w ws, strip (w :: ws) [] = none
  cons : ∀ w ws x cs, strip (w :: ws) (x :: cs) = if same w x then strip ws cs else none

theorem strips_text : Strips (fun w x => w == x) stripStart where
  nil _ := rfl
  short _ _ := rfl
  cons w ws x cs := by simp [stripStart]

theorem strips_word : Strips sameIgnoringCase stripWord := ⟨fun _ => rfl, fun _ _ => rfl, fun _ _ _ _ => rfl⟩

section Strips

variable {same : Char → Char → Bool} {strip : List Char → List Char → Option (List Char)}
  {ws cs rest : List Char}

/-- What is taken off matches the sign. -/
theorem Strips.exists_eq_append (hstrip : Strips same strip) (h : strip ws cs = some rest) :
    ∃ xs, cs = xs ++ rest ∧ xs.length = ws.length ∧ ∀ x ∈ xs, ∃ w ∈ ws, same w x = true := by
  induction ws generalizing cs with
  | nil =>
    rw [hstrip.nil] at h
    exact ⟨[], Option.some.inj h, rfl, by simp⟩
  | cons w ws ih =>
    cases cs with
    | nil =>
      rw [hstrip.short] at h
      cases h
    | cons x cs =>
      rw [hstrip.cons] at h
      split at h
      · rename_i hsame
        obtain ⟨xs, rfl, hlength, hxs⟩ := ih h
        refine ⟨x :: xs, rfl, by simp [hlength], fun y hy => ?_⟩
        rcases List.mem_cons.mp hy with rfl | hy
        · exact ⟨w, by simp, hsame⟩
        · obtain ⟨v, hv, hsame⟩ := hxs y hy
          exact ⟨v, by simp [hv], hsame⟩
      · cases h

/-- A sign does not go beyond a character that it does not have. -/
theorem Strips.append_cons (hstrip : Strips same strip) {x : Char} (hx : ∀ w ∈ ws, same w x = false)
    (ds : List Char) : strip ws (cs ++ x :: ds) = (strip ws cs).map (· ++ x :: ds) := by
  induction ws generalizing cs with
  | nil => rw [hstrip.nil, hstrip.nil, Option.map_some]
  | cons w ws ih =>
    cases cs with
    | nil => rw [List.nil_append, hstrip.cons, hstrip.short, hx w (by simp), if_neg (by simp), Option.map_none]
    | cons y cs =>
      rw [List.cons_append, hstrip.cons, hstrip.cons]
      split
      · exact ih fun v hv => hx v (by simp [hv])
      · rfl

end Strips

end Text

variable {ρ : Type} {g : Grammar ρ}

/-! ## The answer at a place -/

namespace Outcome

theorem andThen_assoc (o : Outcome ρ) (k l : Cursor → List (Tree ρ) → Outcome ρ) :
    (o.andThen k).andThen l = o.andThen fun c ns => (k c ns).andThen l := by
  cases o <;> rfl

theorem Settles.then_matched {o r : Outcome ρ} {c : Cursor} {nodes : List (Tree ρ)}
    {k : Cursor → List (Tree ρ) → Outcome ρ} (h : o.Settles (.matched c nodes))
    (hk : (k c nodes).Settles r) : (o.andThen k).Settles r := by
  rcases h with rfl | rfl
  · exact .inl rfl
  · exact hk

theorem Settles.then_failed {o : Outcome ρ} {k : Cursor → List (Tree ρ) → Outcome ρ}
    (h : o.Settles .failed) : (o.andThen k).Settles .failed := by
  rcases h with rfl | rfl
  · exact .inl rfl
  · exact .refl _

theorem Settles.else_matched {o : Outcome ρ} {c : Cursor} {nodes : List (Tree ρ)}
    {k : Unit → Outcome ρ} (h : o.Settles (.matched c nodes)) :
    (o.orElse k).Settles (.matched c nodes) := by
  rcases h with rfl | rfl
  · exact .inl rfl
  · exact .refl _

theorem Settles.else_failed {o r : Outcome ρ} {k : Unit → Outcome ρ} (h : o.Settles .failed)
    (hk : (k ()).Settles r) : (o.orElse k).Settles r := by
  rcases h with rfl | rfl
  · exact .inl rfl
  · exact hk

end Outcome

namespace Grammar

/-- **`g.Yields atomic e c o`** -- at `c` the expression gives the answer `o`, as far as fuel
lasts. -/
def Yields (g : Grammar ρ) (atomic : Bool) (e : Peg ρ) (c : Cursor) (o : Outcome ρ) : Prop :=
  ∀ fuel, (g.run fuel atomic e c).Settles o

/-- **`g.Skips atomic c c'`** -- from `c`, filler leads to `c'`. -/
def Skips (g : Grammar ρ) (atomic : Bool) (c c' : Cursor) : Prop :=
  ∃ skipped, ∀ fuel, (g.skip fuel atomic c).Settles (.matched c' skipped)

variable {a b : Peg ρ} {atomic : Bool} {c c₁ c₂ : Cursor} {nodes more : List (Tree ρ)}
  {o : Outcome ρ}

theorem skips_atomic (c : Cursor) : g.Skips true c c :=
  ⟨[], fun fuel => by
    cases fuel with
    | zero => exact .inl rfl
    | succ fuel => exact .refl _⟩

theorem eq_of_skips (h : g.Skips true c c₁) : c₁ = c := by
  obtain ⟨_, h⟩ := h
  rcases h 1 with h | h
  · cases h
  · cases h
    rfl

/-- An answer of one run is the answer of each. -/
theorem yields_of_run {fuel : Nat} {e : Peg ρ} (h : g.run fuel atomic e c = o) (ho : o ≠ .exhausted) :
    g.Yields atomic e c o := by
  intro fuel'
  rcases Nat.le_total fuel fuel' with hle | hle
  · rcases g.run_settles hle atomic e c with hrun | hrun
    · exact absurd (h.symm.trans hrun) ho
    · rw [hrun, h]
      exact .refl _
  · exact h ▸ g.run_settles hle atomic e c

theorem yields_of_succ {e : Peg ρ} (h : ∀ fuel, (g.run (fuel + 1) atomic e c).Settles o) :
    g.Yields atomic e c o := by
  intro fuel
  cases fuel with
  | zero => exact .inl rfl
  | succ fuel => exact h fuel

theorem yields_text {ws rest : List Char} {i : Nat} :
    g.Yields atomic (.text ws) ⟨i, ws ++ rest⟩ (.matched ⟨i + ws.length, rest⟩ []) := by
  refine yields_of_succ fun fuel => .inr ?_
  have hstrip : Text.stripStart ws (ws ++ rest) = some rest := Text.stripStart_eq_some.mpr rfl
  rw [Grammar.run, hstrip]
  rfl

theorem yields_text_failed {w : Char} {ws : List Char} (h : ∀ d ∈ c.rest.head?, d ≠ w) :
    g.Yields atomic (.text (w :: ws)) c .failed := by
  refine yields_of_succ fun fuel => .inr ?_
  have hstrip : Text.stripStart (w :: ws) c.rest = none := by
    cases hs : Text.stripStart (w :: ws) c.rest with
    | none => rfl
    | some rest =>
      have hsplit := Text.stripStart_eq_some.mp hs
      exact absurd rfl (h w (by rw [hsplit]; rfl))
  rw [Grammar.run, hstrip]
  rfl

theorem yields_any {d : Char} {rest : List Char} {i : Nat} :
    g.Yields atomic .any ⟨i, d :: rest⟩ (.matched ⟨i + 1, rest⟩ []) :=
  yields_of_succ fun _ => .refl _

theorem yields_any_failed {i : Nat} : g.Yields atomic .any ⟨i, []⟩ .failed :=
  yields_of_succ fun _ => .refl _

theorem Yields.seq (ha : g.Yields atomic a c (.matched c₁ nodes)) (hskip : g.Skips atomic c₁ c₂)
    (hb : g.Yields atomic b c₂ o) :
    g.Yields atomic (.seq a b) c (o.andThen fun c₃ more => .matched c₃ (nodes ++ more)) := by
  obtain ⟨skipped, hskip⟩ := hskip
  refine yields_of_succ fun fuel => ?_
  exact (ha fuel).then_matched ((hskip fuel).then_matched ((hb fuel).andThen fun _ _ => .refl _))

theorem Yields.seq_failed (ha : g.Yields atomic a c .failed) : g.Yields atomic (.seq a b) c .failed :=
  yields_of_succ fun fuel => (ha fuel).then_failed

theorem Yields.left (ha : g.Yields atomic a c (.matched c₁ nodes)) :
    g.Yields atomic (.alt a b) c (.matched c₁ nodes) := by
  refine yields_of_succ fun fuel => ?_
  rw [Grammar.run]
  exact (ha fuel).else_matched

theorem Yields.right (ha : g.Yields atomic a c .failed) (hb : g.Yields atomic b c o) :
    g.Yields atomic (.alt a b) c o := by
  refine yields_of_succ fun fuel => ?_
  rw [Grammar.run]
  exact (ha fuel).else_failed (hb fuel)

/-- Of several expressions the first one that matches is taken. -/
theorem Yields.alts {e : Peg ρ} {es more : List (Peg ρ)} (hes : ∀ e ∈ es, g.Yields atomic e c .failed)
    (he : g.Yields atomic e c (.matched c₁ nodes)) :
    g.Yields atomic (Peg.alts (es ++ e :: more)) c (.matched c₁ nodes) := by
  induction es with
  | nil =>
    cases more with
    | nil => exact he
    | cons => exact he.left
  | cons a es ih =>
    have hrest := (hes a (by simp)).right (ih fun e he => hes e (by simp [he]))
    cases es with
    | nil => exact hrest
    | cons => exact hrest

theorem Yields.absent (ha : g.Yields atomic a c .failed) :
    g.Yields atomic (.absent a) c (.matched c []) := by
  refine yields_of_succ fun fuel => ?_
  rw [Grammar.run]
  rcases ha fuel with h | h
  · exact .inl (by rw [h])
  · exact .inr (by rw [← h])

theorem Yields.absent_failed (ha : g.Yields atomic a c (.matched c₁ nodes)) :
    g.Yields atomic (.absent a) c .failed := by
  refine yields_of_succ fun fuel => ?_
  rw [Grammar.run]
  rcases ha fuel with h | h
  · exact .inl (by rw [h])
  · exact .inr (by rw [← h])

theorem Yields.rule {r : ρ} (h : g.Yields (atomic || g.kind r = .atomic) (g.body r) c o) :
    g.Yields atomic (.rule r) c
      (o.andThen fun later nodes => .matched later (leaveNode (g.kind r) atomic r c later nodes)) :=
  yields_of_succ fun fuel => (h fuel).andThen fun _ _ => .refl _

/-! ### The parts of a match -/

/-- **`g.Matches atomic e c later nodes`** -- a run matches from `c` up to `later`. -/
def Matches (g : Grammar ρ) (atomic : Bool) (e : Peg ρ) (c later : Cursor) (nodes : List (Tree ρ)) :
    Prop :=
  ∃ fuel, g.run fuel atomic e c = .matched later nodes

/-- **`g.Skipped atomic c c'`** -- a run skips what stands between `c` and `c'`. -/
def Skipped (g : Grammar ρ) (atomic : Bool) (c c' : Cursor) : Prop :=
  ∃ fuel skipped, g.skip fuel atomic c = .matched c' skipped

variable {later : Cursor}

theorem Matches.yields {e : Peg ρ} (h : g.Matches atomic e c later nodes) :
    g.Yields atomic e c (.matched later nodes) := by
  obtain ⟨_, hrun⟩ := h
  exact yields_of_run hrun (by simp)

theorem Matches.not_failed {e : Peg ρ} (h : g.Matches atomic e c later nodes) :
    ¬ g.Yields atomic e c .failed := by
  obtain ⟨fuel, hrun⟩ := h
  intro hfailed
  rcases hfailed fuel with h | h
  · rw [hrun] at h
    cases h
  · rw [hrun] at h
    cases h

theorem Skipped.skips (h : g.Skipped atomic c c₁) : g.Skips atomic c c₁ := by
  obtain ⟨fuel, skipped, hskip⟩ := h
  refine ⟨skipped, fun fuel' => ?_⟩
  cases fuel with
  | zero => cases hskip
  | succ fuel =>
    cases fuel' with
    | zero => exact .inl rfl
    | succ fuel' =>
      cases atomic with
      | true => exact .inr hskip.symm
      | false =>
        have hfiller : g.Yields true g.filler c (.matched c₁ skipped) := yields_of_run hskip (by simp)
        exact hfiller fuel'

theorem Matches.of_seq (h : g.Matches atomic (.seq a b) c later nodes) : ∃ c₁ ns c₂ ms,
    g.Matches atomic a c c₁ ns ∧ g.Skipped atomic c₁ c₂ ∧ g.Matches atomic b c₂ later ms ∧
      nodes = ns ++ ms := by
  obtain ⟨fuel, hrun⟩ := h
  cases fuel with
  | zero => cases hrun
  | succ fuel =>
    obtain ⟨c₁, ns, ha, hrun⟩ := Outcome.andThen_eq_matched hrun
    obtain ⟨c₂, skipped, hskip, hrun⟩ := Outcome.andThen_eq_matched hrun
    obtain ⟨c₃, ms, hb, hrun⟩ := Outcome.andThen_eq_matched hrun
    cases hrun
    exact ⟨c₁, ns, c₂, ms, ⟨fuel, ha⟩, ⟨fuel, skipped, hskip⟩, ⟨fuel, hb⟩, rfl⟩

theorem Matches.of_rule {r : ρ} (h : g.Matches atomic (.rule r) c later nodes) : ∃ ns,
    g.Matches (atomic || g.kind r = .atomic) (g.body r) c later ns ∧
      nodes = leaveNode (g.kind r) atomic r c later ns := by
  obtain ⟨fuel, hrun⟩ := h
  cases fuel with
  | zero => cases hrun
  | succ fuel =>
    obtain ⟨c₁, ns, hbody, hrun⟩ := Outcome.andThen_eq_matched hrun
    cases hrun
    exact ⟨ns, ⟨fuel, hbody⟩, rfl⟩

theorem Matches.of_opt (h : g.Matches atomic (.opt a) c later nodes) :
    g.Matches atomic a c later nodes ∨ later = c ∧ nodes = [] := by
  obtain ⟨fuel, hrun⟩ := h
  cases fuel with
  | zero => cases hrun
  | succ fuel =>
    rw [Grammar.run] at hrun
    rcases Outcome.orElse_eq_matched hrun with hrun | ⟨-, hnone⟩
    · exact .inl ⟨fuel, hrun⟩
    · cases hnone
      exact .inr ⟨rfl, rfl⟩

/-- The nodes of further rounds stand behind those that are there. -/
theorem nodes_of_repeatFrom {fuel : Nat} {ns : List (Tree ρ)}
    (h : g.repeatFrom fuel atomic a c ns = .matched later nodes) : ∃ ms, nodes = ns ++ ms := by
  induction fuel generalizing c ns with
  | zero => cases h
  | succ fuel ih =>
    rw [Grammar.repeatFrom] at h
    split at h
    · obtain ⟨ms, rfl⟩ := ih h
      exact ⟨_, List.append_assoc _ _ _⟩
    · cases h
      exact ⟨[], (List.append_nil _).symm⟩
    · cases h

theorem Matches.of_many (h : g.Matches atomic (.many a) c later nodes) :
    (later = c ∧ nodes = [] ∧ g.Yields atomic a c .failed) ∨
      ∃ c₁ ns ms, g.Matches atomic a c c₁ ns ∧ nodes = ns ++ ms := by
  obtain ⟨fuel, hrun⟩ := h
  cases fuel with
  | zero => cases hrun
  | succ fuel =>
    rw [Grammar.run] at hrun
    rcases Outcome.orElse_eq_matched hrun with hrun | ⟨hnone, hrun⟩
    · obtain ⟨c₁, ns, ha, hmore⟩ := Outcome.andThen_eq_matched hrun
      obtain ⟨ms, rfl⟩ := nodes_of_repeatFrom hmore
      exact .inr ⟨c₁, ns, ms, ⟨fuel, ha⟩, rfl⟩
    · cases hrun
      refine .inl ⟨rfl, rfl, ?_⟩
      cases ha : g.run fuel atomic a c with
      | matched c₁ ns =>
        rw [ha] at hnone
        -- A first round that matches is followed by rounds that do not fail.
        exact absurd hnone (g.repeatFrom_ne_failed fuel atomic a c₁ ns)
      | failed => exact yields_of_run ha (by simp)
      | exhausted =>
        rw [ha] at hnone
        cases hnone

/-! ### Repetitions -/

/-- **`g.Walks atomic a c c' ns`** -- further rounds of `a` lead from `c` to `c'`, where no other
follows, and leave `ns`. -/
inductive Walks (g : Grammar ρ) (atomic : Bool) (a : Peg ρ) : Cursor → Cursor → List (Tree ρ) → Prop
  | done {c c₁ : Cursor} : g.Skips atomic c c₁ → g.Yields atomic a c₁ .failed → Walks g atomic a c c []
  | more {c c₁ c₂ later : Cursor} {ns ms : List (Tree ρ)} : g.Skips atomic c c₁ →
      g.Yields atomic a c₁ (.matched c₂ ns) → Walks g atomic a c₂ later ms →
      Walks g atomic a c later (ns ++ ms)

theorem Walks.repeats {later : Cursor} (h : g.Walks atomic a c later more) (fuel : Nat) :
    (g.repeatFrom fuel atomic a c nodes).Settles (.matched later (nodes ++ more)) := by
  induction h generalizing fuel nodes with
  | @done c c₁ hskip hend =>
    cases fuel with
    | zero => exact .inl rfl
    | succ fuel =>
      obtain ⟨skipped, hskip⟩ := hskip
      have hround : ((g.skip fuel atomic c).andThen fun c₁ _ => g.run fuel atomic a c₁).Settles .failed :=
        (hskip fuel).then_matched (hend fuel)
      rw [Grammar.repeatFrom, List.append_nil]
      rcases hround with h | h
      · exact .inl (by rw [h])
      · exact .inr (by rw [← h])
  | @more c c₁ c₂ later ns ms hskip hone _ ih =>
    cases fuel with
    | zero => exact .inl rfl
    | succ fuel =>
      obtain ⟨skipped, hskip⟩ := hskip
      have hround : ((g.skip fuel atomic c).andThen fun c₁ _ => g.run fuel atomic a c₁).Settles
          (.matched c₂ ns) := (hskip fuel).then_matched (hone fuel)
      rw [Grammar.repeatFrom, ← List.append_assoc]
      rcases hround with h | h
      · exact .inl (by rw [h])
      · rw [← h]
        exact ih fuel

theorem yields_many_nil (h : g.Yields atomic a c .failed) :
    g.Yields atomic (.many a) c (.matched c []) := by
  refine yields_of_succ fun fuel => ?_
  rw [Grammar.run]
  exact ((h fuel).then_failed).else_failed (.refl _)

theorem Walks.yields_many {later : Cursor} (h : g.Yields atomic a c (.matched c₁ nodes))
    (hmore : g.Walks atomic a c₁ later more) :
    g.Yields atomic (.many a) c (.matched later (nodes ++ more)) := by
  refine yields_of_succ fun fuel => ?_
  rw [Grammar.run]
  exact ((h fuel).then_matched (hmore.repeats fuel)).else_matched

end Grammar

/-! ## Two matches side by side -/

namespace Outcome

/-- **`o.Alike R o'`** -- as far as both are answers, both mismatch, or both match and the places
and nodes are related. -/
def Alike (R : Cursor → List (Tree ρ) → Cursor → List (Tree ρ) → Prop) : Outcome ρ → Outcome ρ → Prop
  | .exhausted, _ | _, .exhausted | .failed, .failed => True
  | .matched c nodes, .matched d nodes' => R c nodes d nodes'
  | .matched .., .failed | .failed, .matched .. => False

variable {R S : Cursor → List (Tree ρ) → Cursor → List (Tree ρ) → Prop} {o o' : Outcome ρ}

theorem alike_exhausted_right (o : Outcome ρ) : o.Alike R .exhausted := by
  cases o <;> trivial

theorem Alike.mono (h : o.Alike R o') (hRS : ∀ {c ns d ms}, R c ns d ms → S c ns d ms) :
    o.Alike S o' := by
  cases o <;> cases o' <;> first | exact hRS h | exact h

/-- The places and nodes on the left are those of the first match. -/
theorem Alike.with_left (h : o.Alike R o') :
    o.Alike (fun c ns d ms => o = .matched c ns ∧ R c ns d ms) o' := by
  cases o <;> cases o' <;> first | exact ⟨rfl, h⟩ | exact h

theorem Alike.andThen {k k' : Cursor → List (Tree ρ) → Outcome ρ} (h : o.Alike R o')
    (hk : ∀ {c ns d ms}, R c ns d ms → (k c ns).Alike S (k' d ms)) :
    (o.andThen k).Alike S (o'.andThen k') := by
  cases o with
  | exhausted => trivial
  | failed =>
    cases o' with
    | exhausted | failed => trivial
    | matched => exact h.elim
  | matched c ns =>
    cases o' with
    | exhausted => exact alike_exhausted_right _
    | failed => exact h.elim
    | matched d ms => exact hk h

theorem Alike.orElse {k k' : Unit → Outcome ρ} (h : o.Alike R o') (hk : (k ()).Alike R (k' ())) :
    (o.orElse k).Alike R (o'.orElse k') := by
  cases o with
  | exhausted => trivial
  | failed =>
    cases o' with
    | exhausted => exact alike_exhausted_right _
    | failed => exact hk
    | matched => exact h.elim
  | matched c ns =>
    cases o' with
    | exhausted => trivial
    | failed => exact h.elim
    | matched d ms => exact h

/-- Answers that are alike are given alike. -/
theorem Alike.of_settles {r r' : Outcome ρ} (h : o.Settles r) (h' : o'.Settles r')
    (hr : r.Alike R r') : o.Alike R o' := by
  rcases h with rfl | rfl
  · trivial
  · rcases h' with rfl | rfl
    · exact alike_exhausted_right _
    · exact hr

end Outcome

theorem Grammar.Skips.alike_andThen {R : Cursor → List (Tree ρ) → Cursor → List (Tree ρ) → Prop}
    {atomic : Bool} {c c₁ d d₁ : Cursor} {k k' : Cursor → List (Tree ρ) → Outcome ρ}
    (h : g.Skips atomic c c₁) (h' : g.Skips atomic d d₁) (hk : ∀ ns ms, (k c₁ ns).Alike R (k' d₁ ms))
    (fuel : Nat) :
    ((g.skip fuel atomic c).andThen k).Alike R ((g.skip fuel atomic d).andThen k') := by
  obtain ⟨ns, h⟩ := h
  obtain ⟨ms, h'⟩ := h'
  refine Outcome.Alike.andThen (R := fun c ns' d ms' => c = c₁ ∧ ns' = ns ∧ d = d₁ ∧ ms' = ms)
    (.of_settles (h fuel) (h' fuel) ⟨rfl, rfl, rfl, rfl⟩) ?_
  rintro _ _ _ _ ⟨rfl, rfl, rfl, rfl⟩
  exact hk _ _

theorem Grammar.Yields.alike {R : Cursor → List (Tree ρ) → Cursor → List (Tree ρ) → Prop}
    {atomic : Bool} {e : Peg ρ} {c d : Cursor} {o o' : Outcome ρ} (h : g.Yields atomic e c o)
    (h' : g.Yields atomic e d o') (ho : o.Alike R o') (fuel : Nat) :
    (g.run fuel atomic e c).Alike R (g.run fuel atomic e d) :=
  .of_settles (h fuel) (h' fuel) ho

end QueryScore
