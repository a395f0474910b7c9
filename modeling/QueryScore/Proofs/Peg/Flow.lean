/-
# QueryScore.Proofs.Peg.Flow -- what a grammar does along a text, followed expression by expression

To know what holds at each place a grammar reaches, an expression is followed from an abstract
state to the next: a sign changes the state, a rule is crossed in one step, filler settles it,
and where two ways meet the states meet (`Flow.pass`). A relation between two states and the
stretch between them that is closed under these steps holds of every reading outside atomic
rules (`Flow.relates`); it is the one induction over readings that the developments on a grammar
share.
-/

import QueryScore.Proofs.Peg.Reading

namespace QueryScore

variable {ρ S : Type}

/-- **`Flow ρ S`** -- how abstract states change along a text. -/
structure Flow (ρ S : Type) where
  /-- The state after a sign, if it may stand there. -/
  sign : List Char → S → Option S
  /-- The state after a rule, if it may stand there. -/
  cross : ρ → S → Option S
  /-- The state after filler. -/
  settle : S → S
  /-- What two states have in common, if they may meet. -/
  meet : S → S → Option S

namespace Flow

/-- The state after an expression. -/
def pass [DecidableEq S] (F : Flow ρ S) : Peg ρ → S → Option S
  | .text ws, s => F.sign ws s
  | .rule r, s => F.cross r s
  | .seq a b, s => (F.pass a s).bind fun t => F.pass b (F.settle t)
  | .alt a b, s => (F.pass a s).bind fun t => (F.pass b s).bind fun u => F.meet t u
  | .opt a, s => (F.pass a s).bind fun t => F.meet s t
  | .many a, s =>
    -- The state after one round is the state after every further round.
    (F.pass a s).bind fun t => if F.pass a (F.settle t) = some t then F.meet s t else none
  | .start, s | .stop, s | .absent _, s | .present _, s => some s
  | .word _, _ | .digit, _ | .letter, _ | .any, _ => none

/-- What the further rounds of a repetition, or an expression, lead to. -/
def passPart [DecidableEq S] (F : Flow ρ S) : Peg.Part ρ → S → Option S
  | .once e, s => F.pass e s
  | .again e, s => if F.pass e (F.settle s) = some s then some s else none

/-- **`F.Respects g R`** -- the relation is closed under the steps of the flow. -/
structure Respects [DecidableEq S] (F : Flow ρ S) (g : Grammar ρ)
    (R : S → S → List Char → List Char → List Char → List (Tree ρ) → Prop) : Prop where
  nil {s before after} : R s s before [] after []
  append {s t u before cs ds after ns ms} : R s t before cs (ds ++ after) ns →
    R t u (before ++ cs) ds after ms → R s u before (cs ++ ds) after (ns ++ ms)
  meetLeft {s t u v before cs after ns} : F.meet t u = some v → R s t before cs after ns →
    R s v before cs after ns
  meetRight {s t u v before cs after ns} : F.meet t u = some v → R s u before cs after ns →
    R s v before cs after ns
  filler {s before cs after ns} : g.Reads true (.once g.filler) before cs after ns →
    R s (F.settle s) before cs after []
  sign {ws s t before after} : F.sign ws s = some t → R s t before ws after []
  token {r s t before cs after ns} : F.cross r s = some t → g.kind r = .atomic →
    g.Reads true (.once (g.body r)) before cs after ns →
    R s t before cs after [.node r before.length cs ns]
  node {r s t before cs after ns} : F.cross r s = some t → g.kind r = .normal →
    (∀ {u v}, F.pass (g.body r) u = some v → R u v before cs after ns) →
    R s t before cs after [.node r before.length cs ns]
  silent {r s} : g.kind r = .silent → F.cross r s = none

section Relates

variable [DecidableEq S] {F : Flow ρ S} {g : Grammar ρ}
  {R : S → S → List Char → List Char → List Char → List (Tree ρ) → Prop}
  {before cs after : List Char} {nodes : List (Tree ρ)}

private theorem relates_part (hF : F.Respects g R) {part : Peg.Part ρ} {atomic : Bool}
    (h : g.Reads atomic part before cs after nodes) (hatomic : atomic = false) {s t : S}
    (hpass : F.passPart part s = some t) : R s t before cs after nodes := by
  -- The induction is on the reading; each of its forms is one step of the flow.
  induction h generalizing s t with
  | text => exact hF.sign hpass
  | word | digit | letter | any => cases hpass
  | start | stop =>
    cases hpass
    exact hF.nil
  | @bare atomic r before cs after nodes hr hbody ih =>
    subst hatomic
    have hsilent : g.kind r = .silent := hr.resolve_right (by simp)
    have hnone : F.cross r s = none := hF.silent hsilent
    rw [passPart, pass, hnone] at hpass
    cases hpass
  | @node r before cs after nodes hr hbody ih =>
    cases hkind : g.kind r with
    | silent => exact absurd hkind hr
    | atomic =>
      rw [hkind] at hbody
      exact hF.token hpass hkind hbody
    | normal =>
      rw [hkind] at ih
      exact hF.node hpass hkind fun hbody => ih (by simp) hbody
  | tight => cases hatomic
  | @loose a b before cs fs ds after ns skipped ms _ hfill _ iha _ ihb =>
    obtain ⟨u, hu, hpass⟩ := Option.bind_eq_some_iff.mp hpass
    -- First the filler and the second part, then all three.
    have hrest : R u t (before ++ cs) (fs ++ ds) after ms :=
      hF.append (hF.filler hfill) (ihb rfl hpass)
    have hfirst : R s u before cs ((fs ++ ds) ++ after) ns := by
      rw [List.append_assoc]
      exact iha rfl hu
    exact hF.append hfirst hrest
  | left _ ih =>
    obtain ⟨u, hu, hpass⟩ := Option.bind_eq_some_iff.mp hpass
    obtain ⟨v, hv, hmeet⟩ := Option.bind_eq_some_iff.mp hpass
    exact hF.meetLeft hmeet (ih hatomic hu)
  | right _ _ ih =>
    obtain ⟨u, hu, hpass⟩ := Option.bind_eq_some_iff.mp hpass
    obtain ⟨v, hv, hmeet⟩ := Option.bind_eq_some_iff.mp hpass
    exact hF.meetRight hmeet (ih hatomic hv)
  | never =>
    obtain ⟨u, hu, hpass⟩ := Option.bind_eq_some_iff.mp hpass
    split at hpass
    · exact hF.meetLeft hpass hF.nil
    · cases hpass
  | often _ _ ihone ihmore =>
    obtain ⟨u, hu, hpass⟩ := Option.bind_eq_some_iff.mp hpass
    split at hpass
    · rename_i hstable
      refine hF.meetRight hpass (hF.append (ihone hatomic hu) (ihmore hatomic ?_))
      rw [passPart, if_pos hstable]
    · cases hpass
  | enough =>
    rw [passPart] at hpass
    split at hpass
    · cases hpass
      exact hF.nil
    · cases hpass
  | moreTight => cases hatomic
  | @moreLoose a before fs cs ds after skipped ns ms hfill _ _ _ ihone ihmore =>
    have hstable := hpass
    rw [passPart] at hpass
    split at hpass
    · rename_i hround
      cases hpass
      have hrest : R (F.settle s) s (before ++ fs) (cs ++ ds) after (ns ++ ms) :=
        hF.append (ihone rfl hround) (ihmore rfl hstable)
      have hfirst : R s (F.settle s) before fs ((cs ++ ds) ++ after) [] := by
        rw [List.append_assoc]
        exact hF.filler hfill
      show R s s before (fs ++ (cs ++ ds)) after ([] ++ (ns ++ ms))
      exact hF.append hfirst hrest
    · cases hpass
  | given _ ih =>
    obtain ⟨u, hu, hpass⟩ := Option.bind_eq_some_iff.mp hpass
    exact hF.meetRight hpass (ih hatomic hu)
  | omitted =>
    obtain ⟨u, hu, hpass⟩ := Option.bind_eq_some_iff.mp hpass
    exact hF.meetLeft hpass hF.nil
  | absent | present =>
    cases hpass
    exact hF.nil

/-- **A relation that respects the flow holds of every reading outside atomic rules.** -/
theorem relates (hF : F.Respects g R) {e : Peg ρ}
    (h : g.Reads false (.once e) before cs after nodes) {s t : S} (hpass : F.pass e s = some t) :
    R s t before cs after nodes :=
  relates_part hF h rfl hpass

end Relates

end Flow

end QueryScore
