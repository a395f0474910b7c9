/-
# QueryScore.Proofs.Peg.Changed -- the same match after a change of the input

A change of places that the smallest expressions do not notice is noticed by no expression made of
them: choice, repetition, look-ahead and skipping go the same way at the changed places, and leave
the same nodes, changed (`Grammar.run_changed`).

Two changes are not noticed. A match looks at the text in front of it, and at its index only to know
the start of the input, so an expression that never asks for the start matches the same text at any
other index, and leaves the same nodes, moved (`unnoticed_moved`). And an expression whose signs are no
letters and whose words are read in either case goes the same way in the text and in its lower case, as
far as ASCII goes, and leaves nodes of the same rules over the same stretches (`unnoticed_folded`).
-/

import QueryScore.Peg
import QueryScore.Proofs.Text.Fold

namespace QueryScore

open Text

variable {ρ : Type}

/-- A change of places in the input and of trees. -/
structure Change (ρ : Type) where
  /-- The place after the change. -/
  place : Cursor → Cursor
  /-- The tree after the change. -/
  tree : Tree ρ → Tree ρ

/-- The outcome after a change. -/
def Outcome.changed (m : Change ρ) : Outcome ρ → Outcome ρ
  | .matched c nodes => .matched (m.place c) (nodes.map m.tree)
  | .failed => .failed
  | .exhausted => .exhausted

/-- The smallest parts of the expression pass a test, and so do its rules. -/
def Peg.every (leaf : Peg ρ → Bool) (inner : ρ → Bool) : Peg ρ → Bool
  | .rule r => inner r
  | .seq a b | .alt a b => every leaf inner a && every leaf inner b
  | .many a | .opt a | .absent a | .present a => every leaf inner a
  | e => leaf e

variable {g : Grammar ρ} {m : Change ρ} {leaf : Peg ρ → Bool} {inner : ρ → Bool}

theorem Outcome.changed_andThen {o : Outcome ρ} {f f' : Cursor → List (Tree ρ) → Outcome ρ}
    (h : ∀ c nodes, f' (m.place c) (nodes.map m.tree) = (f c nodes).changed m) :
    (o.changed m).andThen f' = (o.andThen f).changed m := by
  cases o with
  | matched c nodes => exact h c nodes
  | failed => rfl
  | exhausted => rfl

theorem Outcome.changed_orElse {o : Outcome ρ} {f f' : Unit → Outcome ρ}
    (h : f' () = (f ()).changed m) : (o.changed m).orElse f' = (o.orElse f).changed m := by
  cases o with
  | matched c nodes => rfl
  | failed => exact h
  | exhausted => rfl

/-- **`g.Unnoticed m leaf inner`** -- no smallest expression that passes the test notices the change,
and the rules are made of these. -/
structure Grammar.Unnoticed (g : Grammar ρ) (m : Change ρ) (leaf : Peg ρ → Bool)
    (inner : ρ → Bool) : Prop where
  run {e : Peg ρ} (fuel : Nat) (atomic : Bool) (c : Cursor) : leaf e = true →
    g.run (fuel + 1) atomic e (m.place c) = (g.run (fuel + 1) atomic e c).changed m
  leave (kind : RuleKind) (atomic : Bool) (r : ρ) (c later : Cursor) (nodes : List (Tree ρ)) :
    leaveNode kind atomic r (m.place c) (m.place later) (nodes.map m.tree) =
      (leaveNode kind atomic r c later nodes).map m.tree
  body (r : ρ) : inner r = true → (g.body r).every leaf inner = true
  filler : g.filler.every leaf inner = true

/-- **`g.Follows m leaf inner fuel`** -- with this fuel, each of the three interpreters does the same
after the change. -/
structure Grammar.Follows (g : Grammar ρ) (m : Change ρ) (leaf : Peg ρ → Bool) (inner : ρ → Bool)
    (fuel : Nat) : Prop where
  /-- With an expression. -/
  run {e : Peg ρ} (atomic : Bool) (c : Cursor) : e.every leaf inner = true →
    g.run fuel atomic e (m.place c) = (g.run fuel atomic e c).changed m
  /-- With filler. -/
  skip (atomic : Bool) (c : Cursor) : g.skip fuel atomic (m.place c) = (g.skip fuel atomic c).changed m
  /-- With the further rounds of a repetition. -/
  again {a : Peg ρ} (atomic : Bool) (c : Cursor) (nodes : List (Tree ρ)) : a.every leaf inner = true →
    g.repeatFrom fuel atomic a (m.place c) (nodes.map m.tree) =
      (g.repeatFrom fuel atomic a c nodes).changed m

section Step

variable {fuel : Nat} {e a : Peg ρ} (atomic : Bool) (c : Cursor)

theorem Grammar.Follows.step (h : g.Follows m leaf inner fuel) (hm : g.Unnoticed m leaf inner)
    (he : e.every leaf inner = true) :
    g.run (fuel + 1) atomic e (m.place c) = (g.run (fuel + 1) atomic e c).changed m := by
  cases e with
  | rule r =>
    rw [Grammar.run, Grammar.run, h.run _ c (hm.body r he)]
    refine Outcome.changed_andThen fun later nodes => ?_
    rw [hm.leave]
    rfl
  | seq a b =>
    obtain ⟨ha, hb⟩ := (Bool.and_eq_true _ _).mp he
    rw [Grammar.run, Grammar.run, h.run _ c ha]
    refine Outcome.changed_andThen fun c₁ nodes₁ => ?_
    rw [h.skip]
    refine Outcome.changed_andThen fun c₂ _ => ?_
    rw [h.run _ c₂ hb]
    refine Outcome.changed_andThen fun c₃ nodes₂ => ?_
    rw [← List.map_append]
    rfl
  | alt a b =>
    obtain ⟨ha, hb⟩ := (Bool.and_eq_true _ _).mp he
    rw [Grammar.run, Grammar.run, h.run _ c ha]
    exact Outcome.changed_orElse (h.run _ c hb)
  | many a =>
    have ha : a.every leaf inner = true := he
    rw [Grammar.run, Grammar.run, h.run _ c ha,
      Outcome.changed_andThen fun later nodes => h.again atomic later nodes ha]
    exact Outcome.changed_orElse rfl
  | opt a =>
    have ha : a.every leaf inner = true := he
    rw [Grammar.run, Grammar.run, h.run _ c ha]
    exact Outcome.changed_orElse rfl
  | absent a =>
    have ha : a.every leaf inner = true := he
    rw [Grammar.run, Grammar.run, h.run _ c ha]
    cases g.run fuel atomic a c <;> rfl
  | present a =>
    have ha : a.every leaf inner = true := he
    rw [Grammar.run, Grammar.run, h.run _ c ha]
    exact Outcome.changed_andThen fun _ _ => rfl
  | _ => exact hm.run fuel atomic c he

theorem Grammar.Follows.round (h : g.Follows m leaf inner fuel) (ha : a.every leaf inner = true)
    (nodes : List (Tree ρ)) :
    g.repeatFrom (fuel + 1) atomic a (m.place c) (nodes.map m.tree) =
      (g.repeatFrom (fuel + 1) atomic a c nodes).changed m := by
  have hround : ((g.skip fuel atomic (m.place c)).andThen fun c₁ _ => g.run fuel atomic a c₁) =
      ((g.skip fuel atomic c).andThen fun c₁ _ => g.run fuel atomic a c₁).changed m := by
    rw [h.skip]
    exact Outcome.changed_andThen fun c₁ _ => h.run atomic c₁ ha
  rw [Grammar.repeatFrom, Grammar.repeatFrom, hround]
  cases (g.skip fuel atomic c).andThen fun c₁ _ => g.run fuel atomic a c₁ with
  | matched later more =>
    show g.repeatFrom fuel atomic a (m.place later) (nodes.map m.tree ++ more.map m.tree) = _
    rw [← List.map_append]
    exact h.again atomic later (nodes ++ more) ha
  | failed => rfl
  | exhausted => rfl

theorem Grammar.follows (hm : g.Unnoticed m leaf inner) (fuel : Nat) : g.Follows m leaf inner fuel := by
  induction fuel with
  | zero => exact ⟨fun _ _ _ => rfl, fun _ _ => rfl, fun _ _ _ _ => rfl⟩
  | succ fuel ih =>
    refine ⟨fun atomic c he => ih.step atomic c hm he, fun atomic c => ?_,
      fun atomic c nodes ha => ih.round atomic c ha nodes⟩
    cases atomic with
    | true => rfl
    | false => exact ih.run true c hm.filler

/-- **A match goes the same way after a change that its smallest parts do not notice**, and leaves
the same nodes, changed. -/
theorem Grammar.run_changed (hm : g.Unnoticed m leaf inner) (he : e.every leaf inner = true) :
    g.run fuel atomic e (m.place c) = (g.run fuel atomic e c).changed m :=
  (Grammar.follows hm fuel).run atomic c he

end Step

/-! ## The same text further to the right -/

mutual

/-- The tree, `k` characters further to the right. -/
def Tree.moved (k : Nat) : Tree ρ → Tree ρ
  | .node r i cs ts => .node r (k + i) cs (movedAll k ts)

/-- Several trees, `k` characters further to the right. -/
def Tree.movedAll (k : Nat) : List (Tree ρ) → List (Tree ρ)
  | [] => []
  | t :: ts => moved k t :: movedAll k ts

end

theorem Tree.movedAll_eq (k : Nat) (ts : List (Tree ρ)) : movedAll k ts = ts.map (moved k) := by
  induction ts with
  | nil => rfl
  | cons t ts ih => exact congrArg (moved k t :: ·) ih

/-- All is `k` characters further to the right. -/
def Change.right (ρ : Type) (k : Nat) : Change ρ where
  place c := ⟨k + c.index, c.rest⟩
  tree := Tree.moved k

/-- An expression without parts that does not ask for the start of the input. -/
def Peg.isPlaceless : Peg ρ → Bool
  | .text _ | .word _ | .digit | .letter | .any | .stop => true
  | _ => false

variable {k : Nat}

theorem ofRest_moved (c : Cursor) (size : Nat) (rest : Option (List Char)) :
    (Outcome.ofRest ((Change.right ρ k).place c) size rest : Outcome ρ) =
      (Outcome.ofRest c size rest).changed (.right ρ k) := by
  cases rest with
  | none => rfl
  | some rest => simp [Outcome.ofRest, Outcome.changed, Change.right, Cursor.advance, Nat.add_assoc]

theorem ofChar_moved (p : Char → Bool) (c : Cursor) :
    (Outcome.ofChar p ((Change.right ρ k).place c) : Outcome ρ) =
      (Outcome.ofChar p c).changed (.right ρ k) := by
  obtain ⟨i, _ | ⟨d, rest⟩⟩ := c
  · rfl
  · simp only [Outcome.ofChar, Change.right]
    split
    · simp [Outcome.changed, Cursor.advance, Nat.add_assoc]
    · rfl

/-- **The same text is matched at any index**, by expressions that never ask for the start. -/
theorem unnoticed_moved {g : Grammar ρ} {inner : ρ → Bool}
    (hbody : ∀ r, inner r = true → (g.body r).every Peg.isPlaceless inner = true)
    (hfiller : g.filler.every Peg.isPlaceless inner = true) (k : Nat) :
    g.Unnoticed (.right ρ k) Peg.isPlaceless inner where
  body := hbody
  filler := hfiller
  run {e} fuel atomic c he := by
    cases e with
    | text | word => exact ofRest_moved c _ _
    | digit | letter | any => exact ofChar_moved _ c
    | stop =>
      rw [Grammar.run, Grammar.run]
      show (if c.rest.isEmpty then _ else _) = _
      split <;> rfl
    | _ => cases he
  leave kind atomic r c later nodes := by
    have htext : ((Change.right ρ k).place c).textTo ((Change.right ρ k).place later) = c.textTo later := by
      simp only [Cursor.textTo, Change.right, Nat.add_sub_add_left]
    rw [leaveNode, leaveNode, htext]
    split
    · rfl
    · simp only [List.map_cons, List.map_nil, Change.right, Tree.moved, Tree.movedAll_eq]

/-! ## Texts in either case -/

mutual

/-- The tree over the text in lower case. -/
def Tree.folded : Tree ρ → Tree ρ
  | .node r i cs ts => .node r i (Text.folded cs) (foldedAll ts)

/-- Several trees over the text in lower case. -/
def Tree.foldedAll : List (Tree ρ) → List (Tree ρ)
  | [] => []
  | t :: ts => folded t :: foldedAll ts

end

theorem Tree.foldedAll_eq (ts : List (Tree ρ)) : foldedAll ts = ts.map folded := by
  induction ts with
  | nil => rfl
  | cons t ts ih => exact congrArg (folded t :: ·) ih

/-- The text is in lower case. -/
def Change.lower (ρ : Type) : Change ρ where
  place c := ⟨c.index, Text.folded c.rest⟩
  tree := Tree.folded

/-- An expression without parts that does not tell the letters of ASCII from their lower case. -/
def Peg.isCaseBlind : Peg ρ → Bool
  | .text ws => ws.all fun w => !w.isAlpha
  | .word _ | .digit | .letter | .any | .start | .stop => true
  | _ => false

theorem ofRest_folded (c : Cursor) (size : Nat) (rest : Option (List Char)) :
    (Outcome.ofRest ((Change.lower ρ).place c) size (rest.map Text.folded) : Outcome ρ) =
      (Outcome.ofRest c size rest).changed (.lower ρ) := by
  cases rest <;> rfl

theorem ofChar_folded {p : Char → Bool} (hp : ∀ x, p (asciiLower x) = p x) (c : Cursor) :
    (Outcome.ofChar p ((Change.lower ρ).place c) : Outcome ρ) =
      (Outcome.ofChar p c).changed (.lower ρ) := by
  obtain ⟨i, _ | ⟨d, rest⟩⟩ := c
  · rfl
  · simp only [Outcome.ofChar, Change.lower, Text.folded, List.map_cons, hp]
    split <;> rfl

/-- **Letters are read in either case** by expressions whose signs are no letters. -/
theorem unnoticed_folded {g : Grammar ρ} {inner : ρ → Bool}
    (hbody : ∀ r, inner r = true → (g.body r).every Peg.isCaseBlind inner = true)
    (hfiller : g.filler.every Peg.isCaseBlind inner = true) :
    g.Unnoticed (.lower ρ) Peg.isCaseBlind inner where
  body := hbody
  filler := hfiller
  run {e} fuel atomic c he := by
    cases e with
    | text ws =>
      have hws : ∀ w ∈ ws, w.isAlpha = false := fun w hw => by simpa using List.all_eq_true.mp he w hw
      rw [Grammar.run, Grammar.run, show ((Change.lower ρ).place c).rest = Text.folded c.rest from rfl,
        stripStart_folded hws]
      exact ofRest_folded c _ _
    | word ws =>
      rw [Grammar.run, Grammar.run, show ((Change.lower ρ).place c).rest = Text.folded c.rest from rfl,
        stripWord_folded]
      exact ofRest_folded c _ _
    | digit => exact ofChar_folded isDigit_asciiLower c
    | letter => exact ofChar_folded isAlpha_asciiLower c
    | any => exact ofChar_folded (fun _ => rfl) c
    | start =>
      rw [Grammar.run, Grammar.run]
      show (if c.index = 0 then _ else _) = _
      split <;> rfl
    | stop =>
      have hrest : ((Change.lower ρ).place c).rest.isEmpty = c.rest.isEmpty := List.isEmpty_map
      rw [Grammar.run, Grammar.run, hrest]
      split <;> rfl
    | _ => cases he
  leave kind atomic r c later nodes := by
    have htext : ((Change.lower ρ).place c).textTo ((Change.lower ρ).place later) =
        Text.folded (c.textTo later) := List.map_take.symm
    rw [leaveNode, leaveNode, htext]
    split
    · rfl
    · simp only [List.map_cons, List.map_nil, Change.lower, Tree.folded, Tree.foldedAll_eq]

end QueryScore
