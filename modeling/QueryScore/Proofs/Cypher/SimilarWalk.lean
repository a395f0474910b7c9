/-
# QueryScore.Proofs.Cypher.SimilarWalk -- what the walk finds in similar trees

The walk takes names from tokens, and tokens are the same in similar trees. So the walks through
two similar trees find the same labels, attributes and relations (`walkTree_similar`), comments or not.
Conditions and projections are taken as texts: they are the same where they hold no comments
(`filters_similar`, `projections_similar`).
-/

import QueryScore.Proofs.Cypher.Cleared
import QueryScore.Proofs.Cypher.Condition
import QueryScore.Proofs.Cypher.Event
import QueryScore.Proofs.Cypher.Lockstep

namespace QueryScore.Cypher

open Text Grammar Peg Name

variable {source : List Char} {same : List Char → List Char → Prop} {t u : Tree Rule}
  {ts us : List (Tree Rule)}

/-! ## Parts of similar trees -/

theorem Similar.rule_eq (h : Similar same t u) : u.rule = t.rule := by
  cases h with
  | node => rfl

theorem Similar.text_eq (h : Similar same t u) (hkind : t.rule.kind = .atomic) : u.text = t.text := by
  cases h with
  | node _ htoken => exact htoken hkind

theorem Similar.texts (h : Similar same t u) : same t.text u.text := by
  cases h with
  | node htext => exact htext

theorem Similar.children (h : Similar same t u) : SimilarAll same t.children u.children := by
  cases h with
  | node _ _ hparts => exact hparts

/-- The trees of two similar lists are paired. -/
theorem SimilarAll.forall₂ (h : SimilarAll same ts us) : List.Forall₂ (Similar same) ts us := by
  induction ts generalizing us with
  | nil =>
    cases h with
    | nil => exact .nil
  | cons t ts ih =>
    cases h with
    | cons hone hmore => exact .cons hone (ih hmore)

/-- The first part of a rule is missing in both, or similar. -/
theorem childOf?_similar (r : Rule) (h : Similar same t u) :
    (childOf? r t = none ∧ childOf? r u = none) ∨
      ∃ a b, childOf? r t = some a ∧ childOf? r u = some b ∧ Similar same a b ∧ a.rule = r :=
  childOf?_of_forall₂ (fun _ _ => Similar.rule_eq) r h.children.forall₂

/-- **Tokens correspond in similar trees**, variables included. -/
theorem corresponds_similar (source : List Char) (same : List Char → List Char → Prop) :
    Corresponds source id fun t u => grammar.Grows source t ∧ Similar same t u where
  grows h := h.1
  rule h := h.2.rule_eq
  parts h := List.forall₂_and_left _ _ |>.mpr ⟨h.1.parts, h.2.children.forall₂⟩
  token h hkind _ := h.2.text_eq hkind
  name h hrule := by rw [variableName, variableName, h.2.text_eq (by rw [hrule]; rfl), id]

theorem Event.renamed_id : Event.renamed id = id := by
  funext e
  cases e <;> simp [Event.renamed]

/-- The walk meets the same in similar trees. -/
theorem eventsOf_similar (hgrows : grammar.Grows source t) (h : Similar same t u) (inExpression : Bool) :
    eventsOf inExpression u = eventsOf inExpression t := by
  have hevents := eventsOf_corresponds (corresponds_similar source same) inExpression t u ⟨hgrows, h⟩
  rwa [Event.renamed_id, List.map_id] at hevents

/-- **The walk finds the same labels, attributes and relations in similar trees.** -/
theorem walkTree_similar (hgrows : grammar.Grows source t) (h : Similar same t u) :
    (walkTree t).Agrees (walkTree u) := by
  have hfirst := walk_agrees false t {} {} (.refl _)
  have hsecond := walk_agrees false u {} {} (.refl _)
  rw [eventsOf_similar hgrows h] at hsecond
  exact hfirst.join hsecond

/-! ## Conditions and projections -/

mutual

theorem conditionsOf_similar : ∀ t u : Tree Rule, Similar same t u →
    SimilarAll same (conditionsOf t) (conditionsOf u)
  | .node r i cs ts, .node r' j ds us, h => by
    obtain rfl : r' = r := h.rule_eq
    have hall := conditionsOfAll_similar ts us h.children
    cases r' with
    | whereClause =>
      refine SimilarAll.append ?_ hall
      rcases childOf?_similar .expression h with ⟨ht, hu⟩ | ⟨a, b, ha, hb, hone, -⟩
      · rw [ht, hu]
        exact .nil
      · rw [ha, hb]
        exact .cons hone .nil
    | nodePattern | relationshipPattern => exact .nil
    | _ => exact hall

theorem conditionsOfAll_similar : ∀ ts us : List (Tree Rule), SimilarAll same ts us →
    SimilarAll same (conditionsOfAll ts) (conditionsOfAll us)
  | [], us, h => by
    cases h with
    | nil => exact .nil
  | t :: ts, us, h => by
    cases h with
    | @cons _ u _ us hone hmore =>
      exact (conditionsOf_similar t u hone).append (conditionsOfAll_similar ts us hmore)

end

/-- **Conditions are the same filters** in similar trees, if their texts are. -/
theorem filters_of_similar (h : Similar same t u)
    (hsame : ∀ e ∈ conditionsOf t, ∀ e', Similar same e e' → filterOf e' = filterOf e) :
    (walkTree u).filters = (walkTree t).filters := by
  have hfilters : (conditionsOf u).map filterOf = (conditionsOf t).map filterOf :=
    map_eq_of_forall₂ (conditionsOf_similar t u h).forall₂ hsame
  have hmem (t : Tree Rule) (f : String) :
      f ∈ (walkTree t).filters ↔ f ∈ (conditionsOf t).map filterOf := by
    rw [walkTree, mem_walk]
    simp [eq_comm]
  exact SortedSet.ext fun f => by rw [hmem, hmem, hfilters]

/-- **Conditions without comments are the same filters.** -/
theorem filters_similar (h : Similar SameBare t u)
    (hbare : ∀ e ∈ conditionsOf t, commentCharacters e.text = []) :
    (walkTree u).filters = (walkTree t).filters :=
  filters_of_similar h fun e he e' hsame => by rw [filterOf, filterOf, hsame.texts (hbare e he)]

mutual

/-- **`projectionsOf t`** -- the lists of items that the walk comes to, in its order. -/
def projectionsOf : Tree Rule → List (Tree Rule)
  | .node r i cs ts =>
    match r with
    | .nodePattern | .relationshipPattern => []
    | .projectionItems => .node r i cs ts :: projectionsOfAll ts
    | _ => projectionsOfAll ts

/-- The lists of items of several trees. -/
def projectionsOfAll : List (Tree Rule) → List (Tree Rule)
  | [] => []
  | t :: ts => projectionsOf t ++ projectionsOfAll ts

end

theorem Walk.projections_meet (w : Walk) (e : Event) : (w.meet e).projections = w.projections := by
  cases e <;> rfl

theorem Walk.projections_meetAll (w : Walk) (events : List Event) :
    (w.meetAll events).projections = w.projections := by
  induction events generalizing w with
  | nil => rfl
  | cons e events ih => exact (ih (w.meet e)).trans (w.projections_meet e)

theorem Walk.projections_visitCondition (w : Walk) : (w.visitCondition t).projections = w.projections := by
  rw [visitCondition]
  cases childOf? .expression t <;> rfl

mutual

/-- What the walk through a tree adds to the projections. -/
theorem projections_walk (inExpression : Bool) : ∀ (t : Tree Rule) (w : Walk),
    (walk inExpression t w).projections = w.projections ++ (projectionsOf t).map Tree.text
  | .node r i cs ts, w => by
    have hall (inExpression : Bool) (w : Walk) := projections_walkAll inExpression ts w
    cases r with
    | nodePattern =>
      rw [walk, Walk.visitNode_eq]
      exact (w.projections_meet _).trans (List.append_nil _).symm
    | relationshipPattern =>
      rw [walk, Walk.visitRelationship_eq]
      exact (w.projections_meet _).trans (List.append_nil _).symm
    | whereClause =>
      refine (hall true _).trans ?_
      rw [Walk.projections_visitCondition]
      rfl
    | projectionItems => exact (hall inExpression _).trans (List.append_assoc _ _ _)
    | postfixExpression =>
      cases inExpression with
      | true =>
        refine (hall true _).trans ?_
        rw [if_pos rfl, Walk.visitLookup_eq, Walk.projections_meetAll]
        rfl
      | false => exact hall false w
    | _ => exact hall _ _

theorem projections_walkAll (inExpression : Bool) : ∀ (ts : List (Tree Rule)) (w : Walk),
    (walkAll inExpression ts w).projections = w.projections ++ (projectionsOfAll ts).map Tree.text
  | [], w => (List.append_nil _).symm
  | t :: ts, w => by
    rw [walkAll, projections_walkAll inExpression ts, projections_walk inExpression t, projectionsOfAll,
      List.map_append, List.append_assoc]

end

mutual

theorem projectionsOf_similar : ∀ t u : Tree Rule, Similar same t u →
    SimilarAll same (projectionsOf t) (projectionsOf u)
  | .node r i cs ts, .node r' j ds us, h => by
    obtain rfl : r' = r := h.rule_eq
    have hall := projectionsOfAll_similar ts us h.children
    cases r' with
    | projectionItems => exact .cons h hall
    | nodePattern | relationshipPattern => exact .nil
    | _ => exact hall

theorem projectionsOfAll_similar : ∀ ts us : List (Tree Rule), SimilarAll same ts us →
    SimilarAll same (projectionsOfAll ts) (projectionsOfAll us)
  | [], us, h => by
    cases h with
    | nil => exact .nil
  | t :: ts, us, h => by
    cases h with
    | @cons _ u _ us hone hmore =>
      exact (projectionsOf_similar t u hone).append (projectionsOfAll_similar ts us hmore)

end

/-- **Lists of items without comments are the same projections.** -/
theorem projections_similar (h : Similar SameBare t u)
    (hbare : ∀ list ∈ projectionsOf t, commentCharacters list.text = []) :
    (walkTree u).projections = (walkTree t).projections := by
  rw [walkTree, walkTree, projections_walk, projections_walk]
  have hlists := (projectionsOf_similar t u h).forall₂
  refine congrArg _ (map_eq_of_forall₂ hlists fun list hlist list' hsame => ?_)
  exact hsame.texts (hbare list hlist)

end QueryScore.Cypher
