/-
# QueryScore.Proofs.Cypher.Labelled -- the entities of a query are the labels of its node patterns

The grammar knows labels in two places, in a node pattern and behind an operand of an expression, where they
test a value. The walk takes labels from node patterns alone: each that stands in a clause, in a pattern
predicate or in a map of an expression, whatever surrounds it, gives its labels (`entities_walk`), and
nothing else gives any (`entities_of_tree`). A label that is only tested names no entity
(`entities_labelTest`).
-/

import QueryScore.Proofs.Cypher.Event

namespace QueryScore.Cypher

open Grammar Peg

variable {source : List Char} {t p tree : Tree Rule} {ts : List (Tree Rule)}

/-! ## The labels of patterns -/

/-- The labels that a pattern gives: those of a node. -/
def labelsOf (p : Tree Rule) : List String :=
  match p.rule with
  | .nodePattern => nodeLabels p
  | _ => []

/-- The entities that an event adds. -/
def Event.entities : Event → List String
  | .node _ labels _ => labels
  | _ => []

theorem Walk.mem_entities_meet {w : Walk} {e : Event} {x : String} :
    x ∈ (w.meet e).entities ↔ x ∈ w.entities ∨ x ∈ e.entities := by
  cases e with
  | node name labels keys => exact SortedSet.mem_foldl_insert _ _
  | _ => simp [Walk.meet, Walk.startPath, Walk.addKeys, Event.entities]

theorem Walk.mem_entities_meetAll {w : Walk} {events : List Event} {x : String} :
    x ∈ (w.meetAll events).entities ↔ x ∈ w.entities ∨ x ∈ events.flatMap Event.entities := by
  induction events generalizing w with
  | nil => simp [Walk.meetAll]
  | cons e events ih =>
    rw [Walk.meetAll, List.foldl_cons, ← Walk.meetAll, ih, Walk.mem_entities_meet, List.flatMap_cons,
      List.mem_append, or_assoc]

theorem entities_lookupsOf (t : Tree Rule) : (lookupsOf t).flatMap Event.entities = [] := by
  rw [lookupsOf]
  cases lookup? t <;> rfl

/-- A pattern is one event, and the only pattern at its place. -/
theorem entities_isPattern (inExpression : Bool) (h : grammar.Grows source t) (hr : t.rule.isPattern = true) :
    (eventsOf inExpression t).flatMap Event.entities = (patternsOf t).flatMap labelsOf := by
  rw [(of_isPattern h hr).1]
  obtain ⟨r, i, cs, ts⟩ := t
  cases r with
  | nodePattern => rfl
  | relationshipPattern =>
    have hnone : (edgeOf (.node .relationshipPattern i cs ts)).entities = [] := by
      rw [edgeOf]
      split <;> rfl
    simp [eventsOf, hnone, labelsOf, Tree.rule]
  | _ => cases hr

/-- The walk enters each part of what it enters, or it is a pattern. -/
theorem part_of_isEntered {r : Rule} {i : Nat} {cs : List Char} (h : grammar.Grows source (.node r i cs ts))
    (hr : r.isEntered = true) : ∀ n ∈ ts, n.rule.isPattern = true ∨ n.rule.isEntered = true := by
  intro n hn
  cases hpath : r.isPath with
  | false =>
    have hkind := kind_ne_silent_of_isEntered hr
    exact .inr (isEntered_of_mem_tops hr hpath _ (rule_mem_of_grows h hkind n hn).1)
  | true =>
    rcases alternates_of_grows h hpath with ⟨first, rest, rfl, hfirst, hrest⟩ | ⟨inner, rfl, hinner⟩
    · rcases List.mem_cons.mp hn with rfl | hn
      · exact .inl (by rw [hfirst]; rfl)
      · exact .inl (hrest.isPattern n hn)
    · obtain rfl := List.mem_singleton.mp hn
      exact .inr (by rw [hinner]; rfl)

mutual

/-- **The events of a tree give the labels of its node patterns**, in the order of the text. -/
theorem entities_eventsOf (inExpression : Bool) : ∀ t : Tree Rule, grammar.Grows source t →
    t.rule.isPattern = true ∨ t.rule.isEntered = true →
    (eventsOf inExpression t).flatMap Event.entities = (patternsOf t).flatMap labelsOf
  | .node r i cs ts, h, hr => by
    cases hpattern : r.isPattern with
    | true => exact entities_isPattern inExpression h hpattern
    | false =>
      have hentered : r.isEntered = true := hr.resolve_left (by simp [Tree.rule, hpattern])
      have hall (inExpression : Bool) :=
        entities_eventsOfAll inExpression ts h.parts (part_of_isEntered h hentered)
      cases r with
      | patternElement | patternPredicate | whereClause | withClause | returnClause => exact hall _
      | nodePattern | relationshipPattern => cases hpattern
      | properties => cases hentered
      | postfixExpression =>
        have hlookups : ((if inExpression then lookupsOf (.node .postfixExpression i cs ts) else []).flatMap
            Event.entities) = [] := by
          cases inExpression with
          | true => exact entities_lookupsOf _
          | false => rfl
        rw [eventsOf, List.flatMap_append, hlookups]
        exact hall _
      | _ => exact hall _

theorem entities_eventsOfAll (inExpression : Bool) : ∀ ts : List (Tree Rule),
    (∀ t ∈ ts, grammar.Grows source t) →
    (∀ t ∈ ts, t.rule.isPattern = true ∨ t.rule.isEntered = true) →
    (eventsOfAll inExpression ts).flatMap Event.entities = (patternsOfAll ts).flatMap labelsOf
  | [], _, _ => rfl
  | t :: ts, h, hr => by
    rw [eventsOfAll, patternsOfAll, List.flatMap_append, List.flatMap_append,
      entities_eventsOf inExpression t (h t (by simp)) (hr t (by simp)),
      entities_eventsOfAll inExpression ts (fun u hu => h u (by simp [hu])) fun u hu => hr u (by simp [hu])]

end

mutual

theorem mem_nodes_of_mem_patternsOf : ∀ t : Tree Rule, p ∈ patternsOf t → p ∈ t.nodes
  | .node r i cs ts, hp => by
    have hall := mem_nodes_of_mem_patternsOfAll ts
    rw [Tree.mem_nodes]
    cases r with
    | properties => cases hp
    | nodePattern | relationshipPattern => exact (List.mem_cons.mp hp).imp_right hall
    | _ => exact .inr (hall hp)

theorem mem_nodes_of_mem_patternsOfAll : ∀ ts : List (Tree Rule), p ∈ patternsOfAll ts →
    ∃ t ∈ ts, p ∈ t.nodes
  | [], hp => by cases hp
  | t :: ts, hp => by
    rw [List.exists_mem_cons_iff]
    exact (List.mem_append.mp hp).imp (mem_nodes_of_mem_patternsOf t) (mem_nodes_of_mem_patternsOfAll ts)

end

/-! ## The entities of a query -/

/-- **The walk finds the labels of the node patterns**, and no others. -/
theorem entities_walk (h : parse source = .ok tree) {x : String} :
    x ∈ (walkTree tree).entities ↔ ∃ p ∈ patternsOf tree, x ∈ labelsOf p := by
  have hgrows := grows_of_parse h
  have hentered : tree.rule.isEntered = true := by
    obtain ⟨-, parts, rfl, -⟩ := reads_of_parse h
    rfl
  obtain ⟨f, projections, hwalk⟩ := walk_agrees false tree {} {} (.refl _)
  rw [walkTree, hwalk]
  have hfound : x ∈ (({} : Walk).meetAll (eventsOf false tree)).entities ↔ _ := Walk.mem_entities_meetAll
  rw [entities_eventsOf false tree hgrows (.inr hentered), List.mem_flatMap] at hfound
  exact hfound.trans (or_iff_right (SortedSet.not_mem_empty x))

/-- **The entities of a query are labels of its node patterns.** Each label of a node pattern is an entity,
unless the pattern stands in the properties of another one; and each entity is a label of some node
pattern. -/
theorem entities_of_tree {text : String} {tree : Tree Rule} (h : parse text.toList = .ok tree) :
    (∀ p ∈ patternsOf tree, p.rule = .nodePattern → ∀ label ∈ nodeLabels p,
      label ∈ (extract .cypher text).entities) ∧
      ∀ entity ∈ (extract .cypher text).entities,
        ∃ p ∈ tree.nodes, p.rule = .nodePattern ∧ entity ∈ nodeLabels p := by
  have hfound : (extract .cypher text).entities = (walkTree tree).entities := by
    simp [extract, structureOf?, structure?, h, Except.map, structureOf]
  rw [hfound]
  refine ⟨fun p hp hrule label hlabel => (entities_walk h).mpr ⟨p, hp, ?_⟩, fun entity hentity => ?_⟩
  · rw [labelsOf, hrule]
    exact hlabel
  · obtain ⟨p, hp, hlabel⟩ := (entities_walk h).mp hentity
    refine ⟨p, mem_nodes_of_mem_patternsOf tree hp, ?_⟩
    rw [labelsOf] at hlabel
    split at hlabel
    · exact ⟨by assumption, hlabel⟩
    · cases hlabel

/-- A query with labels in a path, in a predicate and in a test. -/
def labelQuery : String :=
  "MATCH (a:Driver)-[:WON]->(:Race) WHERE (a)--(:Team:Sponsor) OR a:Owner RETURN a"

theorem entities_labelQuery : ∃ tree, parse labelQuery.toList = .ok tree ∧
    (∃ p ∈ patternsOf tree, p.rule = .nodePattern ∧ "sponsor" ∈ nodeLabels p) ∧
    "sponsor" ∈ (extract .cypher labelQuery).entities := by
  obtain ⟨tree, hparse, hread⟩ := exists_tree_of_any labelQuery.toList (fun tree =>
    decide (∃ p ∈ patternsOf tree, p.rule = .nodePattern ∧ "sponsor" ∈ nodeLabels p)) (by decide +kernel)
  obtain ⟨p, hp, hrule, hlabel⟩ := of_decide_eq_true hread
  exact ⟨tree, hparse, ⟨p, hp, hrule, hlabel⟩, (entities_of_tree hparse).1 p hp hrule _ hlabel⟩

/-- A label that is tested only is no entity. -/
theorem entities_labelTest : ∃ tree, parse "MATCH (n) WHERE n:Driver RETURN n".toList = .ok tree ∧
    (∃ t ∈ tree.nodes, t.rule = .labelName ∧ nameOf t = "driver") ∧
    (extract .cypher "MATCH (n) WHERE n:Driver RETURN n").entities = .empty := by
  obtain ⟨tree, hparse, hread⟩ := exists_tree_of_any "MATCH (n) WHERE n:Driver RETURN n".toList (fun tree =>
    decide (∃ t ∈ tree.nodes, t.rule = .labelName ∧ nameOf t = "driver"))
    (by decide +kernel)
  exact ⟨tree, hparse, of_decide_eq_true hread, by decide +kernel⟩

end QueryScore.Cypher
