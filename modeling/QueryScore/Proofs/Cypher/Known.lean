/-
# QueryScore.Proofs.Cypher.Known -- the labels that the walk remembers

A variable is bound to a label or to the type of a relationship, and both travel through one list to later
clauses. Inside a path a variable may be bound to the type of an edge that still waits for its node
(`Walk.Sound`). By the grammar the parts of a path alternate, so the edge is closed before the next one
opens and before the path ends, and its type is then the kind of a relation. Wherever the walk is not
inside a path, each label that is bound is an entity or the kind of a relation, and no edge waits
(`Walk.Settled`); so are the ends of the relations and the owners of keys (`keeps_visited`).
-/

import QueryScore.Proofs.Cypher.Labelled

namespace QueryScore.Cypher

open Grammar Peg

variable {source cs : List Char} {t n tree : Tree Rule} {ts : List (Tree Rule)} {w w' : Walk} {label : String}
  {inExpression : Bool} {r : Rule} {i : Nat}

/-! ## Where the walk goes -/

/-- Whether the parts of a node are inside an expression. -/
def Rule.isInside (r : Rule) (inExpression : Bool) : Bool :=
  match r with
  | .whereClause | .withClause | .returnClause => true
  | _ => inExpression

/-- The state with which the walk goes into the parts of a node that is no pattern. -/
def Walk.enter (w : Walk) (inExpression : Bool) (t : Tree Rule) : Walk :=
  match t.rule with
  | .patternElement | .patternPredicate => w.startPath
  | .whereClause => w.visitCondition t
  | .projectionItems => w.visitProjection t
  | .postfixExpression => if inExpression then w.visitLookup t else w
  | _ => w

theorem walk_eq_walkAll (w : Walk) (hr : r.isPattern = false) : walk inExpression (.node r i cs ts) w =
    walkAll (r.isInside inExpression) ts (w.enter inExpression (.node r i cs ts)) := by
  cases r <;> first | rfl | cases hr

/-- A node that the walk has come to, and the state in which it has. -/
structure Visit where
  /-- Whether the node is inside an expression. -/
  inExpression : Bool
  /-- The node. -/
  node : Tree Rule
  /-- The state before it. -/
  state : Walk

/-- The state behind a node. -/
def Visit.after (v : Visit) : Walk := walk v.inExpression v.node v.state

mutual

/-- **`visited inExpression t w`** -- the nodes that the walk through a tree comes to, in its order, clauses
and what they hold down to the patterns, each with the state in which the walk comes to it. -/
def visited (inExpression : Bool) : Tree Rule → Walk → List Visit
  | .node r i cs ts, w =>
    ⟨inExpression, .node r i cs ts, w⟩ ::
      if r.isPattern then []
      else visitedAll (r.isInside inExpression) ts (w.enter inExpression (.node r i cs ts))

/-- The nodes that the walk through several trees comes to. -/
def visitedAll (inExpression : Bool) : List (Tree Rule) → Walk → List Visit
  | [], _ => []
  | t :: ts, w => visited inExpression t w ++ visitedAll inExpression ts (walk inExpression t w)

end

theorem visited_of_isPattern (ht : t.rule.isPattern = true) (w : Walk) :
    visited inExpression t w = [⟨inExpression, t, w⟩] := by
  obtain ⟨r, i, cs, ts⟩ := t
  replace ht : r.isPattern = true := ht
  rw [visited, if_pos ht]

/-! ## What a state knows -/

/-- **`w.Knows label`** -- the label is an entity that was found, or the kind of a relation that was. -/
def Walk.Knows (w : Walk) (label : String) : Prop :=
  label ∈ w.entities ∨ ∃ relation ∈ w.relations, relation.kind = label

/-- An owner or the end of a relation is known, or nothing. -/
def Walk.KnowsOf (w : Walk) (label : String) : Prop := label = "" ∨ w.Knows label

/-- **`w.Settled`** -- between paths: each label that is bound is known, no edge waits, and the ends of the
relations are known. -/
structure Walk.Settled (w : Walk) : Prop where
  labels : ∀ binding ∈ w.bindings, w.Knows binding.2
  closed : w.pending = none
  ends : ∀ relation ∈ w.relations, w.KnowsOf relation.source ∧ w.KnowsOf relation.target

/-- **`w.Sound`** -- inside a path: a label that is bound is known or the type of the edge that waits, and
the last node of the path has a known label. -/
structure Walk.Sound (w : Walk) : Prop where
  labels : ∀ binding ∈ w.bindings, w.Knows binding.2 ∨ ∃ edge ∈ w.pending, edge.kind = binding.2
  left : w.KnowsOf w.left
  ends : ∀ relation ∈ w.relations, w.KnowsOf relation.source ∧ w.KnowsOf relation.target

theorem Walk.Knows.mono (h : w.Knows label) (hentities : ∀ x ∈ w.entities, x ∈ w'.entities)
    (hrelations : w.relations ⊆ w'.relations) : w'.Knows label := by
  rcases h with hentity | ⟨relation, hrelation, hkind⟩
  · exact .inl (hentities label hentity)
  · exact .inr ⟨relation, hrelations hrelation, hkind⟩

theorem Walk.settled_empty : Walk.Settled {} := ⟨nofun, rfl, nofun⟩

/-- A path without an edge that waits can be left. -/
theorem Walk.Sound.settled (h : w.Sound) (hclosed : w.pending = none) : w.Settled where
  labels binding hbinding := by
    rcases h.labels binding hbinding with hknown | ⟨edge, hedge, -⟩
    · exact hknown
    · rw [hclosed] at hedge
      cases hedge
  closed := hclosed
  ends := h.ends

theorem Walk.Settled.startPath (h : w.Settled) : w.startPath.Sound where
  labels binding hbinding := .inl (h.labels binding hbinding)
  left := .inl rfl
  ends := h.ends

theorem Walk.Settled.visitCondition (h : w.Settled) (t : Tree Rule) : (w.visitCondition t).Settled := by
  rw [Walk.visitCondition]
  cases childOf? .expression t with
  | none => exact h
  | some e => exact ⟨h.labels, h.closed, h.ends⟩

theorem Walk.mem_bindings_of_labelOf? {name : String} (h : w.labelOf? name = some label) :
    (name, label) ∈ w.bindings := by
  obtain ⟨before, after, hbindings, -⟩ := List.lookup_eq_some_iff.mp h
  rw [hbindings]
  simp

/-- **A look-up adds a key to a label that is known**, or nothing. -/
theorem Walk.Settled.visitLookup_eq_or (h : w.Settled) (t : Tree Rule) : w.visitLookup t = w ∨
    ∃ owner key, w.Knows owner ∧
      w.visitLookup t = { w with attributes := w.attributes.insert (owner ++ "," ++ key) } := by
  rw [Walk.visitLookup_eq, lookupsOf]
  cases lookup? t with
  | none => exact .inl rfl
  | some found =>
    obtain ⟨variableName, key⟩ := found
    have hmeet : w.meetAll ((some (variableName, key)).toList.map fun found => .lookup found.1 found.2) =
        { w with
          attributes := ((w.labelOf? variableName).toList.map (· ++ "," ++ key)).foldl
            (fun found key => found.insert key) w.attributes } := rfl
    rw [hmeet]
    cases hlabel : w.labelOf? variableName with
    | none => exact .inl rfl
    | some owner => exact .inr ⟨owner, key, h.labels _ (Walk.mem_bindings_of_labelOf? hlabel), rfl⟩

theorem Walk.Settled.visitLookup (h : w.Settled) (t : Tree Rule) : (w.visitLookup t).Settled := by
  rcases h.visitLookup_eq_or t with heq | ⟨owner, key, -, heq⟩
  · rwa [heq]
  · rw [heq]
    exact ⟨h.labels, h.closed, h.ends⟩

/-- Going into a node that is no pattern keeps a state settled. -/
theorem Walk.Settled.enter (h : w.Settled) (inExpression : Bool) (t : Tree Rule) :
    (w.enter inExpression t).Settled := by
  rw [Walk.enter]
  split
  · exact ⟨h.labels, rfl, h.ends⟩
  · exact ⟨h.labels, rfl, h.ends⟩
  · exact h.visitCondition t
  · exact ⟨h.labels, h.closed, h.ends⟩
  · split
    · exact h.visitLookup t
    · exact h
  · exact h

/-! ## Along a path -/

theorem Walk.mem_entities_visitNode (w : Walk) (n : Tree Rule) (x : String) :
    x ∈ (w.visitNode n).entities ↔ x ∈ w.entities ∨ x ∈ nodeLabels n := by
  rw [Walk.visitNode_eq, Walk.mem_entities_meet]
  rfl

/-- Behind a node, what was bound is known: the edge that waited is a relation. -/
theorem Walk.Sound.knows_visitNode (h : w.Sound) (n : Tree Rule) :
    (∀ label, w.Knows label → (w.visitNode n).Knows label) ∧
      ∀ binding ∈ w.bindings, (w.visitNode n).Knows binding.2 := by
  obtain ⟨-, -, hrelations⟩ := visitNode_reaches (w := w) (n := n)
  have hmono (label : String) (hknown : w.Knows label) : (w.visitNode n).Knows label := by
    refine hknown.mono (fun x hx => (Walk.mem_entities_visitNode w n x).mpr (.inl hx)) ?_
    rw [hrelations]
    exact List.subset_append_left _ _
  refine ⟨hmono, fun binding hbinding => ?_⟩
  rcases h.labels binding hbinding with hknown | ⟨edge, hedge, hkind⟩
  · exact hmono _ hknown
  · refine .inr ⟨Walk.relationOf edge w.left (w.nodeLabel n), ?_, ?_⟩
    · rw [hrelations, Option.mem_def.mp hedge]
      simp
    · rw [← hkind, Walk.relationOf]
      split <;> rfl

/-- **The label of a node is known behind it**, or it has none. -/
theorem Walk.Sound.knowsOf_nodeLabel (h : w.Sound) (n : Tree Rule) :
    (w.visitNode n).KnowsOf (w.nodeLabel n) := by
  rw [Walk.nodeLabel]
  cases hlabels : nodeLabels n with
  | cons label labels =>
    refine .inr (.inl ((Walk.mem_entities_visitNode w n label).mpr (.inr ?_)))
    rw [hlabels]
    exact List.mem_cons_self
  | nil =>
    cases hbound : (patternVariable? n).bind w.labelOf? with
    | none => exact .inl rfl
    | some label =>
      obtain ⟨variableName, -, hlabel⟩ := Option.bind_eq_some_iff.mp hbound
      exact .inr ((h.knows_visitNode n).2 _ (Walk.mem_bindings_of_labelOf? hlabel))

theorem Walk.attributes_visitNode (w : Walk) (n : Tree Rule) :
    (w.visitNode n).attributes = (w.addKeys (w.nodeLabel n) (patternKeys n)).attributes := by
  rw [Walk.visitNode, Walk.reachNode, Walk.addKeys, Walk.bindNode]
  split <;> (split <;> first | rfl | (cases patternVariable? n <;> rfl))

/-- **A node closes the edge that waits**, and leaves a path that can be left. -/
theorem Walk.Sound.visitNode (h : w.Sound) (hn : n.rule = .nodePattern) : (w.visitNode n).Sound := by
  obtain ⟨hmono, hbound⟩ := h.knows_visitNode n
  obtain ⟨hclosed, hleft, hrelations⟩ := visitNode_reaches (w := w) (n := n)
  have howner := h.knowsOf_nodeLabel n
  have hstill {label : String} (hknown : w.KnowsOf label) : (w.visitNode n).KnowsOf label :=
    hknown.imp_right (hmono label)
  refine ⟨fun binding hbinding => ?_, hleft ▸ howner, fun relation hrelation => ?_⟩
  · rw [bindings_visitNode hn, bindingsOf_singleton, bindingOf?, hn] at hbinding
    rcases List.mem_append.mp hbinding with hnew | hold
    · refine .inl (.inl ((Walk.mem_entities_visitNode w n _).mpr (.inr ?_)))
      simp only [Option.mem_toList, Option.bind_eq_bind, Option.bind_eq_some_iff, Option.pure_def] at hnew
      obtain ⟨variableName, -, label, hlabel, hpair⟩ := hnew
      obtain rfl := Option.some.inj hpair
      exact List.mem_of_mem_head? hlabel
    · exact .inl (hbound binding hold)
  · rw [hrelations] at hrelation
    rcases List.mem_append.mp hrelation with hold | hnew
    · obtain ⟨hsource, htarget⟩ := h.ends relation hold
      exact ⟨hstill hsource, hstill htarget⟩
    · simp only [Option.mem_toList, Option.map_eq_some_iff] at hnew
      obtain ⟨edge, -, rfl⟩ := hnew
      rw [Walk.relationOf]
      split
      · exact ⟨howner, hstill h.left⟩
      · exact ⟨hstill h.left, howner⟩

theorem Walk.entities_visitRelationship (w : Walk) (n : Tree Rule) :
    (w.visitRelationship n).entities = w.entities := by
  rw [Walk.visitRelationship_eq, edgeOf]
  cases childOf? .relationshipDetail n <;> rfl

/-- **A relationship binds its variable to the type of the edge that waits from here on.** -/
theorem Walk.Sound.visitRelationship (h : w.Sound) (hclosed : w.pending = none)
    (hn : n.rule = .relationshipPattern) : (w.visitRelationship n).Sound := by
  have hknows {label : String} (hknown : w.Knows label) : (w.visitRelationship n).Knows label := by
    rw [Walk.Knows, Walk.entities_visitRelationship, relations_visitRelationship]
    exact hknown
  have hstill {label : String} (hknown : w.KnowsOf label) : (w.visitRelationship n).KnowsOf label :=
    hknown.imp_right hknows
  refine ⟨fun binding hbinding => ?_, ?_, fun relation hrelation => ?_⟩
  · rw [bindings_visitRelationship hn, bindingsOf_singleton, bindingOf?, hn] at hbinding
    rcases List.mem_append.mp hbinding with hnew | hold
    · refine .inr ⟨⟨kindOf n, arrowOf n⟩, pending_visitRelationship, ?_⟩
      simp only [Option.mem_toList, Option.bind_eq_bind, Option.bind_eq_some_iff, Option.pure_def] at hnew
      obtain ⟨variableName, -, hpair⟩ := hnew
      split at hpair
      · cases hpair
      · rw [← Option.some.inj hpair]
    · exact .inl (hknows ((h.settled hclosed).labels binding hold))
  · rw [left_visitRelationship]
    exact hstill h.left
  · rw [relations_visitRelationship] at hrelation
    obtain ⟨hsource, htarget⟩ := h.ends relation hrelation
    exact ⟨hstill hsource, hstill htarget⟩

/-! ## The visits of a walk -/

/-- **`v.Keeps`** -- what a visit keeps. Outside patterns the state is settled before the node and behind it;
a node pattern gives its keys to a label that is known behind it, and a look-up its key to one that is
known. -/
structure Visit.Keeps (v : Visit) : Prop where
  settled : v.node.rule.isPattern = false → v.state.Settled ∧ v.after.Settled
  node : v.node.rule = .nodePattern → v.after.KnowsOf (v.state.nodeLabel v.node) ∧
    v.after.attributes = (v.state.addKeys (v.state.nodeLabel v.node) (patternKeys v.node)).attributes
  lookup : v.node.rule = .postfixExpression → v.state.visitLookup v.node = v.state ∨
    ∃ owner key, v.state.Knows owner ∧ v.state.visitLookup v.node =
      { v.state with attributes := v.state.attributes.insert (owner ++ "," ++ key) }

theorem keeps_node (h : w.Sound) (hn : n.rule = .nodePattern) : (Visit.mk inExpression n w).Keeps where
  settled hpattern := by
    rw [hn] at hpattern
    cases hpattern
  node _ := by
    rw [Visit.after, walk_node inExpression hn]
    exact ⟨h.knowsOf_nodeLabel n, w.attributes_visitNode n⟩
  lookup hlookup := by
    rw [hn] at hlookup
    cases hlookup

theorem keeps_relationship (hn : n.rule = .relationshipPattern) : (Visit.mk inExpression n w).Keeps where
  settled hpattern := by
    rw [hn] at hpattern
    cases hpattern
  node hnode := by
    rw [hn] at hnode
    cases hnode
  lookup hlookup := by
    rw [hn] at hlookup
    cases hlookup

/-- A visit outside patterns, if the state is settled before it and behind it. -/
theorem keeps_of_settled (h : w.Settled) (hpattern : n.rule.isPattern = false)
    (hafter : (walk inExpression n w).Settled) : (Visit.mk inExpression n w).Keeps where
  settled _ := ⟨h, hafter⟩
  node hnode := by
    rw [hnode] at hpattern
    cases hpattern
  lookup _ := h.visitLookup_eq_or n

/-- **Each step of a path closes the edge that it opens.** -/
theorem keeps_steps (inExpression : Bool) (hps : Alternates ts) (hw : w.Sound) (hclosed : w.pending = none) :
    (walkAll inExpression ts w).Settled ∧ ∀ v ∈ visitedAll inExpression ts w, v.Keeps := by
  induction hps generalizing w with
  | nil => exact ⟨hw.settled hclosed, nofun⟩
  | @step r n rest hr hn _ ih =>
    have hopen := hw.visitRelationship hclosed hr
    obtain ⟨hsettled, hall⟩ := ih (hopen.visitNode hn) visitNode_reaches.1
    simp only [walkAll, visitedAll, walk_relationship inExpression hr, walk_node inExpression hn]
    rw [visited_of_isPattern (by rw [hr]; rfl), visited_of_isPattern (by rw [hn]; rfl)]
    refine ⟨hsettled, fun v hv => ?_⟩
    rcases List.mem_cons.mp hv with rfl | hv
    · exact keeps_relationship hr
    rcases List.mem_cons.mp hv with rfl | hv
    · exact keeps_node hopen hn
    · exact hall v hv

/-- A path keeps a state settled, whatever it came from. -/
theorem keeps_path (inExpression : Bool) (hn : n.rule = .nodePattern) (hps : Alternates ts) (hw : w.Settled) :
    (walkAll inExpression (n :: ts) w.startPath).Settled ∧
      ∀ v ∈ visitedAll inExpression (n :: ts) w.startPath, v.Keeps := by
  have hfirst := hw.startPath.visitNode hn
  obtain ⟨hsettled, hall⟩ := keeps_steps inExpression hps hfirst visitNode_reaches.1
  simp only [walkAll, visitedAll, walk_node inExpression hn]
  rw [visited_of_isPattern (by rw [hn]; rfl)]
  refine ⟨hsettled, fun v hv => ?_⟩
  rcases List.mem_cons.mp hv with rfl | hv
  · exact keeps_node hw.startPath hn
  · exact hall v hv

theorem isPattern_of_isEntered (hr : r.isEntered = true) : r.isPattern = false := by
  cases r <;> first | rfl | cases hr

mutual

/-- **The walk through what it enters keeps a state settled.** -/
theorem keeps_visited : ∀ (t : Tree Rule) (inExpression : Bool) (w : Walk), grammar.Grows source t →
    t.rule.isEntered = true → w.Settled →
    (walk inExpression t w).Settled ∧ ∀ v ∈ visited inExpression t w, v.Keeps
  | .node r i cs ts, inExpression, w, h, hr, hw => by
    replace hr : r.isEntered = true := hr
    have hpattern := isPattern_of_isEntered hr
    have hparts : (walkAll (r.isInside inExpression) ts (w.enter inExpression (.node r i cs ts))).Settled ∧
        ∀ v ∈ visitedAll (r.isInside inExpression) ts (w.enter inExpression (.node r i cs ts)), v.Keeps := by
      have hall := keeps_visitedAll ts (r.isInside inExpression) (w.enter inExpression (.node r i cs ts)) h.parts
      cases hpath : r.isPath with
      | false =>
        have hkind := kind_ne_silent_of_isEntered hr
        exact hall (fun n hn => isEntered_of_mem_tops hr hpath _ (rule_mem_of_grows h hkind n hn).1) (hw.enter _ _)
      | true =>
        rcases alternates_of_grows h hpath with ⟨n, rest, rfl, hn, hrest⟩ | ⟨inner, rfl, hinner⟩
        · have henter : w.enter inExpression (.node r i cs (n :: rest)) = w.startPath := by
            cases r <;> first | rfl | cases hpath
          rw [henter]
          exact keeps_path _ hn hrest hw
        · refine hall (fun n hn => ?_) (hw.enter _ _)
          obtain rfl := List.mem_singleton.mp hn
          rw [hinner]
          rfl
    obtain ⟨hsettled, hall⟩ := hparts
    rw [← walk_eq_walkAll w hpattern] at hsettled
    refine ⟨hsettled, fun v hv => ?_⟩
    rw [visited, if_neg (by simp [hpattern])] at hv
    rcases List.mem_cons.mp hv with rfl | hv
    · exact keeps_of_settled hw hpattern hsettled
    · exact hall v hv

theorem keeps_visitedAll : ∀ (ts : List (Tree Rule)) (inExpression : Bool) (w : Walk),
    (∀ t ∈ ts, grammar.Grows source t) → (∀ t ∈ ts, t.rule.isEntered = true) → w.Settled →
    (walkAll inExpression ts w).Settled ∧ ∀ v ∈ visitedAll inExpression ts w, v.Keeps
  | [], inExpression, w, h, hr, hw => ⟨hw, nofun⟩
  | t :: ts, inExpression, w, h, hr, hw => by
    obtain ⟨hfirst, hvisits⟩ := keeps_visited t inExpression w (h t (by simp)) (hr t (by simp)) hw
    obtain ⟨hmore, hlater⟩ := keeps_visitedAll ts inExpression (walk inExpression t w)
      (fun u hu => h u (by simp [hu])) (fun u hu => hr u (by simp [hu])) hfirst
    refine ⟨hmore, fun v hv => ?_⟩
    rw [visitedAll] at hv
    exact (List.mem_append.mp hv).elim (hvisits v) (hlater v)

end

/-- **On every accepted text the walk remembers known labels only**: in each state outside a path, those
between two clauses among them, and at its end; and each owner of a key is one of them. -/
theorem settled_of_parse (h : parse source = .ok tree) :
    (walkTree tree).Settled ∧ ∀ v ∈ visited false tree {}, v.Keeps := by
  have hgrows := grows_of_parse h
  obtain ⟨-, parts, rfl, -⟩ := reads_of_parse h
  exact keeps_visited _ false {} hgrows rfl Walk.settled_empty

/-- A relationship whose variable is the node that closes it, and a path inside a condition. -/
def reboundQuery : List Char :=
  "MATCH (a:Driver)-[r:WON]->(r \x7bname: 1\x7d) WHERE (a)-->(:City) AND r.year > 1 WITH a RETURN a.name".toList

theorem settled_reboundQuery : ∃ tree, parse reboundQuery = .ok tree ∧ (walkTree tree).Settled ∧
    (∃ v ∈ visited false tree {}, v.node.rule = .withClause ∧ v.state.Settled ∧
      v.state.bindings = [("r", "won"), ("a", "driver")]) ∧
    ∃ v ∈ visited false tree {}, v.state.nodeLabel v.node = "won" ∧ patternKeys v.node = ["name"] ∧
      v.after.KnowsOf "won" := by
  obtain ⟨tree, hparse, hshown⟩ := exists_tree_of_any reboundQuery (fun tree => decide
    ((∃ v ∈ visited false tree {}, v.node.rule = .withClause ∧
      v.state.bindings = [("r", "won"), ("a", "driver")]) ∧
    ∃ v ∈ visited false tree {}, v.node.rule = .nodePattern ∧ v.state.nodeLabel v.node = "won" ∧
      patternKeys v.node = ["name"])) (by decide +kernel)
  obtain ⟨⟨v, hv, hclause, hbindings⟩, u, hu, hnode, howner, hkeys⟩ := of_decide_eq_true hshown
  obtain ⟨hsettled, hall⟩ := settled_of_parse hparse
  refine ⟨tree, hparse, hsettled, ⟨v, hv, hclause, ?_, hbindings⟩, u, hu, howner, hkeys, ?_⟩
  · exact ((hall v hv).settled (by rw [hclause]; rfl)).1
  · rw [← howner]
    exact ((hall u hu).node hnode).1

end QueryScore.Cypher
