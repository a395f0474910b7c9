/-
# QueryScore.Proofs.Cypher.Mirrored -- a path read from its other end

A path says the same from either end: what is written `(a)-[r]->(b)` can be written `(b)<-[r]-(a)`. The walk
meets the parts of the two in opposite orders and closes each edge by the other of its nodes. Where every
node has a label of its own, what a part adds does not depend on the parts before it
(`Walk.mem_attributes_meetAll`), so the order is visible in two places only: a variable that is named twice
keeps what it was bound to last, and an edge without exactly one head runs from left to right. Without
these the walks agree (`walk_mirrored`): the relations of the one are those of the other in the opposite
order (`relationsAlong_mirrored`).
-/

import QueryScore.Proofs.Cypher.Branch
import QueryScore.Proofs.Cypher.Labelled
import QueryScore.Proofs.Cypher.SimilarWalk

namespace QueryScore.Cypher

open Grammar Peg

variable {source source' : List Char} {t u p n path path' : Tree Rule} {ts us : List (Tree Rule)}

/-! ## The same path from the other end -/

mutual

/-- **`isCopy t u`** -- the trees are the same, wherever they begin. -/
def isCopy : Tree Rule → Tree Rule → Bool
  | .node r _ xs ts, .node r' _ ys us => decide (r = r') && decide (xs = ys) && isCopyAll ts us

/-- The trees of two lists are the same, one by one. -/
def isCopyAll : List (Tree Rule) → List (Tree Rule) → Bool
  | [], [] => true
  | t :: ts, u :: us => isCopy t u && isCopyAll ts us
  | _, _ => false

end

/-- **`isTurned t u`** -- a part of a path seen from the other side: a node pattern is the same, and so is
what stands in the brackets of a relationship, but each arrow head is at the other end. -/
def isTurned (t u : Tree Rule) : Bool :=
  match t.rule with
  | .nodePattern => isCopy t u
  | .relationshipPattern =>
    decide (u.rule = .relationshipPattern) &&
      decide ((childOf? .leftArrow u).isSome = (childOf? .rightArrow t).isSome) &&
      decide ((childOf? .rightArrow u).isSome = (childOf? .leftArrow t).isSome) &&
      isCopyAll (childOf? .relationshipDetail t).toList (childOf? .relationshipDetail u).toList
  | _ => false

/-- **`path.Mirrors path'`** -- the parts of the paths come in opposite orders, each seen from the other
side. -/
def Mirrors (path path' : Tree Rule) : Prop :=
  path.rule.isPath = true ∧ path'.rule.isPath = true ∧
    List.Forall₂ (fun t u => isTurned t u = true) path.children.reverse path'.children

instance : Decidable (Mirrors path path') := inferInstanceAs (Decidable (_ ∧ _ ∧ _))

/-- The variable that a node or a relationship of a path names. -/
def namedVariable? (p : Tree Rule) : Option String :=
  match p.rule with
  | .nodePattern => patternVariable? p
  | _ => (childOf? .relationshipDetail p).bind patternVariable?

mutual

theorem similar_of_isCopy : ∀ t u : Tree Rule, isCopy t u = true → Similar (· = ·) t u
  | .node r i xs ts, .node r' j ys us, h => by
    simp only [isCopy, Bool.and_eq_true, decide_eq_true_eq] at h
    obtain ⟨⟨rfl, rfl⟩, hparts⟩ := h
    exact .node rfl (fun _ => rfl) (similarAll_of_isCopyAll ts us hparts)

theorem similarAll_of_isCopyAll : ∀ ts us : List (Tree Rule), isCopyAll ts us = true →
    SimilarAll (· = ·) ts us
  | [], [], _ => .nil
  | t :: ts, u :: us, h => by
    obtain ⟨hone, hmore⟩ := (Bool.and_eq_true _ _).mp h
    exact .cons (similar_of_isCopy t u hone) (similarAll_of_isCopyAll ts us hmore)

end

/-! ## Events seen from the other side -/

/-- The direction seen from the other side. -/
def Arrow.turned : Arrow → Arrow
  | .outgoing => .incoming
  | .incoming => .outgoing
  | .either => .either

/-- The event seen from the other side. -/
def Event.turned : Event → Event
  | .edge name kind arrow keys => .edge name kind arrow.turned keys
  | e => e

theorem arrowOf_turned (hleft : (childOf? .leftArrow u).isSome = (childOf? .rightArrow t).isSome)
    (hright : (childOf? .rightArrow u).isSome = (childOf? .leftArrow t).isSome) :
    arrowOf u = (arrowOf t).turned := by
  rw [arrowOf, arrowOf, hleft, hright]
  cases (childOf? .leftArrow t).isSome <;> cases (childOf? .rightArrow t).isSome <;> rfl

theorem of_isTurned (hrule : t.rule = .relationshipPattern) (h : isTurned t u = true) :
    u.rule = .relationshipPattern ∧ arrowOf u = (arrowOf t).turned ∧
      isCopyAll (childOf? .relationshipDetail t).toList (childOf? .relationshipDetail u).toList = true := by
  simp only [isTurned, hrule, Bool.and_eq_true, decide_eq_true_eq] at h
  obtain ⟨⟨⟨hrule', hleft⟩, hright⟩, hdetail⟩ := h
  exact ⟨hrule', arrowOf_turned hleft hright, hdetail⟩

theorem edgeOf_eq (t : Tree Rule) :
    edgeOf t = .edge ((childOf? .relationshipDetail t).bind patternVariable?) (kindOf t) (arrowOf t)
      (((childOf? .relationshipDetail t).map patternKeys).getD []) := by
  rw [edgeOf, kindOf]
  cases childOf? .relationshipDetail t <;> rfl

theorem copies_correspond (source : List Char) :
    Corresponds source id fun t u => grammar.Grows source t ∧ Similar (· = ·) t u :=
  corresponds_similar source _

/-- **A relationship seen from the other side is the same event** with its direction turned. -/
theorem edgeOf_turned (hgrows : grammar.Grows source t) (hrule : t.rule = .relationshipPattern)
    (h : isTurned t u = true) : edgeOf u = (edgeOf t).turned := by
  obtain ⟨-, harrow, hdetail⟩ := of_isTurned hrule h
  rw [edgeOf, edgeOf, harrow]
  cases ha : childOf? .relationshipDetail t with
  | none =>
    cases hb : childOf? .relationshipDetail u with
    | none => rfl
    | some b => simp [ha, hb, isCopyAll] at hdetail
  | some a =>
    cases hb : childOf? .relationshipDetail u with
    | none => simp [ha, hb, isCopyAll] at hdetail
    | some b =>
      have hcopy : isCopy a b = true := by simpa [ha, hb, isCopyAll] using hdetail
      have hpart : grammar.Grows source a := by
        obtain ⟨r, i, cs, ts⟩ := t
        exact hgrows.parts a (List.mem_of_find?_eq_some ha)
      have hR := copies_correspond source
      have hsame : grammar.Grows source a ∧ Similar (· = ·) a b := ⟨hpart, similar_of_isCopy a b hcopy⟩
      simp only [hR.patternVariable? hsame, hR.relationshipKind hsame, hR.patternKeys hsame, Option.map_id,
        id_eq, Event.turned]

/-- The one event of a part of a path. -/
def eventOf (p : Tree Rule) : Event :=
  match p.rule with
  | .nodePattern => .node (patternVariable? p) (nodeLabels p) (patternKeys p)
  | _ => edgeOf p

theorem eventOf_node (hp : p.rule = .nodePattern) :
    eventOf p = .node (patternVariable? p) (nodeLabels p) (patternKeys p) := by
  rw [eventOf, hp]

theorem eventOf_relationship (hp : p.rule = .relationshipPattern) : eventOf p = edgeOf p := by
  rw [eventOf, hp]

theorem eventsOf_isPattern (inExpression : Bool) (hp : p.rule.isPattern = true) :
    eventsOf inExpression p = [eventOf p] := by
  obtain ⟨r, i, cs, ts⟩ := p
  cases r <;> first | rfl | cases hp

theorem eventsOfAll_isPattern (inExpression : Bool) (hts : ∀ t ∈ ts, t.rule.isPattern = true) :
    eventsOfAll inExpression ts = ts.map eventOf := by
  induction ts with
  | nil => rfl
  | cons t ts ih =>
    rw [eventsOfAll, eventsOf_isPattern inExpression (hts t (by simp)), ih fun u hu => hts u (by simp [hu])]
    rfl

theorem rule_of_isTurned (h : isTurned t u = true) : u.rule = t.rule ∧ t.rule.isPattern = true := by
  by_cases hnode : t.rule = .nodePattern
  · have hcopy := similar_of_isCopy t u (by simpa [isTurned, hnode] using h)
    exact ⟨hcopy.rule_eq, by rw [hnode]; rfl⟩
  · have hrule : t.rule = .relationshipPattern := by
      simp only [isTurned] at h
      split at h <;> simp_all
    exact ⟨(of_isTurned hrule h).1.trans hrule.symm, by rw [hrule]; rfl⟩

/-- **A part seen from the other side is met as the same event**, turned. -/
theorem eventOf_turned (hgrows : grammar.Grows source t) (h : isTurned t u = true) :
    eventOf u = (eventOf t).turned := by
  obtain ⟨hrule, hpattern⟩ := rule_of_isTurned h
  cases hr : t.rule with
  | nodePattern =>
    have hcopy : Similar (· = ·) t u := similar_of_isCopy t u (by simpa [isTurned, hr] using h)
    have hsame := (copies_correspond source).nodeOf ⟨hgrows, hcopy⟩
    rw [eventOf_node (hrule.trans hr), eventOf_node hr, hsame, Event.renamed, Option.map_id, id]
    rfl
  | relationshipPattern =>
    rw [eventOf_relationship (hrule.trans hr), eventOf_relationship hr, edgeOf_turned hgrows hr h]
  | _ =>
    rw [hr] at hpattern
    cases hpattern

/-! ## What an event adds -/

/-- The attributes of the parts of a path, where every node has a label. -/
def Event.ownAttributes : Event → List String
  | .node _ labels keys => keys.map (ownedAttribute (labels.head?.getD ""))
  | .edge _ kind _ keys => keys.map (ownedAttribute kind)
  | _ => []

/-- The event is a part of a path that needs no other part to name its label. -/
def Event.isSelfLabelled : Event → Bool
  | .node _ labels _ => !labels.isEmpty
  | .edge .. => true
  | _ => false

section Adds

variable {w : Walk} {e : Event} {events : List Event} {x : String}

theorem Walk.mem_attributes_meet (he : e.isSelfLabelled = true) :
    x ∈ (w.meet e).attributes ↔ x ∈ w.attributes ∨ x ∈ e.ownAttributes := by
  cases e with
  | node name labels keys =>
    cases labels with
    | nil => cases he
    | cons label rest => exact SortedSet.mem_foldl_insert _ _
  | edge name kind arrow keys => exact SortedSet.mem_foldl_insert _ _
  | _ => cases he

/-- **Parts with labels of their own add the same attributes** wherever they stand. -/
theorem Walk.mem_attributes_meetAll (h : ∀ e ∈ events, e.isSelfLabelled = true) :
    x ∈ (w.meetAll events).attributes ↔ x ∈ w.attributes ∨ x ∈ events.flatMap Event.ownAttributes := by
  induction events generalizing w with
  | nil => simp [Walk.meetAll]
  | cons e events ih =>
    rw [Walk.meetAll, List.foldl_cons, ← Walk.meetAll, ih fun e he => h e (by simp [he]),
      Walk.mem_attributes_meet (h e (by simp)), List.flatMap_cons, List.mem_append, or_assoc]

theorem Walk.bindings_meetAll (w : Walk) (events : List Event) :
    (w.meetAll events).bindings = events.reverse.flatMap Event.bindings ++ w.bindings := by
  induction events generalizing w with
  | nil => rfl
  | cons e events ih =>
    rw [Walk.meetAll, List.foldl_cons, ← Walk.meetAll, ih, Walk.bindings_meet]
    simp

end Adds

/-- The same pairs in another order say the same of each key, if no key is paired twice. -/
theorem lookup_eq_of_perm {xs ys : List (String × String)} (h : xs.Perm ys) (hkeys : (xs.map Prod.fst).Nodup)
    (v : String) : xs.lookup v = ys.lookup v := by
  induction h with
  | nil => rfl
  | cons p _ ih =>
    rw [List.lookup_cons, List.lookup_cons, ih (List.nodup_cons.mp hkeys).2]
  | swap p q xs =>
    have hne : q.1 ≠ p.1 := by
      intro heq
      simp [heq] at hkeys
    rw [List.lookup_cons, List.lookup_cons, List.lookup_cons, List.lookup_cons]
    cases hq : v == q.1 <;> cases hp : v == p.1 <;> simp_all
  | trans h _ ih ih' => exact (ih hkeys).trans (ih' ((h.map _).nodup_iff.mp hkeys))

section Turned

variable (e : Event)

theorem Event.entities_turned : e.turned.entities = e.entities := by cases e <;> rfl

theorem Event.ownAttributes_turned : e.turned.ownAttributes = e.ownAttributes := by cases e <;> rfl

theorem Event.bindings_turned : e.turned.bindings = e.bindings := by
  cases e with
  | edge name kind arrow keys => cases name <;> rfl
  | _ => rfl

theorem Event.isSelfLabelled_turned : e.turned.isSelfLabelled = e.isSelfLabelled := by cases e <;> rfl

end Turned

/-- **The same events in the opposite order, turned, add the same**, if no variable is bound twice. -/
theorem Walk.meetAll_mirrored {events : List Event} (h : ∀ e ∈ events, e.isSelfLabelled = true)
    (hkeys : ((events.flatMap Event.bindings).map Prod.fst).Nodup) :
    let w := ({} : Walk).meetAll events
    let w' := ({} : Walk).meetAll (events.reverse.map Event.turned)
    w'.entities = w.entities ∧ w'.attributes = w.attributes ∧ ∀ v, w'.labelOf? v = w.labelOf? v := by
  have hback : ∀ e ∈ events.reverse.map Event.turned, e.isSelfLabelled = true := by
    intro e he
    obtain ⟨e, hmem, rfl⟩ := List.mem_map.mp he
    rw [Event.isSelfLabelled_turned]
    exact h e (List.mem_reverse.mp hmem)
  refine ⟨SortedSet.ext fun x => ?_, SortedSet.ext fun x => ?_, fun v => ?_⟩
  · rw [mem_entities_meetAll, mem_entities_meetAll, List.flatMap_map]
    simp [Event.entities_turned]
  · rw [mem_attributes_meetAll hback, mem_attributes_meetAll h, List.flatMap_map]
    simp [Event.ownAttributes_turned]
  · rw [labelOf?, labelOf?, bindings_meetAll, bindings_meetAll, ← List.map_reverse, List.reverse_reverse,
      List.flatMap_map]
    simp only [Event.bindings_turned, List.append_nil]
    exact lookup_eq_of_perm ((List.reverse_perm events).symm.flatMap_right _) hkeys v

/-! ## The walks along both -/

/-- The relationship has exactly one arrow head. -/
def hasOneHead (r : Tree Rule) : Bool := (childOf? .leftArrow r).isSome != (childOf? .rightArrow r).isSome

theorem relationOf_turned {kind left right : String} {arrow : Arrow} (h : arrow ≠ .either) :
    Walk.relationOf ⟨kind, arrow.turned⟩ left right = Walk.relationOf ⟨kind, arrow⟩ right left := by
  cases arrow with
  | either => exact absurd rfl h
  | _ => rfl

theorem arrowOf_ne_either (h : hasOneHead t = true) : arrowOf t ≠ .either := by
  rw [hasOneHead] at h
  rw [arrowOf]
  cases hl : (childOf? .leftArrow t).isSome <;> cases hr : (childOf? .rightArrow t).isSome <;>
    simp [hl, hr] at h ⊢

/-- **A relationship seen from the other side is the same relation.** -/
theorem relationBetween_turned (hgrows : grammar.Grows source t) (hrule : t.rule = .relationshipPattern)
    (h : isTurned t u = true) (hhead : hasOneHead t = true) (ends : String × String) :
    relationBetween u ends = relationBetween t ends.swap := by
  have harrow := (of_isTurned hrule h).2.1
  have hedge := edgeOf_turned hgrows hrule h
  rw [edgeOf_eq, edgeOf_eq] at hedge
  have hkind : kindOf u = kindOf t := (Event.edge.inj hedge).2.1
  obtain ⟨a, b⟩ := ends
  rw [Prod.swap_prod_mk, ← relationOf_eq, ← relationOf_eq, hkind, harrow]
  exact relationOf_turned (arrowOf_ne_either hhead)

theorem zip_tail_concat (xs : List String) (a b : String) :
    (xs ++ [a, b]).zip (xs ++ [a, b]).tail = (xs ++ [a]).zip (xs ++ [a]).tail ++ [(a, b)] := by
  induction xs with
  | nil => rfl
  | cons x xs ih =>
    cases xs with
    | nil => rfl
    | cons y xs => simpa using ih

/-- The ends of each edge, met from the other side. -/
theorem reverse_ends (labels : List String) :
    (labels.zip labels.tail).reverse = (labels.reverse.zip labels.reverse.tail).map Prod.swap := by
  induction labels with
  | nil => rfl
  | cons a labels ih =>
    cases labels with
    | nil => rfl
    | cons b rest =>
      have hlast := zip_tail_concat rest.reverse b a
      simp only [List.tail_cons, List.zip_cons_cons, List.reverse_cons, List.append_assoc, List.cons_append,
        List.nil_append] at ih ⊢
      rw [ih, hlast, List.map_append]
      rfl

theorem zipWith_eq_of_forall₂ {α β γ : Type} {R : α → α → Prop} {f g : α → β → γ} {xs ys : List α}
    (h : List.Forall₂ R xs ys) (hfg : ∀ x ∈ xs, ∀ y, R x y → ∀ b, g y b = f x b) (bs : List β) :
    ys.zipWith g bs = xs.zipWith f bs := by
  induction h generalizing bs with
  | nil => rfl
  | cons hone _ ih =>
    cases bs with
    | nil => rfl
    | cons b bs =>
      rw [List.zipWith_cons_cons, List.zipWith_cons_cons, hfg _ (by simp) _ hone b,
        ih fun x hx => hfg x (by simp [hx])]

theorem isPattern_of_turned (h : List.Forall₂ (fun t u => isTurned t u = true) ts us) :
    (∀ t ∈ ts, t.rule.isPattern = true) ∧ ∀ u ∈ us, u.rule.isPattern = true := by
  induction h with
  | nil => simp
  | cons hone _ ih =>
    obtain ⟨hrule, hpattern⟩ := rule_of_isTurned hone
    simp only [List.forall_mem_cons]
    exact ⟨⟨hpattern, ih.1⟩, by rw [hrule]; exact hpattern, ih.2⟩

section Walks

variable (hgrows : grammar.Grows source path) (hmirror : Mirrors path path')
include hgrows hmirror

theorem Mirrors.paired :
    List.Forall₂ (fun t u => grammar.Grows source t ∧ isTurned t u = true) path.children.reverse
      path'.children := by
  obtain ⟨-, -, hparts⟩ := hmirror
  have hgrown : ∀ t ∈ path.children.reverse, grammar.Grows source t := by
    obtain ⟨r, i, cs, ts⟩ := path
    exact fun t ht => hgrows.parts t (List.mem_reverse.mp ht)
  exact (List.forall₂_and_left _ _).mpr ⟨hgrown, hparts⟩

/-- The parts of one rule come in opposite orders too. -/
theorem Mirrors.paired_of_rule (r : Rule) :
    List.Forall₂ (fun t u => grammar.Grows source t ∧ isTurned t u = true) (childrenOf r path).reverse
      (childrenOf r path') := by
  have hfiltered := filter_of_forall₂ (fun t u h => (rule_of_isTurned h.2).1) r (hmirror.paired hgrows)
  rwa [List.filter_reverse] at hfiltered

/-- The events of the one are those of the other in the opposite order, turned. -/
theorem Mirrors.events :
    path'.children.map eventOf = (path.children.map eventOf).reverse.map Event.turned := by
  rw [← List.map_reverse, List.map_map]
  exact map_eq_of_forall₂ (hmirror.paired hgrows) fun t _ u h => eventOf_turned h.1 h.2

/-- The labels of the nodes come in the opposite order, where each has one. -/
theorem labels_mirrored (hlabels : ∀ n ∈ childrenOf .nodePattern path, nodeLabels n ≠ []) :
    (childrenOf .nodePattern path').map (labelIn path') =
      ((childrenOf .nodePattern path).map (labelIn path)).reverse := by
  rw [← List.map_reverse]
  refine map_eq_of_forall₂ (hmirror.paired_of_rule hgrows .nodePattern) ?_
  rintro n hn n' ⟨hpart, hturned⟩
  have hmem := List.mem_reverse.mp hn
  have hrule := rule_of_mem_childrenOf hmem
  have hevent := eventOf_turned hpart hturned
  rw [eventOf_node hrule, eventOf_node ((rule_of_isTurned hturned).1.trans hrule)] at hevent
  have hnode : nodeLabels n' = nodeLabels n := (Event.node.inj hevent).2.1
  rw [labelIn, labelIn, hnode]
  cases hlabel : nodeLabels n with
  | nil => exact absurd hlabel (hlabels n hmem)
  | cons label rest => rfl

/-- **The relations along a path are those of the mirrored path in the opposite order.** -/
theorem relationsAlong_mirrored (hpath : IsPath path)
    (hlabels : ∀ n ∈ childrenOf .nodePattern path, nodeLabels n ≠ [])
    (hheads : ∀ r ∈ childrenOf .relationshipPattern path, hasOneHead r = true) :
    relationsAlong path' path' = (relationsAlong path path).reverse := by
  simp only [relationsAlong]
  have hlength : (childrenOf .relationshipPattern path).length =
      (((childrenOf .nodePattern path).map (labelIn path)).zip
        ((childrenOf .nodePattern path).map (labelIn path)).tail).length := by
    obtain ⟨n, rest, hparts, hn, hrest⟩ := hpath
    simp [childrenOf, hparts, hn, hrest.length_eq]
  rw [List.reverse_zipWith hlength, reverse_ends, labels_mirrored hgrows hmirror hlabels,
    List.zipWith_map_right]
  refine zipWith_eq_of_forall₂ (hmirror.paired_of_rule hgrows .relationshipPattern) ?_ _
  rintro r hr r' ⟨hpart, hturned⟩ ends
  have hmem := List.mem_reverse.mp hr
  exact relationBetween_turned hpart (rule_of_mem_childrenOf hmem) hturned (hheads r hmem) ends

end Walks

/-- A path whose parts are patterns is no path in parentheses. -/
theorem isPath_of_patterns (hgrows : grammar.Grows source path) (hr : path.rule.isPath = true)
    (hparts : ∀ t ∈ path.children, t.rule.isPattern = true) : IsPath path := by
  obtain ⟨r, i, cs, ts⟩ := path
  rcases alternates_of_grows hgrows hr with hsteps | ⟨t, rfl, ht⟩
  · exact hsteps
  · have hpattern := hparts t List.mem_cons_self
    rw [ht] at hpattern
    cases hpattern

/-- What the walk along a path comes to: its events, and its relations. -/
theorem walk_along (inExpression : Bool) (hgrows : grammar.Grows source path) (hr : path.rule.isPath = true)
    (hparts : ∀ t ∈ path.children, t.rule.isPattern = true) :
    (({} : Walk).meetAll (path.children.map eventOf)).Agrees (walk inExpression path {}) ∧
      (walk inExpression path {}).relations = relationsAlong path path := by
  have hpath := isPath_of_patterns hgrows hr hparts
  obtain ⟨r, i, cs, ts⟩ := path
  replace hr : r.isPath = true := hr
  have hevents : eventsOf inExpression (.node r i cs ts) = .path :: ts.map eventOf := by
    have hall : eventsOfAll inExpression ts = ts.map eventOf := eventsOfAll_isPattern inExpression hparts
    rw [← hall]
    cases r <;> first | rfl | cases hr
  have hpatterns : patternsOf (.node r i cs ts) = ts := by
    have hall := (of_isPattern_all hgrows.parts hparts).1
    cases r <;> first | exact hall | cases hr
  refine ⟨?_, ?_⟩
  · have hagrees := walk_agrees inExpression (.node r i cs ts) {} {} (.refl _)
    rwa [hevents] at hagrees
  · obtain ⟨n, rest, rfl, hn, hrest⟩ := hpath
    have hsplit : patternsOf (.node r i cs (n :: rest)) = [] ++ (n :: rest ++ []) := by simpa using hpatterns
    have hpassed : (walk inExpression (.node r i cs (n :: rest)) {}).passed = _ :=
      walk_path inExpression hr hn hrest (ascending_of_grows hgrows) hsplit rfl
    simpa using (Prod.mk.inj hpassed).2

theorem isSelfLabelled_of_labelled (hparts : ∀ t ∈ path.children, t.rule.isPattern = true)
    (hlabels : ∀ n ∈ childrenOf .nodePattern path, nodeLabels n ≠ []) :
    ∀ e ∈ path.children.map eventOf, e.isSelfLabelled = true := by
  intro e he
  obtain ⟨t, ht, rfl⟩ := List.mem_map.mp he
  by_cases hnode : t.rule = .nodePattern
  · have hlabel := hlabels t (List.mem_filter.mpr ⟨ht, by simpa using hnode⟩)
    rw [eventOf_node hnode]
    simpa [Event.isSelfLabelled] using hlabel
  · have hpattern := hparts t ht
    rw [eventOf]
    split
    · contradiction
    · rw [edgeOf_eq]
      rfl

/-- A part of a path binds its own variable or none. -/
theorem bindings_eventOf (p : Tree Rule) :
    ((eventOf p).bindings.map Prod.fst).Sublist (namedVariable? p).toList := by
  rw [eventOf, namedVariable?]
  split
  · cases patternVariable? p <;> cases nodeLabels p <;> simp [Event.bindings]
  · rw [edgeOf_eq]
    cases (childOf? .relationshipDetail p).bind patternVariable? with
    | none => exact .slnil
    | some v =>
      rw [Event.bindings]
      split <;> simp

/-- Variables that are named once are bound once. -/
theorem nodup_bindings (h : (ts.filterMap namedVariable?).Nodup) :
    (((ts.map eventOf).flatMap Event.bindings).map Prod.fst).Nodup := by
  refine h.sublist ?_
  clear h
  induction ts with
  | nil => exact .slnil
  | cons t ts ih =>
    have hmore := (bindings_eventOf t).append ih
    rw [List.map_cons, List.flatMap_cons, List.map_append]
    cases hname : namedVariable? t with
    | none => simpa [List.filterMap_cons, hname] using hmore
    | some v => simpa [List.filterMap_cons, hname] using hmore

/-- **A path and the same path written from its other end say the same**: where every node has a label,
every relationship one arrow head and no variable is named twice, walks along the two find the same
entities and attributes, bind the same variables to the same labels and types, and find relations with
the same keys. -/
theorem walk_mirrored (inExpression : Bool) (hgrows : grammar.Grows source path)
    (hgrows' : grammar.Grows source' path') (hmirror : Mirrors path path')
    (hlabels : ∀ n ∈ childrenOf .nodePattern path, nodeLabels n ≠ [])
    (hheads : ∀ r ∈ childrenOf .relationshipPattern path, hasOneHead r = true)
    (hvariables : (path.children.filterMap namedVariable?).Nodup) :
    let w := walk inExpression path {}
    let w' := walk inExpression path' {}
    w'.entities = w.entities ∧ w'.attributes = w.attributes ∧ (∀ v, w'.labelOf? v = w.labelOf? v) ∧
      SortedSet.ofList (w'.relations.map Relation.toRelationKey) =
        SortedSet.ofList (w.relations.map Relation.toRelationKey) := by
  obtain ⟨hparts, hparts'⟩ := isPattern_of_turned hmirror.2.2
  obtain ⟨⟨f, p, hwalk⟩, hrelations⟩ :=
    walk_along inExpression hgrows hmirror.1 fun t ht => hparts t (List.mem_reverse.mpr ht)
  obtain ⟨⟨f', p', hwalk'⟩, hrelations'⟩ := walk_along inExpression hgrows' hmirror.2.1 hparts'
  rw [hmirror.events hgrows] at hwalk'
  have hpath := isPath_of_patterns hgrows hmirror.1 fun t ht => hparts t (List.mem_reverse.mpr ht)
  have hreversed := relationsAlong_mirrored hgrows hmirror hpath hlabels hheads
  obtain ⟨hentities, hattributes, hbindings⟩ := Walk.meetAll_mirrored
    (isSelfLabelled_of_labelled (fun t ht => hparts t (List.mem_reverse.mpr ht)) hlabels)
    (nodup_bindings hvariables)
  refine ⟨?_, ?_, fun v => ?_, ?_⟩
  · simp only [hwalk, hwalk']
    exact hentities
  · simp only [hwalk, hwalk']
    exact hattributes
  · simp only [hwalk, hwalk']
    exact hbindings v
  · simp only [hrelations', hrelations, hreversed]
    refine SortedSet.ext fun key => ?_
    simp [SortedSet.mem_ofList]

/-- A path of two edges, written from one end. -/
def teamPath : String :=
  "MATCH (a:Driver)<-[w:DROVE {since: 1}]-(b:Team {name: 2})-[:BASED]->(:City) RETURN a"

/-- The same path from the other end. -/
def cityPath : String :=
  "MATCH (:City)<-[:BASED]-(b:Team {name: 2})-[w:DROVE {since: 1}]->(a:Driver) RETURN a"

/-- The path of a query. -/
def firstPath? (tree : Tree Rule) : Option (Tree Rule) :=
  tree.nodes.find? fun n => n.rule = .patternElement

theorem walk_mirrored_teamPath : ∃ tree tree' path path', parse teamPath.toList = .ok tree ∧
    parse cityPath.toList = .ok tree' ∧ path ∈ tree.nodes ∧ path' ∈ tree'.nodes ∧
    Mirrors path path' ∧
    (∀ n ∈ childrenOf .nodePattern path, nodeLabels n ≠ []) ∧
    (∀ r ∈ childrenOf .relationshipPattern path, hasOneHead r = true) ∧
    (path.children.filterMap namedVariable?).Nodup ∧
    (walk false path {}).attributes.toList = ["drove,since", "team,name"] ∧
    (walk false path' {}).attributes = (walk false path {}).attributes ∧
    SortedSet.ofList ((walk false path' {}).relations.map Relation.toRelationKey) =
      SortedSet.ofList ((walk false path {}).relations.map Relation.toRelationKey) := by
  obtain ⟨tree, hparse, hread⟩ := exists_tree_of_any teamPath.toList (fun tree =>
    (parse cityPath.toList).toOption.any fun tree' => decide (∃ path ∈ firstPath? tree,
      ∃ path' ∈ firstPath? tree', Mirrors path path' ∧
        (∀ n ∈ childrenOf .nodePattern path, nodeLabels n ≠ []) ∧
        (∀ r ∈ childrenOf .relationshipPattern path, hasOneHead r = true) ∧
        (path.children.filterMap namedVariable?).Nodup ∧
        (walk false path {}).attributes.toList = ["drove,since", "team,name"])) (by decide +kernel)
  cases hparse' : parse cityPath.toList with
  | error failure => simp [hparse', Except.toOption] at hread
  | ok tree' =>
    rw [hparse', Except.toOption, Option.any_some] at hread
    obtain ⟨path, hpath, path', hpath', hmirror, hlabels, hheads, hvariables, hkeys⟩ :=
      of_decide_eq_true hread
    have hmem := List.mem_of_find?_eq_some hpath
    have hmem' := List.mem_of_find?_eq_some hpath'
    obtain ⟨-, hattributes, -, hrelations⟩ := walk_mirrored false ((grows_of_parse hparse).of_mem_nodes hmem)
      ((grows_of_parse hparse').of_mem_nodes hmem') hmirror hlabels hheads hvariables
    exact ⟨tree, tree', path, path', hparse, rfl, hmem, hmem', hmirror, hlabels, hheads, hvariables, hkeys,
      hattributes, hrelations⟩

end QueryScore.Cypher
