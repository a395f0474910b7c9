/-
# QueryScore.Proofs.Cypher.Event -- what the walk meets

The walk through a tree does one thing after the other: a path begins, a node or a relationship is
met with its names, a property of a variable is looked up. The tree says in which order
(`eventsOf`), and the state after the walk is the state after these events, but for the texts of
conditions and projections (`walk_agrees`). Names stand in tokens, so trees whose tokens correspond
have the same events, with their variables renamed if those of the tokens are
(`Corresponds.eventsOf`).
-/

import Mathlib.Data.List.Forall2
import QueryScore.Proofs.Cypher.Path

namespace QueryScore.Cypher

open Grammar Peg

variable {source : List Char} {t u : Tree Rule} {ts us : List (Tree Rule)} {w w' : Walk}

/-! ## Events -/

/-- The variable and the key of a property look-up, if the tree is one. -/
def lookup? (t : Tree Rule) : Option (String × String) :=
  match t.children with
  | atom :: lookup :: _ =>
    if lookup.rule = .propertyLookup then
      atom.children.head?.bind fun owner => lookup.children.head?.bind fun key =>
        if owner.rule = .variable then some (variableName owner, nameOf key) else none
    else none
  | _ => none

/-- What the walk meets. -/
inductive Event where
  /-- A path begins. -/
  | path
  /-- A node pattern: its variable, its labels and the keys of its properties. -/
  | node (name : Option String) (labels keys : List String)
  /-- A relationship pattern: its variable, its type, where it points and the keys of its
  properties. -/
  | edge (name : Option String) (kind : String) (arrow : Arrow) (keys : List String)
  /-- A property of a variable is looked up. -/
  | lookup (owner key : String)

/-- The event of a relationship pattern. -/
def edgeOf (t : Tree Rule) : Event :=
  match childOf? .relationshipDetail t with
  | none => .edge none "" (arrowOf t) []
  | some detail =>
    .edge (patternVariable? detail) (relationshipKind detail) (arrowOf t) (patternKeys detail)

/-- The event of a property look-up, if the tree is one. -/
def lookupsOf (t : Tree Rule) : List Event :=
  (lookup? t).toList.map fun found => .lookup found.1 found.2

mutual

/-- **`eventsOf inExpression t`** -- what the walk through a tree meets, in its order. -/
def eventsOf (inExpression : Bool) : Tree Rule → List Event
  | .node r i cs ts =>
    match r with
    | .patternElement | .patternPredicate => .path :: eventsOfAll inExpression ts
    | .nodePattern =>
      let t := .node r i cs ts
      [.node (patternVariable? t) (nodeLabels t) (patternKeys t)]
    | .relationshipPattern => [edgeOf (.node r i cs ts)]
    | .whereClause | .withClause | .returnClause => eventsOfAll true ts
    | .postfixExpression =>
      (if inExpression then lookupsOf (.node r i cs ts) else []) ++ eventsOfAll inExpression ts
    | _ => eventsOfAll inExpression ts

/-- What the walk through several trees meets. -/
def eventsOfAll (inExpression : Bool) : List (Tree Rule) → List Event
  | [] => []
  | t :: ts => eventsOf inExpression t ++ eventsOfAll inExpression ts

end

/-- What an event binds: a variable to the first label of its node, or to the type of its
relationship. -/
def Event.bindings : Event → List (String × String)
  | .node (some v) (label :: _) _ => [(v, label)]
  | .edge (some v) kind _ _ => if kind.isEmpty then [] else [(v, kind)]
  | _ => []

/-- The label of a node with a variable and labels. -/
def Walk.labelAt (w : Walk) (name : Option String) (labels : List String) : String :=
  labels.head?.getD ((name.bind w.labelOf?).getD "")

/-- The state after an event. -/
def Walk.meet (w : Walk) (e : Event) : Walk :=
  let bound := { w with bindings := e.bindings ++ w.bindings }
  match e with
  | .path => w.startPath
  | .node name labels keys =>
    let label := w.labelAt name labels
    { bound.addKeys label keys with
      entities := labels.foldl (fun found l => found.insert l) w.entities
      pending := none, left := label
      relations := w.relations ++ w.pending.toList.map fun edge => relationOf edge w.left label }
  | .edge _ kind arrow keys => { bound.addKeys kind keys with pending := some ⟨kind, arrow⟩ }
  | .lookup owner key =>
    let owned := (w.labelOf? owner).toList.map (· ++ "," ++ key)
    { w with attributes := owned.foldl (fun found key => found.insert key) w.attributes }

/-- The state after some events. -/
def Walk.meetAll (w : Walk) (events : List Event) : Walk := events.foldl Walk.meet w

theorem Walk.meetAll_append (w : Walk) (xs ys : List Event) :
    w.meetAll (xs ++ ys) = (w.meetAll xs).meetAll ys :=
  List.foldl_append

/-! ## The walk meets the events -/

namespace Walk

theorem visitNode_eq (w : Walk) (t : Tree Rule) :
    w.visitNode t = w.meet (.node (patternVariable? t) (nodeLabels t) (patternKeys t)) := by
  rw [visitNode, nodeLabel, bindNode, meet, reachNode]
  cases nodeLabels t <;> cases patternVariable? t <;> cases hpending : w.pending <;>
    simp [addKeys, bind, labelAt, Event.bindings, hpending]

theorem visitRelationship_eq (w : Walk) (t : Tree Rule) : w.visitRelationship t = w.meet (edgeOf t) := by
  rw [visitRelationship, edgeOf]
  cases childOf? .relationshipDetail t with
  | none => rfl
  | some detail =>
    simp only [meet, Event.bindings]
    cases patternVariable? detail <;> by_cases hkind : (relationshipKind detail).isEmpty = true <;>
      simp [addKeys, bind, hkind]

theorem visitLookup_eq (w : Walk) (t : Tree Rule) : w.visitLookup t = w.meetAll (lookupsOf t) := by
  rw [visitLookup, lookupsOf, lookup?]
  rcases t.children with _ | ⟨atom, _ | ⟨lookup, rest⟩⟩
  · rfl
  · rfl
  by_cases hrule : lookup.rule = .propertyLookup
  · simp only [hrule, if_true]
    cases atom.children.head? with
    | none => rfl
    | some owner =>
      cases lookup.children.head? with
      | none => rfl
      | some key =>
        simp only [Option.bind_some]
        split
        · cases hlabel : w.labelOf? (variableName owner) <;>
            simp [meetAll, meet, hlabel]
        · rfl
  · simp only [if_neg hrule]
    split
    · rename_i hfound _ _
      exact absurd hfound hrule
    · rfl

/-- The state with other texts of conditions and projections. -/
def retext (w : Walk) (f : SortedSet String) (p : List (List Char)) : Walk :=
  { w with filters := f, projections := p }

/-- **`w.Agrees w'`** -- the states differ in the texts of conditions and projections only. -/
def Agrees (w w' : Walk) : Prop := ∃ f p, w' = w.retext f p

theorem Agrees.refl (w : Walk) : w.Agrees w := ⟨w.filters, w.projections, rfl⟩

/-- Two states that agree with a third agree. -/
theorem Agrees.join {v : Walk} (h : v.Agrees w) (h' : v.Agrees w') : w.Agrees w' := by
  obtain ⟨f, p, rfl⟩ := h
  obtain ⟨f', p', rfl⟩ := h'
  exact ⟨f', p', rfl⟩

theorem meet_retext (e : Event) (f : SortedSet String) (p : List (List Char)) :
    (w.retext f p).meet e = (w.meet e).retext f p := by
  cases e <;> rfl

theorem Agrees.meet (h : w.Agrees w') (e : Event) : (w.meet e).Agrees (w'.meet e) := by
  obtain ⟨f, p, rfl⟩ := h
  exact ⟨f, p, meet_retext e f p⟩

theorem Agrees.meetAll (h : w.Agrees w') (events : List Event) :
    (w.meetAll events).Agrees (w'.meetAll events) := by
  induction events generalizing w w' with
  | nil => exact h
  | cons e events ih => exact ih (h.meet e)

theorem Agrees.visitCondition (h : w.Agrees w') : w.Agrees (w'.visitCondition t) := by
  obtain ⟨f, p, rfl⟩ := h
  rw [Walk.visitCondition]
  cases childOf? .expression t <;> exact ⟨_, p, rfl⟩

theorem Agrees.visitProjection (h : w.Agrees w') : w.Agrees (w'.visitProjection t) := by
  obtain ⟨f, p, rfl⟩ := h
  exact ⟨f, _, rfl⟩

end Walk

mutual

/-- **The walk through a tree does what its events do**, but for the texts of conditions and
projections. -/
theorem walk_agrees (inExpression : Bool) : ∀ (t : Tree Rule) (w w' : Walk), w.Agrees w' →
    (w.meetAll (eventsOf inExpression t)).Agrees (walk inExpression t w')
  | .node r i cs ts, w, w', hw => by
    have hall (inExpression : Bool) (w w' : Walk) (hw : w.Agrees w') :=
      walkAll_agrees inExpression ts w w' hw
    cases r with
    | patternElement | patternPredicate => exact hall _ _ _ (hw.meet .path)
    | nodePattern =>
      rw [walk, Walk.visitNode_eq]
      exact hw.meet _
    | relationshipPattern =>
      rw [walk, Walk.visitRelationship_eq]
      exact hw.meet _
    | whereClause => exact hall _ _ _ hw.visitCondition
    | projectionItems => exact hall _ _ _ hw.visitProjection
    | postfixExpression =>
      cases inExpression with
      | true =>
        show (w.meetAll (lookupsOf _ ++ _)).Agrees (walkAll true ts (w'.visitLookup _))
        rw [Walk.meetAll_append, Walk.visitLookup_eq]
        exact hall _ _ _ (hw.meetAll _)
      | false => exact hall _ _ _ hw
    | _ => exact hall _ _ _ hw

theorem walkAll_agrees (inExpression : Bool) : ∀ (ts : List (Tree Rule)) (w w' : Walk), w.Agrees w' →
    (w.meetAll (eventsOfAll inExpression ts)).Agrees (walkAll inExpression ts w')
  | [], _, _, hw => hw
  | t :: ts, w, w', hw => by
    rw [eventsOfAll, Walk.meetAll_append]
    exact walkAll_agrees inExpression ts _ _ (walk_agrees inExpression t w w' hw)

end

/-! ## Trees whose tokens correspond -/

/-- The event with its variables renamed. -/
def Event.renamed (f : String → String) : Event → Event
  | .path => .path
  | .node name labels keys => .node (name.map f) labels keys
  | .edge name kind arrow keys => .edge (name.map f) kind arrow keys
  | .lookup owner key => .lookup (f owner) key

/-- **`Corresponds source f R`** -- the relation pairs parts of a tree that was read with trees of
the same rules, whose tokens have the same texts, but for variables, which are renamed. -/
structure Corresponds (source : List Char) (f : String → String)
    (R : Tree Rule → Tree Rule → Prop) : Prop where
  grows {t u : Tree Rule} : R t u → grammar.Grows source t
  rule {t u : Tree Rule} : R t u → u.rule = t.rule
  parts {t u : Tree Rule} : R t u → List.Forall₂ R t.children u.children
  token {t u : Tree Rule} : R t u → t.rule.kind = .atomic → t.rule ≠ .variable → u.text = t.text
  name {t u : Tree Rule} : R t u → t.rule = .variable → variableName u = f (variableName t)

/-- Values that are paired, and give the same if they are, give the same together. -/
theorem map_eq_of_forall₂ {α β : Type} {R : β → β → Prop} {f g : β → α} {xs ys : List β}
    (h : List.Forall₂ R xs ys) (hfg : ∀ x ∈ xs, ∀ y, R x y → g y = f x) : ys.map g = xs.map f := by
  induction h with
  | nil => rfl
  | cons hone _ ih =>
    rw [List.map_cons, List.map_cons, hfg _ (by simp) _ hone, ih fun x hx => hfg x (by simp [hx])]

theorem flatMap_eq_of_forall₂ {α : Type} {R : Tree Rule → Tree Rule → Prop} {g : Tree Rule → List α}
    (h : List.Forall₂ R ts us) (hg : ∀ t ∈ ts, ∀ u, R t u → g u = g t) :
    us.flatMap g = ts.flatMap g := by
  rw [List.flatMap_def, List.flatMap_def, map_eq_of_forall₂ h hg]

theorem head?_of_forall₂ {R : Tree Rule → Tree Rule → Prop} (h : List.Forall₂ R ts us) :
    (ts.head? = none ∧ us.head? = none) ∨ ∃ a b, ts.head? = some a ∧ us.head? = some b ∧ R a b := by
  cases h with
  | nil => exact .inl ⟨rfl, rfl⟩
  | cons hone _ => exact .inr ⟨_, _, rfl, rfl, hone⟩

theorem filter_of_forall₂ {R : Tree Rule → Tree Rule → Prop} (hrule : ∀ t u, R t u → u.rule = t.rule)
    (r : Rule) (h : List.Forall₂ R ts us) :
    List.Forall₂ R (ts.filter (·.rule = r)) (us.filter (·.rule = r)) := by
  induction h with
  | nil => exact .nil
  | cons hone _ ih =>
    rw [List.filter_cons, List.filter_cons, hrule _ _ hone]
    split
    · exact .cons hone ih
    · exact ih

/-- The first part of a rule is missing in both, or paired. -/
theorem childOf?_of_forall₂ {R : Tree Rule → Tree Rule → Prop} (hrule : ∀ t u, R t u → u.rule = t.rule)
    (r : Rule) (h : List.Forall₂ R t.children u.children) :
    (childOf? r t = none ∧ childOf? r u = none) ∨
      ∃ a b, childOf? r t = some a ∧ childOf? r u = some b ∧ R a b ∧ a.rule = r := by
  have hfirst (t : Tree Rule) : childOf? r t = (childrenOf r t).head? := (List.head?_filter ..).symm
  rw [hfirst, hfirst]
  rcases head?_of_forall₂ (filter_of_forall₂ hrule r h) with hnone | ⟨a, b, ha, hb, hone⟩
  · exact .inl hnone
  · have hrule := (List.mem_filter.mp (List.mem_of_head? ha)).2
    exact .inr ⟨a, b, ha, hb, hone, by simpa using hrule⟩

theorem rule_of_mem_childrenOf {r : Rule} {n : Tree Rule} (hn : n ∈ childrenOf r t) : n.rule = r := by
  simpa using (List.mem_filter.mp hn).2

/-- The parts of labels, of types and of a look-up are names. -/
theorem isName_of_part {r : Rule} (h : grammar.Grows source t) (hrule : t.rule = r)
    (hkind : r.kind ≠ .silent)
    (hnames : (tops r.body).all (fun q => q.kind = .atomic ∧ q ≠ .variable) = true) :
    ∀ n ∈ t.children, n.rule.kind = .atomic ∧ n.rule ≠ .variable := by
  obtain ⟨r', i, cs, ts⟩ := t
  obtain rfl : r' = r := hrule
  intro n hn
  have hmem := (rule_mem_of_grows h hkind n hn).1
  simpa using List.all_eq_true.mp hnames _ hmem

/-- The first part of an entry of a map is its key. -/
theorem isName_of_key (h : grammar.Grows source t) (hrule : t.rule = .mapEntry) :
    ∀ n ∈ t.children.head?, n.rule.kind = .atomic ∧ n.rule ≠ .variable := by
  cases h with
  | @node r before cs after ts _ hread =>
    obtain rfl : r = .mapEntry := hrule
    obtain ⟨ns, hnode, hbody⟩ := hread.of_normal rfl
    obtain rfl : ts = ns := by simpa using hnode
    obtain ⟨_, _, _, _, _, _, rfl, rfl, hkey, -, -⟩ := hbody.of_loose_seq
    obtain ⟨rfl, -⟩ := hkey.of_atomic rfl
    intro n hn
    obtain rfl := Option.some.inj hn
    exact ⟨rfl, nofun⟩

namespace Corresponds

variable {f : String → String} {R : Tree Rule → Tree Rule → Prop}

theorem childrenOf (hR : Corresponds source f R) (r : Rule) (h : R t u) :
    List.Forall₂ R (childrenOf r t) (childrenOf r u) :=
  filter_of_forall₂ (fun _ _ => hR.rule) r (hR.parts h)

theorem childOf? (hR : Corresponds source f R) (r : Rule) (h : R t u) :
    (childOf? r t = none ∧ childOf? r u = none) ∨
      ∃ a b, childOf? r t = some a ∧ childOf? r u = some b ∧ R a b ∧ a.rule = r :=
  childOf?_of_forall₂ (fun _ _ => hR.rule) r (hR.parts h)

theorem nameOf (hR : Corresponds source f R) (h : R t u)
    (hname : t.rule.kind = .atomic ∧ t.rule ≠ .variable) : nameOf u = nameOf t := by
  rw [Cypher.nameOf, Cypher.nameOf, hR.token h hname.1 hname.2]

theorem patternVariable? (hR : Corresponds source f R) (h : R t u) :
    patternVariable? u = (patternVariable? t).map f := by
  rcases hR.childOf? .variable h with ⟨ht, hu⟩ | ⟨a, b, ha, hb, hone, hrule⟩
  · rw [Cypher.patternVariable?, Cypher.patternVariable?, ht, hu]
    rfl
  · simp only [Cypher.patternVariable?, ha, hb, Option.map_some, hR.name hone hrule]

theorem arrowOf (hR : Corresponds source f R) (h : R t u) : arrowOf u = arrowOf t := by
  have hsome (r : Rule) : (Cypher.childOf? r u).isSome = (Cypher.childOf? r t).isSome := by
    rcases hR.childOf? r h with ⟨ht, hu⟩ | ⟨a, b, ha, hb, -⟩
    · rw [ht, hu]
    · rw [ha, hb]
      rfl
  rw [Cypher.arrowOf, Cypher.arrowOf, hsome, hsome]

theorem nodeLabels (hR : Corresponds source f R) (h : R t u) : nodeLabels u = nodeLabels t := by
  refine flatMap_eq_of_forall₂ (hR.childrenOf .nodeLabels h) fun labels hmem labels' hlabels => ?_
  have hnames := isName_of_part (hR.grows hlabels) (rule_of_mem_childrenOf hmem) (by decide) (by decide)
  exact map_eq_of_forall₂ (hR.parts hlabels) fun label hlabel _ hone => hR.nameOf hone (hnames label hlabel)

theorem patternKeys (hR : Corresponds source f R) (h : R t u) : patternKeys u = patternKeys t := by
  rw [Cypher.patternKeys, Cypher.patternKeys, List.flatMap_assoc, List.flatMap_assoc]
  refine flatMap_eq_of_forall₂ (hR.childrenOf .properties h) fun properties _ properties' hone => ?_
  refine flatMap_eq_of_forall₂ (hR.childrenOf .mapLiteral hone) fun map hmap map' hmaps => ?_
  rw [List.filterMap_eq_flatMap_toList, List.filterMap_eq_flatMap_toList]
  refine flatMap_eq_of_forall₂ (hR.parts hmaps) fun entry hentry entry' hentries => ?_
  -- A map has entries only, and an entry begins with its key.
  have hrule : entry.rule = .mapEntry := by
    obtain ⟨r, i, cs, ts⟩ := map
    obtain rfl : r = .mapLiteral := rule_of_mem_childrenOf hmap
    have htops : ∀ q ∈ tops (Rule.body .mapLiteral), q = .mapEntry := by decide
    exact htops _ (rule_mem_of_grows (hR.grows hmaps) (by decide) entry hentry).1
  have hkey := isName_of_key (hR.grows hentries) hrule
  rcases head?_of_forall₂ (hR.parts hentries) with ⟨ht, hu⟩ | ⟨a, b, ha, hb, hone⟩
  · rw [ht, hu]
  · rw [ha, hb, Option.map_some, Option.map_some, hR.nameOf hone (hkey a ha)]

theorem relationshipKind (hR : Corresponds source f R) (h : R t u) :
    relationshipKind u = relationshipKind t := by
  rw [Cypher.relationshipKind, Cypher.relationshipKind]
  rcases hR.childOf? .relationshipTypes h with ⟨ht, hu⟩ | ⟨a, b, ha, hb, htypes, hrule⟩
  · rw [ht, hu]
  · rw [ha, hb, Option.bind_some, Option.bind_some]
    have hnames := isName_of_part (hR.grows htypes) hrule (by decide) (by decide)
    rcases head?_of_forall₂ (hR.parts htypes) with ⟨ht, hu⟩ | ⟨x, y, hx, hy, hone⟩
    · rw [ht, hu]
    · rw [hx, hy, Option.map_some, Option.map_some,
        hR.nameOf hone (hnames x (List.mem_of_head? hx))]

theorem edgeOf (hR : Corresponds source f R) (h : R t u) : edgeOf u = (edgeOf t).renamed f := by
  rw [Cypher.edgeOf, Cypher.edgeOf, hR.arrowOf h]
  rcases hR.childOf? .relationshipDetail h with ⟨ht, hu⟩ | ⟨a, b, ha, hb, hone, -⟩
  · rw [ht, hu]
    rfl
  · rw [ha, hb]
    simp only [hR.patternVariable? hone, hR.relationshipKind hone, hR.patternKeys hone, Event.renamed]

theorem lookup? (hR : Corresponds source f R) (h : R t u) :
    lookup? u = (lookup? t).map fun found => (f found.1, found.2) := by
  have hparts := hR.parts h
  rw [Cypher.lookup?, Cypher.lookup?]
  generalize t.children = ts at hparts
  generalize u.children = us at hparts
  cases hparts with
  | nil => rfl
  | @cons atom atom' _ _ hatom hmore =>
    cases hmore with
    | nil => rfl
    | @cons lookup lookup' _ _ hlookup _ =>
      simp only [hR.rule hlookup]
      split
      · rename_i hrule
        have hnames := isName_of_part (hR.grows hlookup) hrule (by decide) (by decide)
        rcases head?_of_forall₂ (hR.parts hatom) with ⟨ha, hb⟩ | ⟨owner, owner', ha, hb, howner⟩
        · rw [ha, hb]
          rfl
        rcases head?_of_forall₂ (hR.parts hlookup) with ⟨hx, hy⟩ | ⟨key, key', hx, hy, hkey⟩
        · rw [ha, hb, hx, hy]
          rfl
        have hname := hR.nameOf hkey (hnames key (List.mem_of_head? hx))
        simp only [ha, hb, hx, hy, Option.bind_some, hR.rule howner, hname]
        split
        · rename_i howned
          rw [hR.name howner howned]
          rfl
        · rfl
      · rfl

theorem lookupsOf (hR : Corresponds source f R) (h : R t u) :
    lookupsOf u = (lookupsOf t).map (Event.renamed f) := by
  rw [Cypher.lookupsOf, Cypher.lookupsOf, hR.lookup? h]
  cases Cypher.lookup? t <;> rfl

/-- The event of a node pattern. -/
theorem nodeOf (hR : Corresponds source f R) (h : R t u) :
    Event.node (Cypher.patternVariable? u) (Cypher.nodeLabels u) (Cypher.patternKeys u) =
      (Event.node (Cypher.patternVariable? t) (Cypher.nodeLabels t) (Cypher.patternKeys t)).renamed f := by
  rw [hR.patternVariable? h, hR.nodeLabels h, hR.patternKeys h, Event.renamed]

end Corresponds

mutual

/-- **The walk meets the same in a tree that corresponds**, under the new names of variables. -/
theorem eventsOf_corresponds {f : String → String} {R : Tree Rule → Tree Rule → Prop}
    (hR : Corresponds source f R) (inExpression : Bool) : ∀ t u : Tree Rule, R t u →
    eventsOf inExpression u = (eventsOf inExpression t).map (Event.renamed f)
  | .node r i cs ts, .node r' j ds us, h => by
    obtain rfl : r' = r := hR.rule h
    have hall (inExpression : Bool) := eventsOfAll_corresponds hR inExpression ts us (hR.parts h)
    cases r' with
    | patternElement | patternPredicate => exact congrArg (Event.path :: ·) (hall inExpression)
    | nodePattern => exact congrArg ([·]) (hR.nodeOf h)
    | relationshipPattern => exact congrArg ([·]) (hR.edgeOf h)
    | whereClause | withClause | returnClause => exact hall true
    | postfixExpression =>
      cases inExpression with
      | true =>
        show lookupsOf _ ++ _ = (lookupsOf _ ++ _).map _
        rw [List.map_append, hR.lookupsOf h, hall true]
      | false => exact hall false
    | _ => exact hall inExpression

theorem eventsOfAll_corresponds {f : String → String} {R : Tree Rule → Tree Rule → Prop}
    (hR : Corresponds source f R) (inExpression : Bool) : ∀ ts us : List (Tree Rule),
    List.Forall₂ R ts us →
    eventsOfAll inExpression us = (eventsOfAll inExpression ts).map (Event.renamed f)
  | [], us, h => by
    cases h
    rfl
  | t :: ts, us, h => by
    cases h with
    | @cons _ u _ us hone hmore =>
      rw [eventsOfAll, eventsOfAll, List.map_append, eventsOf_corresponds hR inExpression t u hone,
        eventsOfAll_corresponds hR inExpression ts us hmore]

end

end QueryScore.Cypher
