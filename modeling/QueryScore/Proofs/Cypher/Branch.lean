/-
# QueryScore.Proofs.Cypher.Branch -- what is found in the branches of a union

One walk passes through both queries of a union, so the second one is read with the variables bound
that the first one has bound. All else is found in each query alone: the walk finds what it finds in
the first one, and then what it finds in the second one if these variables are bound before
(`Walk.Joins`). Bindings matter to the variables only that a query asks for before it binds them
itself (`freeVariables`). If none of them is bound in the first query, the structures are joined
(`extract_union`).
-/

import QueryScore.Proofs.Cypher.SimilarWalk
import QueryScore.Proofs.Cypher.Union

namespace QueryScore.Cypher

open Text Grammar Peg

variable {source : List Char} {t : Tree Rule} {u v w : Walk} {e : Event} {events xs ys : List Event}

/-! ## Joined sets -/

section Sets

variable {α : Type} [Ord α] [Std.TransOrd α] [Std.LawfulEqOrd α]

theorem union_foldl_insert (s t : SortedSet α) (as : List α) :
    as.foldl (fun found a => found.insert a) (s.union t) =
      s.union (as.foldl (fun found a => found.insert a) t) :=
  SortedSet.ext fun x => by
    simp only [SortedSet.mem_foldl_insert, SortedSet.mem_union, or_assoc]

end Sets

/-! ## One walk behind another -/

/-- **`u.Joins w v`** -- what `u` has found is what `w` has found and then what `v` has found, and `u`
goes on with the variables of `v`. -/
structure Walk.Joins (u w v : Walk) : Prop where
  bindings : u.bindings = v.bindings
  entities : u.entities = w.entities.union v.entities
  attributes : u.attributes = w.attributes.union v.attributes
  relations : u.relations = w.relations ++ v.relations

/-- Both walks stand at the same place of a path. -/
def Walk.SamePlace (u v : Walk) : Prop := u.pending = v.pending ∧ u.left = v.left

/-- The event is part of a path. -/
def Event.isOnPath : Event → Bool
  | .node .. | .edge .. => true
  | _ => false

/-- Nodes and relationships come behind the beginning of a path. -/
def isHeaded : List Event → Bool
  | [] => true
  | .path :: _ => true
  | e :: events => !e.isOnPath && isHeaded events

namespace Walk

theorem bindings_meet (w : Walk) (e : Event) : (w.meet e).bindings = e.bindings ++ w.bindings := by
  cases e <;> rfl

theorem Joins.labelOf? (h : u.Joins w v) (name : String) : u.labelOf? name = v.labelOf? name :=
  congrArg (List.lookup name) h.bindings

theorem Joins.labelAt (h : u.Joins w v) (name : Option String) (labels : List String) :
    u.labelAt name labels = v.labelAt name labels := by
  simp only [Walk.labelAt, Option.bind_congr fun a _ => h.labelOf? a]

/-- A walk that has found nothing goes on with the variables of another. -/
theorem joins_start (w : Walk) : w.Joins w { bindings := w.bindings } where
  bindings := rfl
  entities := rfl
  attributes := rfl
  relations := (List.append_nil _).symm

/-- **One event** adds the same to both, if it is no part of a path or both stand at the same place. -/
theorem Joins.meet (h : u.Joins w v) (hplace : e.isOnPath = true → u.SamePlace v) :
    (u.meet e).Joins w (v.meet e) := by
  have hbindings : (u.meet e).bindings = (v.meet e).bindings := by
    rw [bindings_meet, bindings_meet, h.bindings]
  cases e with
  | path => exact ⟨hbindings, h.entities, h.attributes, h.relations⟩
  | node name labels keys =>
    obtain ⟨hpending, hleft⟩ := hplace rfl
    have hlabel := h.labelAt name labels
    refine ⟨hbindings, ?_, ?_, ?_⟩ <;> simp only [Walk.meet, addKeys, hlabel]
    · rw [h.entities]
      exact union_foldl_insert _ _ _
    · rw [h.attributes]
      exact union_foldl_insert _ _ _
    · rw [h.relations, hpending, hleft, List.append_assoc]
  | edge name kind arrow keys =>
    refine ⟨hbindings, h.entities, ?_, h.relations⟩
    simp only [Walk.meet, addKeys, h.attributes]
    exact union_foldl_insert _ _ _
  | lookup owner key =>
    refine ⟨hbindings, h.entities, ?_, h.relations⟩
    simp only [Walk.meet, h.labelOf?, h.attributes]
    exact union_foldl_insert _ _ _

theorem SamePlace.meet (h : u.SamePlace v) (hlabel : ∀ name labels, u.labelAt name labels = v.labelAt name labels)
    (e : Event) : (u.meet e).SamePlace (v.meet e) := by
  cases e with
  | path | edge => exact ⟨rfl, by simp [Walk.meet, startPath, addKeys, h.2]⟩
  | node name labels keys => exact ⟨rfl, hlabel name labels⟩
  | lookup => exact h

/-- **All events of a tree** add the same to both. -/
theorem Joins.meetAll (h : u.Joins w v) (hplace : isHeaded events = true ∨ u.SamePlace v) :
    (u.meetAll events).Joins w (v.meetAll events) := by
  induction events generalizing u v with
  | nil => exact h
  | cons e events ih =>
    have honpath : e.isOnPath = true → u.SamePlace v := fun he => by
      rcases hplace with hheaded | hsame
      · cases e <;> simp [isHeaded, Event.isOnPath] at hheaded he
      · exact hsame
    refine ih (h.meet honpath) ?_
    rcases hplace with hheaded | hsame
    · cases e with
      | path => exact .inr ⟨rfl, rfl⟩
      | _ => exact .inl ((Bool.and_eq_true _ _).mp hheaded).2
    · exact .inr (hsame.meet h.labelAt e)

end Walk

/-! ## Paths come first -/

theorem isHeaded_append (hx : isHeaded xs = true) (hy : isHeaded ys = true) : isHeaded (xs ++ ys) = true := by
  induction xs with
  | nil => exact hy
  | cons e xs ih =>
    cases e with
    | path => rfl
    | _ =>
      obtain ⟨he, hxs⟩ := (Bool.and_eq_true _ _).mp hx
      exact (Bool.and_eq_true _ _).mpr ⟨he, ih hxs⟩

theorem isHeaded_lookupsOf (t : Tree Rule) : isHeaded (lookupsOf t) = true := by
  rw [lookupsOf]
  cases lookup? t <;> rfl

mutual

/-- **The nodes and relationships that the walk meets are parts of a path**: they stand below the rules
for paths only. -/
theorem isHeaded_eventsOf (inExpression : Bool) : ∀ t : Tree Rule, grammar.Grows source t →
    t.rule.isEntered = true → isHeaded (eventsOf inExpression t) = true
  | .node r i cs ts, h, hr => by
    replace hr : r.isEntered = true := hr
    have hkind := kind_ne_silent_of_isEntered hr
    have hall (hpath : r.isPath = false) (inExpression : Bool) :=
      isHeaded_eventsOfAll inExpression ts h.parts fun n hn =>
        isEntered_of_mem_tops hr hpath _ (rule_mem_of_grows h hkind n hn).1
    cases r with
    | patternElement | patternPredicate => rfl
    | nodePattern | relationshipPattern => cases hr
    | postfixExpression =>
      refine isHeaded_append ?_ (hall rfl _)
      cases inExpression with
      | true => exact isHeaded_lookupsOf _
      | false => rfl
    | _ => exact hall rfl _

theorem isHeaded_eventsOfAll (inExpression : Bool) : ∀ ts : List (Tree Rule),
    (∀ t ∈ ts, grammar.Grows source t) → (∀ t ∈ ts, t.rule.isEntered = true) →
    isHeaded (eventsOfAll inExpression ts) = true
  | [], _, _ => rfl
  | t :: ts, h, hr => isHeaded_append
      (isHeaded_eventsOf inExpression t (h t (by simp)) (hr t (by simp)))
      (isHeaded_eventsOfAll inExpression ts (fun u hu => h u (by simp [hu])) fun u hu => hr u (by simp [hu]))

end

/-! ## Variables that are asked for -/

/-- The variables whose label an event asks for. -/
def Event.asks : Event → List String
  | .node (some name) [] _ => [name]
  | .lookup owner _ => [owner]
  | _ => []

/-- The variables that some events ask for before they bind them. -/
def askedFirst : List Event → List String
  | [] => []
  | e :: events => e.asks ++ (askedFirst events).filter fun name => !(e.bindings.map Prod.fst).contains name

/-- **`freeVariables t`** -- the variables of a query that it asks for before it binds them: in a node
pattern without a label, or to look up a property. -/
def freeVariables (t : Tree Rule) : List String := askedFirst (eventsOf false t)

namespace Walk

/-- The state in which some variables have been bound before. -/
def behind (w : Walk) (earlier : List (String × String)) : Walk :=
  { w with bindings := w.bindings ++ earlier }

variable {earlier : List (String × String)}

/-- Earlier bindings do not change what a variable means that is bound later, or not in them. -/
theorem labelOf?_behind {name : String}
    (h : earlier.lookup name = none ∨ name ∈ w.bindings.map Prod.fst) :
    (w.behind earlier).labelOf? name = w.labelOf? name := by
  rw [labelOf?, labelOf?, behind, List.lookup_append]
  rcases h with hnone | hbound
  · rw [hnone, Option.or_none]
  · obtain ⟨p, hp, rfl⟩ := List.mem_map.mp hbound
    have hsome : (w.bindings.lookup p.1).isSome = true := by
      rw [List.lookup_isSome_iff]
      exact ⟨p, hp, beq_self_eq_true _⟩
    obtain ⟨label, hlabel⟩ := Option.isSome_iff_exists.mp hsome
    rw [hlabel, Option.some_or]

/-- **Earlier bindings are of no account** to an event that asks for none of them. -/
theorem meet_behind (h : ∀ name ∈ e.asks, earlier.lookup name = none ∨ name ∈ w.bindings.map Prod.fst) :
    (w.behind earlier).meet e = (w.meet e).behind earlier := by
  cases e with
  | path => rfl
  | node name labels keys =>
    have hlabel : (w.behind earlier).labelAt name labels = w.labelAt name labels := by
      cases labels with
      | cons => rfl
      | nil =>
        cases name with
        | none => rfl
        | some name =>
          exact congrArg (Option.getD · "") (labelOf?_behind (h name (by simp [Event.asks])))
    simp only [meet, hlabel]
    simp only [behind, addKeys, List.append_assoc]
  | edge name kind arrow keys => simp only [meet, behind, addKeys, List.append_assoc]
  | lookup owner key =>
    simp only [meet, labelOf?_behind (h owner (by simp [Event.asks]))]
    rfl

theorem meetAll_behind
    (h : ∀ name ∈ askedFirst events, earlier.lookup name = none ∨ name ∈ w.bindings.map Prod.fst) :
    (w.behind earlier).meetAll events = (w.meetAll events).behind earlier := by
  induction events generalizing w with
  | nil => rfl
  | cons e events ih =>
    have hfirst : (w.behind earlier).meet e = (w.meet e).behind earlier :=
      meet_behind fun name hname => h name (List.mem_append.mpr (.inl hname))
    have hmore := ih (w := w.meet e) fun name hname => by
      by_cases hbound : name ∈ e.bindings.map Prod.fst
      · exact .inr (by simp only [bindings_meet, List.map_append, List.mem_append, hbound, true_or])
      · have hasked : name ∈ askedFirst (e :: events) := by
          refine List.mem_append.mpr (.inr (List.mem_filter.mpr ⟨hname, ?_⟩))
          simpa using hbound
        refine (h name hasked).imp_right fun hw => ?_
        rw [bindings_meet, List.map_append]
        exact List.mem_append.mpr (.inr hw)
    show ((w.behind earlier).meet e).meetAll events = _
    rw [hfirst, hmore]
    rfl

theorem entities_meetAll (h : u.entities = v.entities) (events : List Event) :
    (u.meetAll events).entities = (v.meetAll events).entities := by
  induction events generalizing u v with
  | nil => exact h
  | cons e events ih =>
    refine ih (u := u.meet e) (v := v.meet e) ?_
    cases e with
    | node name labels keys => exact congrArg (labels.foldl fun found l => found.insert l) h
    | _ => exact h

end Walk

/-! ## The tree of a union -/

mutual

theorem similar_moved (k : Nat) : ∀ t : Tree Rule, Similar Eq t (t.moved k)
  | .node _ _ _ ts => .node rfl (fun _ => rfl) (similarAll_moved k ts)

theorem similarAll_moved (k : Nat) : ∀ ts : List (Tree Rule), SimilarAll Eq ts (Tree.movedAll k ts)
  | [] => .nil
  | t :: ts => .cons (similar_moved k t) (similarAll_moved k ts)

end

/-- A blank at the end of a condition is trimmed. -/
theorem filterOf_widened {a b : Tree Rule} (h : Similar Widened a b) : filterOf b = filterOf a := by
  rw [filterOf, filterOf]
  rcases h.texts with hsame | hwider
  · rw [hsame]
  · have hwords : words (a.text ++ [' ']) = words a.text := by
      have hsplit : words (a.text ++ ' ' :: []) = words a.text ++ words [] :=
        words_append_blank_append (by decide)
      exact hsplit.trans (List.append_nil _)
    rw [hwider, Name.normalizeFragment, Name.normalizeFragment, collapse, collapse, hwords]

/-- The conditions of similar trees are the same filters, if similar conditions are. -/
theorem map_filterOf_similar {same : List Char → List Char → Prop} {a b : Tree Rule} (h : Similar same a b)
    (hsame : ∀ c d, Similar same c d → filterOf d = filterOf c) :
    (conditionsOf b).map filterOf = (conditionsOf a).map filterOf :=
  map_eq_of_forall₂ (conditionsOf_similar a b h).forall₂ fun c _ d => hsame c d

/-- The filters that a walk from the start finds. -/
theorem mem_filters_iff (f : String) : f ∈ (walkTree t).filters ↔ f ∈ (conditionsOf t).map filterOf := by
  rw [walkTree, mem_walk]
  simp [eq_comm]

/-- **`walkBehind earlier t`** -- the walk through a tree where some variables have been bound before. -/
def walkBehind (earlier : List (String × String)) (t : Tree Rule) : Walk := walk false t { bindings := earlier }

/-- **What is found in a union** is what is found in the first query and then in the second one, read
with the variables that the first one has bound. -/
theorem joins_union {ta tb tree : Tree Rule} (hb : grammar.Grows source tb)
    (hrule : tb.rule.isEntered = true)
    (hevents : eventsOf false tree = eventsOf false ta ++ eventsOf false tb) :
    (walkTree tree).Joins (walkTree ta) (walkBehind (walkTree ta).bindings tb) := by
  obtain ⟨f, p, hall⟩ := walk_agrees false tree {} {} (.refl _)
  obtain ⟨f', p', hfirst⟩ := walk_agrees false ta {} {} (.refl _)
  rw [hevents, Walk.meetAll_append] at hall
  generalize Walk.meetAll {} (eventsOf false ta) = w at hall hfirst
  obtain ⟨f'', p'', hsecond⟩ := walk_agrees false tb { bindings := w.bindings } _ (.refl _)
  have hjoins := w.joins_start.meetAll (.inl (isHeaded_eventsOf false tb hb hrule))
  rw [walkBehind, walkTree, walkTree, hall, hfirst]
  show Walk.Joins _ _ (walk false tb { bindings := w.bindings })
  rw [hsecond]
  exact ⟨hjoins.bindings, hjoins.entities, hjoins.attributes, hjoins.relations⟩

/-- **Earlier bindings change nothing** if the query asks for none of them before it binds it. -/
theorem walkBehind_found {earlier : List (String × String)} {tb : Tree Rule}
    (hfree : ∀ name ∈ freeVariables tb, earlier.lookup name = none) :
    (walkBehind earlier tb).attributes = (walkTree tb).attributes ∧
      (walkBehind earlier tb).relations = (walkTree tb).relations := by
  obtain ⟨f, p, hlater⟩ := walk_agrees false tb { bindings := earlier } _ (.refl _)
  obtain ⟨f', p', halone⟩ := walk_agrees false tb {} {} (.refl _)
  have hsame : Walk.meetAll { bindings := earlier } (eventsOf false tb) = _ :=
    Walk.meetAll_behind (w := {}) fun name hname => .inl (hfree name hname)
  rw [walkBehind, walkTree, hlater, halone, hsame]
  exact ⟨rfl, rfl⟩

/-- Labels are found whatever has been bound before. -/
theorem walkBehind_entities (earlier : List (String × String)) (tb : Tree Rule) :
    (walkBehind earlier tb).entities = (walkTree tb).entities := by
  obtain ⟨f, p, hlater⟩ := walk_agrees false tb { bindings := earlier } _ (.refl _)
  obtain ⟨f', p', halone⟩ := walk_agrees false tb {} {} (.refl _)
  rw [walkBehind, walkTree, hlater, halone]
  exact Walk.entities_meetAll (u := { bindings := earlier }) (v := {}) rfl _

/-! ## The structure of a union -/

/-- The root of a tree is the rule for whole queries. -/
theorem rule_of_parse {cs : List Char} {tree : Tree Rule} (h : parse cs = .ok tree) : tree.rule = .query := by
  obtain ⟨later, hquery⟩ := matches_of_parse h
  obtain ⟨t, hnode, hrule⟩ := nodes_of_normal (r := .query) rfl hquery
  rwa [List.singleton_inj.mp hnode]

/-- **What the walk meets in a union** is what it meets in the first query and then what it meets in
the second one, and so are the conditions. -/
theorem exists_union {cs ds : List Char} {ta tb : Tree Rule} (ha : parse cs = .ok ta) (hb : parse ds = .ok tb)
    (hsinglea : childrenOf .union ta = []) (hsingleb : childrenOf .union tb = [])
    (hbare : isCommentless .outside cs = true) (hend : lastInk cs ≠ some ';') (w : UnionWord)
    (hdepth : nesting (cs ++ (w.text ++ ds)) ≤ maxNesting) :
    ∃ tree, parse (cs ++ (w.text ++ ds)) = .ok tree ∧
      eventsOf false tree = eventsOf false ta ++ eventsOf false tb ∧
      (conditionsOf tree).map filterOf = (conditionsOf ta).map filterOf ++ (conditionsOf tb).map filterOf := by
  obtain ⟨t, s, u, t', e, k, rfl, rfl, hjoined, hsimilar, ⟨hevents, hfilters⟩, hnone, hnofilters⟩ :=
    parse_union ha hb hsinglea hsingleb hbare hend w hdepth
  have ht := (grows_of_parse ha).parts t (by simp [Tree.children])
  have hs := (grows_of_parse hb).parts s (by simp [Tree.children])
  have hmoved : (conditionsOf (s.moved k)).map filterOf = (conditionsOf s).map filterOf :=
    map_filterOf_similar (similar_moved k s) fun c d hsame => by rw [filterOf, filterOf, hsame.texts]
  refine ⟨_, hjoined, ?_, ?_⟩
  · show eventsOf false t' ++ (eventsOf false u ++ (eventsOf false (s.moved k) ++ (eventsOf false e ++ []))) =
      eventsOf false t ++ [] ++ (eventsOf false s ++ [])
    rw [hevents, hnone, eventsOf_similar ht hsimilar, eventsOf_similar hs (similar_moved k s)]
    simp
  · show (conditionsOf t' ++ (conditionsOf u ++ (conditionsOf (s.moved k) ++ (conditionsOf e ++ [])))).map
      filterOf = (conditionsOf t ++ []).map filterOf ++ (conditionsOf s ++ []).map filterOf
    rw [hfilters, hnofilters]
    simp only [List.map_append, hmoved, map_filterOf_similar hsimilar fun _ _ => filterOf_widened]
    simp

/-- A query that binds a variable, and one that uses the same variable with a label of its own. -/
def ownersQuery : String := "MATCH (n:P) WHERE n.x = 1 RETURN n.x"

/-- A query with a label of its own for the variable. -/
def carsQuery : String := "MATCH (n:Q)-[:R]->(m) WHERE n.y = 2 RETURN m.z, n.z"

/-- The word `CASE` in a string, more than half as often as a query may have it. -/
def casesQuery : String :=
  String.ofList ("MATCH (n:P) RETURN '".toList ++ (List.replicate 21 " CASE".toList).flatten ++ "'".toList)

theorem toList_casesQuery : casesQuery.toList =
    "MATCH (n:P) RETURN '".toList ++ (List.replicate 21 " CASE".toList).flatten ++ "'".toList :=
  String.toList_ofList

end QueryScore.Cypher
