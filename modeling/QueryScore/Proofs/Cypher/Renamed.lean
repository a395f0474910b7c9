/-
# QueryScore.Proofs.Cypher.Renamed -- the names of variables do not count

Two trees differ in the names of variables only if they have the same rules, the same texts at their
leaves, and at each variable the other name (`Renamed`). The walks through them meet the same events
under other names, and their bindings stay the same under other names as long as no two names become
one (`Walk.meet_renamed`). So they find the same labels, attributes and relations.
-/

import Mathlib.Data.Set.Function
import QueryScore.Proofs.Cypher.Event

namespace QueryScore.Cypher

open Grammar Peg

variable {source : List Char} {f : String → String} {t u n : Tree Rule} {known : Set String} {v : String}

/-! ## Trees that differ in the names of variables -/

/-- **`Renamed f t u`** -- the trees have the same rules; their leaves have the same texts, but for
variables, whose names without quotes are mapped by `f`. -/
inductive Renamed (f : String → String) : Tree Rule → Tree Rule → Prop
  | leaf {r : Rule} {i j : Nat} {cs : List Char} : r ≠ .variable →
      Renamed f (.node r i cs []) (.node r j cs [])
  | token {i j : Nat} {cs ds : List Char} :
      String.ofList (Name.unquote ds) = f (String.ofList (Name.unquote cs)) →
      Renamed f (.node .variable i cs []) (.node .variable j ds [])
  | inner {r : Rule} {i j : Nat} {cs ds : List Char} {ts us : List (Tree Rule)} : ts ≠ [] →
      List.Forall₂ (Renamed f) ts us → Renamed f (.node r i cs ts) (.node r j ds us)

mutual

/-- Decides whether two trees differ in the names of variables only. -/
def isRenamed (f : String → String) : Tree Rule → Tree Rule → Bool
  | .node r i cs ts, .node r' j ds us =>
    r = r' && isRenamedAll f ts us && (!ts.isEmpty ||
      if r = .variable then
        variableName (.node .variable j ds us) = f (variableName (.node .variable i cs ts))
      else ds = cs)

/-- Decides it for the trees of two lists one by one. -/
def isRenamedAll (f : String → String) : List (Tree Rule) → List (Tree Rule) → Bool
  | [], [] => true
  | t :: ts, u :: us => isRenamed f t u && isRenamedAll f ts us
  | _, _ => false

end

mutual

theorem renamed_of_isRenamed : ∀ t u : Tree Rule, isRenamed f t u = true → Renamed f t u
  | .node r i cs ts, .node r' j ds us, h => by
    rw [isRenamed, Bool.and_eq_true, Bool.and_eq_true] at h
    obtain ⟨⟨hrule, hparts⟩, htexts⟩ := h
    obtain rfl := of_decide_eq_true hrule
    have hparts := renamedAll_of_isRenamedAll ts us hparts
    cases ts with
    | cons => exact .inner (List.cons_ne_nil _ _) hparts
    | nil =>
      cases hparts
      by_cases hname : r = .variable
      · obtain rfl := hname
        have hname : variableName (.node .variable j ds []) = f (variableName (.node .variable i cs [])) := by
          simpa using htexts
        exact .token hname
      · obtain rfl : ds = cs := by simpa [hname] using htexts
        exact .leaf hname

theorem renamedAll_of_isRenamedAll : ∀ ts us : List (Tree Rule), isRenamedAll f ts us = true →
    List.Forall₂ (Renamed f) ts us
  | [], [], _ => .nil
  | t :: ts, u :: us, h => by
    rw [isRenamedAll, Bool.and_eq_true] at h
    exact .cons (renamed_of_isRenamed t u h.1) (renamedAll_of_isRenamedAll ts us h.2)
  | [], _ :: _, h | _ :: _, [], h => by cases h

end

mutual

/-- The names of the variables of a tree, without quotes. -/
def variablesOf : Tree Rule → List String
  | .node r i cs ts =>
    (if r = .variable then [variableName (.node r i cs ts)] else []) ++ variablesOfAll ts

/-- The names of the variables of several trees. -/
def variablesOfAll : List (Tree Rule) → List String
  | [] => []
  | t :: ts => variablesOf t ++ variablesOfAll ts

end

theorem variableName_mem (h : t.rule = .variable) : variableName t ∈ variablesOf t := by
  obtain ⟨r, i, cs, ts⟩ := t
  obtain rfl : r = .variable := h
  exact List.mem_append_left _ (List.mem_singleton.mpr rfl)

theorem mem_variablesOfAll {ts : List (Tree Rule)} (hn : n ∈ ts) (hv : v ∈ variablesOf n) :
    v ∈ variablesOfAll ts := by
  induction ts with
  | nil => cases hn
  | cons t ts ih =>
    rcases List.mem_cons.mp hn with rfl | hn
    · exact List.mem_append_left _ hv
    · exact List.mem_append_right _ (ih hn)

theorem mem_variablesOf (hn : n ∈ t.children) (hv : v ∈ variablesOf n) : v ∈ variablesOf t := by
  obtain ⟨r, i, cs, ts⟩ := t
  exact List.mem_append_right _ (mem_variablesOfAll hn hv)

theorem Renamed.rule_eq (h : Renamed f t u) : u.rule = t.rule := by
  cases h <;> rfl

/-- **Tokens correspond**, and variables under their new names. -/
theorem corresponds_renamed (source : List Char) (f : String → String) :
    Corresponds source f fun t u => grammar.Grows source t ∧ Renamed f t u where
  grows h := h.1
  rule h := h.2.rule_eq
  parts h := by
    obtain ⟨hgrows, hrenamed⟩ := h
    refine List.forall₂_and_left _ _ |>.mpr ⟨hgrows.parts, ?_⟩
    cases hrenamed with
    | leaf | token => exact .nil
    | inner _ hparts => exact hparts
  token h hkind hname := by
    obtain ⟨hgrows, hrenamed⟩ := h
    cases hrenamed with
    | leaf => rfl
    | token => exact absurd rfl hname
    | inner hne => exact absurd (hgrows.children_of_atomic hkind) hne
  name h hrule := by
    obtain ⟨hgrows, hrenamed⟩ := h
    cases hrenamed with
    | leaf hname => exact absurd hrule hname
    | token hname => exact hname
    | inner hne =>
      obtain rfl := hrule
      exact absurd (hgrows.children_of_atomic rfl) hne

/-! ## The names that the walk meets -/

/-- The variable of an event. -/
def Event.names : Event → List String
  | .path => []
  | .node name _ _ | .edge name _ _ _ => name.toList
  | .lookup owner _ => [owner]

theorem mem_of_childOf? {r : Rule} (h : childOf? r t = some n) : n ∈ t.children ∧ n.rule = r := by
  have hfound := List.find?_some h
  exact ⟨List.mem_of_find?_eq_some h, by simpa using hfound⟩

theorem mem_of_patternVariable? (h : patternVariable? t = some v) : v ∈ variablesOf t := by
  obtain ⟨n, hn, rfl⟩ := Option.map_eq_some_iff.mp h
  obtain ⟨hchild, hrule⟩ := mem_of_childOf? hn
  exact mem_variablesOf hchild (variableName_mem hrule)

theorem mem_of_edgeOf (hv : v ∈ (edgeOf t).names) : v ∈ variablesOf t := by
  rw [edgeOf] at hv
  split at hv
  · cases hv
  · rename_i detail hdetail
    have hname : patternVariable? detail = some v := by simpa [Event.names] using hv
    exact mem_variablesOf (mem_of_childOf? hdetail).1 (mem_of_patternVariable? hname)

theorem mem_of_lookup? {found : String × String} (h : lookup? t = some found) :
    found.1 ∈ variablesOf t := by
  rw [lookup?] at h
  split at h
  · rename_i atom lookup rest hparts
    split at h
    · obtain ⟨owner, howner, h⟩ := Option.bind_eq_some_iff.mp h
      obtain ⟨key, hkey, h⟩ := Option.bind_eq_some_iff.mp h
      split at h
      · rename_i hrule
        obtain rfl := Option.some.inj h
        refine mem_variablesOf (n := atom) (by rw [hparts]; simp) ?_
        exact mem_variablesOf (List.mem_of_head? howner) (variableName_mem hrule)
      · cases h
    · cases h
  · cases h

theorem mem_of_lookupsOf {e : Event} (he : e ∈ lookupsOf t) (hv : v ∈ e.names) : v ∈ variablesOf t := by
  obtain ⟨found, hfound, rfl⟩ := List.mem_map.mp he
  obtain rfl := List.mem_singleton.mp hv
  exact mem_of_lookup? (by simpa using hfound)

mutual

/-- Each name that the walk meets is that of a variable in the tree. -/
theorem names_of_mem {v : String} {e : Event} (inExpression : Bool) : ∀ t : Tree Rule,
    e ∈ eventsOf inExpression t → v ∈ e.names → v ∈ variablesOf t
  | .node r i cs ts, he, hv => by
    have hall (inExpression : Bool) (he : e ∈ eventsOfAll inExpression ts) :
        v ∈ variablesOf (.node r i cs ts) :=
      List.mem_append_right _ (names_of_mem_all inExpression ts he hv)
    cases r with
    | patternElement | patternPredicate =>
      rcases List.mem_cons.mp he with rfl | he
      · cases hv
      · exact hall inExpression he
    | nodePattern =>
      obtain rfl := List.mem_singleton.mp he
      exact mem_of_patternVariable? (by simpa [Event.names] using hv)
    | relationshipPattern =>
      obtain rfl := List.mem_singleton.mp he
      exact mem_of_edgeOf hv
    | whereClause | withClause | returnClause => exact hall true he
    | postfixExpression =>
      cases inExpression with
      | true =>
        rcases List.mem_append.mp he with he | he
        · exact mem_of_lookupsOf he hv
        · exact hall true he
      | false => exact hall false he
    | _ => exact hall inExpression he

theorem names_of_mem_all {v : String} {e : Event} (inExpression : Bool) : ∀ ts : List (Tree Rule),
    e ∈ eventsOfAll inExpression ts → v ∈ e.names → v ∈ variablesOfAll ts
  | [], he, _ => by cases he
  | t :: ts, he, hv => by
    rcases List.mem_append.mp he with he | he
    · exact List.mem_append_left _ (names_of_mem inExpression t he hv)
    · exact List.mem_append_right _ (names_of_mem_all inExpression ts he hv)

end

/-! ## States under other names -/

namespace Walk

variable {w : Walk} {e : Event}

/-- The state with its variables renamed. -/
def renamed (f : String → String) (w : Walk) : Walk :=
  { w with bindings := w.bindings.map fun p => (f p.1, p.2) }

/-- **`w.Names known`** -- the variables bound in the state have these names. -/
def Names (w : Walk) (known : Set String) : Prop := ∀ p ∈ w.bindings, p.1 ∈ known

theorem lookup_renamed (hf : Set.InjOn f known) (hv : v ∈ known) {bindings : List (String × String)}
    (h : ∀ p ∈ bindings, p.1 ∈ known) :
    (bindings.map fun p => (f p.1, p.2)).lookup (f v) = bindings.lookup v := by
  induction bindings with
  | nil => rfl
  | cons p bindings ih =>
    obtain ⟨name, label⟩ := p
    have hsame : (f v == f name) = (v == name) := by
      rw [Bool.eq_iff_iff, beq_iff_eq, beq_iff_eq]
      exact hf.eq_iff hv (h (name, label) (by simp))
    simp only [List.map_cons, List.lookup_cons, hsame, ih fun q hq => h q (by simp [hq])]

theorem labelOf?_renamed (hf : Set.InjOn f known) (h : w.Names known) (hv : v ∈ known) :
    (w.renamed f).labelOf? (f v) = w.labelOf? v :=
  lookup_renamed hf hv h

theorem labelAt_renamed (hf : Set.InjOn f known) (h : w.Names known) {name : Option String}
    (hname : ∀ v ∈ name, v ∈ known) (labels : List String) :
    (w.renamed f).labelAt (name.map f) labels = w.labelAt name labels := by
  cases name with
  | none => rfl
  | some v => simp only [labelAt, Option.map_some, Option.bind_some, labelOf?_renamed hf h (hname v rfl)]

theorem bindings_renamed (f : String → String) (e : Event) :
    (e.renamed f).bindings = e.bindings.map fun p => (f p.1, p.2) := by
  cases e with
  | path | lookup => rfl
  | node name labels keys => cases name <;> cases labels <;> rfl
  | edge name kind arrow keys =>
    cases name with
    | none => rfl
    | some v =>
      simp only [Event.renamed, Event.bindings, Option.map_some]
      split <;> rfl

theorem mem_names_of_bindings {p : String × String} (hp : p ∈ e.bindings) : p.1 ∈ e.names := by
  cases e with
  | path | lookup => cases hp
  | node name labels keys =>
    cases name with
    | none => cases hp
    | some v =>
      cases labels with
      | nil => cases hp
      | cons label labels =>
        obtain rfl := List.mem_singleton.mp hp
        exact List.mem_singleton.mpr rfl
  | edge name kind arrow keys =>
    cases name with
    | none => cases hp
    | some v =>
      rw [Event.bindings] at hp
      split at hp
      · cases hp
      · obtain rfl := List.mem_singleton.mp hp
        exact List.mem_singleton.mpr rfl

/-- **An event under another name leads to the same state under other names**, if no two names
become one. -/
theorem meet_renamed (hf : Set.InjOn f known) (h : w.Names known) (he : ∀ v ∈ e.names, v ∈ known) :
    (w.renamed f).meet (e.renamed f) = (w.meet e).renamed f := by
  have hbindings := bindings_renamed f e
  cases e with
  | path => rfl
  | node name labels keys =>
    have hname : ∀ v ∈ name, v ∈ known := fun v hv => he v (by simpa [Event.names] using hv)
    have hlabel := labelAt_renamed hf h hname labels
    simp only [Event.renamed] at hbindings ⊢
    simp only [meet, hlabel, hbindings]
    simp only [renamed, List.map_append, addKeys]
  | edge name kind arrow keys =>
    simp only [Event.renamed] at hbindings ⊢
    simp only [meet, hbindings]
    simp only [renamed, List.map_append, addKeys]
  | lookup owner key =>
    have hlabel := labelOf?_renamed hf h (he owner (by simp [Event.names]))
    simp only [Event.renamed, meet, hlabel]
    rfl

theorem Names.meet (h : w.Names known) (he : ∀ v ∈ e.names, v ∈ known) : (w.meet e).Names known := by
  intro p hp
  have hsplit : p ∈ e.bindings ∨ p ∈ w.bindings := by
    cases e with
    | path | lookup => exact .inr hp
    | node | edge => exact List.mem_append.mp hp
  rcases hsplit with hp | hp
  · exact he _ (mem_names_of_bindings hp)
  · exact h p hp

theorem meetAll_renamed (hf : Set.InjOn f known) {events : List Event} (h : w.Names known)
    (hevents : ∀ e ∈ events, ∀ v ∈ e.names, v ∈ known) :
    (w.renamed f).meetAll (events.map (Event.renamed f)) = (w.meetAll events).renamed f := by
  induction events generalizing w with
  | nil => rfl
  | cons e events ih =>
    have he := hevents e (by simp)
    have hmore := ih (h.meet he) fun e he => hevents e (by simp [he])
    show ((w.renamed f).meet (e.renamed f)).meetAll _ = _
    rw [meet_renamed hf h he, hmore]
    rfl

end Walk

/-! ## What is found -/

/-- **What is found does not depend on how variables are named.** Of two texts whose trees differ in
the names of variables only, under a map that sends no two names of the first to one, the entities,
the attributes and the relations are the same. -/
theorem extract_renamed {text text' : String} (ht : parse text.toList = .ok t)
    (hu : parse text'.toList = .ok u) (hf : Set.InjOn f {v | v ∈ variablesOf t}) (h : Renamed f t u) :
    (extract .cypher text').entities = (extract .cypher text).entities ∧
      (extract .cypher text').attributes = (extract .cypher text).attributes ∧
      (extract .cypher text').relations = (extract .cypher text).relations := by
  have hgrows := grows_of_parse ht
  have hevents := eventsOf_corresponds (corresponds_renamed text.toList f) false t u ⟨hgrows, h⟩
  have hstate := Walk.meetAll_renamed hf (w := {}) (fun p hp => by cases hp)
    fun e he v hv => names_of_mem false t he hv
  obtain ⟨p, q, hfirst⟩ := walk_agrees false t {} {} (.refl _)
  obtain ⟨p', q', hsecond⟩ := walk_agrees false u {} {} (.refl _)
  rw [hevents] at hsecond
  have hfound : walkTree u = ((Walk.meetAll {} (eventsOf false t)).renamed f).retext p' q' :=
    hsecond.trans (congrArg (Walk.retext · p' q') hstate)
  have hfound' : walkTree t = (Walk.meetAll {} (eventsOf false t)).retext p q := hfirst
  rw [extract_of_parse ht, extract_of_parse hu, structureOf, structureOf, hfound, hfound']
  exact ⟨rfl, rfl, rfl⟩

/-- A query with a variable that is bound, used in a path of a condition, and looked up. -/
def friendsQuery : String :=
  "MATCH (n:P)-[r:KNOWS]->(m) WHERE n.x = 1 AND (m)<--(n) RETURN m.y, r.since"

/-- The same query with other variables, in back quotes. -/
def friendsQuoted : String :=
  "MATCH (`my n`:P)-[`my r`:KNOWS]->(`my m`) " ++
    "WHERE `my n`.x = 1 AND (`my m`)<--(`my n`) RETURN `my m`.y, `my r`.since"

theorem extract_friendsQuoted : ∃ t u, parse friendsQuery.toList = .ok t ∧
    parse friendsQuoted.toList = .ok u ∧ Set.InjOn ("my " ++ ·) {v | v ∈ variablesOf t} ∧
    Renamed ("my " ++ ·) t u ∧
    (extract .cypher friendsQuoted).entities = (extract .cypher friendsQuery).entities ∧
    (extract .cypher friendsQuoted).attributes = (extract .cypher friendsQuery).attributes ∧
    (extract .cypher friendsQuoted).relations = (extract .cypher friendsQuery).relations := by
  obtain ⟨t, ht, hboth⟩ := exists_tree_of_any friendsQuery.toList
    (fun t => (parse friendsQuoted.toList).toOption.any fun u => isRenamed ("my " ++ ·) t u)
    (by decide +kernel)
  obtain ⟨u, hu, hrenamed⟩ := exists_tree_of_any friendsQuoted.toList _ hboth
  have hinjective : Set.InjOn ("my " ++ ·) {v | v ∈ variablesOf t} :=
    fun _ _ _ _ hsame => (String.append_right_inj _).mp hsame
  have h := renamed_of_isRenamed t u hrenamed
  exact ⟨t, u, ht, hu, hinjective, h, extract_renamed ht hu hinjective h⟩

end QueryScore.Cypher
