/-
# QueryScore.Proofs.Cypher.Path -- the relations of a query, path by path

A path of the tree is a pattern element or a pattern predicate that holds nodes; what lies inside the
properties of a pattern is no part of the reading. Each relationship of a path stands between two of
its nodes and is one relation of their labels (`relationsAlong`), and the label of a node is the first
that is written, else the one that its variable has from the patterns further to the left
(`labelIn`). The walk finds the same relations without looking back: its bindings are those of the
patterns it has passed (`bindings_visitNode`, `bindings_visitRelationship`), and a path, whose parts
alternate by the grammar (`alternates_of_grows`), closes every edge that it opens (`walk_path`).
-/

import QueryScore.Extraction
import QueryScore.Proofs.Cypher.Condition

namespace QueryScore.Cypher

open Grammar Peg

/-! ## What the tree says -/

mutual

/-- **`patternsOf t`** -- the node and relationship patterns in the order of the text, but for those
inside the properties of another pattern. -/
def patternsOf : Tree Rule → List (Tree Rule)
  | .node r i cs ts =>
    match r with
    | .properties => []
    | .nodePattern | .relationshipPattern => .node r i cs ts :: patternsOfAll ts
    | _ => patternsOfAll ts

/-- The patterns of several trees. -/
def patternsOfAll : List (Tree Rule) → List (Tree Rule)
  | [] => []
  | t :: ts => patternsOf t ++ patternsOfAll ts

end

mutual

/-- **`pathsOf t`** -- the paths in the order of the text: the pattern elements and predicates that
hold nodes themselves, but for those inside the properties of a pattern. -/
def pathsOf : Tree Rule → List (Tree Rule)
  | .node r i cs ts =>
    match r with
    | .properties => []
    | .patternElement | .patternPredicate =>
      (if ts.any (·.rule = .nodePattern) then [.node r i cs ts] else []) ++ pathsOfAll ts
    | _ => pathsOfAll ts

/-- The paths of several trees. -/
def pathsOfAll : List (Tree Rule) → List (Tree Rule)
  | [] => []
  | t :: ts => pathsOf t ++ pathsOfAll ts

end

/-- The kind of a relationship pattern: the first type in its brackets, or nothing. -/
def kindOf (r : Tree Rule) : String := ((childOf? .relationshipDetail r).map relationshipKind).getD ""

/-- What a pattern binds: its variable to its first label or its kind, if it has both. -/
def bindingOf? (p : Tree Rule) : Option (String × String) :=
  match p.rule with
  | .nodePattern => do pure (← patternVariable? p, ← (nodeLabels p).head?)
  | .relationshipPattern => do
    let variableName ← (childOf? .relationshipDetail p).bind patternVariable?
    if (kindOf p).isEmpty then none else pure (variableName, kindOf p)
  | _ => none

/-- The bindings that some patterns leave, the latest first. -/
def bindingsOf (ps : List (Tree Rule)) : List (String × String) := (ps.filterMap bindingOf?).reverse

/-- **`labelIn tree n`** -- the label of a node: the first that is written, else the one bound to its
variable to the left of the node, else nothing. -/
def labelIn (tree n : Tree Rule) : String :=
  let left := (patternsOf tree).filter fun p => p.start < n.start
  match (nodeLabels n).head? with
  | some label => label
  | none => ((patternVariable? n).bind fun v => (bindingsOf left).lookup v).getD ""

/-- The relation of a relationship between two labels; an arrow to the left alone turns it around. -/
def relationBetween (r : Tree Rule) (ends : String × String) : Relation :=
  if (childOf? .leftArrow r).isSome && (childOf? .rightArrow r).isNone then
    ⟨⟨kindOf r, ends.2, ends.1⟩, none⟩
  else ⟨⟨kindOf r, ends.1, ends.2⟩, none⟩

/-- **`relationsAlong tree path`** -- the relations of a path `n₀ r₁ n₁ … rₖ nₖ`: that of `rᵢ` between
the labels of `nᵢ₋₁` and `nᵢ`. -/
def relationsAlong (tree path : Tree Rule) : List Relation :=
  let labels := (childrenOf .nodePattern path).map (labelIn tree)
  (childrenOf .relationshipPattern path).zipWith relationBetween (labels.zip labels.tail)

/-! ## What the grammar says -/

variable {source before cs after : List Char} {nodes ts : List (Tree Rule)} {tree t n : Tree Rule}
  {r : Rule} {i : Nat}

/-- The rules that are patterns. -/
def Rule.isPattern : Rule → Bool
  | .nodePattern | .relationshipPattern => true
  | _ => false

/-- The rules whose nodes can be paths. -/
def Rule.isPath : Rule → Bool
  | .patternElement | .patternPredicate => true
  | _ => false

/-- The rules below a pattern, down to its properties. -/
def Rule.isInPattern : Rule → Bool
  | .variable | .nodeLabels | .labelName | .properties | .leftArrow | .rightArrow
  | .relationshipDetail | .relationshipTypes | .relTypeName | .rangeLiteral | .integerLiteral => true
  | _ => false

/-- The rules of the nodes that the walk enters. -/
def Rule.isEntered (r : Rule) : Bool :=
  !(r.isPattern || [.relationshipDetail, .properties, .parenGroup].contains r)

theorem kind_ne_silent_of_mem_tops (hkind : r.kind = .normal) : ∀ q ∈ tops r.body, q.kind ≠ .silent := by
  cases r with
  | keyword w => cases hkind
  | parenGroup => cases hkind
  | _ => decide

theorem isInPattern_of_mem_tops (hr : r.isPattern = true ∨ r.isInPattern = true) (hne : r ≠ .properties) :
    ∀ q ∈ tops r.body, q.isInPattern = true := by
  cases r with
  | properties => exact absurd rfl hne
  | nodePattern | relationshipPattern | «variable» | nodeLabels | labelName | leftArrow | rightArrow
  | relationshipDetail | relationshipTypes | relTypeName | rangeLiteral | integerLiteral => decide
  | _ => rcases hr with hr | hr <;> cases hr

theorem kind_ne_silent_of_isEntered (hr : r.isEntered = true) : r.kind ≠ .silent := by
  cases r with
  | parenGroup => cases hr
  | _ => exact nofun

theorem isEntered_of_mem_tops (hr : r.isEntered = true) (hpath : r.isPath = false) :
    ∀ q ∈ tops r.body, q.isEntered = true := by
  cases r with
  | patternElement | patternPredicate => cases hpath
  | nodePattern | relationshipPattern | relationshipDetail | properties | parenGroup => cases hr
  | keyword w => simp [Rule.body, tops]
  | _ => decide

/-- The parts of a node are left by the rules in the body of its rule. -/
theorem rule_mem_of_grows (h : grammar.Grows source (.node r i cs ts)) (hkind : r.kind ≠ .silent) :
    ∀ n ∈ ts, n.rule ∈ tops r.body ∧ n.rule.kind ≠ .silent := by
  intro n hn
  cases h with
  | node _ hread =>
    cases hr : r.kind with
    | normal =>
      obtain ⟨ns, hnode, hbody⟩ := hread.of_normal hr
      obtain rfl : ts = ns := by simpa using hnode
      have hmem := hbody.rule_mem (kind_ne_silent_of_mem_tops hr) n hn
      exact ⟨hmem, kind_ne_silent_of_mem_tops hr _ hmem⟩
    | atomic =>
      obtain ⟨hnode, -⟩ := hread.of_atomic hr
      obtain rfl : ts = [] := by simpa using hnode
      cases hn
    | silent => exact absurd hr hkind

mutual

/-- Between a pattern and its properties nothing else is read. -/
theorem patternsOf_eq_nil : ∀ t : Tree Rule, grammar.Grows source t → t.rule.isInPattern = true →
    patternsOf t = [] ∧ pathsOf t = []
  | .node r i cs ts, h, hr => by
    by_cases hproperties : r = .properties
    · subst hproperties
      exact ⟨rfl, rfl⟩
    · have hkind : r.kind ≠ .silent := by cases r <;> first | decide | cases hr
      obtain ⟨hpatterns, hpaths⟩ := patternsOfAll_eq_nil ts h.parts fun n hn =>
        isInPattern_of_mem_tops (.inr hr) hproperties _ (rule_mem_of_grows h hkind n hn).1
      cases r with
      | properties => exact absurd rfl hproperties
      | _ => first | exact ⟨hpatterns, hpaths⟩ | cases hr

theorem patternsOfAll_eq_nil : ∀ ts : List (Tree Rule), (∀ t ∈ ts, grammar.Grows source t) →
    (∀ t ∈ ts, t.rule.isInPattern = true) → patternsOfAll ts = [] ∧ pathsOfAll ts = []
  | [], _, _ => ⟨rfl, rfl⟩
  | t :: ts, h, hr => by
    obtain ⟨hpatterns, hpaths⟩ := patternsOf_eq_nil t (h t (by simp)) (hr t (by simp))
    obtain ⟨hpatterns', hpaths'⟩ :=
      patternsOfAll_eq_nil ts (fun u hu => h u (by simp [hu])) fun u hu => hr u (by simp [hu])
    simp [patternsOfAll, pathsOfAll, hpatterns, hpaths, hpatterns', hpaths']

end

/-- A pattern holds no further patterns, but for those inside its properties. -/
theorem of_isPattern (h : grammar.Grows source t) (hr : t.rule.isPattern = true) :
    patternsOf t = [t] ∧ pathsOf t = [] := by
  obtain ⟨r, i, cs, ts⟩ := t
  have hkind : r.kind ≠ .silent := by cases r <;> first | decide | cases hr
  obtain ⟨hpatterns, hpaths⟩ := patternsOfAll_eq_nil ts h.parts fun n hn =>
    isInPattern_of_mem_tops (.inl hr) (by rintro rfl; cases hr) _ (rule_mem_of_grows h hkind n hn).1
  cases r with
  | nodePattern | relationshipPattern => exact ⟨by simp [patternsOf, hpatterns], hpaths⟩
  | _ => cases hr

theorem of_isPattern_all (h : ∀ t ∈ ts, grammar.Grows source t) (hr : ∀ t ∈ ts, t.rule.isPattern = true) :
    patternsOfAll ts = ts ∧ pathsOfAll ts = [] := by
  induction ts with
  | nil => exact ⟨rfl, rfl⟩
  | cons t ts ih =>
    obtain ⟨hpatterns, hpaths⟩ := of_isPattern (h t (by simp)) (hr t (by simp))
    obtain ⟨hpatterns', hpaths'⟩ := ih (fun u hu => h u (by simp [hu])) fun u hu => hr u (by simp [hu])
    simp [patternsOfAll, pathsOfAll, hpatterns, hpaths, hpatterns', hpaths']

/-! ## The parts of a path -/

/-- Relationships and nodes in turn. -/
inductive Alternates : List (Tree Rule) → Prop
  | nil : Alternates []
  | step {r n : Tree Rule} {rest : List (Tree Rule)} : r.rule = .relationshipPattern →
      n.rule = .nodePattern → Alternates rest → Alternates (r :: n :: rest)

theorem Alternates.append {ms : List (Tree Rule)} (h : Alternates ts) (hms : Alternates ms) :
    Alternates (ts ++ ms) := by
  induction h with
  | nil => exact hms
  | step hr hn _ ih => exact .step hr hn ih

theorem Alternates.isPattern (h : Alternates ts) : ∀ t ∈ ts, t.rule.isPattern = true := by
  induction h with
  | nil => simp
  | step hr hn _ ih =>
    intro t ht
    rcases List.mem_cons.mp ht with rfl | ht
    · rw [hr]; rfl
    · rcases List.mem_cons.mp ht with rfl | ht
      · rw [hn]; rfl
      · exact ih t ht

theorem Alternates.length_eq (h : Alternates ts) :
    (ts.filter (·.rule = .relationshipPattern)).length = (ts.filter (·.rule = .nodePattern)).length := by
  induction h with
  | nil => rfl
  | step hr hn _ ih => simp [hr, hn, ih]

/-- A relationship and the node behind it. -/
def pathStep : Peg Rule := .seq (.rule .relationshipPattern) (.rule .nodePattern)

theorem alternates_of_step (h : grammar.Reads false (.once pathStep) before cs after nodes) :
    Alternates nodes := by
  obtain ⟨_, _, _, _, _, _, rfl, rfl, hr, -, hn⟩ := h.of_loose_seq
  obtain ⟨_, rfl, -⟩ := hr.of_normal rfl
  obtain ⟨_, rfl, -⟩ := hn.of_normal rfl
  exact .step rfl rfl .nil

private theorem alternates_of_part {part : Peg.Part Rule} {atomic : Bool}
    (h : grammar.Reads atomic part before cs after nodes) (hatomic : atomic = false)
    (hpart : part = .once (.many pathStep) ∨ part = .again pathStep) : Alternates nodes := by
  induction h with
  | often hone _ _ ih =>
    subst hatomic
    obtain rfl := by simpa using hpart
    exact (alternates_of_step hone).append (ih rfl (.inr rfl))
  | moreLoose _ hone _ _ _ ih =>
    obtain rfl := by simpa using hpart
    exact (alternates_of_step hone).append (ih rfl (.inr rfl))
  | never | enough => exact .nil
  | _ => simp_all

theorem alternates_of_many (h : grammar.Reads false (.once (.many pathStep)) before cs after nodes) :
    Alternates nodes :=
  alternates_of_part h rfl (.inl rfl)

/-- **The parts of a path alternate**, unless it is another path in parentheses. -/
theorem alternates_of_grows (h : grammar.Grows source (.node r i cs ts)) (hr : r.isPath = true) :
    (∃ n rest, ts = n :: rest ∧ n.rule = .nodePattern ∧ Alternates rest) ∨
      ∃ t, ts = [t] ∧ t.rule = .patternElement := by
  have hkind : r.kind = .normal := by cases r <;> first | rfl | cases hr
  cases h with
  | node _ hread =>
    obtain ⟨ns, hnode, hbody⟩ := hread.of_normal hkind
    obtain rfl : ts = ns := by simpa using hnode
    cases r with
    | patternElement =>
      rcases Reads.of_alt hbody with hbody | ⟨-, hbody⟩
      · obtain ⟨_, _, _, _, _, _, -, rfl, hfirst, -, hmore⟩ := hbody.of_loose_seq
        obtain ⟨_, rfl, -⟩ := hfirst.of_normal rfl
        exact .inl ⟨_, _, rfl, rfl, alternates_of_many hmore⟩
      · obtain ⟨_, _, _, _, _, _, -, rfl, hopen, -, hrest⟩ := hbody.of_loose_seq
        obtain ⟨_, _, _, _, _, _, -, rfl, hinner, -, hclose⟩ := hrest.of_loose_seq
        obtain ⟨-, rfl⟩ := hopen.of_text
        obtain ⟨-, rfl⟩ := hclose.of_text
        obtain ⟨_, rfl, -⟩ := hinner.of_normal rfl
        exact .inr ⟨_, rfl, rfl⟩
    | patternPredicate =>
      obtain ⟨_, _, _, _, _, _, -, rfl, hlook, -, hbody⟩ := Reads.of_loose_seq hbody
      obtain ⟨_, _, _, _, _, _, -, rfl, hfirst, -, hmore⟩ := hbody.of_loose_seq
      obtain ⟨_, _, _, _, _, _, -, rfl, hstep, -, hmore⟩ := hmore.of_loose_seq
      obtain ⟨_, rfl, -⟩ := hfirst.of_normal rfl
      obtain rfl := hlook.nodes_of_present
      exact .inl ⟨_, _, rfl, rfl, (alternates_of_step hstep).append (alternates_of_many hmore)⟩
    | _ => cases hr

/-- **`IsPath path`** -- the parts of a path: a node, then relationships and nodes in turn. -/
def IsPath (path : Tree Rule) : Prop :=
  ∃ n rest, path.children = n :: rest ∧ n.rule = .nodePattern ∧ Alternates rest

mutual

theorem grows_of_mem_pathsOf {p : Tree Rule} : ∀ t : Tree Rule, grammar.Grows source t →
    p ∈ pathsOf t → p.rule.isPath = true ∧ IsPath p
  | .node r i cs ts, h, hpath => by
    have hall := grows_of_mem_pathsOfAll (p := p) ts h.parts
    by_cases hr : r.isPath = true
    · have hmem : (p = .node r i cs ts ∧ ts.any (·.rule = .nodePattern) = true) ∨ p ∈ pathsOfAll ts := by
        cases r with
        | patternElement | patternPredicate =>
          refine (List.mem_append.mp hpath).imp_left fun hself => ?_
          split at hself
          · next hnodes => exact ⟨List.mem_singleton.mp hself, hnodes⟩
          · cases hself
        | _ => cases hr
      rcases hmem with ⟨rfl, hnodes⟩ | hmem
      · refine ⟨hr, ?_⟩
        rcases alternates_of_grows h hr with hparts | ⟨t, rfl, ht⟩
        · exact hparts
        · simp [ht] at hnodes
      · exact hall hmem
    · cases r with
      | properties => cases hpath
      | patternElement | patternPredicate => exact absurd rfl hr
      | _ => exact hall hpath

theorem grows_of_mem_pathsOfAll {p : Tree Rule} : ∀ ts : List (Tree Rule),
    (∀ t ∈ ts, grammar.Grows source t) → p ∈ pathsOfAll ts → p.rule.isPath = true ∧ IsPath p
  | t :: ts, h, hpath => by
    rcases List.mem_append.mp hpath with hpath | hpath
    · exact grows_of_mem_pathsOf t (h t (by simp)) hpath
    · exact grows_of_mem_pathsOfAll ts (fun u hu => h u (by simp [hu])) hpath

end

/-- A path has one relation for each of its relationships. -/
theorem length_relationsAlong {path : Tree Rule} (h : IsPath path) :
    (relationsAlong tree path).length = (childrenOf .relationshipPattern path).length := by
  obtain ⟨n, rest, hparts, hn, hrest⟩ := h
  simp [relationsAlong, childrenOf, hparts, hn, hrest.length_eq]

/-! ## Patterns in the order of the text -/

/-- **`Placed first last ps`** -- the trees start in a stretch of the text, one after the other. -/
structure Placed (first last : Nat) (ps : List (Tree Rule)) : Prop where
  inside : ∀ p ∈ ps, first ≤ p.start ∧ p.start < last
  ascending : ps.Pairwise fun p q => p.start < q.start

theorem Placed.nil {first last : Nat} : Placed first last [] := ⟨by simp, .nil⟩

theorem Placed.append {first middle last : Nat} {ps qs : List (Tree Rule)} (hps : Placed first middle ps)
    (hqs : Placed middle last qs) (h : first ≤ middle) (h' : middle ≤ last) : Placed first last (ps ++ qs) where
  inside := by
    intro p hp
    rcases List.mem_append.mp hp with hp | hp
    · have := hps.inside p hp
      omega
    · have := hqs.inside p hp
      omega
  ascending := by
    refine List.pairwise_append.mpr ⟨hps.ascending, hqs.ascending, fun p hp q hq => ?_⟩
    have := hps.inside p hp
    have := hqs.inside q hq
    omega

theorem Placed.mono {first first' last last' : Nat} {ps : List (Tree Rule)} (h : Placed first last ps)
    (hfirst : first' ≤ first) (hlast : last ≤ last') : Placed first' last' ps where
  inside := by
    intro p hp
    have := h.inside p hp
    omega
  ascending := h.ascending

theorem patternsOfAll_append (ts us : List (Tree Rule)) :
    patternsOfAll (ts ++ us) = patternsOfAll ts ++ patternsOfAll us := by
  induction ts with
  | nil => rfl
  | cons t ts ih => simp [patternsOfAll, ih]

theorem ne_nil_of_isPattern (hr : r.isPattern = true)
    (h : grammar.Reads false (.once r.body) before cs after nodes) : cs ≠ [] := by
  cases r with
  | nodePattern =>
    obtain ⟨_, _, _, _, _, _, rfl, -, hopen, -, -⟩ := Reads.of_loose_seq h
    obtain ⟨rfl, -⟩ := hopen.of_text
    simp
  | relationshipPattern =>
    rcases Reads.of_alt h with h | ⟨-, h⟩
    · obtain ⟨_, _, _, _, _, _, rfl, -, harrow, -, -⟩ := h.of_loose_seq
      obtain ⟨_, -, harrow⟩ := harrow.of_normal rfl
      obtain ⟨rfl, -⟩ := Reads.of_text harrow
      simp
    · obtain ⟨_, _, _, _, _, _, rfl, -, hline, -, -⟩ := h.of_loose_seq
      obtain ⟨rfl, -⟩ := hline.of_text
      simp
  | _ => cases hr

private theorem placed_of_part {part : Peg.Part Rule} {atomic : Bool}
    (h : grammar.Reads atomic part before cs after nodes) :
    Placed before.length (before ++ cs).length (patternsOfAll nodes) := by
  induction h with
  | bare _ _ ih | left _ ih | right _ _ ih | given _ ih => exact ih
  | @node r before cs after nodes hkind hbody ih =>
    rw [patternsOfAll, patternsOfAll, List.append_nil]
    by_cases hr : r.isPattern = true
    · have hgrows := (Reads.node hkind hbody).grows rfl _ (List.mem_singleton.mpr rfl)
      have hnormal : r.kind = .normal := by cases r <;> first | rfl | cases hr
      have hne : cs ≠ [] := by
        rw [show grammar.kind r = .normal from hnormal] at hbody
        exact ne_nil_of_isPattern hr hbody
      have hlength := List.length_pos_iff.mpr hne
      rw [(of_isPattern hgrows hr).1]
      exact ⟨by simp [Tree.start, hlength], List.pairwise_singleton ..⟩
    · cases r with
      | nodePattern | relationshipPattern => exact absurd rfl hr
      | properties => exact .nil
      | _ => exact ih
  | tight _ _ iha ihb | often _ _ iha ihb | moreTight _ _ iha ihb =>
    rw [patternsOfAll_append]
    exact iha.append (by simpa using ihb) (by simp) (by simp)
  | loose _ _ _ iha _ ihb =>
    rw [patternsOfAll_append]
    exact iha.append (ihb.mono (by simp) (by simp)) (by simp) (by simp)
  | moreLoose _ _ _ _ iha ihb =>
    rw [patternsOfAll_append]
    exact (iha.mono (by simp) (Nat.le_refl _)).append (by simpa using ihb) (by simp) (by simp)
  | _ => exact .nil

/-- **The patterns of a query start one after the other.** -/
theorem ascending_of_parse (h : parse source = .ok tree) :
    (patternsOf tree).Pairwise fun p q => p.start < q.start := by
  obtain ⟨-, parts, rfl, hread⟩ := reads_of_parse h
  exact (placed_of_part hread).ascending

/-- So do those of each part of it. -/
theorem ascending_of_grows (h : grammar.Grows source t) :
    (patternsOf t).Pairwise fun p q => p.start < q.start := by
  cases h with
  | node _ hread =>
    have hplaced := (placed_of_part hread).ascending
    rwa [patternsOfAll, patternsOfAll, List.append_nil] at hplaced

/-- What starts before a pattern is what stands on its left. -/
theorem filter_left {left right : List (Tree Rule)} (h : patternsOf tree = left ++ n :: right)
    (hascending : (patternsOf tree).Pairwise fun p q => p.start < q.start) :
    (patternsOf tree).filter (fun p => p.start < n.start) = left := by
  rw [h] at hascending ⊢
  obtain ⟨-, hright, hbetween⟩ := List.pairwise_append.mp hascending
  have hbehind := (List.pairwise_cons.mp hright).1
  rw [List.filter_append, List.filter_cons_of_neg (by simp), List.filter_eq_self.mpr, List.filter_eq_nil_iff.mpr,
    List.append_nil]
  · intro p hp
    have := hbehind p hp
    simp only [decide_eq_true_eq]
    omega
  · intro p hp
    simpa using hbetween p hp n (by simp)

/-! ## One step of the walk -/

section Visits

variable {w : Walk} {left right : List (Tree Rule)}

/-- **`w.passed`** -- what a walk remembers for the relations to come, and those it has found. -/
def Walk.passed (w : Walk) : List (String × String) × List Relation := (w.bindings, w.relations)

@[simp] theorem Walk.passed_startPath : w.startPath.passed = w.passed := rfl

@[simp] theorem Walk.passed_visitLookup : (w.visitLookup t).passed = w.passed := by
  rw [visitLookup]
  split
  · split
    · split
      · split <;> rfl
      · rfl
    · rfl
  · rfl

@[simp] theorem Walk.passed_visitCondition : (w.visitCondition t).passed = w.passed := by
  rw [visitCondition]
  split <;> rfl

@[simp] theorem Walk.passed_visitProjection : (w.visitProjection t).passed = w.passed := rfl

theorem bindingsOf_append (ps qs : List (Tree Rule)) :
    bindingsOf (ps ++ qs) = bindingsOf qs ++ bindingsOf ps := by
  simp [bindingsOf]

theorem nodeLabel_eq (h : patternsOf tree = left ++ n :: right)
    (hascending : (patternsOf tree).Pairwise fun p q => p.start < q.start)
    (hw : w.bindings = bindingsOf left) : w.nodeLabel n = labelIn tree n := by
  rw [Walk.nodeLabel, labelIn, filter_left h hascending]
  cases nodeLabels n with
  | nil =>
    simp only [List.head?_nil, ← hw]
    rfl
  | cons label rest => rfl

theorem bindingsOf_singleton (p : Tree Rule) : bindingsOf [p] = (bindingOf? p).toList := by
  rw [bindingsOf, List.filterMap_cons]
  cases bindingOf? p <;> rfl

theorem bindings_visitNode (hr : n.rule = .nodePattern) :
    (w.visitNode n).bindings = bindingsOf [n] ++ w.bindings := by
  have hbound : (w.visitNode n).bindings = (w.bindNode n).bindings := by
    simp only [Walk.visitNode, Walk.reachNode]
    split <;> rfl
  rw [hbound, Walk.bindNode, bindingsOf_singleton, bindingOf?, hr]
  cases patternVariable? n <;> cases nodeLabels n <;> rfl

theorem bindings_visitRelationship (hr : n.rule = .relationshipPattern) :
    (w.visitRelationship n).bindings = bindingsOf [n] ++ w.bindings := by
  rw [bindingsOf_singleton, bindingOf?, hr, Walk.visitRelationship, kindOf]
  cases childOf? .relationshipDetail n with
  | none => rfl
  | some detail =>
    show (if (relationshipKind detail).isEmpty then w else w.bind (patternVariable? detail)
      (relationshipKind detail)).bindings = _
    simp only [Option.bind_some, Option.map_some, Option.getD_some]
    cases patternVariable? detail <;> cases (relationshipKind detail).isEmpty <;> rfl

theorem pending_visitRelationship : (w.visitRelationship n).pending = some ⟨kindOf n, arrowOf n⟩ := by
  rw [Walk.visitRelationship, kindOf]
  cases childOf? .relationshipDetail n <;> rfl

theorem relations_visitRelationship : (w.visitRelationship n).relations = w.relations := by
  rw [Walk.visitRelationship]
  cases childOf? .relationshipDetail n with
  | none => rfl
  | some detail =>
    simp only [Walk.addKeys]
    split
    · rfl
    · cases patternVariable? detail <;> rfl

theorem left_visitRelationship : (w.visitRelationship n).left = w.left := by
  rw [Walk.visitRelationship]
  cases childOf? .relationshipDetail n with
  | none => rfl
  | some detail =>
    simp only [Walk.addKeys]
    split
    · rfl
    · cases patternVariable? detail <;> rfl

/-- An open edge becomes the relation between the labels of its nodes. -/
theorem relationOf_eq (r : Tree Rule) (a b : String) :
    Walk.relationOf ⟨kindOf r, arrowOf r⟩ a b = relationBetween r (a, b) := by
  rw [relationBetween, arrowOf]
  cases (childOf? .leftArrow r) <;> cases (childOf? .rightArrow r) <;> rfl

/-- **A node closes the edge that waits for it**, and none waits behind it. -/
theorem visitNode_reaches : (w.visitNode n).pending = none ∧ (w.visitNode n).left = w.nodeLabel n ∧
    (w.visitNode n).relations =
      w.relations ++ (w.pending.map fun edge => Walk.relationOf edge w.left (w.nodeLabel n)).toList := by
  have hpending : (w.bindNode n).pending = w.pending ∧ (w.bindNode n).relations = w.relations ∧
      (w.bindNode n).left = w.left := by
    rw [Walk.bindNode]
    split
    · cases patternVariable? n <;> exact ⟨rfl, rfl, rfl⟩
    · exact ⟨rfl, rfl, rfl⟩
  obtain ⟨hpending, hrelations, hleft⟩ := hpending
  simp only [Walk.visitNode, Walk.reachNode, Walk.addKeys, hpending]
  cases w.pending with
  | none => exact ⟨rfl, rfl, by simpa using hrelations⟩
  | some edge => exact ⟨rfl, rfl, by simp [hrelations, hleft]⟩

end Visits

/-! ## The walk along a path -/

section Paths

variable {w : Walk} {left right : List (Tree Rule)} (inExpression : Bool)

/-- **`w.Stands left label`** -- a walk has passed some patterns, the last of them a node with this
label, and no edge waits. -/
structure Walk.Stands (w : Walk) (left : List (Tree Rule)) (label : String) : Prop where
  bindings : w.bindings = bindingsOf left
  pending : w.pending = none
  left : w.left = label

theorem walk_node (hr : n.rule = .nodePattern) : walk inExpression n w = w.visitNode n := by
  obtain ⟨r, i, cs, ts⟩ := n
  subst hr
  rfl

theorem walk_relationship (hr : n.rule = .relationshipPattern) :
    walk inExpression n w = w.visitRelationship n := by
  obtain ⟨r, i, cs, ts⟩ := n
  subst hr
  rfl

/-- A node reached with its label; an edge that waited became a relation. -/
theorem stands_visitNode (hr : n.rule = .nodePattern) (hsplit : patternsOf tree = left ++ n :: right)
    (hascending : (patternsOf tree).Pairwise fun p q => p.start < q.start)
    (hw : w.bindings = bindingsOf left) : (w.visitNode n).Stands (left ++ [n]) (labelIn tree n) := by
  obtain ⟨hpending, hleft, -⟩ := visitNode_reaches (w := w) (n := n)
  refine ⟨?_, hpending, hleft.trans (nodeLabel_eq hsplit hascending hw)⟩
  rw [bindings_visitNode hr, bindingsOf_append, hw]

/-- **Each step of a path yields one relation**, between the label where the walk stands and that of
the next node. -/
theorem walk_steps (hps : Alternates ts) {label : String}
    (hascending : (patternsOf tree).Pairwise fun p q => p.start < q.start)
    (hsplit : patternsOf tree = left ++ (ts ++ right)) (hw : w.Stands left label) :
    let labels := (ts.filter (·.rule = .nodePattern)).map (labelIn tree)
    (∃ last, (walkAll inExpression ts w).Stands (left ++ ts) last) ∧
      (walkAll inExpression ts w).relations = w.relations ++
        (ts.filter (·.rule = .relationshipPattern)).zipWith relationBetween
          ((label :: labels).zip labels) := by
  induction hps generalizing w left label with
  | nil => exact ⟨⟨label, by simpa [walkAll] using hw⟩, by simp [walkAll]⟩
  | @step r n rest hr hn _ ih =>
    have hr' : patternsOf tree = left ++ r :: (n :: (rest ++ right)) := by simpa using hsplit
    have hn' : patternsOf tree = (left ++ [r]) ++ n :: (rest ++ right) := by simpa using hsplit
    have hopen : (w.visitRelationship r).bindings = bindingsOf (left ++ [r]) := by
      rw [bindings_visitRelationship hr, bindingsOf_append, hw.bindings]
    have hclosed := stands_visitNode hn hn' hascending hopen
    obtain ⟨hlast, hrelations⟩ := ih (by simpa using hsplit) hclosed
    have hfound : ((w.visitRelationship r).visitNode n).relations =
        w.relations ++ [relationBetween r (label, labelIn tree n)] := by
      rw [visitNode_reaches.2.2, nodeLabel_eq hn' hascending hopen, pending_visitRelationship,
        relations_visitRelationship, left_visitRelationship, hw.left, Option.map_some, relationOf_eq]
      rfl
    simp only [walkAll, walk_relationship inExpression hr, walk_node inExpression hn]
    refine ⟨by simpa using hlast, ?_⟩
    rw [hrelations, hfound]
    simp [hr, hn]

/-- The walk along a path starts anew at its first node. -/
theorem walk_isPath {rest : List (Tree Rule)} (hr : r.isPath = true) (hn : n.rule = .nodePattern) :
    walk inExpression (.node r i cs (n :: rest)) w =
      walkAll inExpression rest (w.startPath.visitNode n) := by
  rw [← walk_node inExpression hn]
  cases r <;> first | rfl | cases hr

/-- **A path yields its relations**, whatever the walk came from. -/
theorem walk_path {rest : List (Tree Rule)} (hr : r.isPath = true)
    (hn : n.rule = .nodePattern) (hrest : Alternates rest)
    (hascending : (patternsOf tree).Pairwise fun p q => p.start < q.start)
    (hsplit : patternsOf tree = left ++ (n :: rest ++ right)) (hw : w.bindings = bindingsOf left) :
    (walk inExpression (.node r i cs (n :: rest)) w).passed =
      (bindingsOf (left ++ n :: rest), w.relations ++ relationsAlong tree (.node r i cs (n :: rest))) := by
  have hfirst := stands_visitNode (w := w.startPath) hn (by simpa using hsplit) hascending hw
  obtain ⟨⟨last, hlast⟩, hrelations⟩ :=
    walk_steps inExpression hrest hascending (by simpa using hsplit) hfirst
  have hnone : (w.startPath.visitNode n).relations = w.relations := by
    rw [visitNode_reaches.2.2]
    simp [Walk.startPath]
  rw [walk_isPath inExpression hr hn, Walk.passed, hlast.bindings, hrelations, hnone]
  simp [relationsAlong, childrenOf, Tree.children, hn]

theorem pending_steps (hps : Alternates ts) (hw : w.pending = none) :
    (walkAll inExpression ts w).pending = none := by
  induction hps generalizing w with
  | nil => exact hw
  | step hr hn _ ih =>
    simp only [walkAll, walk_relationship inExpression hr, walk_node inExpression hn]
    exact ih visitNode_reaches.1

/-- **No edge waits behind a path**, whatever came before it. -/
theorem pending_path (hr : t.rule.isPath = true) (ht : IsPath t) : (walk inExpression t w).pending = none := by
  obtain ⟨r, i, cs, parts⟩ := t
  obtain ⟨n, rest, rfl, hn, hrest⟩ := ht
  rw [walk_isPath (r := r) inExpression hr hn]
  exact pending_steps inExpression hrest visitNode_reaches.1

/-- A rule that is no path adds nothing of its own: its parts are walked through from a state that has
passed the same. -/
theorem walk_of_entered (i : Nat) (cs : List Char) (ts : List (Tree Rule)) (w : Walk) (inExpression : Bool)
    (hr : r.isEntered = true) (hpath : r.isPath = false) :
    patternsOf (.node r i cs ts) = patternsOfAll ts ∧ pathsOf (.node r i cs ts) = pathsOfAll ts ∧
      ∃ inside w', walk inExpression (.node r i cs ts) w = walkAll inside ts w' ∧ w'.passed = w.passed := by
  cases r with
  | patternElement | patternPredicate => cases hpath
  | nodePattern | relationshipPattern | properties => cases hr
  | whereClause => exact ⟨rfl, rfl, _, _, rfl, Walk.passed_visitCondition⟩
  | projectionItems => exact ⟨rfl, rfl, _, _, rfl, Walk.passed_visitProjection⟩
  | postfixExpression =>
    refine ⟨rfl, rfl, _, _, rfl, ?_⟩
    split
    · exact Walk.passed_visitLookup
    · rfl
  | _ => exact ⟨rfl, rfl, _, _, rfl, rfl⟩

mutual

/-- **The walk through a tree finds the relations of its paths** and passes its patterns. -/
theorem walk_relations (hascending : (patternsOf tree).Pairwise fun p q => p.start < q.start) :
    ∀ (t : Tree Rule) (inExpression : Bool) (w : Walk) (left right : List (Tree Rule)),
      grammar.Grows source t → t.rule.isEntered = true →
      patternsOf tree = left ++ (patternsOf t ++ right) → w.bindings = bindingsOf left →
      (walk inExpression t w).passed =
        (bindingsOf (left ++ patternsOf t), w.relations ++ (pathsOf t).flatMap (relationsAlong tree))
  | .node r i cs ts, inExpression, w, left, right, h, hr, hsplit, hw => by
    have hall := walkAll_relations hascending ts
    replace hr : r.isEntered = true := hr
    have hkind := kind_ne_silent_of_isEntered hr
    cases hpath : r.isPath with
    | true =>
      rcases alternates_of_grows h hpath with ⟨n, rest, rfl, hn, hrest⟩ | ⟨t, rfl, ht⟩
      · have hparts : ∀ t ∈ n :: rest, t.rule.isPattern = true := by
          intro t ht
          rcases List.mem_cons.mp ht with rfl | ht
          · rw [hn]; rfl
          · exact hrest.isPattern t ht
        have hgrows : ∀ t ∈ n :: rest, grammar.Grows source t := h.parts
        obtain ⟨hpatterns, hpaths⟩ := of_isPattern_all hgrows hparts
        have hself : patternsOf (.node r i cs (n :: rest)) = n :: rest ∧
            pathsOf (.node r i cs (n :: rest)) = [.node r i cs (n :: rest)] := by
          cases r with
          | patternElement | patternPredicate => exact ⟨hpatterns, by simp [pathsOf, hpaths, hn]⟩
          | _ => cases hpath
        rw [hself.1] at hsplit ⊢
        rw [hself.2, walk_path inExpression hpath hn hrest hascending hsplit hw]
        simp
      · have hinner : patternsOf (.node r i cs [t]) = patternsOfAll [t] ∧
            pathsOf (.node r i cs [t]) = pathsOfAll [t] ∧
            walk inExpression (.node r i cs [t]) w = walkAll inExpression [t] w.startPath := by
          cases r with
          | patternElement | patternPredicate => exact ⟨rfl, by simp [pathsOf, ht], rfl⟩
          | _ => cases hpath
        obtain ⟨hpatterns, hpaths, hwalk⟩ := hinner
        rw [hpatterns] at hsplit ⊢
        rw [hpaths, hwalk]
        refine hall inExpression w.startPath left right h.parts (fun n hn => ?_) hsplit hw
        obtain rfl := List.mem_singleton.mp hn
        rw [ht]
        rfl
    | false =>
      obtain ⟨hpatterns, hpaths, inside, w', hwalk, hpassed⟩ := walk_of_entered i cs ts w inExpression hr hpath
      obtain ⟨hbindings, hrelations⟩ := Prod.mk.inj hpassed
      rw [hpatterns] at hsplit ⊢
      rw [hpaths, hwalk, ← hrelations]
      exact hall inside w' left right h.parts
        (fun n hn => isEntered_of_mem_tops hr hpath _ (rule_mem_of_grows h hkind n hn).1) hsplit
        (hbindings.trans hw)

theorem walkAll_relations (hascending : (patternsOf tree).Pairwise fun p q => p.start < q.start) :
    ∀ (ts : List (Tree Rule)) (inExpression : Bool) (w : Walk) (left right : List (Tree Rule)),
      (∀ t ∈ ts, grammar.Grows source t) → (∀ t ∈ ts, t.rule.isEntered = true) →
      patternsOf tree = left ++ (patternsOfAll ts ++ right) → w.bindings = bindingsOf left →
      (walkAll inExpression ts w).passed =
        (bindingsOf (left ++ patternsOfAll ts), w.relations ++ (pathsOfAll ts).flatMap (relationsAlong tree))
  | [], inExpression, w, left, right, h, hr, hsplit, hw => by
    simp [walkAll, Walk.passed, patternsOfAll, pathsOfAll, hw]
  | t :: ts, inExpression, w, left, right, h, hr, hsplit, hw => by
    have hfirst := walk_relations hascending t inExpression w left (patternsOfAll ts ++ right)
      (h t (by simp)) (hr t (by simp)) (by simpa [patternsOfAll] using hsplit) hw
    obtain ⟨hbindings, hrelations⟩ := Prod.mk.inj hfirst
    have hmore := walkAll_relations hascending ts inExpression (walk inExpression t w) (left ++ patternsOf t)
      right (fun u hu => h u (by simp [hu])) (fun u hu => hr u (by simp [hu]))
      (by simpa [patternsOfAll] using hsplit) hbindings
    rw [walkAll, hmore, hrelations]
    simp [patternsOfAll, pathsOfAll]

end

end Paths

/-! ## The relations of a query -/

/-- **The relations of a query are those of its paths**, in the order of the text, one for each
relationship; the parts of each path alternate, and no edge waits behind it. -/
theorem relations_of_tree {text : String} {tree : Tree Rule} (h : parse text.toList = .ok tree) :
    (extract .cypher text).relations = (pathsOf tree).flatMap (relationsAlong tree) ∧
      ∀ path ∈ pathsOf tree, IsPath path ∧
        (relationsAlong tree path).length = (childrenOf .relationshipPattern path).length ∧
        ∀ (inExpression : Bool) (w : Walk), (walk inExpression path w).pending = none := by
  have hgrows := grows_of_parse h
  obtain ⟨-, parts, rfl, hread⟩ := reads_of_parse h
  have hwalk := walk_relations (ascending_of_parse h) _ false {} [] [] hgrows rfl (by simp) rfl
  refine ⟨?_, fun path hpath => ?_⟩
  · have hfound : (extract .cypher text).relations = (walkTree (.node .query 0 text.toList parts)).relations := by
      simp [extract, structureOf?, structure?, h, Except.map, structureOf]
    rw [hfound]
    exact (Prod.mk.inj hwalk).2.trans (List.nil_append _)
  · obtain ⟨hr, hparts⟩ := grows_of_mem_pathsOf _ hgrows hpath
    exact ⟨hparts, length_relationsAlong hparts, fun inExpression w => pending_path inExpression hr hparts⟩

/-- A query with a path of two edges, one of them to the left, and one whose nodes are known from it. -/
def pathQuery : String :=
  "MATCH (a:Driver)-[:WON]->(r:Race)<-[w:LED]-(b) WHERE (r)-->(:City) AND NOT (b)--(a) RETURN a"

theorem relations_pathQuery : ∃ tree, parse pathQuery.toList = .ok tree ∧
    (extract .cypher pathQuery).relations =
      [⟨⟨"won", "driver", "race"⟩, none⟩, ⟨⟨"led", "", "race"⟩, none⟩, ⟨⟨"", "race", "city"⟩, none⟩,
        ⟨⟨"", "", "driver"⟩, none⟩] ∧
      ∀ path ∈ pathsOf tree, (relationsAlong tree path).length =
        (childrenOf .relationshipPattern path).length := by
  obtain ⟨tree, hparse, hread⟩ := exists_tree_of_any pathQuery.toList
    (fun tree => (pathsOf tree).flatMap (relationsAlong tree) =
      [⟨⟨"won", "driver", "race"⟩, none⟩, ⟨⟨"led", "", "race"⟩, none⟩, ⟨⟨"", "race", "city"⟩, none⟩,
        ⟨⟨"", "", "driver"⟩, none⟩]) (by decide +kernel)
  obtain ⟨hrelations, hpaths⟩ := relations_of_tree hparse
  exact ⟨tree, hparse, hrelations.trans (of_decide_eq_true hread), fun path hpath => (hpaths path hpath).2.1⟩

end QueryScore.Cypher
