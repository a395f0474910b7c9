/-
# QueryScore.Proofs.Filter.Extracted -- the filters of a text are those of its tree

Filters are extracted as texts and cut at the words AND and OR; the tree of the text has a node for
each connective. A condition of a SQL tree is made of connectives and brackets around its atoms
(`Sql.Expr.atoms`). It is written back with a blank on either side of a connective and with its
brackets, so the written form spells the condition (`Sql.spells_render`). For either language the two
agree (`filters_of_tree`): the filters of a text, split, are the atoms of the conditions in its tree,
as long as the conditions can be told from what is written of them (`ShowsFilters`). What an atom looks
like is left open: any expression that the splitting leaves alone. A connective inside an atom that no
bracket hides is taken for one of the condition (`filters_choosingCondition`).
-/

import QueryScore.Extraction
import QueryScore.Proofs.Cypher.Condition
import QueryScore.Proofs.Filter.Spelling
import QueryScore.Sql.Extract

namespace QueryScore.Sql

open Text QueryScore.Filter Name

/-! ## The conditions of a SQL tree -/

/-- **`e.atoms`** -- the expressions that AND and OR join, brackets looked through. -/
def Expr.atoms : Expr → List Expr
  | .connective _ left right => left.atoms ++ right.atoms
  | .nested inner => inner.atoms
  | e => [e]

/-- The WHERE conditions of a query. -/
def Query.conditions (q : Query) : List Expr := q.blocks.flatMap fun block => block.condition.toList

/-- A condition with its atoms, as they are written. -/
def Expr.predicate (e : Expr) : Predicate := ⟨e.render, e.atoms.map Expr.render⟩

/-- The predicates of a query. -/
def Query.predicates (q : Query) : List Predicate := q.conditions.map Expr.predicate

/-! ## Written conditions -/

theorem render_append (xs ys : List Mark) : Mark.render (xs ++ ys) = Mark.render xs ++ Mark.render ys :=
  List.flatMap_append

theorem render_nested (e : Expr) : (Expr.nested e).render = '(' :: (e.render ++ [')']) := by
  rw [Expr.render, Expr.marks, List.cons_append, List.cons_append]
  show Mark.render (words "(" :: (e.marks ++ [words ")"])) = _
  show '(' :: Mark.render (e.marks ++ [words ")"]) = _
  rw [render_append]
  rfl

/-- A connective without its blanks. -/
def Connective.word : Connective → List Char
  | .and => ['A', 'N', 'D']
  | .or => ['O', 'R']

theorem Connective.isConnective : ∀ op : Connective, IsConnective op.word
  | .and => ⟨"AND", by simp, by decide⟩
  | .or => ⟨"OR", by simp, by decide⟩

theorem render_connective (op : Connective) (l r : Expr) : (Expr.connective op l r).render =
    (l.render ++ [' ']) ++ (op.word ++ (' ' :: r.render)) := by
  rw [Expr.render, Expr.marks]
  show Mark.render (l.marks ++ words op.words :: r.marks) = _
  rw [render_append]
  cases op <;> simp [Expr.render, Mark.render, words, Connective.words, Connective.word]

/-- **The written form of a condition spells it.** -/
theorem spells_render : ∀ e : Expr, (∀ a ∈ e.atoms, ∃ c ∈ a.render, isBlank c = false) →
    Spells (trim e.render) (e.atoms.map fun a => trim a.render)
  | .connective op l r, hink => by
    have hspace : Blank [' '] := fun c hc => by
      obtain rfl := List.mem_singleton.mp hc
      decide
    have hl := spells_render l fun a ha => hink a (List.mem_append_left _ ha)
    have hr := spells_render r fun a ha => hink a (List.mem_append_right _ ha)
    rw [← trim_append_blank hspace] at hl
    rw [← trim_append hspace .nil, List.append_nil] at hr
    rw [render_connective, Expr.atoms, List.map_append]
    exact hl.connect op.isConnective hr ⟨' ', by simp, .inl (by decide)⟩ ⟨' ', rfl, .inl (by decide)⟩
  | .nested inner, hink => by
    rw [render_nested, (inked_wrap inner.render).trim]
    exact (spells_render inner hink).wrap
  | .column name, hink => .of_ink (hink (.column name) (by simp [Expr.atoms]))
  | .path names, hink => .of_ink (hink (.path names) (by simp [Expr.atoms]))
  | .call name tail, hink => .of_ink (hink (.call name tail) (by simp [Expr.atoms]))
  | .form parts, hink => .of_ink (hink (.form parts) (by simp [Expr.atoms]))

/-- The atoms of a condition are those of its operands. -/
theorem flatMap_operands : ∀ e : Expr, e.operands.flatMap Expr.atoms = e.atoms
  | .connective _ l r => by
    rw [Expr.operands, Expr.atoms, List.flatMap_append, flatMap_operands l, flatMap_operands r]
  | .nested _ | .column _ | .path _ | .call _ _ | .form _ => List.flatMap_singleton ..

/-! ## The filters of a SQL query -/

theorem shown_predicate {e : Expr} (h : ∀ a ∈ e.atoms, Whole (normalizeFragment a.render)) :
    e.predicate.Shown where
  spells := by
    have hspells := spells_render e fun a ha => ink_of_normalizeFragment (h a ha).inked.ne_nil
    simpa [Expr.predicate, List.map_map, Function.comp_def] using hspells
  whole a ha := by
    obtain ⟨b, hb, rfl⟩ := List.mem_map.mp ha
    exact h b hb

theorem Query.shown {q : Query} (h : ∀ p ∈ q.predicates, ∀ a ∈ p.atoms, Whole (normalizeFragment a)) :
    ∀ p ∈ q.predicates, p.Shown := by
  intro p hp
  obtain ⟨e, he, rfl⟩ := List.mem_map.mp hp
  exact shown_predicate fun a ha => h _ hp _ (List.mem_map_of_mem ha)

/-- **The filters of a query, split as texts, are the atoms of its conditions**, as long as the
splitting leaves each atom alone. -/
theorem normalize_filters {q : Query}
    (h : ∀ p ∈ q.predicates, ∀ a ∈ p.atoms, Whole (normalizeFragment a)) :
    normalize q.filters.toList = .ofList ((q.predicates.flatMap Predicate.forms).map String.ofList) := by
  -- The filters are those of the operands, cut once by the tree.
  have hshown : ∀ o ∈ q.conditions.flatMap Expr.operands, o.predicate.Shown := by
    intro o ho
    obtain ⟨e, he, ho⟩ := List.mem_flatMap.mp ho
    refine shown_predicate fun a ha => h _ (List.mem_map_of_mem he) _ (List.mem_map_of_mem ?_)
    rw [← flatMap_operands e]
    exact List.mem_flatMap.mpr ⟨o, ho, ha⟩
  have hforms : ((q.conditions.flatMap Expr.operands).map Expr.predicate).flatMap Predicate.forms =
      q.predicates.flatMap Predicate.forms := by
    have hflat (es : List Expr) : (es.map Expr.predicate).flatMap Predicate.forms =
        (es.flatMap Expr.atoms).map fun a => normalizeFragment a.render := by
      simp [List.flatMap_map, Predicate.forms, Expr.predicate, List.map_flatMap, List.map_map,
        Function.comp_def]
    rw [Query.predicates, hflat, hflat, List.flatMap_assoc]
    simp only [flatMap_operands]
  rw [← hforms]
  refine normalize_of_shown (fun f => ?_) fun p hp => ?_
  · simp only [Query.filters, SortedSet.mem_ofList, List.mem_filter, List.mem_map, decide_eq_true_eq]
    constructor
    · rintro ⟨⟨o, ho, rfl⟩, -⟩
      exact ⟨_, ⟨o, ho, rfl⟩, rfl⟩
    · rintro ⟨_, ⟨o, ho, rfl⟩, rfl⟩
      refine ⟨⟨o, ho, rfl⟩, fun hnil => ?_⟩
      have hform := inked_normalizeFragment (hshown o ho).spells.inked
      rw [normalizeFragment_trim] at hform
      exact hform.ne_nil (String.ofList_eq_empty_iff.mp hnil)
  · obtain ⟨o, ho, rfl⟩ := List.mem_map.mp hp
    exact hshown o ho

end QueryScore.Sql

namespace QueryScore

open QueryScore.Filter Name

/-! ## What the tree says -/

/-- **`predicates language text`** -- the conditions in the tree of a text, with their atoms; none if
the text has no tree. -/
def predicates (language : Language) (text : String) : List Predicate :=
  match language with
  | .sql =>
    match Sql.parse text.toList with
    | .ok q => q.predicates
    | .error _ => []
  | .cypher =>
    match Cypher.parse text.toList with
    | .ok tree => Cypher.predicates tree
    | .error _ => []

/-- **`ShowsFilters language text`** -- the conditions of a text can be told from what is written of
them. A SQL condition is written back from the tree, and the splitting leaves its atoms alone; a
Cypher condition is a stretch of the text. -/
structure ShowsFilters (language : Language) (text : String) : Prop where
  sql : language = .sql → ∀ p ∈ predicates .sql text, ∀ a ∈ p.atoms, Whole (normalizeFragment a)
  cypher : language = .cypher → ∀ tree ∈ (Cypher.parse text.toList).toOption,
    Cypher.ShowsConditions text.toList tree

instance (language : Language) (text : String) : Decidable (ShowsFilters language text) :=
  decidable_of_iff ((language = .sql → ∀ p ∈ predicates .sql text, ∀ a ∈ p.atoms,
        Whole (normalizeFragment a)) ∧
      (language = .cypher → ∀ tree ∈ (Cypher.parse text.toList).toOption,
        Cypher.ShowsConditions text.toList tree))
    ⟨fun h => ⟨h.1, h.2⟩, fun h => ⟨h.sql, h.cypher⟩⟩

/-! ## What the text says -/

/-- A text without a tree has no filters. -/
theorem normalize_filters_of_error {language : Language} {text : String} {failure : ParseFailure}
    (h : structureOf? language text = .error failure) :
    Filter.normalize (extract language text).filters.toList = .ofList [] := by
  rw [extract, h]
  rfl

/-- **The filters of a text are those of its tree.** Each condition of the tree is split into its
atoms, none cut and no two left together, and the set of the atoms is that of the extracted
filters. -/
theorem filters_of_tree {language : Language} {text : String} (h : ShowsFilters language text) :
    (∀ p ∈ predicates language text, Filter.atoms (normalizeFragment p.text) = p.forms) ∧
      Filter.normalize (extract language text).filters.toList =
        .ofList (((predicates language text).flatMap Predicate.forms).map String.ofList) := by
  cases language with
  | sql =>
    have hatoms := h.sql rfl
    cases hparse : Sql.parse text.toList with
    | error failure =>
      have herror : structureOf? .sql text = .error failure := by simp [structureOf?, hparse, Except.map]
      simp [predicates, hparse, normalize_filters_of_error herror]
    | ok q =>
      have hfound : (extract .sql text).filters = q.filters := by
        simp [extract, structureOf?, hparse, Except.map, Sql.Query.toStructure]
      simp only [predicates, hparse] at hatoms ⊢
      exact ⟨fun p hp => (Sql.Query.shown hatoms p hp).atoms_eq, hfound ▸ Sql.normalize_filters hatoms⟩
  | cypher =>
    cases hparse : Cypher.parse text.toList with
    | error failure =>
      have herror : structureOf? .cypher text = .error failure := by
        simp [structureOf?, Cypher.structure?, hparse, Except.map]
      simp [predicates, hparse, normalize_filters_of_error herror]
    | ok tree =>
      have hfound : (extract .cypher text).filters = (Cypher.walkTree tree).filters := by
        simp [extract, structureOf?, Cypher.structure?, hparse, Except.map, Cypher.structureOf]
      have hshow := h.cypher rfl tree (by simp [hparse, Except.toOption])
      simp only [predicates, hparse]
      exact ⟨fun p hp => (Cypher.shown_predicates hparse hshow p hp).atoms_eq,
        hfound ▸ Cypher.normalize_filters hparse hshow⟩

/-- A Cypher condition with connectives in quotes, in parentheses and under a NOT. -/
def nestedCondition : String := "MATCH (n) WHERE (n.x OR n.y = 'a AND b') AND NOT (n.x OR n.z) RETURN n"

/-- A SQL condition with an AND that belongs to a BETWEEN. -/
def rangedCondition : String := "SELECT a FROM t WHERE (a BETWEEN 1 AND 2 OR b) AND c"

theorem filters_nestedCondition :
    (ShowsFilters .cypher nestedCondition ∧
      Filter.normalize (extract .cypher nestedCondition).filters.toList =
        .ofList ["n.x", "n.y = 'a and b'", "not (n.x or n.z)"]) ∧
    ShowsFilters .sql rangedCondition ∧
      Filter.normalize (extract .sql rangedCondition).filters.toList =
        .ofList ["a between 1 and 2", "b", "c"] := by
  have hcypher : ShowsFilters .cypher nestedCondition ∧
      ((predicates .cypher nestedCondition).flatMap Predicate.forms).map String.ofList =
        ["n.x", "n.y = 'a and b'", "not (n.x or n.z)"] := by decide +kernel
  have hsql : ShowsFilters .sql rangedCondition ∧
      ((predicates .sql rangedCondition).flatMap Predicate.forms).map String.ofList =
        ["a between 1 and 2", "b", "c"] := by decide +kernel
  refine ⟨⟨hcypher.1, ?_⟩, hsql.1, ?_⟩
  · rw [(filters_of_tree hcypher.1).2, hcypher.2]
  · rw [(filters_of_tree hsql.1).2, hsql.2]

/-- A SQL text whose condition has a CASE. -/
def choosingCondition : String :=
  "SELECT a FROM t WHERE CASE WHEN a = 1 AND b = 2 THEN 1 ELSE 0 END = 1"

/-- The tree has one atom; the text is cut at the AND inside the CASE. -/
theorem filters_choosingCondition :
    ((predicates .sql choosingCondition).flatMap Predicate.forms).map String.ofList =
      ["case when a = 1 and b = 2 then 1 else 0 end = 1"] ∧
    Filter.normalize (extract .sql choosingCondition).filters.toList =
      .ofList ["b = 2 then 1 else 0 end = 1", "case when a = 1"] := by
  decide +kernel

end QueryScore
