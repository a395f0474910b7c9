/-
# QueryScore.Proofs.Sql.Bracketed -- joins inside brackets

Aliases are looked for inside the brackets of a FROM clause, and tables are read there. Relations and
shown ON conditions come only from the joins outside. So redundant brackets leave the entities as they
are, and relations and attributes lose exactly what the bracketed joins in front of a FROM item would
give: queries that differ in redundant brackets agree on both once this is added on either side
(`extract_bracketed`), but not without it (`extract_bracketed_ne`).
-/

import Mathlib.Data.List.Perm.Basic
import QueryScore.Proofs.Sql.Hidden
import QueryScore.Proofs.Sql.Unbracketed

namespace QueryScore.Sql

/-! ## Names for tables -/

theorem Join.ownersAll_append (js ks : List Join) :
    Join.ownersAll (js ++ ks) = Join.ownersAll js ++ Join.ownersAll ks := by
  induction js with
  | nil => rfl
  | cons j js ih =>
    obtain ⟨_, _, table, _⟩ := j
    show table.owners ++ Join.ownersAll (js ++ ks) = (table.owners ++ Join.ownersAll js) ++ Join.ownersAll ks
    rw [ih, List.append_assoc]

theorem Source.owners_ofTable : ∀ (t : Table) (more : List Join),
    (Source.ofTable t more).owners = t.owners ++ Join.ownersAll more
  | .joined (.mk table joins) none, more => by
    show table.owners ++ Join.ownersAll (joins ++ more) = (table.owners ++ Join.ownersAll joins) ++ Join.ownersAll more
    rw [Join.ownersAll_append, List.append_assoc]
  | .joined (.mk _ _) (some _), _ | .named .., _ | .derived .., _ | .form .., _ => rfl

theorem Table.owners_ofSource : ∀ (s : Source) (alias? : Option Alias), (Table.ofSource s alias?).owners = s.owners
  | .mk table [], none => (List.append_nil table.owners).symm
  | .mk _ [], some _ | .mk _ (_ :: _), _ => rfl

mutual

theorem Table.owners_unbracketed : ∀ t : Table, t.unbracketed.owners = t.owners
  | .named .. | .derived .. | .form .. => rfl
  | .joined inner alias? => by
    show (Table.ofSource inner.unbracketed alias?).owners = inner.owners
    rw [Table.owners_ofSource, Source.owners_unbracketed]
  termination_by structural x => x

/-- **The names that refer to the tables of a source** are the same without its brackets. -/
theorem Source.owners_unbracketed : ∀ s : Source, s.unbracketed.owners = s.owners
  | .mk table joins => by
    show (Source.ofTable table.unbracketed (Join.unbracketedAll joins)).owners = table.owners ++ Join.ownersAll joins
    rw [Source.owners_ofTable, Table.owners_unbracketed, Join.owners_unbracketedAll]
  termination_by structural x => x

theorem Join.owners_unbracketedAll : ∀ js : List Join, Join.ownersAll (Join.unbracketedAll js) = Join.ownersAll js
  | [] => rfl
  | .mk _ _ table _ :: js => congrArg₂ _ (Table.owners_unbracketed table) (Join.owners_unbracketedAll js)
  termination_by structural x => x

end

theorem Source.relationName_ofTable : ∀ (t : Table) (more : List Join),
    (Source.ofTable t more).table.relationName = t.relationName
  | .joined (.mk _ _) none, _ => rfl
  | .joined (.mk _ _) (some _), _ | .named .., _ | .derived .., _ | .form .., _ => rfl

theorem Table.relationName_ofSource : ∀ (s : Source) (alias? : Option Alias),
    (Table.ofSource s alias?).relationName = s.table.relationName
  | .mk _ [], none => rfl
  | .mk _ [], some _ | .mk _ (_ :: _), _ => rfl

theorem Table.relationName_unbracketed : ∀ t : Table, t.unbracketed.relationName = t.relationName
  | .named .. | .form .. => rfl
  | .derived _ _ alias? => by cases alias? <;> rfl
  | .joined (.mk table joins) alias? => by
    show (Table.ofSource (Source.ofTable table.unbracketed (Join.unbracketedAll joins)) alias?).relationName =
      table.relationName
    rw [Table.relationName_ofSource, Source.relationName_ofTable, Table.relationName_unbracketed]
  termination_by structural x => x

/-- **Relations refer to a source by the same name** without its brackets. -/
theorem Source.relationName_unbracketed (s : Source) :
    s.unbracketed.table.relationName = s.table.relationName := by
  obtain ⟨table, joins⟩ := s
  show (Source.ofTable table.unbracketed (Join.unbracketedAll joins)).table.relationName = table.relationName
  rw [Source.relationName_ofTable, Table.relationName_unbracketed]

/-! ## Joins in brackets in front -/

/-- The joins inside redundant brackets around the first table of a FROM item. -/
def Table.bracketedJoins : Table → List Join
  | .joined (.mk table joins) none => table.bracketedJoins ++ joins
  | _ => []

theorem Source.joins_ofTable : ∀ (t : Table) (more : List Join),
    (Source.ofTable t.unbracketed more).joins = t.bracketedJoins.map Join.unbracketed ++ more
  | .named .., _ | .derived .., _ | .form .., _ => rfl
  | .joined (.mk table joins) none, more => by
    show (Source.ofTable (Table.ofSource (Source.ofTable table.unbracketed (Join.unbracketedAll joins)) none)
      more).joins = (table.bracketedJoins ++ joins).map Join.unbracketed ++ more
    rw [Source.ofTable_append, Source.joins_ofTable, Join.unbracketedAll_eq_map, List.map_append, List.append_assoc]
  | .joined (.mk table joins) (some a), more => by
    show (Source.ofTable (Table.ofSource (Source.ofTable table.unbracketed (Join.unbracketedAll joins)) (some a))
      more).joins = more
    generalize Source.ofTable table.unbracketed (Join.unbracketedAll joins) = s
    obtain ⟨t, js⟩ := s
    cases js <;> rfl
  termination_by structural x => x

/-- **Without its redundant brackets a source has the joins inside them as well**, in front of its own. -/
theorem Source.joins_unbracketed (s : Source) :
    s.unbracketed.joins = (s.table.bracketedJoins ++ s.joins).map Join.unbracketed := by
  obtain ⟨table, joins⟩ := s
  show (Source.ofTable table.unbracketed (Join.unbracketedAll joins)).joins =
    (table.bracketedJoins ++ joins).map Join.unbracketed
  rw [Source.joins_ofTable, Join.unbracketedAll_eq_map, List.map_append]

theorem Join.kind_unbracketed (join : Join) : join.unbracketed.kind = join.kind := by
  cases join
  rfl

theorem Join.table_unbracketed (join : Join) : join.unbracketed.table = join.table.unbracketed := by
  cases join
  rfl

theorem Join.constraint_unbracketed (join : Join) :
    join.unbracketed.shownConstraint.expr? = join.shownConstraint.expr?.map Expr.unbracketed := by
  obtain ⟨_, kind, _, constraint⟩ := join
  show (if kind.showsConstraint = true then constraint.unbracketed else .unconditional).expr? =
    (if kind.showsConstraint = true then constraint else .unconditional).expr?.map Expr.unbracketed
  split
  · cases constraint <;> rfl
  · rfl

/-! ## Blocks and their parts -/

theorem Body.blocks_unbracketed : ∀ b : Body, b.unbracketed.blocks = b.blocks.map Select.unbracketed
  | .select _ | .form _ => rfl
  | .query (.mk _ _ body _ _) => Body.blocks_unbracketed body
  | .setOp _ left right => by
    show left.unbracketed.blocks ++ right.unbracketed.blocks = (left.blocks ++ right.blocks).map Select.unbracketed
    rw [Body.blocks_unbracketed left, Body.blocks_unbracketed right, List.map_append]
  termination_by structural x => x

theorem Cte.blocks_unbracketedAll (ctes : List Cte) :
    ((Cte.unbracketedAll ctes).flatMap fun cte => cte.query.body.blocks) =
      (ctes.flatMap fun cte => cte.query.body.blocks).map Select.unbracketed := by
  induction ctes with
  | nil => rfl
  | cons cte ctes ih =>
    obtain ⟨name, ⟨recursive, inner, body, orderBy, tail⟩, source⟩ := cte
    show body.unbracketed.blocks ++ ((Cte.unbracketedAll ctes).flatMap fun cte => cte.query.body.blocks) =
      (body.blocks ++ ctes.flatMap fun cte => cte.query.body.blocks).map Select.unbracketed
    rw [Body.blocks_unbracketed, ih, List.map_append]

theorem Query.blocks_unbracketed (q : Query) : q.unbracketed.blocks = q.blocks.map Select.unbracketed := by
  obtain ⟨recursive, ctes, body, orderBy, tail⟩ := q
  show ((Cte.unbracketedAll ctes).flatMap fun cte => cte.query.body.blocks) ++ body.unbracketed.blocks =
    ((ctes.flatMap fun cte => cte.query.body.blocks) ++ body.blocks).map Select.unbracketed
  rw [Cte.blocks_unbracketedAll, Body.blocks_unbracketed, List.map_append]

theorem Select.sources_unbracketed (block : Select) :
    block.unbracketed.sources = block.sources.map Source.unbracketed := by
  obtain ⟨_, _, _, _, sources, _, _, _, _, _, _⟩ := block
  exact Source.unbracketedAll_eq_map sources

theorem Select.projection_unbracketed (block : Select) :
    block.unbracketed.projection = block.projection.map Item.unbracketed := by
  obtain ⟨_, _, projection, _, _, _, _, _, _, _, _⟩ := block
  exact Item.unbracketedAll_eq_map projection

theorem GroupBy.exprs_unbracketed (g : GroupBy) : g.unbracketed.exprs = g.exprs.map Expr.unbracketed := by
  cases g with
  | all => rfl
  | keys exprs modifiers => exact Expr.unbracketedAll_eq_map exprs

theorem Item.alias?_unbracketed (i : Item) : i.unbracketed.alias? = i.alias? := by
  cases i <;> rfl

theorem Item.expr?_unbracketed (i : Item) : i.unbracketed.expr? = i.expr?.map Expr.unbracketed := by
  cases i <;> rfl

/-- The FROM items of the blocks. -/
def Query.sources (q : Query) : List Source := q.blocks.flatMap Select.sources

theorem Query.flatMap_sources {α : Type} (q : Query) (g : Source → List α) :
    (q.blocks.flatMap fun block => block.sources.flatMap g) = q.sources.flatMap g := List.flatMap_assoc.symm

theorem Query.sources_unbracketed (q : Query) : q.unbracketed.sources = q.sources.map Source.unbracketed := by
  unfold Query.sources
  rw [Query.blocks_unbracketed, List.flatMap_map, List.map_flatMap]
  exact List.flatMap_congr fun block _ => block.sources_unbracketed

theorem Query.owners_unbracketed (q : Query) : q.unbracketed.owners = q.owners := by
  unfold Query.owners
  rw [Query.flatMap_sources, Query.flatMap_sources, Query.sources_unbracketed, List.flatMap_map]
  exact List.flatMap_congr fun s _ => s.owners_unbracketed

theorem Query.named_unbracketed (q : Query) : q.unbracketed.named = q.named := by
  simp only [Query.named, Query.blocks_unbracketed, List.flatMap_map, Select.projection_unbracketed,
    List.filterMap_map, Function.comp_def, Item.alias?_unbracketed]

/-! ## What the brackets take away -/

/-- The joins inside redundant brackets in front of the FROM items. -/
def Query.bracketedJoins (q : Query) : List Join := q.sources.flatMap fun s => s.table.bracketedJoins

/-- The shown conditions of the joins inside redundant brackets in front of a FROM item. -/
def Source.bracketedConditions (s : Source) : List Expr :=
  s.table.bracketedJoins.filterMap fun join => join.shownConstraint.expr?

/-- The attributes that the columns of these conditions would give. -/
def Query.bracketedAttributes (q : Query) : SortedSet String :=
  .ofList ((columnsOf (q.sources.flatMap Source.bracketedConditions)).filterMap (attribute? q.owners q.named))

/-- The key of the relation that a join of a source gives. -/
def Source.joinKey (s : Source) (join : Join) : RelationKey :=
  ⟨join.kind.side, s.table.relationName, join.table.relationName⟩

/-- The keys of the relations that the bracketed joins would give. -/
def Query.bracketedKeys (q : Query) : List RelationKey :=
  q.sources.flatMap fun s => s.table.bracketedJoins.map s.joinKey

/-! ## Attributes -/

theorem columnsOf_append (es es' : List Expr) : columnsOf (es ++ es') = columnsOf es ++ columnsOf es' := by
  unfold columnsOf
  rw [List.flatMap_append, List.filterMap_append]

theorem columnsOf_perm {es es' : List Expr} (h : es.Perm es') : (columnsOf es).Perm (columnsOf es') :=
  (h.flatMap_right _).filterMap _

/-- The columns of expressions are the same without the brackets inside them. -/
theorem columnsOf_unbracketed (es : List Expr) : columnsOf (es.map Expr.unbracketed) = columnsOf es := by
  induction es with
  | nil => rfl
  | cons e es ih =>
    have hhead : columnsOf [e.unbracketed] = columnsOf [e] := by
      have hcolumns := (Mark.follows_id_iff.mp (Expr.follows_unbracketed e)).2
      unfold columnsOf
      rw [List.flatMap_singleton, List.flatMap_singleton]
      exact hcolumns
    show columnsOf ([e.unbracketed] ++ es.map Expr.unbracketed) = columnsOf ([e] ++ es)
    rw [columnsOf_append, columnsOf_append, hhead, ih]

theorem Source.conditions_unbracketed (s : Source) :
    (s.unbracketed.joins.filterMap fun join => join.shownConstraint.expr?) =
      ((s.table.bracketedJoins ++ s.joins).filterMap fun join => join.shownConstraint.expr?).map
        Expr.unbracketed := by
  rw [Source.joins_unbracketed, List.filterMap_map, List.map_filterMap]
  exact List.filterMap_congr fun join _ => Join.constraint_unbracketed join

/-- The expressions of a block that attributes are taken from when its redundant brackets are left out. -/
def Select.openSources (block : Select) : List Expr :=
  block.projected ++
    (block.sources.flatMap fun s => (s.table.bracketedJoins ++ s.joins).filterMap fun join =>
      join.shownConstraint.expr?) ++
    block.groupBy.exprs ++ block.having.toList

theorem Select.attributeSources_unbracketed (block : Select) :
    block.unbracketed.attributeSources = block.openSources.map Expr.unbracketed := by
  have hprojected : block.unbracketed.projected = block.projected.map Expr.unbracketed := by
    unfold Select.projected
    rw [Select.projection_unbracketed, List.filterMap_map, List.map_filterMap]
    exact List.filterMap_congr fun i _ => Item.expr?_unbracketed i
  have hgroup : block.unbracketed.groupBy = block.groupBy.unbracketed := by
    cases block
    rfl
  have hhaving : block.unbracketed.having.toList = block.having.toList.map Expr.unbracketed := by
    obtain ⟨_, _, _, _, _, _, _, _, _, having, _⟩ := block
    cases having <;> rfl
  unfold Select.attributeSources Select.openSources
  simp only [hprojected, hgroup, hhaving, GroupBy.exprs_unbracketed, Select.sources_unbracketed,
    List.flatMap_map, Source.conditions_unbracketed, List.map_append, List.map_flatMap]

/-- The conditions in brackets are all that the brackets hide. -/
theorem Select.openSources_perm (block : Select) :
    block.openSources.Perm (block.attributeSources ++ block.sources.flatMap Source.bracketedConditions) := by
  have hconditions := (List.flatMap_append_perm block.sources Source.bracketedConditions
    (fun s => s.joins.filterMap fun join => join.shownConstraint.expr?)).symm
  have hsplit := ((hconditions.append_left block.projected).append_right block.groupBy.exprs).append_right
    block.having.toList
  unfold Select.openSources Select.attributeSources
  simp only [List.filterMap_append]
  refine hsplit.trans ?_
  simp only [List.append_assoc]
  refine List.Perm.append_left _ ?_
  refine List.perm_append_comm.trans ?_
  rw [List.append_assoc, List.append_assoc]

/-- The expression of a sort key. -/
def SortItem.expr : SortItem → Expr
  | .mk e _ _ => e

theorem Query.columns_eq (q : Query) : q.columns =
    columnsOf (q.blocks.flatMap Select.attributeSources ++ q.orderBy.map SortItem.expr) := rfl

theorem Query.sortExprs_unbracketed (q : Query) :
    q.unbracketed.orderBy.map SortItem.expr = (q.orderBy.map SortItem.expr).map Expr.unbracketed := by
  obtain ⟨_, _, _, orderBy, _⟩ := q
  show (SortItem.unbracketedAll orderBy).map SortItem.expr = (orderBy.map SortItem.expr).map Expr.unbracketed
  induction orderBy with
  | nil => rfl
  | cons k ks ih =>
    obtain ⟨e, _, _⟩ := k
    exact congrArg (e.unbracketed :: ·) ih

/-- **The columns that attributes are taken from are those of the query and those in its brackets.** -/
theorem Query.columns_unbracketed (q : Query) :
    q.unbracketed.columns.Perm (q.columns ++ columnsOf (q.sources.flatMap Source.bracketedConditions)) := by
  have hopen : q.unbracketed.columns =
      columnsOf (q.blocks.flatMap Select.openSources ++ q.orderBy.map SortItem.expr) := by
    rw [← columnsOf_unbracketed, List.map_append, ← Query.sortExprs_unbracketed, List.map_flatMap]
    simp only [← Select.attributeSources_unbracketed]
    rw [← List.flatMap_map, ← Query.blocks_unbracketed, ← Query.columns_eq]
  have hblocks : (q.blocks.flatMap Select.openSources).Perm
      (q.blocks.flatMap Select.attributeSources ++ q.sources.flatMap Source.bracketedConditions) := by
    rw [← Query.flatMap_sources]
    exact (List.Perm.flatMap_left _ fun block _ => block.openSources_perm).trans
      (List.flatMap_append_perm _ _ _).symm
  rw [hopen, Query.columns_eq, columnsOf_append, columnsOf_append, List.append_assoc]
  refine ((columnsOf_perm hblocks).append_right _).trans ?_
  rw [columnsOf_append, List.append_assoc]
  exact List.perm_append_comm.append_left _

/-- **Without redundant brackets the conditions inside them give their attributes as well.** -/
theorem Query.attributes_unbracketed (q : Query) :
    q.unbracketed.attributes = q.attributes.union q.bracketedAttributes := by
  apply SortedSet.ext
  intro x
  have hhides (ref : ColumnRef) : q.unbracketed.Hides ref ↔ q.Hides ref := by
    unfold Query.Hides
    rw [Query.named_unbracketed]
  rw [SortedSet.mem_union, Query.mem_attributes_iff, Query.mem_attributes_iff, Query.bracketedAttributes,
    SortedSet.mem_ofList, List.mem_filterMap]
  simp only [attribute?_eq_some_iff, (Query.columns_unbracketed q).mem_iff, List.mem_append, hhides,
    Query.owners_unbracketed, or_and_right, exists_or]

/-! ## Relations -/

theorem Source.relations_keys (s : Source) : s.relations.map Relation.toRelationKey = s.joins.map s.joinKey := by
  unfold Source.relations
  rw [List.map_map]
  rfl

theorem Query.relations_eq (q : Query) : q.relations = q.sources.flatMap Source.relations :=
  q.flatMap_sources Source.relations

theorem Query.relations_keys (q : Query) :
    q.relations.map Relation.toRelationKey = q.sources.flatMap fun s => s.joins.map s.joinKey := by
  rw [Query.relations_eq, List.map_flatMap]
  exact List.flatMap_congr fun s _ => s.relations_keys

/-- **Without redundant brackets the joins inside them give their relations as well**, in the order of
the text. -/
theorem Query.relations_unbracketed (q : Query) : q.unbracketed.relations.map Relation.toRelationKey =
    q.sources.flatMap fun s => (s.table.bracketedJoins ++ s.joins).map s.joinKey := by
  rw [Query.relations_keys, Query.sources_unbracketed, List.flatMap_map]
  refine List.flatMap_congr fun s _ => ?_
  rw [Source.joins_unbracketed, List.map_map]
  refine List.map_congr_left fun join _ => ?_
  show (⟨join.unbracketed.kind.side, s.unbracketed.table.relationName, join.unbracketed.table.relationName⟩ :
    RelationKey) = s.joinKey join
  rw [Join.kind_unbracketed, Join.table_unbracketed, Table.relationName_unbracketed,
    Source.relationName_unbracketed]
  rfl

/-- The keys of all these relations are those of the query and those in its brackets. -/
theorem Query.relations_unbracketed_perm (q : Query) :
    (q.unbracketed.relations.map Relation.toRelationKey).Perm
      (q.relations.map Relation.toRelationKey ++ q.bracketedKeys) := by
  rw [Query.relations_unbracketed, Query.relations_keys]
  simp only [List.map_append]
  exact (List.flatMap_append_perm _ _ _).symm.trans List.perm_append_comm

/-! ## Joins that give no relation -/

/-- All joins of the FROM clauses of the blocks, those in brackets included. -/
def Query.joinsWithin (q : Query) : List Join := q.sources.flatMap Source.joinsWithin

/-- The joins inside brackets: those around the first table of a FROM item or around the table of a join. -/
def Source.innerJoins (s : Source) : List Join :=
  s.table.joinsWithin ++ s.joins.flatMap fun join => join.table.joinsWithin

/-- The joins inside the brackets of the FROM clauses of the blocks. -/
def Query.innerJoins (q : Query) : List Join := q.sources.flatMap Source.innerJoins

theorem Join.withinAll_perm (js : List Join) :
    (Join.withinAll js).Perm (js ++ js.flatMap fun join => join.table.joinsWithin) := by
  induction js with
  | nil => exact .refl _
  | cons join js ih =>
    obtain ⟨everywhere, kind, table, constraint⟩ := join
    show (table.joinsWithin ++ .mk everywhere kind table constraint :: Join.withinAll js).Perm
      (.mk everywhere kind table constraint ::
        (js ++ (table.joinsWithin ++ js.flatMap fun join => join.table.joinsWithin)))
    refine List.perm_middle.trans (.cons _ ?_)
    refine (ih.append_left _).trans ?_
    rw [← List.append_assoc, ← List.append_assoc]
    exact List.perm_append_comm.append_right _

theorem Source.joinsWithin_perm (s : Source) : s.joinsWithin.Perm (s.joins ++ s.innerJoins) := by
  obtain ⟨table, joins⟩ := s
  show (table.joinsWithin ++ Join.withinAll joins).Perm
    (joins ++ (table.joinsWithin ++ joins.flatMap fun join => join.table.joinsWithin))
  refine ((Join.withinAll_perm joins).append_left _).trans ?_
  rw [← List.append_assoc, ← List.append_assoc]
  exact List.perm_append_comm.append_right _

/-- **Each join outside brackets gives one relation**, and the others give none. -/
theorem Query.relations_length (q : Query) :
    q.relations.length + q.innerJoins.length = q.joinsWithin.length := by
  have hrelations : q.relations.length = (q.sources.flatMap Source.joins).length := by
    rw [← List.length_map Relation.toRelationKey, Query.relations_keys, List.length_flatMap, List.length_flatMap]
    simp only [List.length_map]
  have hsplit : q.joinsWithin.Perm (q.sources.flatMap Source.joins ++ q.innerJoins) :=
    (List.Perm.flatMap_left _ fun s _ => s.joinsWithin_perm).trans (List.flatMap_append_perm _ _ _).symm
  rw [hrelations, hsplit.length_eq, List.length_append]

/-! ## What is found -/

variable {q q' : Query}

theorem Query.entities_unbracketed (q : Query) : q.unbracketed.entities = q.entities := by
  unfold Query.entities
  rw [(Query.follows_unbracketed q).tables]

/-- A query without joins in redundant brackets has the attributes and relations of the query without
redundant brackets. -/
theorem Query.found_unbracketed (h : q.bracketedJoins = []) : q.unbracketed.attributes = q.attributes ∧
    q.unbracketed.relations.map Relation.toRelationKey = q.relations.map Relation.toRelationKey := by
  have hnone : ∀ s ∈ q.sources, s.table.bracketedJoins = [] := List.flatMap_eq_nil_iff.mp h
  constructor
  · have hconditions : q.sources.flatMap Source.bracketedConditions = [] := by
      refine List.flatMap_eq_nil_iff.mpr fun s hs => ?_
      unfold Source.bracketedConditions
      rw [hnone s hs, List.filterMap_nil]
    rw [Query.attributes_unbracketed, Query.bracketedAttributes, hconditions]
    apply SortedSet.ext
    intro x
    rw [SortedSet.mem_union]
    exact or_iff_left (SortedSet.not_mem_empty x)
  · rw [Query.relations_unbracketed, Query.relations_keys]
    refine List.flatMap_congr fun s hs => ?_
    rw [hnone s hs, List.nil_append]

/-- **What is found when redundant brackets are put around FROM items or taken away.** The entities stay
the same. Attributes and relations do not in general: they agree once the attributes of the ON conditions
and the keys of the joins inside these brackets are added on either side. Where no joins are inside they
stay the same. Of all joins of the FROM clauses those outside brackets give one relation each. -/
theorem extract_bracketed {text text' : String} (hq : parse text.toList = .ok q)
    (hq' : parse text'.toList = .ok q') (h : q'.unbracketed = q.unbracketed) :
    (extract .sql text').entities = (extract .sql text).entities ∧
      (extract .sql text').attributes.union q'.bracketedAttributes =
        (extract .sql text).attributes.union q.bracketedAttributes ∧
      ((extract .sql text').relations.map Relation.toRelationKey ++ q'.bracketedKeys).Perm
        ((extract .sql text).relations.map Relation.toRelationKey ++ q.bracketedKeys) ∧
      (q.bracketedJoins = [] → q'.bracketedJoins = [] →
        (extract .sql text').attributes = (extract .sql text).attributes ∧
          (extract .sql text').relations.map Relation.toRelationKey =
            (extract .sql text).relations.map Relation.toRelationKey) ∧
      (extract .sql text).relations.length + q.innerJoins.length = q.joinsWithin.length := by
  rw [extract_of_parse hq, extract_of_parse hq']
  refine ⟨?entities, ?attributes, ?relations, ?unbracketed, q.relations_length⟩
  case entities =>
    show q'.entities = q.entities
    rw [← q.entities_unbracketed, ← q'.entities_unbracketed, h]
  case attributes =>
    show q'.attributes.union q'.bracketedAttributes = q.attributes.union q.bracketedAttributes
    rw [← Query.attributes_unbracketed, ← Query.attributes_unbracketed, h]
  case relations =>
    have hperm := q'.relations_unbracketed_perm
    rw [h] at hperm
    exact hperm.symm.trans q.relations_unbracketed_perm
  case unbracketed =>
    intro hnone hnone'
    obtain ⟨hattributes, hrelations⟩ := Query.found_unbracketed hnone
    obtain ⟨hattributes', hrelations'⟩ := Query.found_unbracketed hnone'
    rw [h] at hattributes' hrelations'
    exact ⟨hattributes'.symm.trans hattributes, hrelations'.symm.trans hrelations⟩

/-- A query with a join. -/
def openText : String := "SELECT a.x FROM a JOIN b ON a.i = b.i"

/-- The same query with the join in brackets. -/
def bracketedText : String := "SELECT a.x FROM (a JOIN b ON a.i = b.i)"

/-- The tree of such a query by its FROM item. -/
def joinQuery (s : Source) : Query :=
  .mk false [] (.select (.mk false [] [.expr (.path [⟨['a'], none⟩, ⟨['x'], none⟩])] [] [s] [] none
    (.keys [] []) [] none [])) [] []

/-- The FROM item without brackets. -/
def openSource : Source :=
  .mk (.named [⟨['a'], none⟩] [] none [])
    [.mk false .plain (.named [⟨['b'], none⟩] [] none [])
      (.on (.form [.expr (.path [⟨['a'], none⟩, ⟨['i'], none⟩]), .text [' ', '=', ' '],
        .expr (.path [⟨['b'], none⟩, ⟨['i'], none⟩])]))]

-- Trees cannot be compared by a decision, so the tree of a text is matched with the expected one.

/-- The FROM item is the one without brackets. -/
def isOpenSource : Source → Bool
  | .mk (.named left [] none [])
      [.mk false .plain (.named right [] none []) (.on (.form [.expr (.path here), .text sign, .expr (.path there)]))] =>
    decide ((left = [⟨['a'], none⟩] ∧ right = [⟨['b'], none⟩]) ∧ here = [⟨['a'], none⟩, ⟨['i'], none⟩] ∧
      sign = [' ', '=', ' '] ∧ there = [⟨['b'], none⟩, ⟨['i'], none⟩])
  | _ => false

/-- The query is such a query, and its FROM item passes a check. -/
def isJoinQuery (check : Source → Bool) : Query → Bool
  | .mk false [] (.select (.mk false [] [.expr (.path shown)] [] [s] [] none (.keys [] []) [] none [])) [] [] =>
    decide (shown = [⟨['a'], none⟩, ⟨['x'], none⟩]) && check s
  | _ => false

/-- The FROM item is the one in brackets. -/
def isBracketedSource : Source → Bool
  | .mk (.joined s none) [] => isOpenSource s
  | _ => false

theorem eq_of_isOpenSource {s : Source} (h : isOpenSource s = true) : s = openSource := by
  unfold isOpenSource at h
  split at h
  · obtain ⟨⟨rfl, rfl⟩, rfl, rfl, rfl⟩ := of_decide_eq_true h
    rfl
  · cases h

theorem eq_of_isBracketedSource {s : Source} (h : isBracketedSource s = true) :
    s = .mk (.joined openSource none) [] := by
  unfold isBracketedSource at h
  split at h
  · rw [eq_of_isOpenSource h]
  · cases h

theorem eq_of_isJoinQuery {check : Source → Bool} {q : Query} {s : Source}
    (hcheck : ∀ found, check found = true → found = s) (h : isJoinQuery check q = true) : q = joinQuery s := by
  unfold isJoinQuery at h
  split at h
  · obtain ⟨hshown, hfound⟩ := Bool.and_eq_true_iff.mp h
    obtain rfl := of_decide_eq_true hshown
    rw [hcheck _ hfound]
    rfl
  · cases h

theorem parse_openText : parse openText.toList = .ok (joinQuery openSource) := by
  obtain ⟨q, hq, hmatched⟩ := exists_query_of_any openText (isJoinQuery isOpenSource) (by decide +kernel)
  rw [hq, eq_of_isJoinQuery (fun _ => eq_of_isOpenSource) hmatched]

theorem parse_bracketedText : parse bracketedText.toList = .ok (joinQuery (.mk (.joined openSource none) [])) := by
  obtain ⟨q, hq, hmatched⟩ := exists_query_of_any bracketedText (isJoinQuery isBracketedSource) (by decide +kernel)
  rw [hq, eq_of_isJoinQuery (fun _ => eq_of_isBracketedSource) hmatched]

theorem unbracketed_bracketedText :
    (joinQuery openSource).unbracketed = (joinQuery (.mk (.joined openSource none) [])).unbracketed := rfl

theorem extract_bracketed_bracketedText : ∃ q q', parse bracketedText.toList = .ok q ∧
    parse openText.toList = .ok q' ∧ q'.unbracketed = q.unbracketed ∧
    (extract .sql openText).entities = (extract .sql bracketedText).entities ∧
    (extract .sql openText).attributes.union q'.bracketedAttributes =
      (extract .sql bracketedText).attributes.union q.bracketedAttributes ∧
    ((extract .sql openText).relations.map Relation.toRelationKey).Perm
      ((extract .sql bracketedText).relations.map Relation.toRelationKey ++ [⟨"INNER", "a", "b"⟩]) ∧
    (extract .sql bracketedText).relations.length + 1 = 1 := by
  obtain ⟨hentities, hattributes, hrelations, -, hlength⟩ :=
    extract_bracketed parse_bracketedText parse_openText unbracketed_bracketedText
  have hkeys : (joinQuery (.mk (.joined openSource none) [])).bracketedKeys = [⟨"INNER", "a", "b"⟩] := by
    decide +kernel
  have hnone : (joinQuery openSource).bracketedKeys = [] := rfl
  have hinner : (joinQuery (.mk (.joined openSource none) [])).innerJoins.length = 1 := rfl
  have hwithin : (joinQuery (.mk (.joined openSource none) [])).joinsWithin.length = 1 := rfl
  rw [hkeys, hnone, List.append_nil] at hrelations
  rw [hinner, hwithin] at hlength
  exact ⟨_, _, parse_bracketedText, parse_openText, unbracketed_bracketedText, hentities, hattributes,
    hrelations, hlength⟩

/-- **A join inside brackets gives no relation, and the columns of its condition no attributes.** -/
theorem extract_bracketed_ne : ∃ q q', parse bracketedText.toList = .ok q ∧ parse openText.toList = .ok q' ∧
    q'.unbracketed = q.unbracketed ∧
    (extract .sql openText).attributes ≠ (extract .sql bracketedText).attributes ∧
    (extract .sql openText).relationKeys ≠ (extract .sql bracketedText).relationKeys ∧
    (extract .sql bracketedText).relations.length ≠ q.joinsWithin.length := by
  refine ⟨_, _, parse_bracketedText, parse_openText, unbracketed_bracketedText, ?_⟩
  rw [extract_of_parse parse_openText, extract_of_parse parse_bracketedText]
  decide +kernel

end QueryScore.Sql
