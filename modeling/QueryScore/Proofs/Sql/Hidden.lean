/-
# QueryScore.Proofs.Sql.Hidden -- columns that a projected name hides

A name that a projection gives to an item can be meant where the rows are already projected: in
grouping keys, in HAVING and in sort keys. In a projected expression or in the condition of a join it
cannot, so a bare column of that name is a column of a table there. The names that the blocks project
are nevertheless compared with every bare column that is searched. So a column of a projection or of a
shown ON condition gives its attribute unless it is bare and some block projects its name
(`attribute_mem_iff`). An expression that is named like its own column gives none (`attribute_hidden`).
-/

import QueryScore.Proofs.Sql.Aliases

namespace QueryScore.Sql

/-! ## Columns and the attributes they stand for -/

/-- The attribute that a column stands for whatever the projections name: the bare column, or the table
of its qualifier and the column. -/
def ColumnRef.attribute (owners : List (String × String)) (ref : ColumnRef) : String :=
  match ref.qualifier with
  | some name => ownerOf owners name ++ "," ++ ref.column
  | none => ref.column

/-- **`q.Hides ref`** -- the column is bare, and a projection of some block gives its name to an item. -/
def Query.Hides (q : Query) (ref : ColumnRef) : Prop := ref.qualifier = none ∧ ref.column ∈ q.named

instance (q : Query) (ref : ColumnRef) : Decidable (q.Hides ref) :=
  inferInstanceAs (Decidable (ref.qualifier = none ∧ ref.column ∈ q.named))

/-- The columns at any depth of some expressions. -/
def columnsOf (exprs : List Expr) : List ColumnRef := (exprs.flatMap Expr.subexprs).filterMap Expr.columnRef?

theorem columnsOf_subset {es es' : List Expr} (h : es ⊆ es') : columnsOf es ⊆ columnsOf es' := by
  apply List.filterMap_subset
  intro e he
  obtain ⟨outer, houter, hwithin⟩ := List.mem_flatMap.mp he
  exact List.mem_flatMap.mpr ⟨outer, h houter, hwithin⟩

variable {q : Query} {block : Select} {ref : ColumnRef} {x : String}

theorem attribute?_eq_some_iff :
    attribute? q.owners q.named ref = some x ↔ ¬ q.Hides ref ∧ ref.attribute q.owners = x := by
  unfold attribute? ColumnRef.attribute Query.Hides
  cases ref.qualifier with
  | some name => simp
  | none => simp

/-- **The attributes of a query** are those of the searched columns that no projection hides. -/
theorem Query.mem_attributes_iff :
    x ∈ q.attributes ↔ ∃ ref ∈ q.columns, ¬ q.Hides ref ∧ ref.attribute q.owners = x := by
  rw [Query.attributes_eq, SortedSet.mem_ofList, List.mem_filterMap]
  simp only [attribute?_eq_some_iff]

/-! ## The joins of a FROM clause -/

mutual

/-- The joins inside the brackets of a table. -/
def Table.joinsWithin : Table → List Join
  | .joined inner _ => inner.joinsWithin
  | _ => []

/-- The joins of a source in the order of the text, those in brackets included. -/
def Source.joinsWithin : Source → List Join
  | .mk table joins => table.joinsWithin ++ Join.withinAll joins

/-- Some joins, each behind those inside the brackets of its table. -/
def Join.withinAll : List Join → List Join
  | [] => []
  | .mk everywhere kind table constraint :: joins =>
    table.joinsWithin ++ .mk everywhere kind table constraint :: Join.withinAll joins

end

theorem Join.subset_withinAll : ∀ joins : List Join, joins ⊆ Join.withinAll joins
  | [] => List.nil_subset _
  | .mk _ _ table _ :: joins => by
    unfold Join.withinAll
    apply List.subset_append_of_subset_right
    exact List.cons_subset_cons _ (Join.subset_withinAll joins)

/-- The joins of a FROM item are among its joins at any depth. -/
theorem Source.joins_subset : ∀ s : Source, s.joins ⊆ s.joinsWithin
  | .mk table joins => by
    unfold Source.joinsWithin
    exact List.subset_append_of_subset_right _ (Join.subset_withinAll joins)

/-- The ON condition of a join, also behind the condition of an `ASOF JOIN`. -/
def Constraint.condition? : Constraint → Option Expr
  | .on e => some e
  | .closest _ constraint => constraint.condition?
  | _ => none

/-- A condition that is shown is a condition of the join. -/
theorem Join.condition?_of_shown {join : Join} {e : Expr} (h : join.shownConstraint.expr? = some e) :
    join.constraint.condition? = some e := by
  unfold Join.shownConstraint at h
  split at h
  · cases hconstraint : join.constraint with
    | on e' =>
      rw [hconstraint] at h
      exact h
    | _ =>
      rw [hconstraint] at h
      cases h
  · cases h

/-! ## Clauses that cannot mean a projected name -/

/-- The expressions of a block that are evaluated before its projection names anything: the projected
ones and the ON conditions of its joins, whatever their operators and brackets. -/
def Select.rowExprs (block : Select) : List Expr :=
  block.projected ++
    (block.sources.flatMap Source.joinsWithin).filterMap fun join => join.constraint.condition?

/-- Those of them that are searched for columns: of the ON conditions only the shown ones of the joins
outside brackets. -/
def Select.searchedRowExprs (block : Select) : List Expr :=
  block.projected ++
    block.sources.flatMap fun s => s.joins.filterMap fun join => join.shownConstraint.expr?

theorem Select.searchedRowExprs_subset (block : Select) : block.searchedRowExprs ⊆ block.rowExprs := by
  intro e he
  rcases List.mem_append.mp he with hprojected | hshown
  · exact List.mem_append_left _ hprojected
  · obtain ⟨s, hs, hcondition⟩ := List.mem_flatMap.mp hshown
    obtain ⟨join, hjoin, hexpr⟩ := List.mem_filterMap.mp hcondition
    have hwithin : join ∈ block.sources.flatMap Source.joinsWithin :=
      List.mem_flatMap.mpr ⟨s, hs, s.joins_subset hjoin⟩
    exact List.mem_append_right _ (List.mem_filterMap.mpr ⟨join, hwithin, join.condition?_of_shown hexpr⟩)

/-- What is searched in a block is searched in the query. -/
theorem Select.searched_subset (hblock : block ∈ q.blocks) : columnsOf block.searchedRowExprs ⊆ q.columns := by
  apply columnsOf_subset
  intro e he
  have hsource : e ∈ block.attributeSources := by
    unfold Select.attributeSources
    exact List.mem_append_left _ (List.mem_append_left _ he)
  exact List.mem_append_left _ (List.mem_flatMap.mpr ⟨block, hblock, hsource⟩)

/-! ## What is found -/

/-- **A searched column gives its attribute** unless it is hidden and no qualified column spells the same. -/
theorem Query.attribute_mem_searched (href : ref ∈ q.columns) : ref.attribute q.owners ∈ q.attributes ↔
    (q.Hides ref → ∃ other ∈ q.columns, other.qualifier ≠ none ∧ other.attribute q.owners = ref.column) := by
  rw [Query.mem_attributes_iff]
  constructor
  · rintro ⟨other, hother, hshown, hsame⟩ ⟨hbare, hnamed⟩
    have hcolumn : ref.attribute q.owners = ref.column := by
      unfold ColumnRef.attribute
      rw [hbare]
    refine ⟨other, hother, ?_, hsame.trans hcolumn⟩
    intro hother_bare
    -- A bare column of the same name is hidden as well.
    have hother_column : other.attribute q.owners = other.column := by
      unfold ColumnRef.attribute
      rw [hother_bare]
    apply hshown
    rw [hcolumn, hother_column] at hsame
    exact ⟨hother_bare, hsame ▸ hnamed⟩
  · intro hfound
    by_cases hhides : q.Hides ref
    · obtain ⟨other, hother, hqualified, hsame⟩ := hfound hhides
      have hcolumn : ref.attribute q.owners = ref.column := by
        unfold ColumnRef.attribute
        rw [hhides.1]
      exact ⟨other, hother, fun h => hqualified h.1, hsame.trans hcolumn.symm⟩
    · exact ⟨ref, href, hhides, rfl⟩

/-- **Which columns of projections and ON conditions give their attributes.** A column that is searched
does unless it is bare and a block projects its name; then only a qualified column can spell the same
attribute. A column of any other ON condition, in brackets or of an operator whose condition is not
shown, gives none by itself: another column has to stand for the same attribute. -/
theorem attribute_mem_iff {text : String} (hq : parse text.toList = .ok q) (hblock : block ∈ q.blocks) :
    ∀ ref ∈ columnsOf block.rowExprs,
      (ref ∈ columnsOf block.searchedRowExprs →
        (ref.attribute q.owners ∈ (extract .sql text).attributes ↔
          (q.Hides ref → ∃ other ∈ q.columns,
            other.qualifier ≠ none ∧ other.attribute q.owners = ref.column))) ∧
      (ref ∉ columnsOf block.searchedRowExprs →
        (ref.attribute q.owners ∈ (extract .sql text).attributes ↔
          ∃ other ∈ q.columns, ¬ q.Hides other ∧ other.attribute q.owners = ref.attribute q.owners)) := by
  rw [extract_of_parse hq]
  intro ref _
  constructor
  · intro hsearched
    exact Query.attribute_mem_searched (Select.searched_subset hblock hsearched)
  · intro _
    exact Query.mem_attributes_iff

/-- A query that projects a column under another name and has its join in brackets. -/
def bracketedQuery : String := "SELECT UPPER(name) AS title FROM (t JOIN v ON v.w = t.id)"

theorem attribute_mem_bracketedQuery : ∃ q, parse bracketedQuery.toList = .ok q ∧ ∃ block ∈ q.blocks,
    (⟨none, "name"⟩ ∈ columnsOf block.rowExprs ∧ "name" ∈ (extract .sql bracketedQuery).attributes) ∧
    (⟨some "v", "w"⟩ ∈ columnsOf block.rowExprs ∧ "v,w" ∉ (extract .sql bracketedQuery).attributes) := by
  obtain ⟨q, hq, hchecked⟩ := exists_query_of_any bracketedQuery
    (fun q => decide (∃ block ∈ q.blocks,
      ((⟨none, "name"⟩ ∈ columnsOf block.rowExprs ∧ ⟨none, "name"⟩ ∈ columnsOf block.searchedRowExprs) ∧
        ¬ q.Hides ⟨none, "name"⟩) ∧
      (⟨some "v", "w"⟩ ∈ columnsOf block.rowExprs ∧ ⟨some "v", "w"⟩ ∉ columnsOf block.searchedRowExprs) ∧
        ColumnRef.attribute q.owners ⟨some "v", "w"⟩ = "v,w" ∧
        ¬ ∃ other ∈ q.columns, ¬ q.Hides other ∧ other.attribute q.owners = "v,w"))
    (by decide +kernel)
  obtain ⟨block, hblock, ⟨⟨hname, hsearched⟩, hshown⟩, ⟨hw, hunsearched⟩, hv, hnone⟩ := of_decide_eq_true hchecked
  have hfound := ((attribute_mem_iff hq hblock _ hname).1 hsearched).mpr (fun hhides => absurd hhides hshown)
  have hmissing := (attribute_mem_iff hq hblock _ hw).2 hunsearched
  rw [hv] at hmissing
  exact ⟨q, hq, block, hblock, ⟨hname, hfound⟩, hw, fun h => hnone (hmissing.mp h)⟩

/-- **An expression that is named like its own column hides it.** -/
theorem attribute_hidden : ∃ q, parse "SELECT UPPER(name) AS name FROM t".toList = .ok q ∧
    ∃ block ∈ q.blocks, ⟨none, "name"⟩ ∈ columnsOf block.projected ∧
      ColumnRef.attribute q.owners ⟨none, "name"⟩ = "name" ∧
      "name" ∉ (extract .sql "SELECT UPPER(name) AS name FROM t").attributes := by
  obtain ⟨q, hq, hchecked⟩ := exists_query_of_any "SELECT UPPER(name) AS name FROM t"
    (fun q => decide (∃ block ∈ q.blocks, ⟨none, "name"⟩ ∈ columnsOf block.projected))
    (by decide +kernel)
  obtain ⟨block, hblock, hname⟩ := of_decide_eq_true hchecked
  exact ⟨q, hq, block, hblock, hname, rfl, by decide +kernel⟩

end QueryScore.Sql
