/-
# QueryScore.Sql.Extract -- the structure of a SQL query

The blocks of a query are those of its common tables, in order, and those of its body. Entities
are the tables read at any depth. Attributes, relations, filters and aggregation come from the
blocks, subqueries in their expressions included where columns and calls are searched; returned
columns come from the first block of the body and sort keys from the query itself. A column's
owner is the table that its qualifier names in any of the blocks.
-/

import QueryScore.Name
import QueryScore.Sql.Marks
import QueryScore.Structure

namespace QueryScore.Sql

/-! ## Names -/

/-- The normal form of an identifier. -/
def Ident.normal (name : Ident) : String := String.ofList (Name.normalize name.text)

/-- The normal form of a dotted name: that of its last part. -/
def normalName (names : List Ident) : String :=
  String.ofList (Name.normalizeRelation (renderPath names))

/-- The normal form of a written fragment. -/
def normalFragment (cs : List Char) : String := String.ofList (Name.normalizeFragment cs)

/-! ## Columns, conditions and calls -/

/-- A reference to a column: the last part of its qualifier, if it has one, and its name. -/
structure ColumnRef where
  /-- The table or alias before the name. -/
  qualifier : Option String
  /-- The name. -/
  column : String
  deriving DecidableEq, Repr

/-- The column that an expression refers to, brackets looked through. -/
def Expr.columnRef? : Expr → Option ColumnRef
  | .column name => some ⟨none, name.normal⟩
  | .path names =>
    match names.reverse with
    | [] => none
    | name :: qualifiers => some ⟨qualifiers.head?.map Ident.normal, name.normal⟩
  | .nested inner => inner.columnRef?
  | _ => none

/-- The conditions that AND and OR join outside brackets, from left to right. -/
def Expr.operands : Expr → List Expr
  | .connective _ left right => left.operands ++ right.operands
  | e => [e]

/-- The aggregate functions. -/
def aggregateNames : List String :=
  ["COUNT", "SUM", "AVG", "MIN", "MAX", "GROUP_CONCAT", "STRING_AGG", "ARRAY_AGG", "TOTAL",
    "STDDEV", "VARIANCE", "MEDIAN"]

/-- A name is that of an aggregate function, whatever the case of its letters. -/
def isAggregate (name : List Char) : Bool :=
  aggregateNames.any fun known => Text.equalIgnoringCase known.toList name

/-- The name of the aggregate function that an expression calls, in upper case. -/
def Expr.aggregate? : Expr → Option String
  | .call name _ =>
    let normal := Name.normalizeRelation (renderPath name)
    if isAggregate normal then some (String.ofList (Text.uppercase normal)) else none
  | _ => none

/-! ## Blocks -/

/-- The blocks of a body, from left to right. -/
def Body.blocks : Body → List Select
  | .select block => [block]
  | .query (.mk _ _ body _ _) => body.blocks
  | .setOp _ left right => left.blocks ++ right.blocks
  | .form _ => []

/-- The blocks of the common tables and those of the body. -/
def Query.blocks (q : Query) : List Select :=
  (q.ctes.flatMap fun cte => cte.query.body.blocks) ++ q.body.blocks

/-- The expression of a projected item. -/
def Item.expr? : Item → Option Expr
  | .expr e | .aliased e _ => some e
  | .star _ => none

/-- The name that a projected item gets. -/
def Item.alias? : Item → Option String
  | .aliased _ name => some name.normal
  | _ => none

/-- The projected expressions of a block. -/
def Select.projected (block : Select) : List Expr := block.projection.filterMap Item.expr?

/-- The written grouping keys of a block. -/
def GroupBy.exprs : GroupBy → List Expr
  | .keys exprs _ => exprs
  | .all _ => []

/-! ## Tables and joins -/

mutual

/-- Each name that refers to a table of a source, with the table; later ones overrule. -/
def Table.owners : Table → List (String × String)
  | .named name _ alias? _ =>
    let table := normalName name
    (alias?.toList.map fun a => (a.name.normal, table)) ++ [(table, table)]
  | .joined inner _ => inner.owners
  | _ => []

/-- The names that refer to the tables of a source. -/
def Source.owners : Source → List (String × String)
  | .mk table joins => table.owners ++ Join.ownersAll joins

/-- The names that refer to the tables of some joins. -/
def Join.ownersAll : List Join → List (String × String)
  | [] => []
  | .mk _ _ table _ :: joins => table.owners ++ Join.ownersAll joins

end

/-- The name by which relations refer to a table; empty if it has none. -/
def Table.relationName : Table → String
  | .named name _ _ _ => normalName name
  | .derived _ _ (some a) => a.name.normal
  | .joined (.mk table _) _ => table.relationName
  | _ => ""

/-- The side of a join. -/
def JoinKind.side : JoinKind → String
  | .left | .leftOuter => "LEFT"
  | .right | .rightOuter => "RIGHT"
  | .full => "FULL"
  | .cross => "CROSS"
  | .semi | .leftSemi | .rightSemi => "SEMI"
  | .anti | .leftAnti | .rightAnti => "ANTI"
  | .plain | .inner | .crossApply | .outerApply | .straight | .asof => "INNER"

/-- The operator of the join gives its condition a part in the structure. -/
def JoinKind.showsConstraint : JoinKind → Bool
  | .cross | .crossApply | .outerApply | .straight | .asof => false
  | _ => true

/-- The condition of a join that the structure shows. -/
def Join.shownConstraint (join : Join) : Constraint :=
  if join.kind.showsConstraint then join.constraint else .unconditional

/-- The written condition of a join. -/
def Constraint.text? : Constraint → Option String
  | .on e => some (String.ofList e.render)
  | .shared names =>
    let columns := names.map fun name => String.ofList (renderPath name)
    some ("USING (" ++ ", ".intercalate columns ++ ")")
  | .natural | .unconditional | .closest _ _ => none

/-- The expression of a join condition. -/
def Constraint.expr? : Constraint → Option Expr
  | .on e => some e
  | _ => none

/-- The relations of a source: one for each join, from its first table. -/
def Source.relations (s : Source) : List Relation :=
  s.joins.map fun join =>
    ⟨⟨join.kind.side, s.table.relationName, join.table.relationName⟩, join.shownConstraint.text?⟩

/-! ## Components -/

/-- The tables that a query reads. -/
def Query.entities (q : Query) : SortedSet String :=
  .ofList (((Mark.tables q.marks).map normalName).filter (· ≠ ""))

/-- The expressions of a block, its WHERE condition left out. -/
def Select.attributeSources (block : Select) : List Expr :=
  block.projected ++
    (block.sources.flatMap fun s => s.joins.filterMap fun join => join.shownConstraint.expr?) ++
    block.groupBy.exprs ++ block.having.toList

/-- The table that a qualifier names, by the last of the names that fit; else the qualifier. -/
def ownerOf (owners : List (String × String)) (qualifier : String) : String :=
  (owners.reverse.lookup qualifier).getD qualifier

/-- The attribute that a column stands for; a bare column that a projection names is none. -/
def attribute? (owners : List (String × String)) (named : List String) (ref : ColumnRef) :
    Option String :=
  match ref.qualifier with
  | some qualifier => some (ownerOf owners qualifier ++ "," ++ ref.column)
  | none => if named.contains ref.column then none else some ref.column

/-- The attributes of a query. -/
def Query.attributes (q : Query) : SortedSet String :=
  let owners := q.blocks.flatMap fun block => block.sources.flatMap Source.owners
  let named := q.blocks.flatMap fun block => block.projection.filterMap Item.alias?
  let searched := q.blocks.flatMap Select.attributeSources ++ q.orderBy.map fun (.mk e _ _) => e
  .ofList ((searched.flatMap Expr.subexprs).filterMap fun e =>
    e.columnRef?.bind (attribute? owners named))

/-- The relations of a query. -/
def Query.relations (q : Query) : List Relation :=
  q.blocks.flatMap fun block => block.sources.flatMap Source.relations

/-- The filters of a query: the conditions that its WHERE conditions join. -/
def Query.filters (q : Query) : SortedSet String :=
  let conditions := q.blocks.flatMap fun block => block.condition.toList
  let operands := conditions.flatMap Expr.operands
  .ofList ((operands.map fun e => normalFragment e.render).filter (· ≠ ""))

/-- The grouping keys of a block, as they are compared. -/
def GroupBy.texts : GroupBy → List String
  | .keys exprs _ => exprs.map fun e => normalFragment e.render
  | .all _ => ["all"]

/-- The aggregation of a query. -/
def Query.aggregation (q : Query) : Aggregation where
  functions :=
    let searched := q.blocks.flatMap fun block => block.projected ++ block.having.toList
    .ofList ((searched.flatMap Expr.subexprs).filterMap Expr.aggregate?)
  groupBy := q.blocks.flatMap fun block => block.groupBy.texts
  having := (q.blocks.findSome? Select.having).map fun e => normalFragment e.render

/-- A returned column: the name it gets, else its expression. -/
def Item.column (item : Item) : String := item.alias?.getD (normalFragment item.render)

/-- The returned columns of a query: those of the first block of its body. -/
def Query.returnColumns (q : Query) : List String :=
  match q.body.blocks with
  | [] => []
  | block :: _ => block.projection.map Item.column

/-- The sort keys of a query. -/
def Query.sortKeys (q : Query) : List SortKey :=
  q.orderBy.map fun (.mk e descending _) =>
    ⟨normalFragment e.render, if descending then .descending else .ascending⟩

/-- The structure of a query. -/
def Query.toStructure (q : Query) : Structure where
  entities := q.entities
  attributes := q.attributes
  relations := q.relations
  filters := q.filters
  aggregation := q.aggregation
  returnColumns := q.returnColumns
  orderings := q.sortKeys
  parsed := true

end QueryScore.Sql
