/-
# QueryScore.Sql.Tree -- the syntax tree of a SQL query

The tree keeps apart what an analysis of a query asks about: column references, connectives,
calls, the blocks of a query and their clauses, the tables and joins of a FROM clause. Everything
else (arithmetic, CASE, casts, windows, limits) is a form: its words and the expressions and
queries inside it, in the order of the text. So a form can be written back and searched without
a constructor for each of SQL's special notations.
-/

import QueryScore.Sql.Token

namespace QueryScore.Sql

/-- A name for a table or a subquery, with the columns it renames as they are written. -/
structure Alias where
  /-- The name. -/
  name : Ident
  /-- The list of columns with its brackets, or nothing. -/
  columns : List Char
  deriving DecidableEq, Repr

/-- The two logical connectives that separate conditions. -/
inductive Connective where
  /-- Both hold. -/
  | and
  /-- One holds. -/
  | or
  deriving DecidableEq, Repr

/-- The operators that join two tables. -/
inductive JoinKind where
  /-- `JOIN`. -/
  | plain
  /-- `INNER JOIN`. -/
  | inner
  /-- `LEFT JOIN`. -/
  | left
  /-- `LEFT OUTER JOIN`. -/
  | leftOuter
  /-- `RIGHT JOIN`. -/
  | right
  /-- `RIGHT OUTER JOIN`. -/
  | rightOuter
  /-- `FULL JOIN`, with or without `OUTER`. -/
  | full
  /-- `CROSS JOIN`. -/
  | cross
  /-- `SEMI JOIN`. -/
  | semi
  /-- `LEFT SEMI JOIN`. -/
  | leftSemi
  /-- `RIGHT SEMI JOIN`. -/
  | rightSemi
  /-- `ANTI JOIN`. -/
  | anti
  /-- `LEFT ANTI JOIN`. -/
  | leftAnti
  /-- `RIGHT ANTI JOIN`. -/
  | rightAnti
  /-- `CROSS APPLY`. -/
  | crossApply
  /-- `OUTER APPLY`. -/
  | outerApply
  /-- `STRAIGHT_JOIN`. -/
  | straight
  /-- `ASOF JOIN`. -/
  | asof
  deriving DecidableEq, Repr

/-- The words of a join operator. -/
def JoinKind.words : JoinKind → String
  | .plain => "JOIN"
  | .inner => "INNER JOIN"
  | .left => "LEFT JOIN"
  | .leftOuter => "LEFT OUTER JOIN"
  | .right => "RIGHT JOIN"
  | .rightOuter => "RIGHT OUTER JOIN"
  | .full => "FULL JOIN"
  | .cross => "CROSS JOIN"
  | .semi => "SEMI JOIN"
  | .leftSemi => "LEFT SEMI JOIN"
  | .rightSemi => "RIGHT SEMI JOIN"
  | .anti => "ANTI JOIN"
  | .leftAnti => "LEFT ANTI JOIN"
  | .rightAnti => "RIGHT ANTI JOIN"
  | .crossApply => "CROSS APPLY"
  | .outerApply => "OUTER APPLY"
  | .straight => "STRAIGHT_JOIN"
  | .asof => "ASOF JOIN"

mutual

/-- An expression. -/
inductive Expr where
  /-- A bare name. -/
  | column (name : Ident)
  /-- A dotted name of two parts or more. -/
  | path (names : List Ident)
  /-- An expression in brackets. -/
  | nested (inner : Expr)
  /-- Two conditions joined by AND or OR. -/
  | connective (op : Connective) (left right : Expr)
  /-- A call: the dotted name of the function and what follows it. -/
  | call (name : List Ident) (tail : List Piece)
  /-- Any other form: its parts in the order of the text. -/
  | form (parts : List Piece)

/-- A part of a form. -/
inductive Piece where
  /-- Words as they are written back. -/
  | text (cs : List Char)
  /-- An expression. -/
  | expr (e : Expr)
  /-- A query. -/
  | query (q : Query)
  /-- A source of rows. -/
  | source (s : Source)

/-- A query: common tables, a body, sort keys, and what limits or locks the result. -/
inductive Query where
  /-- All parts of a query. -/
  | mk (recursive : Bool) (ctes : List Cte) (body : Body) (orderBy : List SortItem)
      (tail : List Piece)

/-- A common table: its name, the query, and the table it names behind the query. -/
inductive Cte where
  /-- All parts of a common table. -/
  | mk (name : Alias) (query : Query) (source : Option Ident)

/-- The body of a query. -/
inductive Body where
  /-- One SELECT block. -/
  | select (block : Select)
  /-- A query in brackets. -/
  | query (q : Query)
  /-- Two bodies joined by a set operation. -/
  | setOp (op : String) (left right : Body)
  /-- Any other form that gives rows: rows written out, a whole table, a command on rows. -/
  | form (parts : List Piece)

/-- A SELECT block. `head` is what stands before the projection, `into` behind it; `between`
stands between FROM and WHERE, `middle` between GROUP BY and HAVING, `tail` behind HAVING. -/
inductive Select where
  /-- All parts of a block. -/
  | mk (fromFirst : Bool) (head : List Piece) (projection : List Item) (into : List Char)
      (sources : List Source) (between : List Piece) (condition : Option Expr)
      (groupBy : GroupBy) (middle : List Piece) (having : Option Expr) (tail : List Piece)

/-- A projected item. -/
inductive Item where
  /-- An expression. -/
  | expr (e : Expr)
  /-- An expression with a name. -/
  | aliased (e : Expr) (name : Ident)
  /-- All columns, or all of one table. -/
  | star (parts : List Piece)

/-- The grouping of a block. -/
inductive GroupBy where
  /-- These keys; none when the block does not group. -/
  | keys (exprs : List Expr) (modifiers : List Piece)
  /-- All columns that are not aggregated. -/
  | all (modifiers : List Piece)

/-- A sort key: the expression, whether the greatest comes first, and its options as written. -/
inductive SortItem where
  /-- All parts of a sort key. -/
  | mk (e : Expr) (descending : Bool) (options : List Piece)

/-- An item of a FROM clause: a table and the joins that follow it. -/
inductive Source where
  /-- A table and its joins. -/
  | mk (table : Table) (joins : List Join)

/-- What a FROM clause or a join reads. -/
inductive Table where
  /-- A table by its name, with arguments or options behind it. -/
  | named (name : List Ident) (options : List Piece) (alias? : Option Alias) (hints : List Piece)
  /-- A subquery. -/
  | derived (lateral : Bool) (query : Query) (alias? : Option Alias)
  /-- A source in brackets. -/
  | joined (inner : Source) (alias? : Option Alias)
  /-- Any other form that gives rows; `tail` stands behind its name. -/
  | form (parts : List Piece) (alias? : Option Alias) (tail : List Piece)

/-- A join: its operator, the table on the right and the condition. -/
inductive Join where
  /-- All parts of a join. -/
  | mk (everywhere : Bool) (kind : JoinKind) (table : Table) (constraint : Constraint)

/-- The condition of a join. -/
inductive Constraint where
  /-- An expression. -/
  | on (e : Expr)
  /-- Columns of the same names. -/
  | shared (names : List (List Ident))
  /-- All columns of the same names. -/
  | natural
  /-- No condition. -/
  | unconditional
  /-- An expression that finds the closest row, and the condition behind it. -/
  | closest (e : Expr) (constraint : Constraint)

end

/-! ## Parts of a query -/

/-- The common tables of a query. -/
def Query.ctes : Query → List Cte
  | .mk _ ctes _ _ _ => ctes

/-- The body of a query. -/
def Query.body : Query → Body
  | .mk _ _ body _ _ => body

/-- The sort keys of a query. -/
def Query.orderBy : Query → List SortItem
  | .mk _ _ _ orderBy _ => orderBy

/-- The query of a common table. -/
def Cte.query : Cte → Query
  | .mk _ q _ => q

/-- The projected items of a block. -/
def Select.projection : Select → List Item
  | .mk _ _ projection _ _ _ _ _ _ _ _ => projection

/-- The FROM clause of a block. -/
def Select.sources : Select → List Source
  | .mk _ _ _ _ sources _ _ _ _ _ _ => sources

/-- The WHERE condition of a block. -/
def Select.condition : Select → Option Expr
  | .mk _ _ _ _ _ _ condition _ _ _ _ => condition

/-- The grouping of a block. -/
def Select.groupBy : Select → GroupBy
  | .mk _ _ _ _ _ _ _ groupBy _ _ _ => groupBy

/-- The HAVING condition of a block. -/
def Select.having : Select → Option Expr
  | .mk _ _ _ _ _ _ _ _ _ having _ => having

/-- The table of a source. -/
def Source.table : Source → Table
  | .mk table _ => table

/-- The joins of a source. -/
def Source.joins : Source → List Join
  | .mk _ joins => joins

/-- The operator of a join. -/
def Join.kind : Join → JoinKind
  | .mk _ kind _ _ => kind

/-- The table on the right of a join. -/
def Join.table : Join → Table
  | .mk _ _ table _ => table

/-- The condition of a join. -/
def Join.constraint : Join → Constraint
  | .mk _ _ _ constraint => constraint

end QueryScore.Sql
