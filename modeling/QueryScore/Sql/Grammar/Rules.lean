/-
# QueryScore.Sql.Grammar.Rules -- what the phrases of SQL are built from

Expressions, queries and tables nest in each other. Each phrase is therefore written over the
readers of the phrases inside it, and the readers are tied together at one place, with a bound on
the nesting. An operator binds as strongly as its power says: a reader of operands of a power
stops before any operator that does not bind more strongly. In the links between the rows of a
hierarchy, PRIOR is an operator; everywhere else it is a name.
-/

import QueryScore.Sql.DataType
import QueryScore.Sql.Tree

namespace QueryScore.Sql

/-- The readers of the phrases that nest. -/
structure Rules where
  /-- A query. -/
  query : Parser Query
  /-- An expression of operators that bind more strongly than a power. -/
  expr : Nat → Parser Expr
  /-- A table in a FROM clause, without the joins behind it. -/
  table : Parser Table
  /-- As `expr`, PRIOR being an operator. -/
  link : Nat → Parser Expr
  /-- PRIOR is an operator here. -/
  linking : Bool

/-- Any expression. -/
def Rules.anyExpr (r : Rules) : Parser Expr := r.expr 0

/-- Any expressions, separated by commas. -/
def Rules.exprs (r : Rules) : Parser (List Expr) := Parser.commaSeparated r.anyExpr

/-! ## Powers -/

namespace Power

/-- The power of `OR`. -/
def disjunction : Nat := 5

/-- The power of `AND`. -/
def conjunction : Nat := 10

/-- The power of `NOT` before an operand. -/
def negation : Nat := 15

/-- The power of the operators on documents and arrays. -/
def document : Nat := 16

/-- The power of `IS`. -/
def test : Nat := 17

/-- The power of `LIKE` and its relatives. -/
def pattern : Nat := 19

/-- The power of comparisons, `IN` and `BETWEEN`. -/
def comparison : Nat := 20

/-- The power of `|`. -/
def bitOr : Nat := 21

/-- The power of `^` and the shifts. -/
def bitXor : Nat := 22

/-- The power of `&`. -/
def bitAnd : Nat := 23

/-- The power of `XOR`. -/
def exclusion : Nat := 24

/-- The power of sums. -/
def sum : Nat := 30

/-- The power of products. -/
def product : Nat := 40

/-- The power of `AT TIME ZONE`. -/
def zone : Nat := 41

/-- The power of `::`. -/
def cast : Nat := 50

/-- The power of the period. -/
def period : Nat := 100

end Power

/-! ## Parts of forms -/

/-- Words of a form. -/
def said (s : String) : Piece := .text s.toList

/-- Parts, separated by commas. -/
def withCommas : List (List Piece) → List Piece
  | [] => []
  | [a] => a
  | a :: b :: rest => a ++ said ", " :: withCommas (b :: rest)

/-- Expressions, separated by commas. -/
def commaExprs (es : List Expr) : List Piece := withCommas (es.map fun e => [.expr e])

/-- An expression behind words. -/
def clause (words : String) (e : Expr) : List Piece := [said words, .expr e]

/-- An expression, perhaps with a name behind AS. -/
def namedExpr (r : Rules) : Parser (List Piece) := do
  let e ← r.anyExpr
  match ← Parser.behind ["AS"] Parser.identifier with
  | some name => return [.expr e, said " AS ", .text name.render]
  | none => return [.expr e]

/-- Identifiers, separated by commas. -/
def commaNames (names : List Ident) : List Char := [',', ' '].intercalate (names.map Ident.render)

/-- A query in brackets as an expression. -/
def Expr.subquery (q : Query) : Expr := .form [said "(", .query q, said ")"]

/-- An operand in brackets, behind the opening one: a query, an expression, or a tuple. -/
def bracketForm (r : Rules) : Parser Expr := do
  if (← Parser.atKeyword "SELECT") || (← Parser.atKeyword "WITH") then
    let q ← r.query
    Parser.expectSign ")"
    return .subquery q
  let es ← Parser.commaSeparated r.anyExpr
  Parser.expectSign ")"
  match es with
  | [e] => return .nested e
  | es => return .form (said "(" :: commaExprs es ++ [said ")"])

/-- The collation behind an operand, if it is there. -/
def withCollation (e : Expr) : Parser Expr := do
  if ← Parser.keyword "COLLATE" then
    let name ← Parser.dottedName
    return .form [.expr e, said " COLLATE ", .text (renderPath name)]
  else return e

/-- The expression is a query in brackets. -/
def Expr.isSubquery : Expr → Bool
  | .form [.text open_, .query _, .text close] => open_ == ['('] && close == [')']
  | _ => false

/-! ## Sort keys -/

/-- The bounds of filled gaps behind a sort key. -/
def fillBounds (r : Rules) : Parser (List Piece) := do
  let mut parts := [said " WITH FILL"]
  for word in ["FROM", "TO", "STEP"] do
    if ← Parser.keyword word then
      parts := parts ++ [said (" " ++ word ++ " "), .expr (← r.anyExpr)]
  return parts

/-- The options of a sort key: whether the greatest comes first, and all of them as written. -/
def sortOptions (r : Rules) : Parser (Bool × List Piece) := do
  let direction ← Parser.oneOf ["ASC", "DESC"]
  let nulls ← Parser.acceptAny [["NULLS", "FIRST"], ["NULLS", "LAST"]]
  let fill ← do
    if ← Parser.accept ["WITH", "FILL"] then fillBounds r else pure []
  return (direction = some "DESC", said ((direction.map (" " ++ ·)).getD "") ::
    said ((nulls.map fun words => " " ++ " ".intercalate words).getD "") :: fill)

/-- A sort key with its options. -/
def sortItem (r : Rules) : Parser SortItem := do
  let e ← r.anyExpr
  let (descending, options) ← sortOptions r
  return .mk e descending options

/-- The parts of a sort key. -/
def SortItem.parts : SortItem → List Piece
  | .mk e _ options => .expr e :: options

/-- Sort keys, separated by commas. -/
def sortItems (r : Rules) : Parser (List SortItem) := Parser.commaSeparated (sortItem r)

/-- The parts of sort keys. -/
def commaSortItems (items : List SortItem) : List Piece := withCommas (items.map SortItem.parts)

/-! ## Stars -/

/-- An expression, or all columns, perhaps of one table. -/
inductive ExprOrStar where
  /-- An expression. -/
  | expr (e : Expr)
  /-- All columns of the named table; of all tables when there is no name. -/
  | star (names : List Ident)

/-- The parts of an expression or a star. -/
def ExprOrStar.parts : ExprOrStar → List Piece
  | .expr e => [.expr e]
  | .star [] => [said "*"]
  | .star names => [.text (renderPath names), said ".*"]

/-- One step along a dotted name that may end in a star: the names read, and whether the star has
been. -/
def starStep (state : List Ident × Bool) : Parser (Option (List Ident × Bool)) := do
  if state.2 then return none
  if ← Parser.sign "." then
    match ← Parser.next with
    | .word name => return some (state.1 ++ [name], false)
    | .literal .string text => return some (state.1 ++ [⟨text, some '\''⟩], false)
    | .sign "*" => return some (state.1, true)
    | _ => Parser.mismatch
  else return none

/-- A star behind a dotted name, if the tokens are one; otherwise nothing is taken. A dotted name
that breaks off is refused. -/
def starIfAny : Parser (Option (List Ident)) := do
  let start ← get
  if ← Parser.sign "*" then return some []
  if (← Parser.peekAt 1) == some (.sign ".") then
    match ← Parser.optional Parser.identifier with
    | some first =>
      let (names, found) ← Parser.stepping starStep ([first], false)
      if found then return some names
    | none => pure ()
  set start
  return none

/-- An expression, or all columns. -/
def exprOrStar (r : Rules) : Parser ExprOrStar := do
  match ← starIfAny with
  | some names => return .star names
  | none => return .expr (← r.anyExpr)

end QueryScore.Sql
