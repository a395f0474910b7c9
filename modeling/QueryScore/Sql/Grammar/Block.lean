/-
# QueryScore.Sql.Grammar.Block -- SELECT blocks

The clauses of a block stand in a fixed order, and all but the projection may be missing; before
FROM even that may. A word behind a projected expression names it unless the word begins what may
follow.
-/

import QueryScore.Sql.Grammar.From

namespace QueryScore.Sql

open QueryScore.Sql.Parser

/-! ## Projection -/

/-- One column or several in brackets, behind the words of a star option. -/
def starColumns (words : String) : Parser (List Piece) := do
  if ← atSign "(" then
    let names ← inBrackets (commaSeparated identifier)
    return [said (" " ++ words ++ " ("), .text (commaNames names), said ")"]
  else
    let name ← identifier
    return [said (" " ++ words ++ " "), .text name.render]

/-- A column with a new name. -/
def renamedColumn : Parser (List Char) := do
  let name ← identifier
  expect ["AS"]
  let newName ← identifier
  return name.render ++ " AS ".toList ++ newName.render

/-- What a star leaves out, replaces or renames. -/
def starOptions (r : Rules) : Parser (List Piece) := do
  let like ← do
    if ← keyword "ILIKE" then
      match ← next with
      | .literal .string text => pure [said " ILIKE ", .text (LiteralKind.string.render text)]
      | _ => mismatch
    else pure []
  let exclude ← do
    -- EXCLUDE is a word like any other behind an ILIKE.
    if like.isEmpty then
      if ← keyword "EXCLUDE" then starColumns "EXCLUDE" else pure []
    else pure []
  let except_ ← do
    if ← keyword "EXCEPT" then
      if ← atSign "(" then starColumns "EXCEPT"
      else
        let name ← identifier
        pure [said " EXCEPT (", .text name.render, said ")"]
    else pure []
  let replace ← do
    if ← keyword "REPLACE" then
      let replaced ← inBrackets (commaSeparated do
        let e ← r.anyExpr
        let explicit ← keyword "AS"
        let name ← identifier
        return [.expr e, said (if explicit then " AS " else " "), .text name.render])
      pure (said " REPLACE (" :: withCommas replaced ++ [said ")"])
    else pure []
  let rename ← do
    if ← keyword "RENAME" then
      if ← atSign "(" then
        let columns ← inBrackets (commaSeparated renamedColumn)
        pure [said " RENAME (", .text ([',', ' '].intercalate columns), said ")"]
      else
        let column ← renamedColumn
        pure [said " RENAME ", .text column]
    else pure []
  return like ++ exclude ++ except_ ++ replace ++ rename

/-- The expression is the bare word FROM. -/
def Expr.isFrom : Expr → Bool
  | .column ⟨text, none⟩ => Text.lowercase text == "from".toList
  | _ => false

/-- A projected item. -/
def projectedItem (r : Rules) : Parser Item := do
  match ← exprOrStar r with
  | .star names => return .star ((ExprOrStar.star names).parts ++ (← starOptions r))
  | .expr e =>
    -- A bare FROM where an item is expected says that the item is missing.
    if e.isFrom then mismatch
    match ← nameIfAny notColumnNames with
    | some name => return .aliased e name
    | none => return .expr e

/-- What comes next cannot begin a projected item: a comma before it ends the list. -/
def endsProjection : Option Token → Bool
  | none => true
  | some (.sign text) => [")", ";", "]", "\x7d"].contains text
  | some token => token.keyword?.any notColumnNames.contains

/-- Projected items, separated by commas; a comma may stand behind the last one. -/
def projection (r : Rules) : Parser (List Item) :=
  phrases do
    let item ← projectedItem r
    if ← sign "," then return (item, !endsProjection (← peek)) else return (item, false)

/-! ## What stands before the projection -/

/-- `DISTINCT`, perhaps on some expressions; `ALL` says nothing. -/
def distinctIfAny (r : Rules) : Parser (List Piece) := do
  let all ← keyword "ALL"
  if ← keyword "DISTINCT" then
    -- ALL and DISTINCT contradict each other.
    if all then mismatch
    if ← keyword "ON" then
      expectSign "("
      let es ← listUntil ")" r.anyExpr
      return said " DISTINCT ON (" :: commaExprs es ++ [said ")"]
    else return [said " DISTINCT"]
  else return []

/-- The number of first rows, if it is there. -/
def topIfAny (r : Rules) : Parser (List Piece) := do
  if ← keyword "TOP" then
    let quantity ← do
      if ← sign "(" then
        let e ← r.anyExpr
        expectSign ")"
        pure [said " TOP (", .expr e, said ")"]
      else
        let n ← natural
        pure [said (" TOP " ++ n.repr)]
    let percent ← keyword "PERCENT"
    let ties ← accept ["WITH", "TIES"]
    return quantity ++ (if percent then [said " PERCENT"] else []) ++
      (if ties then [said " WITH TIES"] else [])
  else return []

/-- The table that takes the rows, if it is there. -/
def intoIfAny : Parser (List Char) := do
  if ← keyword "INTO" then
    let temporary ← oneOf ["TEMP", "TEMPORARY"]
    let unlogged ← keyword "UNLOGGED"
    let table ← keyword "TABLE"
    let name ← dottedName
    return (" INTO" ++ (if temporary.isSome then " TEMPORARY" else "") ++
      (if unlogged then " UNLOGGED" else "") ++ (if table then " TABLE" else "") ++ " ").toList ++
      renderPath name
  else return []

/-! ## Grouping -/

/-- Expressions in brackets, perhaps none; one expression may stand alone. -/
def groupingSet (r : Rules) : Parser (List Expr) := do
  if ← sign "(" then listUntil ")" r.anyExpr else return [← r.anyExpr]

/-- Expressions in brackets, perhaps none. -/
def bracketedSet (r : Rules) : Parser (List Expr) := do
  expectSign "("
  listUntil ")" r.anyExpr

/-- A grouping set as it is written back. -/
def setParts (es : List Expr) : List Piece := said "(" :: commaExprs es ++ [said ")"]

/-- A grouping set as it is written back where one expression needs no brackets. -/
def looseSetParts : List Expr → List Piece
  | [e] => [.expr e]
  | es => setParts es

/-- Several grouping sets behind a name. -/
def groupingSets (r : Rules) (name : String) : Parser Expr :=
  inBrackets do
    let sets ← commaSeparated (groupingSet r)
    return .form (said (name ++ " (") :: withCommas (sets.map looseSetParts) ++ [said ")"])

/-- A grouping key. -/
def groupingKey (r : Rules) : Parser Expr := do
  if ← accept ["GROUPING", "SETS"] then
    inBrackets do
      let sets ← commaSeparated (bracketedSet r)
      return .form (said "GROUPING SETS (" :: withCommas (sets.map setParts) ++ [said ")"])
  else if ← keyword "CUBE" then groupingSets r "CUBE"
  else if ← keyword "ROLLUP" then groupingSets r "ROLLUP"
  else if (← atSign "(") ∧ (← peekAt 1) = some (.sign ")") then
    drop 2
    return .form [said "()"]
  else r.anyExpr

/-- One more modifier of a grouping, if it comes next. -/
def groupingModifier (parts : List Piece) : Parser (Option (List Piece)) := do
  if ← keyword "WITH" then
    let word ← expectOneOf ["ROLLUP", "CUBE", "TOTALS"]
    return some (parts ++ [said (" WITH " ++ word)])
  else return none

/-- The grouping, if it is there. -/
def grouping (r : Rules) : Parser GroupBy := do
  if ← accept ["GROUP", "BY"] then
    let keys ← do
      if ← keyword "ALL" then pure none
      else pure (some (← commaSeparated (groupingKey r)))
    let modifiers ← stepping groupingModifier []
    let sets ← do
      if ← accept ["GROUPING", "SETS"] then
        let sets ← inBrackets (commaSeparated (groupingSet r))
        pure (said " GROUPING SETS (" :: withCommas (sets.map setParts) ++ [said ")"])
      else pure []
    match keys with
    | some es => return .keys es (modifiers ++ sets)
    | none => return .all (modifiers ++ sets)
  else return .keys [] []

/-! ## Conditions and windows -/

/-- A clause of one expression behind its keyword, if it is there. -/
def conditionIfAny (r : Rules) (word : String) : Parser (Option Expr) := do
  if ← keyword word then return some (← r.anyExpr) else return none

/-- A clause of expressions behind two keywords, if it is there. -/
def exprsIfAny (r : Rules) (words : List String) : Parser (List Piece) := do
  if ← accept words then
    let es ← r.exprs
    return said (" " ++ " ".intercalate words ++ " ") :: commaExprs es
  else return []

/-- Named windows behind their keyword. -/
def namedWindows (r : Rules) : Parser (List Piece) := do
  let windows ← commaSeparated do
    let name ← identifier
    expect ["AS"]
    let spec ← window r
    return .text name.render :: said " AS " :: spec
  return said " WINDOW " :: withCommas windows

/-- The condition on windows behind its keyword. -/
def windowCondition (r : Rules) : Parser (List Piece) := do
  let e ← r.anyExpr
  return [said " QUALIFY ", .expr e]

/-- Named windows and the condition on windows, in either order. -/
def windowClauses (r : Rules) : Parser (List Piece) := do
  if ← keyword "WINDOW" then
    let windows ← namedWindows r
    if ← keyword "QUALIFY" then return windows ++ (← windowCondition r) else return windows
  else if ← keyword "QUALIFY" then
    let condition ← windowCondition r
    if ← keyword "WINDOW" then return condition ++ (← namedWindows r) else return condition
  else return []

/-! ## Views and hierarchies -/

/-- Words that do not name a column of a view unless AS says so. -/
def notViewNames : List String := ["WHERE", "GROUP", "CLUSTER", "HAVING", "LATERAL"]

/-- One more view of each row, if it comes next. -/
def viewStep (r : Rules) (found : List Piece) : Parser (Option (List Piece)) := do
  if ← accept ["LATERAL", "VIEW"] then
    let outer ← keyword "OUTER"
    let e ← r.anyExpr
    let name ← dottedName
    let columns ← commaSeparated (nameIfAny notViewNames)
    let names := columns.filterMap id
    return some (found ++ clause (if outer then " LATERAL VIEW OUTER " else " LATERAL VIEW ") e ++
      [said " ", .text (renderPath name)] ++
      if names.isEmpty then [] else [said " AS ", .text (commaNames names)])
  else return none

/-- The condition at which a hierarchy starts, behind its keywords. -/
def hierarchyStart (r : Rules) : Parser Expr := do
  expect ["START", "WITH"]
  r.anyExpr

/-- The links between the rows of a hierarchy, behind their keywords. -/
def hierarchyLinks (r : Rules) : Parser (List Expr) := do
  expect ["CONNECT", "BY"]
  commaSeparated (r.link 0)

/-- A hierarchy of rows, if it is there: its start and its links, in either order. -/
def hierarchyIfAny (r : Rules) : Parser (List Piece) := do
  let parts (start : Expr) (links : List Expr) : List Piece :=
    clause " START WITH " start ++ said " CONNECT BY " :: commaExprs links
  if ← atKeyword "CONNECT" then
    let links ← hierarchyLinks r
    return parts (← hierarchyStart r) links
  else if ← atKeyword "START" then
    let start ← hierarchyStart r
    return parts start (← hierarchyLinks r)
  else return []

/-! ## The block -/

/-- The clauses of a block behind its sources. -/
def blockTail (r : Rules) (fromFirst : Bool) (head : List Piece) (items : List Item)
    (into : List Char) (tables : List Source) : Parser Select := do
  let views ← stepping (viewStep r) []
  let before ← conditionIfAny r "PREWHERE"
  let condition ← conditionIfAny r "WHERE"
  let groupBy ← grouping r
  let cluster ← exprsIfAny r ["CLUSTER", "BY"]
  let distribute ← exprsIfAny r ["DISTRIBUTE", "BY"]
  let sort ← do
    if ← accept ["SORT", "BY"] then
      let items ← sortItems r
      pure (said " SORT BY " :: commaSortItems items)
    else pure []
  let having ← conditionIfAny r "HAVING"
  let windows ← windowClauses r
  let hierarchy ← hierarchyIfAny r
  return .mk fromFirst head items into tables (views ++ before.elim [] (clause " PREWHERE "))
    condition groupBy (cluster ++ distribute ++ sort) having (windows ++ hierarchy)

/-- A block from its keyword SELECT on; `first` holds the sources that were named before it. -/
def selectBlock (r : Rules) (first : Option (List Source)) : Parser Select := do
  expect ["SELECT"]
  let distinct ← distinctIfAny r
  let top ← topIfAny r
  -- A block may project nothing at all.
  let items ← if ← atKeyword "FROM" then pure [] else projection r
  let into ← intoIfAny
  match first with
  | some tables => blockTail r true (distinct ++ top) items into tables
  | none =>
    let tables ← if ← keyword "FROM" then sources r else pure []
    blockTail r false (distinct ++ top) items into tables

/-- A block. Its sources may come first, and then SELECT may be missing altogether. -/
def block (r : Rules) : Parser Select := do
  if ← keyword "FROM" then
    let tables ← sources r
    if ← atKeyword "SELECT" then selectBlock r (some tables)
    else return .mk true [] [] [] tables [] none (.keys [] []) [] none []
  else selectBlock r none

end QueryScore.Sql
