/-
# QueryScore.Sql.Grammar.Whole -- queries, and all readers tied together

A query has common tables, a body of blocks joined by set operations, sort keys, and clauses that
limit, format or lock its result; or its body is a command on rows, and nothing stands behind it.
Set operations of equal rank go from left to right; INTERSECT binds more strongly. Here the readers
are tied together: at each level of nesting they use those of the level below, and below the last
level everything nests too deeply.
-/

import QueryScore.Sql.Grammar.Change
import QueryScore.Sql.Grammar.Operator
import QueryScore.Sql.Lexer

namespace QueryScore.Sql

open QueryScore.Sql.Parser

/-! ## Common tables -/

/-- A common table. -/
def commonTable (r : Rules) : Parser Cte := do
  let name ← identifier
  let columns ← if ← atKeyword "AS" then pure [] else namedColumns r
  expect ["AS"]
  let q ← inBrackets r.query
  let behind ← if ← keyword "FROM" then pure (some (← identifier)) else pure none
  return .mk ⟨name, columns⟩ q behind

/-! ## Bodies -/

/-- The rank of a set operation; 0 if none comes next. -/
def setRank : Parser Nat := do
  match ← keywordAt 0 with
  | some "UNION" | some "EXCEPT" | some "MINUS" => return 10
  | some "INTERSECT" => return 20
  | _ => return 0

/-- What a set operation does with duplicates and names. -/
def setQuantifier : Parser String := do
  for words in [["DISTINCT", "BY", "NAME"], ["BY", "NAME"], ["ALL", "BY", "NAME"], ["ALL"],
      ["DISTINCT"]] do
    if ← accept words then return " " ++ " ".intercalate words
  return ""

/-- The name of a table that is read whole: of three tokens the first and the third if a period
stands between them, else the first. Tokens behind the end of the text count as missing. -/
def wholeTable : Parser (List Piece) := do
  let name : Option Token → Parser (List Char) := fun
    | some (.word name) => pure name.text
    | _ => mismatch
  let first ← name (← peekAt 0)
  if (← peekAt 1) = some (.sign ".") then
    let second ← name (← peekAt 2)
    drop 3
    return [said "TABLE ", .text first, said ".", .text second]
  else
    drop 3
    return [said "TABLE ", .text first]

/-- A body without set operations. -/
def bodyOperand (r : Rules) : Parser Body := do
  if (← atKeyword "SELECT") || (← atKeyword "FROM") then return .select (← block r)
  if ← sign "(" then
    let q ← r.query
    expectSign ")"
    return .query q
  if ← keyword "VALUES" then return .form (← valueRows r)
  if ← keyword "TABLE" then return .form (← wholeTable)
  mismatch

/-- One more set operation, if it ranks above the context. -/
def setStep (right : Nat → Parser Body) (context : Nat) (left : Body) : Parser (Option Body) := do
  let rank ← setRank
  if context < rank then
    let word ← expectOneOf ["UNION", "EXCEPT", "MINUS", "INTERSECT"]
    let quantifier ← setQuantifier
    return some (.setOp (word ++ quantifier) left (← right rank))
  else return none

/-- A body of set operations that rank above the context; there are two ranks. -/
def bodyOver (r : Rules) : (ranks : Nat) → (context : Nat) → Parser Body
  | 0, _ => bodyOperand r
  | ranks + 1, context => do
    stepping (setStep (bodyOver r ranks) context) (← bodyOperand r)

/-! ## Clauses behind the body -/

/-- The sort keys, if they are there. -/
def orderIfAny (r : Rules) : Parser (List SortItem) := do
  if ← accept ["ORDER", "BY"] then sortItems r else return []

/-- The number of skipped rows behind its keyword. -/
def offsetClause (r : Rules) : Parser (List Piece) := do
  let e ← r.anyExpr
  let rows ← oneOf ["ROW", "ROWS"]
  return [said " OFFSET ", .expr e, said ((rows.map (" " ++ ·)).getD "")]

/-- The number of skipped rows, if it is there. -/
def offsetIfAny (r : Rules) : Parser (List Piece) := do
  if ← keyword "OFFSET" then offsetClause r else return []

/-- The number of rows and of skipped rows, in either order, if they are there. -/
def limitIfAny (r : Rules) : Parser (List Piece) := do
  let skipped ← offsetIfAny r
  if ← keyword "LIMIT" then
    if ← keyword "ALL" then
      let by_ ← exprsIfAny r ["BY"]
      let skipped ← if skipped.isEmpty then offsetIfAny r else pure skipped
      return skipped ++ by_
    let e ← r.anyExpr
    if skipped.isEmpty then
      -- Of two numbers with a comma between them the first is that of the skipped rows.
      if ← sign "," then
        let limit ← r.anyExpr
        return [said " LIMIT ", .expr e, said ", ", .expr limit]
    let by_ ← exprsIfAny r ["BY"]
    let skipped ← if skipped.isEmpty then offsetIfAny r else pure skipped
    return [said " LIMIT ", .expr e] ++ skipped ++ by_
  else return skipped

/-- The first rows of the result, if they are asked for. -/
def fetchIfAny : Parser (List Piece) := do
  if ← keyword "FETCH" then
    let _ ← oneOf ["FIRST", "NEXT"]
    let quantity ← do
      match ← oneOf ["ROW", "ROWS"] with
      | some _ => pure []
      | none =>
        let text ← value
        let percent ← keyword "PERCENT"
        let _ ← oneOf ["ROW", "ROWS"]
        pure [said " ", .text text, said (if percent then " PERCENT" else "")]
    let ending ← do
      if ← keyword "ONLY" then pure " ROWS ONLY"
      else if ← accept ["WITH", "TIES"] then pure " ROWS WITH TIES"
      else pure " ROWS ONLY"
    return said " FETCH FIRST" :: quantity ++ [said ending]
  else return []

/-- A lock on the rows, behind its keyword. -/
def lock : Parser (List Piece) := do
  let kind ← expectOneOf ["UPDATE", "SHARE"]
  let table ← do
    match ← behind ["OF"] dottedName with
    | some name => pure (" OF ".toList ++ renderPath name)
    | none => pure []
  let waiting ← acceptAny [["NOWAIT"], ["SKIP", "LOCKED"]]
  return [said (" FOR " ++ kind), .text table,
    said ((waiting.map fun words => " " ++ " ".intercalate words).getD "")]

/-- A name in brackets for an element of the written result, if it is there. -/
def elementNameIfAny : Parser (List Char) := do
  if ← atSign "(" then return "('".toList ++ (← inBrackets stringText) ++ "')".toList else return []

/-- The options of a written result that have been named, each with its text. -/
abbrev WrittenOptions := List (String × List Char)

/-- One more option of a written result, if a comma comes next; it may be missing behind the comma.
Later options overrule. -/
def writtenOptionStep (known : List (List String)) (found : WrittenOptions) :
    Parser (Option WrittenOptions) := do
  if ← sign "," then
    match ← acceptAny known with
    | some ["ROOT"] =>
      let name ← inBrackets stringText
      return some (("ROOT", "ROOT('".toList ++ name ++ "')".toList) :: found)
    | some words =>
      let text := " ".intercalate words
      return some ((text, text.toList) :: found)
    | none => return some found
  else return none

/-- The options of a written result in the order in which they are written back. -/
def writtenOptions (known : List (List String)) (order : List String) : Parser (List Piece) := do
  let found ← stepping (writtenOptionStep known) []
  return order.filterMap fun name =>
    (found.lookup name).map fun text => .text (", ".toList ++ text)

/-- How the result is written as a document, or that it is browsed, if that is said. -/
def writtenIfAny : Parser (Option (List Piece)) := do
  if ← keyword "XML" then
    let form ← expectOneOf ["RAW", "AUTO", "EXPLICIT", "PATH"]
    let name ← if form = "RAW" || form = "PATH" then elementNameIfAny else pure []
    let options ← writtenOptions [["ELEMENTS"], ["BINARY", "BASE64"], ["ROOT"], ["TYPE"]]
      ["BINARY BASE64", "TYPE", "ROOT", "ELEMENTS"]
    return some (said (" FOR XML " ++ form) :: .text name :: options)
  if ← keyword "JSON" then
    let form ← expectOneOf ["AUTO", "PATH"]
    let options ← writtenOptions [["ROOT"], ["INCLUDE_NULL_VALUES"], ["WITHOUT_ARRAY_WRAPPER"]]
      ["ROOT", "INCLUDE_NULL_VALUES", "WITHOUT_ARRAY_WRAPPER"]
    return some (said (" FOR JSON " ++ form) :: options)
  if ← keyword "BROWSE" then return some [said " FOR BROWSE"]
  return none

/-- One more clause behind FOR, if it comes next: a lock, or how the result is written, which ends
the clauses. -/
def forStep (found : List Piece × Bool) : Parser (Option (List Piece × Bool)) := do
  if found.2 then return none
  if ← keyword "FOR" then
    match ← writtenIfAny with
    | some written => return some (found.1 ++ written, true)
    | none => return some (found.1 ++ (← lock), false)
  else return none

/-- The format of the result, if it is there. -/
def formatIfAny : Parser (List Piece) := do
  if ← keyword "FORMAT" then
    if ← keyword "NULL" then return [said " FORMAT NULL"]
    let name ← identifier
    return [said " FORMAT ", .text name.render]
  else return []

/-! ## Queries -/

/-- An expression for the gaps in a column. -/
def gapFiller (r : Rules) : Parser (List Piece) := do
  let name ← identifier
  return .text name.render :: (← behind ["AS"] r.anyExpr).elim [] (clause " AS ")

/-- What fills the gaps between sorted rows, if that is said. -/
def gapFillersIfAny (r : Rules) : Parser (List Piece) := do
  if ← keyword "INTERPOLATE" then
    if ← sign "(" then
      let fillers ← listUntil ")" (gapFiller r)
      return said " INTERPOLATE (" :: withCommas fillers ++ [said ")"]
    else return [said " INTERPOLATE"]
  else return []

/-- A query behind its common tables. -/
def queryBehind (r : Rules) (recursive : Bool) (ctes : List Cte) : Parser Query := do
  let body ← bodyOver r 2 0
  let order ← orderIfAny r
  -- Gaps are filled between sorted rows only.
  let fillers ← if order.isEmpty then pure [] else gapFillersIfAny r
  let limit ← limitIfAny r
  let settings ← settingsIfAny r
  let fetch ← fetchIfAny
  let (locks, _) ← stepping forStep ([], false)
  let format ← formatIfAny
  let settings := if settings.isEmpty then [] else said " " :: settings
  return .mk recursive ctes body order (fillers ++ limit ++ settings ++ fetch ++ locks ++ format)

/-- A query. -/
def queryOf (r : Rules) : Parser Query := do
  let common ← keyword "WITH"
  let recursive ← if common then keyword "RECURSIVE" else pure false
  let ctes ← if common then commaSeparated (commonTable r) else pure []
  match (← keywordAt 0).bind (changeBehind r) with
  | some change =>
    drop 1
    return .mk recursive ctes (.form (← change)) [] []
  | none => queryBehind r recursive ctes

/-! ## Nesting -/

/-- The deepest nesting of queries, expressions and tables in each other. -/
def maxDepth : Nat := 50

/-- The readers of phrases outside and inside the links of a hierarchy. -/
structure Levels where
  /-- The readers where PRIOR is a name. -/
  plain : Rules
  /-- The readers where PRIOR is an operator. -/
  link : Rules

/-- Readers over the readers of the level below. -/
def Rules.above (below : Levels) (r : Rules) (linking : Bool) : Rules where
  query := queryOf r
  expr := exprOver r
  table := tableOf r
  link := exprOver below.link
  linking := linking

/-- The readers that refuse everything as too deep. -/
def Rules.tooDeep : Rules where
  query := throw .tooDeep
  expr := fun _ => throw .tooDeep
  table := throw .tooDeep
  link := fun _ => throw .tooDeep
  linking := false

/-- The readers of phrases that nest at most so deeply. -/
def levels : Nat → Levels
  | 0 => ⟨.tooDeep, .tooDeep⟩
  | depth + 1 =>
    -- What is nested in a phrase is read by the level below.
    let below := levels depth
    ⟨Rules.above below below.plain false, Rules.above below below.link true⟩

/-- The readers of phrases outside a hierarchy that nest at most so deeply. -/
def rules (depth : Nat) : Rules := (levels depth).plain

/-- Reads a text as one expression; what follows the expression does not matter. -/
def parseExpr (source : List Char) : Option Expr := do
  let tokens ← lex source
  match ((rules maxDepth).expr 0).run tokens with
  | .ok (e, _) => some e
  | .error _ => none

end QueryScore.Sql
