/-
# QueryScore.Sql.Grammar.Reshape -- tables with their rows chosen or rearranged

Behind a table may stand a sample of its rows, the turning of rows into columns or back, and a
pattern that sequences of rows match. A rearranged table is a form that holds the table it is made
from.
-/

import QueryScore.Sql.Grammar.Call
import QueryScore.Sql.Grammar.Naming

namespace QueryScore.Sql

open QueryScore.Sql.Parser

/-! ## Samples -/

/-- One bucket of several into which the rows are distributed, behind its keyword. -/
def sampleBucket (r : Rules) : Parser (List Piece) := do
  let chosen ← numeral
  expect ["OUT", "OF"]
  let total ← numeral
  let on_ ← behind ["ON"] r.anyExpr
  return [said " (BUCKET ", .text chosen, said " OUT OF ", .text total] ++
    (on_.elim [] (clause " ON ")) ++ [said ")"]

/-- The size of a sample: an expression, or any word. -/
def sampleSize (r : Rules) : Parser (List Piece) := do
  let amount ← do
    match ← optional r.anyExpr with
    | some e => pure [.expr e]
    | none =>
      match ← next with
      | .word name => pure [.text name.text]
      | _ => mismatch
  let unit ← oneOf ["ROWS", "PERCENT"]
  return amount ++ [said ((unit.map (" " ++ ·)).getD "")]

/-- What is sampled: the size, or a bucket, which needs brackets; with the size in brackets or
not. The first part stands before the seed, the second behind it. -/
def sampleQuantity (r : Rules) : Parser (List Piece × List Piece) := do
  if ← sign "(" then
    let found ← do
      if ← keyword "BUCKET" then
        let bucket ← sampleBucket r
        pure ([], bucket)
      else
        let size ← sampleSize r
        pure (said " (" :: size ++ [said ")"], [])
    expectSign ")"
    return found
  else return (said " " :: (← sampleSize r), [])

/-- A sample of a table's rows, if it is there. -/
def sampleIfAny (r : Rules) : Parser (List Piece) := do
  match ← oneOf ["TABLESAMPLE", "SAMPLE"] with
  | none => return []
  | some word =>
    let method ← oneOf ["BERNOULLI", "ROW", "SYSTEM", "BLOCK"]
    let (size, bucket) ← sampleQuantity r
    let seed ← do
      match ← oneOf ["REPEATABLE", "SEED"] with
      | some kind =>
        let number ← inBrackets numeral
        pure [said (" " ++ kind ++ " ("), .text number, said ")"]
      | none => pure []
    let offset ← behind ["OFFSET"] r.anyExpr
    return said (" " ++ word ++ (method.map (" " ++ ·)).getD "") :: size ++ seed ++ bucket ++
      offset.elim [] (clause " OFFSET ")

/-! ## Rows as columns, columns as rows -/

/-- A table as part of a form. -/
def Table.part (table : Table) : Piece := .source (.mk table [])

/-- A call by a bare name, perhaps with a name behind AS. -/
def namedCall (r : Rules) : Parser (List Piece) := do
  match ← next with
  | .word name =>
    let tail ← callTail r
    let call := Piece.expr (.call [⟨name.text, none⟩] tail)
    match ← behind ["AS"] identifier with
    | some other => return [call, said " AS ", .text other.render]
    | none => return [call]
  | _ => mismatch

/-- The values that become columns: all of them, those of a query, or a list. -/
def pivotValues (r : Rules) : Parser (List Piece) := do
  if ← keyword "ANY" then
    match ← behind ["ORDER", "BY"] (sortItems r) with
    | some items => return said "ANY ORDER BY " :: commaSortItems items
    | none => return [said "ANY"]
  if (← atKeyword "SELECT") || (← atKeyword "WITH") then return [.query (← r.query)]
  return withCommas (← commaSeparated (namedExpr r))

/-- A table of which rows become columns, behind the keyword. -/
def pivotedTable (r : Rules) (table : Table) : Parser Table := do
  let parts ← inBrackets do
    let calls ← commaSeparated (namedCall r)
    expect ["FOR"]
    let column ← dottedName
    expect ["IN"]
    let values ← inBrackets (pivotValues r)
    let default_ ← behind ["DEFAULT", "ON", "NULL"] (inBrackets r.anyExpr)
    return [table.part, said " PIVOT("] ++ withCommas calls ++
      [said " FOR ", .text (renderPath column), said " IN ("] ++ values ++ [said ")"] ++
      (default_.elim [] fun e => clause " DEFAULT ON NULL (" e ++ [said ")"]) ++ [said ")"]
  return .form parts (← aliasIfAny r) []

/-- A table of which columns become rows, behind the keyword. -/
def unpivotedTable (r : Rules) (table : Table) : Parser Table := do
  let nulls ← acceptAny [["INCLUDE", "NULLS"], ["EXCLUDE", "NULLS"]]
  let parts ← inBrackets do
    let value ← identifier
    expect ["FOR"]
    let name ← identifier
    expect ["IN"]
    let columns ← nameList
    let treatment := (nulls.map fun words => " " ++ " ".intercalate words ++ " ").getD ""
    return [table.part, said (" UNPIVOT" ++ treatment ++ "("), .text value.render, said " FOR ",
      .text name.render, said " IN (", .text (commaNames columns), said "))"]
  return .form parts (← aliasIfAny r) []

/-- One more turning of a table, if it comes next. -/
def turnStep (r : Rules) (table : Table) : Parser (Option Table) := do
  match ← oneOf ["PIVOT", "UNPIVOT"] with
  | some "PIVOT" => return some (← pivotedTable r table)
  | some _ => return some (← unpivotedTable r table)
  | none => return none

/-! ## Patterns of rows -/

/-- Numbers that bound a repetition, behind the opening brace. -/
def repetitionBounds : Parser (List Char) := do
  let bound : Parser (List Char) := do return (← natural).repr.toList
  let text ← do
    if ← sign "," then pure (',' :: (← bound))
    else
      let least ← bound
      if ← sign "," then
        if ← atSign "\x7d" then pure (least ++ [','])
        else pure (least ++ ',' :: (← bound))
      else pure least
  expectSign "\x7d"
  return "\x7b".toList ++ text ++ "\x7d".toList

/-- One more repetition behind a pattern, if it comes next. -/
def repetitionStep (pattern : List Char) : Parser (Option (List Char)) := do
  match ← peek with
  | some (.sign "*") => drop 1; return some (pattern ++ ['*'])
  | some (.sign "+") => drop 1; return some (pattern ++ ['+'])
  | some (.parameter ['?']) => drop 1; return some (pattern ++ ['?'])
  | some (.sign "\x7b") =>
    drop 1
    return some (pattern ++ (← repetitionBounds))
  | _ => return none

/-- A pattern without repetition: a symbol, an end of the rows, or a pattern in brackets. -/
def basePattern (pattern : Parser (List Char)) : Parser (List Char) := do
  match ← peek with
  | some (.sign "^") => drop 1; return ['^']
  | some (.parameter ['$']) => drop 1; return ['$']
  | some (.sign "\x7b") =>
    drop 1
    expectSign "-"
    let name ← identifier
    expectSign "-"
    expectSign "\x7d"
    return "\x7b- ".toList ++ name.render ++ " -\x7d".toList
  | some (.sign "(") =>
    let inner ← inBrackets pattern
    return "( ".toList ++ inner ++ " )".toList
  | some (.word name) =>
    drop 1
    if name.quote.isNone ∧ name.text = "PERMUTE".toList then
      let names ← nameList
      return "PERMUTE(".toList ++ commaNames names ++ ")".toList
    else return name.render
  | _ => return (← identifier).render

/-- Patterns in a row, up to a bracket or a bar. -/
def patternSequence (pattern : Parser (List Char)) : Parser (List Char) := do
  let found ← phrases do
    let one ← stepping repetitionStep (← basePattern pattern)
    return (one, !(← atSign ")") && !(← atSign "|"))
  return [' '].intercalate found

/-- A pattern in which patterns nest at most so deeply: sequences, of which one must match. -/
def patternWithin : Nat → Parser (List Char)
  | 0 => mismatch
  | fuel + 1 => do
    let choices ← phrases do
      let one ← patternSequence (patternWithin fuel)
      return (one, ← sign "|")
    return " | ".toList.intercalate choices

/-- A pattern. Each pattern inside another takes a token at least. -/
def rowPattern : Parser (List Char) := do patternWithin ((← get).length + 1)

/-- How many rows a match gives, if that is said. -/
def matchOutput : Parser (List Piece) := do
  if ← accept ["ONE", "ROW", "PER", "MATCH"] then return [said "ONE ROW PER MATCH "]
  if ← accept ["ALL", "ROWS", "PER", "MATCH"] then
    let empty ← acceptAny [["SHOW", "EMPTY", "MATCHES"], ["OMIT", "EMPTY", "MATCHES"],
      ["WITH", "UNMATCHED", "ROWS"]]
    let mode := (empty.map fun words => " " ++ " ".intercalate words).getD ""
    return [said ("ALL ROWS PER MATCH" ++ mode ++ " ")]
  return []

/-- Where the search goes on behind a match, if that is said. -/
def matchSkip : Parser (List Piece) := do
  if ← accept ["AFTER", "MATCH", "SKIP"] then
    if ← accept ["PAST", "LAST", "ROW"] then return [said "AFTER MATCH SKIP PAST LAST ROW "]
    if ← accept ["TO", "NEXT", "ROW"] then return [said "AFTER MATCH SKIP TO NEXT ROW "]
    expect ["TO"]
    let side ← expectOneOf ["FIRST", "LAST"]
    let name ← identifier
    return [said ("AFTER MATCH SKIP TO " ++ side ++ " "), .text name.render, said " "]
  else return []

/-- An expression over a match with its name. -/
def matchMeasure (r : Rules) : Parser (List Piece) := do
  let e ← r.anyExpr
  let _ ← keyword "AS"
  let name ← identifier
  return [.expr e, said " AS ", .text name.render]

/-- The condition under which a row is a symbol of the pattern. -/
def matchSymbol (r : Rules) : Parser (List Piece) := do
  let name ← identifier
  expect ["AS"]
  return .text name.render :: clause " AS " (← r.anyExpr)

/-- The matches of a pattern among a table's rows, behind the keyword. -/
def matchedTable (r : Rules) (table : Table) : Parser Table := do
  let parts ← inBrackets do
    let partition ← behind ["PARTITION", "BY"] r.exprs
    let order ← behind ["ORDER", "BY"] (sortItems r)
    let measures ← behind ["MEASURES"] (commaSeparated (matchMeasure r))
    let output ← matchOutput
    let skip ← matchSkip
    expect ["PATTERN"]
    let pattern ← inBrackets rowPattern
    expect ["DEFINE"]
    let symbols ← commaSeparated (matchSymbol r)
    let part (words : String) (found : Option (List Piece)) : List Piece :=
      found.elim [] fun parts => said words :: parts ++ [said " "]
    return [table.part, said " MATCH_RECOGNIZE("] ++
      part "PARTITION BY " (partition.map commaExprs) ++
      part "ORDER BY " (order.map commaSortItems) ++
      part "MEASURES " (measures.map withCommas) ++ output ++ skip ++
      [said "PATTERN (", .text pattern, said ") DEFINE "] ++ withCommas symbols ++ [said ")"]
  return .form parts (← aliasIfAny r) []

/-- A table with the matches of a pattern in place of its rows, if a pattern comes next. -/
def matchesIfAny (r : Rules) (table : Table) : Parser Table := do
  if ← keyword "MATCH_RECOGNIZE" then matchedTable r table else return table

end QueryScore.Sql
