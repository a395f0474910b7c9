/-
# QueryScore.Sql.Grammar.From -- the tables and joins of a FROM clause

A table is named, or derived from a query, or a bracketed source, or another form that gives rows.
Behind it stand the joins.
-/

import QueryScore.Sql.Grammar.Document
import QueryScore.Sql.Grammar.Reshape

namespace QueryScore.Sql

open QueryScore.Sql.Parser

/-! ## Tables -/

/-- The settings behind a query or the arguments of a table, if they are there. -/
def settingsIfAny (r : Rules) : Parser (List Piece) := do
  if ← keyword "SETTINGS" then
    let settings ← commaSeparated do
      let name ← identifier
      expectSign "="
      let e ← r.anyExpr
      return [.text name.render, said " = ", .expr e]
    return said "SETTINGS " :: withCommas settings
  else return []

/-- An argument of a table and whether another may follow; settings end the list. -/
def tableArgument (r : Rules) : Parser (List Piece × Bool) := do
  let settings ← settingsIfAny r
  if settings.isEmpty then
    let parts ← argument r
    return (parts, ← sign ",")
  else return (settings, false)

/-- The arguments of a table in brackets, if they are there. -/
def tableArguments (r : Rules) : Parser (List Piece) := do
  if ← sign "(" then
    if ← sign ")" then return [said "()"]
    let args ← phrases (tableArgument r)
    expectSign ")"
    return said "(" :: withCommas args ++ [said ")"]
  else return []

/-- The hints behind a table, if they are there. -/
def tableHints (r : Rules) : Parser (List Piece) := do
  if (← keywordAt 0) = some "WITH" ∧ (← peekAt 1) = some (.sign "(") then
    drop 2
    let hints ← r.exprs
    expectSign ")"
    return said " WITH (" :: commaExprs hints ++ [said ")"]
  else return []

/-- A table by its name. -/
def namedTable (r : Rules) : Parser Table := do
  let name ← dottedName
  let partitions ← do
    if ← keyword "PARTITION" then
      let names ← inBrackets (commaSeparated identifier)
      pure [said " PARTITION (", .text (commaNames names), said ")"]
    else pure []
  let args ← tableArguments r
  let ordinality ← do
    if ← accept ["WITH", "ORDINALITY"] then pure [said " WITH ORDINALITY"] else pure []
  let alias? ← aliasIfAny r
  let hints ← tableHints r
  let sample ← sampleIfAny r
  let table := .named name (partitions ++ args ++ ordinality) alias? (hints ++ sample)
  matchesIfAny r (← stepping (turnStep r) table)

/-- A subquery behind its opening bracket. -/
def derivedTable (r : Rules) (lateral : Bool) : Parser Table := do
  let q ← r.query
  expectSign ")"
  return .derived lateral q (← aliasIfAny r)

/-- Rows written out. -/
def valueRows (r : Rules) : Parser (List Piece) := do
  let rows ← commaSeparated do
    let explicit ← keyword "ROW"
    let es ← inBrackets r.exprs
    return (explicit, commaExprs es)
  let opening := if rows.any Prod.fst then "ROW(" else "("
  return said "VALUES " :: withCommas (rows.map fun row => said opening :: row.2 ++ [said ")"])

/-- Arrays as rows, behind the keyword. -/
def unnestedTable (r : Rules) : Parser Table := do
  let es ← inBrackets r.exprs
  let ordinality ← accept ["WITH", "ORDINALITY"]
  let alias? ← aliasIfAny r
  let offset ← do
    if ← accept ["WITH", "OFFSET"] then
      match ← nameIfAny notColumnNames with
      | some name => pure [said " WITH OFFSET AS ", .text name.render]
      | none => pure [said " WITH OFFSET"]
    else pure []
  let ending := if ordinality then ") WITH ORDINALITY" else ")"
  return .form (said "UNNEST(" :: commaExprs es ++ [said ending]) alias? offset

/-- The table with another name behind brackets; it must have none yet. -/
def Table.rename (outer : Alias) : Table → Option Table
  | .named name options none hints => some (.named name options (some outer) hints)
  | .derived lateral q none => some (.derived lateral q (some outer))
  | .joined inner none => some (.joined inner (some outer))
  | .form parts none tail => some (.form parts (some outer) tail)
  | _ => none

/-- A source in brackets stays one if it has joins or is itself bracketed; else the brackets go,
and a name behind them becomes the name of the table. -/
def bracketedSource (r : Rules) (source : Source) : Parser Table := do
  let outer ← aliasIfAny r
  match source.joins, source.table, outer with
  | [], .joined _ _, _ => return .joined source outer
  | [], table, none => return table
  | [], table, some name =>
    match table.rename name with
    | some renamed => return renamed
    | none => mismatch
  | _ :: _, _, _ => return .joined source outer

/-! ## Joins -/

/-- A side and what may stand between it and JOIN. -/
def sidedKind (left : Bool) : Parser JoinKind := do
  match ← expectOneOf ["OUTER", "SEMI", "ANTI", "JOIN"] with
  | "OUTER" => expect ["JOIN"]; return if left then .leftOuter else .rightOuter
  | "SEMI" => expect ["JOIN"]; return if left then .leftSemi else .rightSemi
  | "ANTI" => expect ["JOIN"]; return if left then .leftAnti else .rightAnti
  | _ => return if left then .left else .right

/-- The words of a join operator; none if none comes next. -/
def joinKindIfAny : Parser (Option JoinKind) := do
  match ← keywordAt 0 with
  | some "JOIN" => drop 1; return some .plain
  | some "INNER" => expect ["INNER", "JOIN"]; return some .inner
  | some "LEFT" => drop 1; return some (← sidedKind true)
  | some "RIGHT" => drop 1; return some (← sidedKind false)
  | some "FULL" =>
    drop 1
    let _ ← keyword "OUTER"
    expect ["JOIN"]
    return some .full
  | some "SEMI" => expect ["SEMI", "JOIN"]; return some .semi
  | some "ANTI" => expect ["ANTI", "JOIN"]; return some .anti
  | some "STRAIGHT_JOIN" => drop 1; return some .straight
  | _ => return none

/-- The condition of a join. -/
def joinConstraint (r : Rules) (natural : Bool) : Parser Constraint := do
  if natural then return .natural
  if ← keyword "ON" then return .on (← r.anyExpr)
  if ← keyword "USING" then return .shared (← dottedNames)
  return .unconditional

/-- A join to the closest row, behind the first keyword. -/
def closestJoin (r : Rules) (everywhere : Bool) : Parser Join := do
  expect ["JOIN"]
  let table ← r.table
  expect ["MATCH_CONDITION"]
  let e ← inBrackets r.anyExpr
  return .mk everywhere .asof table (.closest e (← joinConstraint r false))

/-- One more join, if it comes next. A GLOBAL that no join follows is taken all the same. -/
def joinStep (r : Rules) (joins : List Join) : Parser (Option (List Join)) := do
  let everywhere ← keyword "GLOBAL"
  let done (join : Join) : Option (List Join) := some (joins ++ [join])
  if ← keyword "CROSS" then
    let kind := if (← expectOneOf ["JOIN", "APPLY"]) = "JOIN" then .cross else .crossApply
    return done (.mk everywhere kind (← r.table) .unconditional)
  if ← keyword "OUTER" then
    expect ["APPLY"]
    return done (.mk everywhere .outerApply (← r.table) .unconditional)
  if ← keyword "ASOF" then return done (← closestJoin r everywhere)
  let natural ← keyword "NATURAL"
  match ← joinKindIfAny with
  | some kind =>
    let table ← r.table
    let constraint ← joinConstraint r natural
    return done (.mk everywhere kind table constraint)
  | none =>
    if natural then mismatch
    return none

/-- A table with the joins behind it. -/
def source (r : Rules) : Parser Source := do
  let table ← r.table
  let joins ← stepping (joinStep r) []
  return .mk table joins

/-- The sources of a FROM clause. -/
def sources (r : Rules) : Parser (List Source) := commaSeparated (source r)

/-! ## Any table -/

/-- A bracket opens a subquery or a bracketed source. -/
def bracketTable (r : Rules) : Parser Table :=
  either (derivedTable r false) fun _ => do
    let inner ← source r
    expectSign ")"
    bracketedSource r inner

/-- A table, read with the tables inside it. -/
def tableOf (r : Rules) : Parser Table := do
  match ← keywordAt 0, ← peekAt 1 with
  | some "LATERAL", _ =>
    drop 1
    if ← sign "(" then derivedTable r true
    else
      let name ← dottedName
      expectSign "("
      let args ← listUntil ")" (argument r)
      let alias? ← aliasIfAny r
      return .form (said "LATERAL " :: .text (renderPath name) :: said "(" :: withCommas args ++
        [said ")"]) alias? []
  | some "TABLE", _ =>
    drop 1
    let e ← inBrackets r.anyExpr
    return .form [said "TABLE(", .expr e, said ")"] (← aliasIfAny r) []
  | some "VALUES", some (.sign "(") =>
    drop 1
    let rows ← valueRows r
    return .derived false (.mk false [] (.form rows) [] []) (← aliasIfAny r)
  | some "UNNEST", _ =>
    drop 1
    unnestedTable r
  | some "JSON_TABLE", some (.sign "(") => drop 1; documentTable r
  | some "OPENJSON", some (.sign "(") => drop 1; openedTable r
  | some "XMLTABLE", some (.sign "(") => drop 1; elementTable r
  | _, _ => if ← sign "(" then bracketTable r else namedTable r

end QueryScore.Sql
