/-
# QueryScore.Sql.Grammar.Change -- commands that change rows

INSERT, UPDATE, DELETE and MERGE are read here, each behind its keyword, and given as the parts they
are written back with. They are commands of their own, and they may stand where a query gives rows.
-/

import QueryScore.Sql.Grammar.Block

namespace QueryScore.Sql

open QueryScore.Sql.Parser

/-! ## Parts of commands -/

/-- Sources, separated by commas. -/
def commaSources (found : List Source) : List Piece := withCommas (found.map fun s => [.source s])

/-- The parts of a projected item. -/
def Item.parts : Item → List Piece
  | .expr e => [.expr e]
  | .aliased e name => [.expr e, said " AS ", .text name.render]
  | .star parts => parts

/-- A table by its bare name. -/
def bareTable (name : List Ident) : Piece := .source (.mk (.named name [] none []) [])

/-- Names in brackets behind a blank; nothing if there are none. -/
def listedNames (names : List Ident) : List Piece :=
  if names.isEmpty then [] else [said " (", .text (commaNames names), said ")"]

/-- An assignment to a column, or to several in brackets. -/
def assignment (r : Rules) : Parser (List Piece) := do
  let target ← do
    if ← atSign "(" then
      let names ← dottedNames
      pure ("(".toList ++ [',', ' '].intercalate (names.map renderPath) ++ ")".toList)
    else renderPath <$> dottedName
  expectSign "="
  return .text target :: clause " = " (← r.anyExpr)

/-- Assignments, separated by commas. -/
def assignments (r : Rules) : Parser (List Piece) := do
  return withCommas (← commaSeparated (assignment r))

/-- The condition on the rows that are changed, if it is there. -/
def rowCondition (r : Rules) : Parser (List Piece) := do
  return (← behind ["WHERE"] r.anyExpr).elim [] (clause " WHERE ")

/-- What is given back of the changed rows, if that is said. -/
def returningIfAny (r : Rules) : Parser (List Piece) := do
  match ← behind ["RETURNING"] (commaSeparated (projectedItem r)) with
  | some items => return said " RETURNING " :: withCommas (items.map Item.parts)
  | none => return []

/-- Sources behind a keyword, if it is there. -/
def sourcesBehind (r : Rules) (word : String) : Parser (List Piece) := do
  match ← behind [word] (sources r) with
  | some found => return said (" " ++ word ++ " ") :: commaSources found
  | none => return []

/-- What to do about rows that break a constraint, if that is said. -/
def conflictClause : Parser (Option String) := do
  let choices := conflictAnswers.map fun answer => ["OR", answer]
  return (← acceptAny choices).map (" ".intercalate ·)

/-! ## INSERT -/

/-- The rows that collide: those of a constraint, those with equal columns, or any. -/
def conflictTarget : Parser (List Piece) := do
  if ← accept ["ON", "CONSTRAINT"] then
    return [said " ON CONSTRAINT ", .text (renderPath (← dottedName))]
  if ← atSign "(" then return [said "(", .text (commaNames (← nameList)), said ")"]
  return []

/-- What to do with rows that are there already, if that is said. -/
def collisionIfAny (r : Rules) : Parser (List Piece) := do
  if ← keyword "ON" then
    if ← keyword "CONFLICT" then
      let target ← conflictTarget
      expect ["DO"]
      if ← keyword "NOTHING" then return said " ON CONFLICT" :: target ++ [said " DO NOTHING"]
      expect ["UPDATE", "SET"]
      let changes ← assignments r
      let condition ← rowCondition r
      return said " ON CONFLICT" :: target ++ said " DO UPDATE SET " :: changes ++ condition
    expect ["DUPLICATE", "KEY", "UPDATE"]
    return said " ON DUPLICATE KEY UPDATE " :: (← assignments r)
  else return []

/-- A name for the new rows, if it is there. -/
def newRowsName : Parser (List Piece) := do
  match ← behind ["AS"] dottedName with
  | some name =>
    let columns ← nameListIfAny
    return said " AS " :: .text (renderPath name) :: listedNames columns
  | none => return []

/-- The columns that get values, and the parts of the table that take the rows. -/
def insertColumns (r : Rules) : Parser (List Piece) := do
  if (← atSign "(") then
    match ← keywordAt 1 with
    | some "SELECT" | some "WITH" => return []
    | _ => pure ()
  let columns ← nameListIfAny
  let partition ← behind ["PARTITION"] (inBrackets r.exprs)
  return (if columns.isEmpty then [] else [said "(", .text (commaNames columns), said ") "]) ++
    partition.elim [] fun es => said "PARTITION (" :: commaExprs es ++ [said ") "]

/-- The rest of an INSERT into a table; `opening` is what stands before the table. -/
def insertIntoTable (r : Rules) (opening : List Piece) : Parser (List Piece) := do
  let name ← dottedName
  let rows ← do
    if ← accept ["DEFAULT", "VALUES"] then pure [said "DEFAULT VALUES"]
    else
      let columns ← insertColumns r
      let q ← r.query
      pure (columns ++ [.query q])
  let newRows ← newRowsName
  let collision ← collisionIfAny r
  let returning ← returningIfAny r
  return opening ++ bareTable name :: said " " :: rows ++ newRows ++ collision ++ returning

/-- The formats of files. -/
def fileFormats : List String :=
  ["AVRO", "JSONFILE", "ORC", "PARQUET", "RCFILE", "SEQUENCEFILE", "TEXTFILE"]

/-- The rest of an INSERT into files; `opening` is what stands before the directory. -/
def insertIntoFiles (r : Rules) (opening : String) : Parser (List Piece) := do
  let path ← stringText
  let format ← behind ["STORED", "AS"] (expectOneOf fileFormats)
  let q ← r.query
  return [said opening, .text path, said "'"] ++
    (format.toList.map fun name => said (" STORED AS " ++ name)) ++ [said " ", .query q]

/-- A word and a blank before it, if it is there. -/
def wordIf (present : Bool) (word : String) : String := if present then " " ++ word else ""

/-- The rest of an INSERT, or of a REPLACE as `verb` says. -/
def insertion (r : Rules) (verb : String) : Parser (List Piece) := do
  let conflict ← conflictClause
  let priority ← oneOf ["LOW_PRIORITY", "DELAYED", "HIGH_PRIORITY"]
  let ignore ← keyword "IGNORE"
  let overwrite ← keyword "OVERWRITE"
  let into ← keyword "INTO"
  let localFiles ← keyword "LOCAL"
  if ← keyword "DIRECTORY" then
    insertIntoFiles r ("INSERT" ++ wordIf overwrite "OVERWRITE" ++ wordIf localFiles "LOCAL" ++
      " DIRECTORY '")
  else
    let table ← keyword "TABLE"
    let opening := match conflict with
      | some answer => "INSERT " ++ answer ++ " INTO "
      | none => verb ++ (priority.map (" " ++ ·)).getD "" ++ wordIf ignore "IGNORE" ++
        wordIf overwrite "OVERWRITE" ++ wordIf into "INTO" ++ wordIf table "TABLE" ++ " "
    insertIntoTable r [said opening]

/-! ## UPDATE and DELETE -/

/-- The rest of an UPDATE. -/
def update (r : Rules) : Parser (List Piece) := do
  let conflict ← conflictClause
  let target ← source r
  let before ← sourcesBehind r "FROM"
  expect ["SET"]
  let changes ← assignments r
  let after ← if before.isEmpty then sourcesBehind r "FROM" else pure []
  let condition ← rowCondition r
  let returning ← returningIfAny r
  return said ("UPDATE " ++ (conflict.map (· ++ " ")).getD "") :: .source target :: before ++
    said " SET " :: changes ++ after ++ condition ++ returning

/-- The rest of a DELETE. -/
def deletion (r : Rules) : Parser (List Piece) := do
  let from_ ← keyword "FROM"
  let targets ← sources r
  let others ← sourcesBehind r "USING"
  let condition ← rowCondition r
  let returning ← returningIfAny r
  let order ← behind ["ORDER", "BY"] (sortItems r)
  let limit ← behind ["LIMIT"] do
    if ← keyword "ALL" then return none else some <$> r.anyExpr
  return said (if from_ then "DELETE FROM " else "DELETE ") :: commaSources targets ++ others ++
    condition ++ returning ++
    order.elim [] (fun items => said " ORDER BY " :: commaSortItems items) ++
    limit.join.elim [] (clause " LIMIT ")

/-! ## MERGE -/

/-- What is done with new rows: all of them as they are, or rows written out. -/
def mergeInsertion (r : Rules) : Parser (List Piece) := do
  let columns ← nameListIfAny
  let listed := if columns.isEmpty then [] else [said "(", .text (commaNames columns), said ") "]
  if ← keyword "ROW" then return said "INSERT " :: listed ++ [said "ROW"]
  expect ["VALUES"]
  return said "INSERT " :: listed ++ (← valueRows r)

/-- What is done with the rows of a branch. New rows can only be inserted, and old ones only changed
or deleted. -/
def mergeAction (r : Rules) (isNew : Bool) : Parser (List Piece) := do
  match ← expectOneOf ["UPDATE", "INSERT", "DELETE"] with
  | "INSERT" => if isNew then mergeInsertion r else mismatch
  | "UPDATE" =>
    if isNew then mismatch
    expect ["SET"]
    return said "UPDATE SET " :: (← assignments r)
  | _ => if isNew then mismatch else return [said "DELETE"]

/-- One more branch of a MERGE, if it comes next. -/
def mergeStep (r : Rules) (found : List (List Piece)) : Parser (Option (List (List Piece))) := do
  if ← keyword "WHEN" then
    let negated ← keyword "NOT"
    expect ["MATCHED"]
    let side ← if negated then acceptAny [["BY", "SOURCE"], ["BY", "TARGET"]] else pure none
    let condition ← behind ["AND"] r.anyExpr
    expect ["THEN"]
    let action ← mergeAction r (negated && side != some ["BY", "SOURCE"])
    let words := (if negated then "WHEN NOT MATCHED" else "WHEN MATCHED") ++
      (side.map fun words => " " ++ " ".intercalate words).getD ""
    let branch := said words :: condition.elim [] (clause " AND ") ++ said " THEN " :: action
    return some (found ++ [branch])
  else return none

/-- What is given back of merged rows, and the table that takes it, if that is said. -/
def outputIfAny (r : Rules) : Parser (List Piece) := do
  if ← keyword "OUTPUT" then
    let items ← projection r
    let into ← intoIfAny
    return said " OUTPUT " :: withCommas (items.map Item.parts) ++ [.text into]
  else return []

/-- The rest of a MERGE. -/
def merge (r : Rules) : Parser (List Piece) := do
  let into ← keyword "INTO"
  let target ← r.table
  expect ["USING"]
  let given ← r.table
  expect ["ON"]
  let e ← r.anyExpr
  let branches ← stepping (mergeStep r) []
  let output ← outputIfAny r
  return said (if into then "MERGE INTO " else "MERGE ") :: target.part :: said " USING " ::
    given.part :: clause " ON " e ++ said " " :: withBlanks branches ++ output

/-! ## All commands -/

/-- A command on rows that begins with the keyword, read behind it; none if no such command does. -/
def changeBehind (r : Rules) (word : String) : Option (Parser (List Piece)) :=
  match word with
  | "INSERT" => some (insertion r word)
  | "UPDATE" => some (update r)
  | "DELETE" => some (deletion r)
  | "MERGE" => some (merge r)
  | _ => none

end QueryScore.Sql
