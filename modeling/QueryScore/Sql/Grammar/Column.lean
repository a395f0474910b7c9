/-
# QueryScore.Sql.Grammar.Column -- definitions of columns

A column has a name, a type and options in any order: whether it may be missing, its default, the
constraints on its values. Definitions stand in tables that are created and in types that hold
columns. Lists of named options, which stand behind many other phrases too, are read here as well.
-/

import QueryScore.Sql.Grammar.Rules

namespace QueryScore.Sql

open QueryScore.Sql.Parser

/-! ## Named options -/

/-- The columns of a clustered index, or the kind of a store by columns. -/
def clusteredOption : Parser (List Piece) := do
  if ← accept ["CLUSTERED", "COLUMNSTORE", "INDEX", "ORDER"] then
    let names ← nameList
    return [said "CLUSTERED COLUMNSTORE INDEX ORDER (", .text (commaNames names), said ")"]
  if ← accept ["CLUSTERED", "COLUMNSTORE", "INDEX"] then
    return [said "CLUSTERED COLUMNSTORE INDEX"]
  expect ["CLUSTERED", "INDEX"]
  let columns ← inBrackets (commaSeparated do
    let name ← identifier
    let direction ← oneOf ["ASC", "DESC"]
    return [.text name.render, said ((direction.map (" " ++ ·)).getD "")])
  return said "CLUSTERED INDEX (" :: withCommas columns ++ [said ")"]

/-- The ranges by which a table is divided. -/
def partitionOption (r : Rules) : Parser (List Piece) := do
  expect ["PARTITION"]
  inBrackets do
    let name ← identifier
    expect ["RANGE"]
    let side ← oneOf ["LEFT", "RIGHT"]
    expect ["FOR", "VALUES"]
    let es ← inBrackets r.exprs
    return [said "PARTITION (", .text name.render,
      said (" RANGE " ++ (side.map (· ++ " ")).getD "" ++ "FOR VALUES (")] ++ commaExprs es ++
      [said "))"]

/-- A named option. -/
def namedOption (r : Rules) : Parser (List Piece) := do
  match ← keywordAt 0 with
  | some "HEAP" => return [.text (← identifier).render]
  | some "PARTITION" => partitionOption r
  | some "CLUSTERED" => clusteredOption
  | _ =>
    let name ← identifier
    expectSign "="
    let e ← r.anyExpr
    return .text name.render :: clause " = " e

/-- Named options in brackets, perhaps none. -/
def namedOptions (r : Rules) : Parser (List Piece) := do
  expectSign "("
  return withCommas (← listUntil ")" (namedOption r))

/-- Named options behind a keyword, if it is there. The keyword with no options behind it counts as
missing, though it is taken. -/
def optionsBehind (r : Rules) (word : String) : Parser Bool := do
  match ← behind [word] (namedOptions r) with
  | some options => return !options.isEmpty
  | none => return false

/-! ## Constraints -/

/-- How a constraint is checked: whether that may wait, whether it waits at first, and whether it is
checked at all. -/
structure Enforcement where
  /-- Whether the check may wait. -/
  deferral : Option String
  /-- Whether the check waits at first. -/
  start : Option String
  /-- Whether there is a check. -/
  enforced : Option String

/-- One more word on how a constraint is checked, if it comes next. -/
def enforcementStep (found : Enforcement) : Parser (Option Enforcement) := do
  if found.deferral.isNone then
    if ← accept ["NOT", "DEFERRABLE"] then
      return some { found with deferral := some "NOT DEFERRABLE" }
    if ← accept ["DEFERRABLE"] then return some { found with deferral := some "DEFERRABLE" }
  if found.start.isNone then
    if ← accept ["INITIALLY"] then
      let start ← expectOneOf ["DEFERRED", "IMMEDIATE"]
      return some { found with start := some ("INITIALLY " ++ start) }
  if found.enforced.isNone then
    if ← accept ["ENFORCED"] then return some { found with enforced := some "ENFORCED" }
    if ← accept ["NOT", "ENFORCED"] then
      return some { found with enforced := some "NOT ENFORCED" }
  return none

/-- How a constraint is checked, if that is said. -/
def enforcement : Parser (List Piece) := do
  let found ← stepping enforcementStep ⟨none, none, none⟩
  return [found.deferral, found.start, found.enforced].filterMap fun part =>
    part.map fun text => said (" " ++ text)

/-- What happens to a row when the row it refers to changes. -/
def referentialAction : Parser String := do
  match ← acceptAny [["RESTRICT"], ["CASCADE"], ["SET", "NULL"], ["NO", "ACTION"],
      ["SET", "DEFAULT"]] with
  | some words => return " ".intercalate words
  | none => mismatch

/-- One more action on a change of the row referred to, if it comes next: at most one on each kind
of change. -/
def referenceStep (found : Option String × Option String) :
    Parser (Option (Option String × Option String)) := do
  if found.1.isNone then
    if ← accept ["ON", "DELETE"] then return some (some (← referentialAction), found.2)
  if found.2.isNone then
    if ← accept ["ON", "UPDATE"] then return some (found.1, some (← referentialAction))
  return none

/-- The table and the columns that a constraint refers to, behind its keyword. -/
def reference : Parser (List Piece) := do
  let table ← dottedName
  let columns ← nameListIfAny
  let (onDelete, onUpdate) ← stepping referenceStep (none, none)
  let checks ← enforcement
  return [.text (renderPath table)] ++
    (if columns.isEmpty then [] else [said " (", .text (commaNames columns), said ")"]) ++
    (onDelete.toList.map fun action => said (" ON DELETE " ++ action)) ++
    (onUpdate.toList.map fun action => said (" ON UPDATE " ++ action)) ++ checks

/-! ## Numbered columns -/

/-- A number behind keywords, if they are there. -/
def numberBehind (words : List String) : Parser (List Piece) := do
  match ← behind words signedNumeral with
  | some text => return [said (" " ++ " ".intercalate words ++ " "), .text text]
  | none => return []

/-- A bound of a sequence, if it is there. -/
def sequenceBound (word : String) : Parser (List Piece) := do
  if ← accept ["NO", word] then return [said (" NO " ++ word)]
  numberBehind [word]

/-- The options of a sequence of numbers, in their order. -/
def sequenceOptions : Parser (List Piece) := do
  let step ← do
    let increment ← numberBehind ["INCREMENT", "BY"]
    if increment.isEmpty then numberBehind ["INCREMENT"] else pure increment
  let least ← sequenceBound "MINVALUE"
  let greatest ← sequenceBound "MAXVALUE"
  let start ← do
    let start ← numberBehind ["START", "WITH"]
    if start.isEmpty then numberBehind ["START"] else pure start
  let cache ← numberBehind ["CACHE"]
  let cycle ← do
    match ← acceptAny [["NO", "CYCLE"], ["CYCLE"]] with
    | some words => pure [said (" " ++ " ".intercalate words)]
    | none => pure []
  return step ++ least ++ greatest ++ start ++ cache ++ cycle

/-- The options of a sequence in brackets, if there are brackets. -/
def sequenceOptionsIfAny : Parser (List Piece) := do
  if ← atSign "(" then inBrackets sequenceOptions else return []

/-- An expression in brackets by which a column is computed, and whether the result is kept. -/
def computation (r : Rules) : Parser (List Piece) := do
  let e ← inBrackets r.anyExpr
  let kept ← oneOf ["STORED", "VIRTUAL"]
  return [said "AS (", .expr e, said (")" ++ (kept.map (" " ++ ·)).getD "")]

/-- How a generated column gets its values, behind its keyword; none if it does not say. -/
def generation (r : Rules) : Parser (Option (List Piece)) := do
  match ← acceptAny [["ALWAYS", "AS", "IDENTITY"], ["BY", "DEFAULT", "AS", "IDENTITY"]] with
  | some words =>
    let options ← sequenceOptionsIfAny
    let listed := if options.isEmpty then [] else said " (" :: options ++ [said " )"]
    return some (said ("GENERATED " ++ " ".intercalate words) :: listed)
  | none =>
    if ← accept ["ALWAYS", "AS"] then
      if ← atSign "(" then return some (said "GENERATED ALWAYS " :: (← computation r))
    return none

/-- The first number and the step of a numbered column, behind its keyword. -/
def identityOption : Parser (List Piece) := do
  if ← sign "(" then
    let seed ← signedNumeral
    expectSign ","
    let step ← signedNumeral
    expectSign ")"
    return [said "IDENTITY(", .text seed, said ", ", .text step, said ")"]
  else return [said "IDENTITY"]

/-! ## Columns -/

/-- A text that describes something. -/
def remark : Parser (List Char) := do
  match ← next with
  | .literal .string text | .literal (.dollar _) text => return text
  | _ => mismatch

/-- The expression that comes next, behind words. -/
def optionClause (r : Rules) (words : String) : Parser (Option (List Piece)) := do
  return some (clause (words ++ " ") (← r.anyExpr))

/-- What to do about rows that break a constraint. -/
def conflictAnswers : List String := ["ROLLBACK", "ABORT", "FAIL", "IGNORE", "REPLACE"]

/-- The option of a column that begins with a keyword, read behind it. -/
def optionBehind (r : Rules) (word : String) : Parser (Option (List Piece)) :=
  match word with
  | "COLLATE" => do return some [said "COLLATE ", .text (renderPath (← dottedName))]
  | "COMMENT" => do return some [said "COMMENT ", .text (quoted '\'' (← remark))]
  | "NULL" | "AUTO_INCREMENT" | "AUTOINCREMENT" | "ASC" | "DESC" => pure (some [said word])
  | "DEFAULT" | "MATERIALIZED" | "ALIAS" | "SRID" => optionClause r word
  | "EPHEMERAL" => do
    if (← atSign ",") || (← atSign ")") then return some [said word] else optionClause r word
  | "UNIQUE" => do return some (said word :: (← enforcement))
  | "REFERENCES" => do return some (said "REFERENCES " :: (← reference))
  | "CHECK" => do
    let e ← inBrackets r.anyExpr
    return some [said "CHECK (", .expr e, said ")"]
  | "GENERATED" => generation r
  | "OPTIONS" => do return some (said "OPTIONS(" :: (← namedOptions r) ++ [said ")"])
  | "AS" => do return some (← computation r)
  | "IDENTITY" => some <$> identityOption
  | _ => mismatch

/-- The keywords that begin an option of a column by themselves. -/
def optionWords : List String :=
  ["COLLATE", "COMMENT", "NULL", "AUTO_INCREMENT", "AUTOINCREMENT", "ASC", "DESC", "DEFAULT",
    "MATERIALIZED", "ALIAS", "SRID", "EPHEMERAL", "UNIQUE", "REFERENCES", "CHECK", "GENERATED",
    "OPTIONS", "AS", "IDENTITY"]

/-- An option of a column, if it comes next. -/
def columnOption (r : Rules) : Parser (Option (List Piece)) := do
  if ← accept ["NOT", "NULL"] then return some [said "NOT NULL"]
  if ← accept ["PRIMARY", "KEY"] then return some (said "PRIMARY KEY" :: (← enforcement))
  if ← accept ["CHARACTER", "SET"] then
    return some [said "CHARACTER SET ", .text (renderPath (← dottedName))]
  if ← accept ["ON", "UPDATE"] then optionClause r "ON UPDATE"
  else if ← accept ["ON", "CONFLICT"] then
    return some [said ("ON CONFLICT " ++ (← expectOneOf conflictAnswers))]
  else
    match ← oneOf optionWords with
    | some word => optionBehind r word
    | none => return none

/-- One more option of a column, perhaps with a name. -/
def namedColumnOption (r : Rules) (found : List Piece) : Parser (Option (List Piece)) := do
  if ← keyword "CONSTRAINT" then
    let name ← identifier
    match ← columnOption r with
    | some option => return some (found ++ said " CONSTRAINT " :: .text name.render :: said " " ::
      option)
    | none => mismatch
  else
    match ← columnOption r with
    | some option => return some (found ++ said " " :: option)
    | none => return none

/-- A definition of a column. -/
def columnDefinition (r : Rules) (type : Parser (List Piece)) : Parser (List Piece) := do
  let name ← identifier
  let type ← type
  let options ← stepping (namedColumnOption r) []
  return .text name.render :: said " " :: type ++ options

end QueryScore.Sql
