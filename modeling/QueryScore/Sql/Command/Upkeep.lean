/-
# QueryScore.Sql.Command.Upkeep -- looking after what is stored

Commands that empty, check, name, describe, keep at hand or release what is stored, and commands
that attach databases and extensions.
-/

import QueryScore.Sql.Command.Phrase

namespace QueryScore.Sql.Command

open QueryScore.Sql.Parser

/-! ## Tables -/

/-- The rest of `TRUNCATE`. -/
def truncate (r : Rules) : Parser Unit := do
  may ["TABLE"]
  may ["ONLY"]
  passList dottedName
  passBehind ["PARTITION"] (inBrackets r.exprs)
  mayChoose (wordings [["RESTART", "IDENTITY"], ["CONTINUE", "IDENTITY"]])
  mayCascade
  mayRunOnCluster

/-- What is found out about a table. -/
def findings (r : Rules) : Choices :=
  [(["PARTITION"], passBracketed r.exprs), (["NOSCAN"], pure ()),
    (["FOR"], do
      expect ["COLUMNS"]
      mayPass (commaSeparated identifier)),
    (["CACHE"], expect ["METADATA"]), (["COMPUTE"], expect ["STATISTICS"])]

/-- The rest of `ANALYZE`. -/
def analyze (r : Rules) : Parser Unit := do
  may ["TABLE"]
  passName
  chooseAll (findings r)

/-- What is done with the parts that are not known. -/
def unknownParts : Parser Unit := do
  mayBe ["ADD", "DROP", "SYNC"]
  expect ["PARTITIONS"]

/-- The rest of `MSCK`. -/
def repair : Parser Unit := do
  may ["REPAIR"]
  expect ["TABLE"]
  passName
  mayPass unknownParts

/-- The rest of `OPTIMIZE`. -/
def optimize (r : Rules) : Parser Unit := do
  expect ["TABLE"]
  passName
  mayRunOnCluster
  mayChoose [(["PARTITION", "ID"], passIdent), (["PARTITION"], pass r.anyExpr)]
  may ["FINAL"]
  passBehind ["DEDUPLICATE"] (passBehind ["BY"] r.anyExpr)

/-- The rest of `RENAME`. -/
def renameTables : Parser Unit := do
  expect ["TABLE"]
  passList do
    passName
    expect ["TO"]
    passName

/-! ## Copies in memory -/

/-- The query whose rows are kept, unless the text ends here. -/
def mayKeepRows (r : Rules) : Parser Unit := do
  match ← peek with
  | none => pure ()
  | some (.word _) =>
    may ["AS"]
    pass r.query
  | some _ => mismatch

/-- The rest of `CACHE`. -/
def keepTable (r : Rules) : Parser Unit := do
  unless ← keyword "TABLE" do
    passName
    expect ["TABLE"]
  passName
  pass (optionsBehind r "OPTIONS")
  mayKeepRows r

/-- The rest of `UNCACHE`. -/
def releaseTable : Parser Unit := do
  expect ["TABLE"]
  mayExist
  passName

/-- The rest of `DISCARD`. -/
def discard : Parser Unit :=
  pass (expectOneOf ["ALL", "PLANS", "SEQUENCES", "TEMP", "TEMPORARY"])

/-! ## Databases and extensions -/

/-- The rest of `ATTACH`. -/
def attach (r : Rules) : Parser Unit := do
  may ["DATABASE"]
  pass r.anyExpr
  expect ["AS"]
  passIdent

/-- The rest of `DETACH`. -/
def detach : Parser Unit := do
  may ["DATABASE"]
  mayExist
  passIdent

/-! ## Descriptions -/

/-- What may be described. -/
def described : List (List String) :=
  [["COLUMN"], ["DATABASE"], ["DOMAIN"], ["EXTENSION"], ["FUNCTION"], ["INDEX"],
    ["MATERIALIZED", "VIEW"], ["PROCEDURE"], ["ROLE"], ["SCHEMA"], ["SEQUENCE"], ["TABLE"],
    ["TYPE"], ["USER"], ["VIEW"]]

/-- The rest of `COMMENT`. -/
def describe : Parser Unit := do
  mayExist
  expect ["ON"]
  choose (wordings described)
  passName
  expect ["IS"]
  unless ← keyword "NULL" do pass stringText

/-! ## The server -/

/-- The rest of `KILL`. -/
def kill : Parser Unit := do
  mayBe ["CONNECTION", "QUERY", "MUTATION"]
  pass natural

/-- What may be flushed, but for tables. -/
def flushed : Choices :=
  wordings [["BINARY", "LOGS"], ["ENGINE", "LOGS"], ["ERROR", "LOGS"], ["GENERAL", "LOGS"],
    ["HOSTS"], ["PRIVILEGES"], ["OPTIMIZER_COSTS"], ["SLOW", "LOGS"], ["STATUS"],
    ["USER_RESOURCES"], ["LOGS"]] ++
  [(["RELAY", "LOGS"], passBehind ["FOR", "CHANNEL"] dottedName)]

/-- One more part of the list of tables that are flushed: names, or keywords, of which most say
nothing. The first token that is no word ends the list and is taken. -/
def flushedTablesStep (_ : Unit) : Parser (Option Unit) := do
  match ← peek with
  | some (.word name) =>
    if Token.isPlainWord (.word name) then passList dottedName
    else unless ← chosen (wordings [["WITH", "READ", "LOCK"], ["FOR", "EXPORT"]]) do drop 1
    return some ()
  | _ =>
    drop 1
    return none

/-- The rest of `FLUSH`. -/
def flush : Parser Unit := do
  mayBe ["NO_WRITE_TO_BINLOG", "LOCAL"]
  choose (flushed ++ [(["TABLES"], stepping flushedTablesStep ())])

end QueryScore.Sql.Command
