/-
# QueryScore.Sql.Command.Create -- creating everything but routines

Each reader starts behind the words that say what is created. What may replace an older thing of the
name is told apart from what may not.

Behind the name of a table, its columns and its constraints stand many clauses in a fixed order: how
rows are distributed, in what form they are kept, options of several notations, and the query that
fills the table.
-/

import QueryScore.Sql.Command.Access
import QueryScore.Sql.Command.Phrase
import QueryScore.Sql.Command.Routine

namespace QueryScore.Sql.Command

open QueryScore.Sql.Parser

/-! ## Storage -/

/-- Columns by which a table is divided, if that is said. -/
def mayDivideByColumns (r : Rules) : Parser Unit :=
  passBehind ["PARTITIONED", "BY"] (inBrackets (commaSeparated (column r)))

/-- Buckets into which rows go, if that is said. -/
def mayUseBuckets (r : Rules) : Parser Unit :=
  passBehind ["CLUSTERED", "BY"] do
    pass nameList
    passBehind ["SORTED", "BY"] (inBrackets (sortItems r))
    expect ["INTO"]
    pass numeral
    expect ["BUCKETS"]

/-- The marks that separate the parts of a row. -/
def rowMarks : Choices :=
  [(["FIELDS", "TERMINATED", "BY"], do
      passIdent
      passBehind ["ESCAPED", "BY"] identifier),
    (["COLLECTION", "ITEMS", "TERMINATED", "BY"], passIdent),
    (["MAP", "KEYS", "TERMINATED", "BY"], passIdent),
    (["LINES", "TERMINATED", "BY"], passIdent), (["NULL", "DEFINED", "AS"], passIdent)]

/-- The form of a row behind its keyword. -/
def rowForm : Parser Unit := do
  expect ["FORMAT"]
  if ← keyword "SERDE" then pass stringText
  else
    may ["DELIMITED"]
    chooseAll rowMarks

/-- The form of the files behind its keyword. -/
def fileForm (r : Rules) : Parser Unit := do
  expect ["AS"]
  if ← keyword "INPUTFORMAT" then
    pass r.anyExpr
    expect ["OUTPUTFORMAT"]
    pass r.anyExpr
  else pass (expectOneOf fileFormats)

/-- Where and in what form rows are kept, in any order. -/
def storage (r : Rules) : Parser Unit :=
  chooseAll [(["ROW"], rowForm), (["STORED"], fileForm r), (["LOCATION"], pass stringText),
    (["WITH", "SERDEPROPERTIES"], passListed (namedOption r))]

/-! ## Options without brackets -/

/-- The text of a remark, behind an equals sign or not. -/
def remarkText : Parser Unit := do
  maySign "="
  pass quotedText

/-- An engine with its parameters. -/
def engine : Parser Unit := do
  maySign "="
  match ← next with
  | .word _ => if ← atSign "(" then pass nameList
  | _ => mismatch

/-- A space for tables and the medium it is on. -/
def tableSpace : Parser Unit := do
  maySign "="
  match ← next with
  | .word _ | .literal .string _ =>
    passBehind ["STORAGE"] do
      maySign "="
      pass (expectOneOf ["DISK", "MEMORY"])
  | _ => mismatch

/-- The tables that a table unites. -/
def unitedTables : Parser Unit := do
  maySign "="
  expectSign "("
  pass (listUntil ")" identifier)

/-- The value of an option: a literal or a word. -/
def optionValue : Parser Unit := do
  maySign "="
  either (pass value) fun _ => passIdent

/-- The options that have a value. -/
def valueOptions : List (List String) :=
  [["DEFAULT", "CHARSET"], ["CHARSET"], ["DEFAULT", "CHARACTER", "SET"], ["CHARACTER", "SET"],
    ["DEFAULT", "COLLATE"], ["COLLATE"], ["DATA", "DIRECTORY"], ["INDEX", "DIRECTORY"],
    ["KEY_BLOCK_SIZE"], ["ROW_FORMAT"], ["PACK_KEYS"], ["STATS_AUTO_RECALC"], ["STATS_PERSISTENT"],
    ["STATS_SAMPLE_PAGES"], ["DELAY_KEY_WRITE"], ["COMPRESSION"], ["ENCRYPTION"], ["MAX_ROWS"],
    ["MIN_ROWS"], ["AUTOEXTEND_SIZE"], ["AVG_ROW_LENGTH"], ["CHECKSUM"], ["CONNECTION"],
    ["ENGINE_ATTRIBUTE"], ["PASSWORD"], ["SECONDARY_ENGINE_ATTRIBUTE"], ["INSERT_METHOD"],
    ["AUTO_INCREMENT"]]

/-- Options that stand behind a table without brackets, commas between them or not. -/
def plainOptions : Parser Unit :=
  let options : Choices :=
    [(["START", "TRANSACTION"], pure ()), (["COMMENT"], remarkText), (["ENGINE"], engine),
      (["TABLESPACE"], tableSpace), (["UNION"], unitedTables)] ++
    valueOptions.map fun words => (words, optionValue)
  chooseAll (options.map fun (words, p) => (words, do
    p
    maySign ","))

/-- Options of a table in several notations. Those without brackets are read only where there are no
others. -/
def tableOptions (r : Rules) : Parser Unit := do
  passBehind ["INHERITS"] dottedNames
  let given ← optionsBehind r "WITH"
  let properties ← optionsBehind r "TBLPROPERTIES"
  passBehind ["PARTITION", "BY"] r.anyExpr
  passBehind ["CLUSTER", "BY"] r.exprs
  let listed ← do
    match ← behind ["OPTIONS"] (namedOptions r) with
    | some _ => pure true
    | none => pure false
  unless given || properties || listed do plainOptions

/-! ## A whole table -/

/-- The order of the rows that are kept, if it is said: expressions in brackets, or one. -/
def mayOrder (r : Rules) : Parser Unit :=
  passBehind ["ORDER", "BY"] do
    if ← sign "(" then pass (listUntil ")" r.anyExpr) else pass r.anyExpr

/-- What happens to the rows when a transaction ends. -/
def onCommit : Choices := wordings [["DELETE", "ROWS"], ["PRESERVE", "ROWS"], ["DROP"]]

/-- The rest of `CREATE TABLE`. -/
def createTable (r : Rules) : Parser Unit := do
  mayBeNew
  passName
  mayRunOnCluster
  if (← oneOf ["LIKE", "ILIKE"]).isSome then passLooseName
  passBehind ["CLONE"] passLooseName
  tableElements r
  may ["WITHOUT", "ROWID"]
  mayDivideByColumns r
  mayUseBuckets r
  storage r
  tableOptions r
  passBehind ["PRIMARY", "KEY"] r.anyExpr
  mayOrder r
  passBehind ["ON", "COMMIT"] (choose onCommit)
  may ["STRICT"]
  passBehind ["AS"] r.query

/-- The rest of `CREATE EXTERNAL TABLE`. -/
def createExternalTable (r : Rules) : Parser Unit := do
  expect ["TABLE"]
  mayBeNew
  passName
  tableElements r
  mayDivideByColumns r
  storage r
  pass (optionsBehind r "TBLPROPERTIES")

/-! ## Views and indexes -/

/-- The columns of a view in brackets, if there are brackets. -/
def viewColumns (r : Rules) : Parser Unit := do
  if ← sign "(" then
    pass (listUntil ")" do
      passIdent
      columnOptions r)

/-- The rest of `CREATE VIEW`. -/
def createView (r : Rules) : Parser Unit := do
  may ["MATERIALIZED"]
  expect ["VIEW"]
  let new ← accept ["IF", "NOT", "EXISTS"]
  passName
  unless new do mayBeNew
  viewColumns r
  pass (optionsBehind r "WITH")
  if ← keyword "CLUSTER" then
    expect ["BY"]
    pass nameListIfAny
  passBehind ["OPTIONS"] (namedOptions r)
  passBehind ["TO"] dottedName
  if ← keyword "COMMENT" then
    expectSign "="
    pass remark
  expect ["AS"]
  pass r.query
  may ["WITH", "NO", "SCHEMA", "BINDING"]

/-- How an index is built: the method, or whether the table stays open. -/
def buildOptions : Choices :=
  [(["ALGORITHM"], do
      maySign "="
      pass (expectOneOf ["DEFAULT", "INSTANT", "INPLACE", "COPY"])),
    (["LOCK"], do
      maySign "="
      pass (expectOneOf ["DEFAULT", "EXCLUSIVE", "NONE", "SHARED"]))]

/-- The rest of `CREATE INDEX`. -/
def createIndex (r : Rules) : Parser Unit := do
  may ["CONCURRENTLY"]
  let new ← accept ["IF", "NOT", "EXISTS"]
  let unnamed ← if new then pure false else keyword "ON"
  unless unnamed do
    passName
    mayUseIndex
    expect ["ON"]
  passName
  mayUseIndex
  indexColumns r
  passBehind ["INCLUDE"] nameList
  mayDistinguishNulls
  passBehind ["WITH"] (inBrackets r.exprs)
  passBehind ["WHERE"] r.anyExpr
  indexOptions
  chooseAll buildOptions

/-- The rest of `CREATE VIRTUAL TABLE`. -/
def createVirtualTable : Parser Unit := do
  expect ["TABLE"]
  mayBeNew
  passName
  expect ["USING"]
  passIdent
  pass nameListIfAny

/-! ## Types and sequences -/

/-- An attribute of a composite type. -/
def typeAttribute (r : Rules) : Parser Unit := do
  passIdent
  pass (dataType r)
  passBehind ["COLLATE"] dottedName

/-- The attributes of a composite type in brackets, if there are brackets. A comma may stand behind
the last one. -/
def typeAttributes (r : Rules) : Parser Unit := do
  if ← sign "(" then
    if ← sign ")" then return
    pass (phrases do
      typeAttribute r
      let comma ← sign ","
      if ← sign ")" then return ((), false)
      unless comma do mismatch
      return ((), true))

/-- The rest of `CREATE TYPE`. -/
def createType (r : Rules) : Parser Unit := do
  passName
  expect ["AS"]
  if ← keyword "ENUM" then
    expectSign "("
    pass (listUntil ")" identifier)
  else typeAttributes r

/-- The rest of `CREATE DOMAIN`. -/
def createDomain (r : Rules) : Parser Unit := do
  passName
  expect ["AS"]
  pass (dataType r)
  passBehind ["COLLATE"] identifier
  passBehind ["DEFAULT"] r.anyExpr
  stepping (fun _ => do return if ← tableConstraint r then some () else none) ()

/-- The rest of `CREATE SEQUENCE`. -/
def createSequence (r : Rules) : Parser Unit := do
  mayBeNew
  passName
  passBehind ["AS"] (dataType r)
  pass sequenceOptions
  if ← accept ["OWNED", "BY"] then
    unless ← keyword "NONE" do passName

/-! ## Schemas and databases -/

/-- The rest of `CREATE SCHEMA`. -/
def createSchema (r : Rules) : Parser Unit := do
  mayBeNew
  if ← keyword "AUTHORIZATION" then passIdent
  else
    passName
    passBehind ["AUTHORIZATION"] identifier
  passBehind ["DEFAULT", "COLLATE"] r.anyExpr
  pass (optionsBehind r "WITH")
  pass (optionsBehind r "OPTIONS")
  passBehind ["CLONE"] dottedName

/-- The rest of `CREATE DATABASE`. -/
def createDatabase : Parser Unit := do
  mayBeNew
  passName
  chooseAll [(["LOCATION"], pass stringText), (["MANAGEDLOCATION"], pass stringText)]
  passBehind ["CLONE"] dottedName

/-! ## Users and policies -/

/-- Who owns something or is meant by a policy. -/
def owner : Parser Unit := passIdent

/-- The rest of `CREATE POLICY`. -/
def createPolicy (r : Rules) : Parser Unit := do
  passIdent
  expect ["ON"]
  passName
  passBehind ["AS"] (expectOneOf ["PERMISSIVE", "RESTRICTIVE"])
  passBehind ["FOR"] (expectOneOf ["ALL", "SELECT", "INSERT", "UPDATE", "DELETE"])
  passBehind ["TO"] (commaSeparated owner)
  passBehind ["USING"] (inBrackets r.anyExpr)
  passBehind ["WITH", "CHECK"] (inBrackets r.anyExpr)

/-- The value of a user's option. -/
def userOptionValue : Parser Unit := do
  match ← next with
  | .literal .string _ | .word _ | .number _ _ => pure ()
  | _ => mismatch

/-- The options of a user up to a closing bracket, if they are in brackets, else up to one of some
words or the end. Commas between them say nothing. -/
def userOptions (bracketed : Bool) (stops : List String) : Parser Unit :=
  stepping (fun _ => do
    match ← peek with
    | none => if bracketed then mismatch else return none
    | some (.sign ",") => drop 1; return some ()
    | some (.sign ")") => if bracketed then return none else mismatch
    | some (.word name) =>
      if (Token.keyword? (.word name)).any stops.contains then return none
      drop 1
      expectSign "="
      userOptionValue
      return some ()
    | some _ => mismatch) ()

/-- The rest of `CREATE USER`. -/
def createUser : Parser Unit := do
  mayBeNew
  passIdent
  userOptions false ["WITH", "TAG"]
  may ["WITH"]
  if ← keyword "TAG" then passBracketed (userOptions true [])

/-- The rest of `CREATE ROLE`. -/
def createRole : Parser Unit := do
  mayBeNew
  passList dottedName
  may ["WITH"]

/-- An option of a secret or of a server: two identifiers. -/
def pairOption : Parser Unit := do
  passIdent
  passIdent

/-- The rest of `CREATE SECRET`. -/
def createSecret : Parser Unit := do
  mayBeNew
  unless ← atSign "(" do
    if ← keyword "IN" then passLooseIdent
    else
      passLooseIdent
      unless ← atSign "(" do passBehind ["IN"] passLooseIdent
  passBracketed do
    expect ["TYPE"]
    passIdent
    if ← sign "," then passList pairOption

/-! ## Extensions, connectors and servers -/

/-- The rest of `CREATE EXTENSION`. -/
def createExtension : Parser Unit := do
  mayBeNew
  passIdent
  if ← keyword "WITH" then
    passBehind ["SCHEMA"] identifier
    passBehind ["VERSION"] identifier
    may ["CASCADE"]

/-- The rest of `CREATE CONNECTOR`. -/
def createConnector (r : Rules) : Parser Unit := do
  mayBeNew
  passIdent
  passBehind ["TYPE"] stringText
  passBehind ["URL"] stringText
  if ← keyword "COMMENT" then
    maySign "="
    pass remark
  passBehind ["WITH", "DCPROPERTIES"] (inBrackets (commaSeparated (namedOption r)))

/-- The rest of `CREATE SERVER`. -/
def createServer : Parser Unit := do
  mayBeNew
  passName
  passBehind ["TYPE"] identifier
  passBehind ["VERSION"] identifier
  expect ["FOREIGN", "DATA", "WRAPPER"]
  passName
  passBehind ["OPTIONS"] (inBrackets (commaSeparated pairOption))

/-! ## The whole command -/

/-- How a view is computed and with whose rights, before the word VIEW. -/
def viewParameters : Parser Unit := do
  if ← keyword "ALGORITHM" then
    expectSign "="
    pass (expectOneOf ["UNDEFINED", "MERGE", "TEMPTABLE"])
  if ← keyword "DEFINER" then
    expectSign "="
    granteeName
  passBehind ["SQL", "SECURITY"] (expectOneOf ["DEFINER", "INVOKER"])

/-- What may be created in the place of an older thing. -/
def replaceable (r : Rules) : Choices :=
  [(["TABLE"], createTable r), (["POLICY"], createPolicy r), (["EXTERNAL"], createExternalTable r),
    (["FUNCTION"], createFunction r), (["DOMAIN"], createDomain r), (["TRIGGER"], createTrigger r),
    (["CONSTRAINT", "TRIGGER"], createTrigger r), (["MACRO"], createMacro r),
    (["SECRET"], createSecret), (["USER"], createUser)]

/-- What is created only if it is new; `body` reads the statements of a procedure. -/
def fresh (r : Rules) (body : Parser Unit) : Choices :=
  [(["EXTENSION"], createExtension), (["INDEX"], createIndex r),
    (["UNIQUE", "INDEX"], createIndex r), (["VIRTUAL"], createVirtualTable),
    (["SCHEMA"], createSchema r), (["DATABASE"], createDatabase), (["ROLE"], createRole),
    (["SEQUENCE"], createSequence r), (["TYPE"], createType r),
    (["PROCEDURE"], createProcedure r body), (["CONNECTOR"], createConnector r),
    (["SERVER"], createServer)]

/-- The rest of `CREATE`; `body` reads the statements of a procedure. -/
def create (r : Rules) (body : Parser Unit) : Parser Unit := do
  let replaces ← accept ["OR", "REPLACE"]
  may ["OR", "ALTER"]
  for word in ["LOCAL", "GLOBAL", "TRANSIENT"] do may [word]
  mayBe ["TEMP", "TEMPORARY"]
  viewParameters
  if (← atKeyword "MATERIALIZED") || (← atKeyword "VIEW") then createView r
  else choose (replaceable r ++ if replaces then [] else fresh r body)

end QueryScore.Sql.Command
