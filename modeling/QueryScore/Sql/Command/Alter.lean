/-
# QueryScore.Sql.Command.Alter -- changing and dropping what was created

ALTER changes one thing and says how; DROP takes names, and perhaps what becomes of the things that
depend on them. Which of the two clauses a name may be followed by depends on what is dropped.

ALTER TABLE names a table and a list of changes. Most changes are announced by a word or two, and
what is added or dropped says by its next words whether it is a constraint, a part or a column.
-/

import QueryScore.Sql.Command.Create
import QueryScore.Sql.Grammar.Whole

namespace QueryScore.Sql.Command

open QueryScore.Sql.Parser

/-! ## Parts of tables -/

/-- The rows of a part: expressions in brackets. -/
def partRows (r : Rules) : Parser Unit := passBracketed r.exprs

/-- A part of a table by an expression. -/
def partName (r : Rules) : Parser Unit := do
  pass (expectOneOf ["PART", "PARTITION"])
  pass r.anyExpr

/-- Where a column stands among the others, if that is said. -/
def mayPlace : Parser Unit := mayChoose [(["FIRST"], pure ()), (["AFTER"], passIdent)]

/-- A new type of a column, its options and its place. -/
def newColumnForm (r : Rules) : Parser Unit := do
  pass (dataType r)
  columnOptions r
  mayPlace

/-! ## What is added to a table -/

/-- A projection that is kept with the table: its name and the block that computes it. -/
def addProjection (r : Rules) : Parser Unit := do
  mayBeNew
  passIdent
  passBracketed do
    expect ["SELECT"]
    pass (projection r)
    pass (grouping r)
    pass (orderIfAny r)

/-- A column, or parts of the table, behind ADD. -/
def addColumn (r : Rules) : Parser Unit := do
  mayBeNew
  if ← keyword "PARTITION" then
    partRows r
    chooseAll [(["PARTITION"], partRows r)]
  else
    may ["COLUMN"]
    mayBeNew
    pass (column r)
    mayPlace

/-- What ADD adds. -/
def addition (r : Rules) : Parser Unit := do
  if ← tableConstraint r then may ["NOT", "VALID"]
  else if ← keyword "PROJECTION" then addProjection r
  else addColumn r

/-! ## Dropping and renaming -/

/-- A column behind DROP. -/
def dropColumn : Parser Unit := do
  may ["COLUMN"]
  mayExist
  passIdent
  mayCascade

/-- What DROP drops. -/
def removal (r : Rules) : Parser Unit := do
  let named : Parser Unit := do
    mayExist
    passIdent
  let known ← chosen [(["IF", "EXISTS", "PARTITION"], partRows r), (["PARTITION"], partRows r),
    (["CONSTRAINT"], do
      named
      mayCascade),
    (["PRIMARY", "KEY"], mayCascade),
    (["FOREIGN", "KEY"], do
      passIdent
      mayCascade),
    (["INDEX"], passIdent), (["PROJECTION"], named), (["CLUSTERING", "KEY"], pure ())]
  unless known do dropColumn

/-- What RENAME renames: the table or a column. -/
def newName : Parser Unit := do
  unless ← chosen [(["TO"], passName), (["AS"], passName)] do
    may ["COLUMN"]
    passIdent
    expect ["TO"]
    passIdent

/-! ## Changing columns -/

/-- How the values of a column are made, behind ADD GENERATED. -/
def addedGeneration : Parser Unit := do
  mayChoose (wordings [["ALWAYS"], ["BY", "DEFAULT"]])
  expect ["AS", "IDENTITY"]
  if ← atSign "(" then passBracketed sequenceOptions

/-- A change of a column behind its name. -/
def columnChange (r : Rules) : Parser Unit :=
  choose [(["SET", "NOT", "NULL"], pure ()), (["DROP", "NOT", "NULL"], pure ()),
    (["SET", "DEFAULT"], pass r.anyExpr), (["DROP", "DEFAULT"], pure ()),
    (["SET", "DATA", "TYPE"], pass (dataType r)), (["TYPE"], pass (dataType r)),
    (["ADD", "GENERATED"], addedGeneration)]

/-- The changes that concern one column by its name. -/
def columnChanges (r : Rules) : Choices :=
  [(["CHANGE"], do
      may ["COLUMN"]
      passIdent
      passIdent
      newColumnForm r),
    (["MODIFY"], do
      may ["COLUMN"]
      passIdent
      newColumnForm r),
    (["ALTER"], do
      may ["COLUMN"]
      passIdent
      columnChange r)]

/-! ## Rules and protection -/

/-- What is switched on or off. -/
def switches : Choices :=
  [(["DISABLE", "ROW", "LEVEL", "SECURITY"], pure ()), (["DISABLE", "RULE"], passIdent),
    (["DISABLE", "TRIGGER"], passIdent), (["ENABLE", "ALWAYS", "RULE"], passIdent),
    (["ENABLE", "ALWAYS", "TRIGGER"], passIdent), (["ENABLE", "ROW", "LEVEL", "SECURITY"], pure ()),
    (["ENABLE", "REPLICA", "RULE"], passIdent), (["ENABLE", "REPLICA", "TRIGGER"], passIdent),
    (["ENABLE", "RULE"], passIdent), (["ENABLE", "TRIGGER"], passIdent)]

/-! ## Keeping -/

/-- A projection whose rows are made or removed. -/
def keptProjection : Parser Unit := do
  mayExist
  passIdent
  passBehind ["IN", "PARTITION"] identifier

/-- A part whose files are fixed or released. -/
def frozenPart (r : Rules) : Parser Unit := do
  partName r
  if ← keyword "WITH" then
    expect ["NAME"]
    passIdent

/-- The rows of a part that gets other rows. -/
def renamedPart (r : Rules) : Parser Unit := do
  partRows r
  expect ["RENAME", "TO", "PARTITION"]
  partRows r

/-- The changes of how a table is kept. -/
def keepingChanges (r : Rules) : Choices :=
  [(["CLEAR", "PROJECTION"], keptProjection), (["MATERIALIZE", "PROJECTION"], keptProjection),
    (["PARTITION"], renamedPart r), (["SWAP"], do
      expect ["WITH"]
      passName),
    (["OWNER", "TO"], owner), (["ATTACH"], partName r), (["DETACH"], partName r),
    (["FREEZE"], frozenPart r), (["UNFREEZE"], frozenPart r),
    (["CLUSTER", "BY"], passBracketed r.exprs), (["SUSPEND", "RECLUSTER"], pure ()),
    (["RESUME", "RECLUSTER"], pure ())] ++ buildOptions ++
  [(["AUTO_INCREMENT"], do
      maySign "="
      pass numeral),
    (["REPLICA", "IDENTITY"], choose [(["NONE"], pure ()), (["FULL"], pure ()),
      (["DEFAULT"], pure ()), (["USING", "INDEX"], passIdent)]),
    (["VALIDATE", "CONSTRAINT"], passIdent)]

/-! ## The change of a table -/

/-- Named options behind SET, of which there must be some. -/
def newOptions (r : Rules) : Parser Unit :=
  choose ([["SET", "TBLPROPERTIES"], ["SET"]].map fun words =>
    (words, do if (← namedOptions r).isEmpty then mismatch))

/-- One change of a table. -/
def tableChange (r : Rules) : Parser Unit := do
  let changes : Choices := [(["ADD"], addition r), (["RENAME"], newName), (["DROP"], removal r)]
  unless ← chosen (changes ++ columnChanges r ++ switches ++ keepingChanges r) do newOptions r

/-- The rest of `ALTER TABLE`. -/
def alterTable (r : Rules) : Parser Unit := do
  mayExist
  may ["ONLY"]
  passName
  mayRunOnCluster
  passList (tableChange r)
  mayChoose [(["LOCATION"], passIdent), (["SET", "LOCATION"], passIdent)]

/-! ## Changing -/

/-- The rest of `ALTER VIEW`. -/
def alterView (r : Rules) : Parser Unit := do
  passName
  pass nameListIfAny
  pass (optionsBehind r "WITH")
  expect ["AS"]
  pass r.query

/-- A new value of a listed type, behind its keywords. -/
def addedValue : Parser Unit := do
  mayBeNew
  passIdent
  mayChoose [(["BEFORE"], passIdent), (["AFTER"], passIdent)]

/-- The rest of `ALTER TYPE`. -/
def alterType : Parser Unit := do
  passName
  choose [(["RENAME", "TO"], passIdent), (["ADD", "VALUE"], addedValue),
    (["RENAME", "VALUE"], do
      passIdent
      expect ["TO"]
      passIdent)]

/-- The rest of `ALTER INDEX`. -/
def alterIndex : Parser Unit := do
  passName
  expect ["RENAME", "TO"]
  passName

/-- The rest of `ALTER POLICY`. -/
def alterPolicy (r : Rules) : Parser Unit := do
  passIdent
  expect ["ON"]
  passName
  if ← keyword "RENAME" then
    expect ["TO"]
    passIdent
  else
    passBehind ["TO"] (commaSeparated owner)
    passBehind ["USING"] (inBrackets r.anyExpr)
    passBehind ["WITH", "CHECK"] (inBrackets r.anyExpr)

/-- The rest of `ALTER CONNECTOR`. -/
def alterConnector (r : Rules) : Parser Unit := do
  passIdent
  expect ["SET"]
  passBehind ["DCPROPERTIES"] (inBrackets (commaSeparated (namedOption r)))
  passBehind ["URL"] stringText
  mayChoose [(["OWNER", "USER"], passIdent), (["OWNER", "ROLE"], passIdent)]

/-- The rest of `ALTER`. -/
def alter (r : Rules) : Parser Unit :=
  choose [(["VIEW"], alterView r), (["TYPE"], alterType), (["TABLE"], alterTable r),
    (["ICEBERG", "TABLE"], alterTable r), (["INDEX"], alterIndex), (["POLICY"], alterPolicy r),
    (["CONNECTOR"], alterConnector r)]

/-! ## Dropping -/

/-- What is dropped by a list of dotted names. -/
def droppedByName : List (List String) :=
  [["TABLE"], ["VIEW"], ["MATERIALIZED", "VIEW"], ["INDEX"], ["ROLE"], ["SCHEMA"], ["DATABASE"],
    ["SEQUENCE"], ["STAGE"], ["TYPE"], ["USER"]]

/-- Names of what is dropped. Roles depend on nothing, so nothing is said about what depends on
them; and it is not both dropped and kept. -/
def dropNames (roles : Bool) : Parser Unit := do
  mayExist
  passList dottedName
  let cascade ← keyword "CASCADE"
  let restrict ← keyword "RESTRICT"
  let purge ← keyword "PURGE"
  if cascade && restrict then mismatch
  if roles && (cascade || restrict || purge) then mismatch
  passBehind ["ON"] dottedName

/-- A name of what is dropped, perhaps followed by a clause. -/
def dropOne (name clause : Parser Unit) : Parser Unit := do
  mayExist
  name
  clause

/-- The rest of `DROP`. -/
def dropThing (r : Rules) : Parser Unit := do
  let signatures : Parser Unit := passList (functionSignature r)
  let known ← chosen ((droppedByName.map fun words => (words, dropNames (words == ["ROLE"]))) ++
    [(["FUNCTION"], dropOne signatures mayCascade),
      (["PROCEDURE"], dropOne signatures mayCascade),
      (["POLICY"], dropOne passIdent do
        expect ["ON"]
        passName
        mayCascade),
      (["CONNECTOR"], dropOne passIdent (pure ())), (["DOMAIN"], dropOne passName mayCascade),
      (["TRIGGER"], dropOne passName do
        passBehind ["ON"] dottedName
        mayCascade),
      (["EXTENSION"], dropOne (passList identifier) mayCascade)])
  unless known do
    expect ["SECRET"]
    dropOne passIdent (passBehind ["FROM"] passLooseIdent)

end QueryScore.Sql.Command
