/-
# QueryScore.Sql.Command.Session -- settings of a session and transactions

SET gives values to variables, SHOW and PRAGMA ask for them, USE chooses where names are looked for.
A transaction has modes, between which commas may stand, but a comma must be followed by a mode.
-/

import QueryScore.Sql.Command.Phrase

namespace QueryScore.Sql.Command

open QueryScore.Sql.Parser

/-! ## Transactions -/

/-- The modes of a transaction. -/
def modes : Choices :=
  [(["ISOLATION", "LEVEL"], choose (wordings [["READ", "UNCOMMITTED"], ["READ", "COMMITTED"],
      ["REPEATABLE", "READ"], ["SERIALIZABLE"], ["SNAPSHOT"]])),
    (["READ", "ONLY"], pure ()), (["READ", "WRITE"], pure ())]

/-- The modes of a transaction, if they are said. -/
def transactionModes : Parser Unit :=
  pass (stepping (fun pending => do
    if ← chosen modes then return some (← sign ",")
    if pending then mismatch else return none) false)

/-- A word that says no more, if it is there. -/
def mayBeTransaction : Parser Unit := mayBe ["TRANSACTION", "WORK"]

/-- The rest of `BEGIN`. -/
def beginTransaction : Parser Unit := do
  mayBe ["DEFERRED", "IMMEDIATE", "EXCLUSIVE", "TRY", "CATCH"]
  mayBeTransaction
  transactionModes

/-- The rest of `COMMIT` or `END`: whether another transaction starts. -/
def endTransaction : Parser Unit := do
  mayBeTransaction
  passBehind ["AND"] do
    may ["NO"]
    expect ["CHAIN"]

/-- The rest of `ROLLBACK`. -/
def rollback : Parser Unit := do
  endTransaction
  passBehind ["TO"] do
    may ["SAVEPOINT"]
    passIdent

/-- The rest of `RELEASE`. -/
def release : Parser Unit := do
  may ["SAVEPOINT"]
  passIdent

/-! ## SET -/

/-- Where a setting holds. -/
def scopes : List String := ["SESSION", "LOCAL", "GLOBAL"]

/-- An equals sign or TO must come next. -/
def assigns : Parser Unit := do
  unless (← sign "=") do expect ["TO"]

/-- An assignment to a variable. -/
def settingAssignment (r : Rules) : Parser Unit := do
  mayBe scopes
  passName
  assigns
  pass r.anyExpr

/-- A value of a variable: an expression, or a query without brackets. -/
def settingValue (r : Rules) : Parser Unit := do
  if (← atKeyword "SELECT") || (← atKeyword "WITH") then pass r.query else pass r.anyExpr

/-- A variable with several values, or variables in brackets with a value each. -/
def settingValues (r : Rules) : Parser Unit := do
  if ← sign "(" then
    passList identifier
    expectSign ")"
    assigns
    passListed (settingValue r)
  else
    passName
    assigns
    passList (settingValue r)

/-- The time zone of a session, behind its keywords. -/
def zoneSetting (r : Rules) : Parser Unit := do
  if (← sign "=") || (← keyword "TO") then passList (settingValue r) else pass r.anyExpr

/-- The characters of a session, behind the keyword. -/
def namesSetting : Parser Unit := do
  unless ← keyword "DEFAULT" do
    passIdent
    passBehind ["COLLATE"] stringText

/-- The settings that are no variables. -/
def settings (r : Rules) : Choices :=
  [(["TIME", "ZONE"], zoneSetting r), (["TIMEZONE"], zoneSetting r), (["NAMES"], namesSetting),
    (["CHARACTERISTICS"], do
      expect ["AS", "TRANSACTION"]
      transactionModes),
    (["TRANSACTION", "SNAPSHOT"], pass value), (["TRANSACTION"], transactionModes)]

/-- A role, or none. -/
def roleSetting : Parser Unit := do
  expect ["ROLE"]
  unless ← keyword "NONE" do passIdent

/-- The rest of `SET`. A scope belongs to the first assignment where there are several. -/
def setVariable (r : Rules) : Parser Unit := do
  let plain ← keyword "HIVEVAR"
  if plain then expectSign ":"
  let start ← get
  unless plain do mayBe scopes
  if (← optional roleSetting).isSome then return
  if ← chosen (settings r) then return
  set start
  if (← optional (passList (settingAssignment r))).isSome then return
  settingValues r

/-! ## SHOW -/

/-- Which of the things are shown, if that is said. -/
def mayFilter (r : Rules) : Parser Unit := do
  let found ← chosen [(["LIKE"], pass stringText), (["ILIKE"], pass stringText),
    (["WHERE"], pass r.anyExpr)]
  unless found do mayPass stringText

/-- The thing whose parts are shown. -/
def shownParent : Parser Unit := do
  match ← oneOf ["ACCOUNT", "DATABASE", "SCHEMA", "TABLE", "VIEW"] with
  | some word =>
    let unnamed ← match ← keywordAt 0, ← keywordAt 1 with
      | some "LIMIT", _ | some "STARTS", some "WITH" => pure true
      | _, _ => pure false
    unless unnamed && (word == "DATABASE" || word == "SCHEMA") do mayPass dottedName
  | none =>
    passName
    mayChoose [(["FROM"], passIdent), (["IN"], passIdent)]

/-- The clauses behind what is shown. -/
def shownClauses (r : Rules) : Parser Unit := do
  mayChoose [(["FROM"], shownParent), (["IN"], shownParent)]
  mayFilter r
  passBehind ["STARTS", "WITH"] value
  passBehind ["LIMIT"] do
    unless ← keyword "ALL" do pass r.anyExpr
  passBehind ["FROM"] value

/-- The clauses behind what is shown, which may have gone already. -/
def pastClauses (r : Rules) : Parser Unit := do
  may ["HISTORY"]
  shownClauses r

/-- The things of which more or less may be shown. -/
def detailed (r : Rules) (external : Bool) : Choices :=
  [(["COLUMNS"], shownClauses r), (["FIELDS"], shownClauses r),
    (["TABLES"], if external then shownClauses r else pastClauses r),
    (["MATERIALIZED", "VIEWS"], shownClauses r), (["VIEWS"], shownClauses r),
    (["FUNCTIONS"], mayFilter r)]

/-- The thing whose creation is shown. -/
def shownCreation : Parser Unit := do
  pass (expectOneOf ["TABLE", "TRIGGER", "FUNCTION", "PROCEDURE", "EVENT", "VIEW"])
  passName

/-- The other things that may be shown. -/
def undetailed (r : Rules) : Choices :=
  [(["CREATE"], shownCreation), (["COLLATION"], mayFilter r), (["VARIABLES"], mayFilter r),
    (["STATUS"], mayFilter r), (["DATABASES"], pastClauses r), (["SCHEMAS"], pastClauses r)]

/-- The rest of `SHOW`. A variable is shown by any words. -/
def showThing (r : Rules) : Parser Unit := do
  may ["TERSE"]
  let extended ← keyword "EXTENDED"
  let full ← keyword "FULL"
  may ["SESSION"]
  may ["GLOBAL"]
  let external ← keyword "EXTERNAL"
  if ← chosen (detailed r external) then return
  if extended || full then mismatch
  if ← chosen (undetailed r) then return
  modify (List.dropWhile fun token => token != .sign "=" && token != .sign ";")

/-! ## PRAGMA -/

/-- A string, a number or a parameter. -/
def pragmaValue : Parser Unit := do
  match ← peek with
  | some (.literal kind _) => if kind = .string then drop 1 else mismatch
  | some (.word ⟨_, none⟩) => mismatch
  | _ => pass value

/-- The rest of `PRAGMA`. -/
def pragma : Parser Unit := do
  passName
  if ← sign "(" then
    pragmaValue
    expectSign ")"
  else if ← sign "=" then pragmaValue

end QueryScore.Sql.Command
