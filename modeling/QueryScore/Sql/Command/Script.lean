/-
# QueryScore.Sql.Command.Script -- programs of statements

Choices and loops hold statements, each with a semicolon behind it; BEGIN and END may stand around
them. Prepared statements, cursors and messages are what programs work with. The reader of the
statements inside is given.
-/

import QueryScore.Sql.Command.Phrase

namespace QueryScore.Sql.Command

open QueryScore.Sql.Parser

/-! ## Lists of statements -/

/-- Statements up to one of some keywords or to the end, each with a semicolon behind it. -/
def statementsUntil (inner : Parser Unit) (ends : List String) : Parser Unit :=
  stepping (fun _ => do
    if (← peek).isNone || (← keywordAt 0).any ends.contains then return none
    inner
    expectSign ";"
    return some ()) ()

/-- The statements of a branch or a loop. -/
def scriptBody (inner : Parser Unit) (ends : List String) : Parser Unit := do
  if ← keyword "BEGIN" then
    statementsUntil inner ends
    expect ["END"]
  else statementsUntil inner ends

/-! ## Choices and loops -/

/-- Branches with conditions, a keyword between them. -/
def branches (r : Rules) (inner : Parser Unit) (word : String) (ends : List String) :
    Parser Unit :=
  pass (phrases do
    pass r.anyExpr
    expect ["THEN"]
    scriptBody inner ends
    return ((), ← keyword word))

/-- The branch without a condition, if it is there. -/
def mayElse (inner : Parser Unit) : Parser Unit := passBehind ["ELSE"] (scriptBody inner ["END"])

/-- The rest of a choice between values. -/
def caseScript (r : Rules) (inner : Parser Unit) : Parser Unit := do
  unless ← atKeyword "WHEN" do pass r.anyExpr
  expect ["WHEN"]
  branches r inner "WHEN" ["WHEN", "ELSE", "END"]
  mayElse inner
  expect ["END"]
  may ["CASE"]

/-- The rest of a choice between conditions. -/
def ifScript (r : Rules) (inner : Parser Unit) : Parser Unit := do
  branches r inner "ELSEIF" ["ELSEIF", "ELSE", "END"]
  mayElse inner
  expect ["END", "IF"]

/-- The rest of a loop. Its END belongs to it only where BEGIN does. -/
def whileScript (r : Rules) (inner : Parser Unit) : Parser Unit := do
  pass r.anyExpr
  scriptBody inner ["END"]

/-! ## Prepared statements -/

/-- The rest of `PREPARE`. -/
def prepare (r : Rules) (inner : Parser Unit) : Parser Unit := do
  passIdent
  if ← atSign "(" then passListed (dataType r)
  expect ["AS"]
  inner

/-- The rest of `DEALLOCATE`. -/
def deallocate : Parser Unit := do
  may ["PREPARE"]
  passIdent

/-- The values for a prepared statement: in brackets, or without them up to certain words. -/
def givenValues (r : Rules) : Parser Unit := do
  if ← sign "(" then pass (listUntil ")" r.anyExpr)
  else
    let ended := (← peek).isNone || (← atSign ";") ||
      (← keywordAt 0).any ["USING", "OUTPUT", "DEFAULT"].contains
    unless ended do pass r.exprs

/-- The rest of `EXECUTE`. -/
def execute (r : Rules) : Parser Unit := do
  passName
  givenValues r
  passBehind ["INTO"] (commaSeparated identifier)
  passBehind ["USING"] (commaSeparated (namedExpr r))
  may ["OUTPUT"]
  may ["DEFAULT"]

/-- The rest of `CALL`. -/
def call (r : Rules) : Parser Unit := do
  passName
  if ← atSign "(" then pass (callTail r)

/-! ## Cursors -/

/-- The rest of `DECLARE`. -/
def declareCursor (r : Rules) : Parser Unit := do
  passIdent
  may ["BINARY"]
  mayBe ["INSENSITIVE", "ASENSITIVE"]
  mayChoose (wordings [["SCROLL"], ["NO", "SCROLL"]])
  expect ["CURSOR"]
  mayChoose [(["WITH"], expect ["HOLD"]), (["WITHOUT"], expect ["HOLD"])]
  expect ["FOR"]
  pass r.query

/-- Which rows a cursor gives. -/
def cursorRows : Parser Unit := do
  let known ← chosen (wordings [["NEXT"], ["PRIOR"], ["FIRST"], ["LAST"], ["ALL"],
      ["FORWARD", "ALL"], ["BACKWARD", "ALL"]] ++
    ["ABSOLUTE", "RELATIVE", "FORWARD", "BACKWARD"].map fun word => ([word], pass numeral))
  unless known do pass numeral

/-- The rest of `FETCH`. -/
def fetchRows : Parser Unit := do
  cursorRows
  pass (expectOneOf ["FROM", "IN"])
  passIdent
  passBehind ["INTO"] dottedName

/-- The rest of `CLOSE`. -/
def closeCursor : Parser Unit := do
  unless ← keyword "ALL" do passIdent

/-! ## Messages -/

/-- The rest of `RAISE`. -/
def raise (r : Rules) : Parser Unit := do
  if ← accept ["USING", "MESSAGE"] then
    expectSign "="
    pass r.anyExpr
  else mayPass r.anyExpr

/-- The rest of `RAISERROR`, in its written form up to the first comma. -/
def raiseError (r : Rules) : Parser (List Piece) := do
  let message ← inBrackets do
    let message ← r.anyExpr
    for _ in [0, 1] do
      expectSign ","
      pass r.anyExpr
    if ← sign "," then pass r.exprs
    return message
  passBehind ["WITH"] (commaSeparated (expectOneOf ["LOG", "NOWAIT", "SETERROR"]))
  return [said "RAISERROR(", .expr message, said ", "]

/-- The rest of `ASSERT`. -/
def assert (r : Rules) : Parser Unit := do
  pass r.anyExpr
  passBehind ["AS"] r.anyExpr

end QueryScore.Sql.Command
