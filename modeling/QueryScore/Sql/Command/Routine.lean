/-
# QueryScore.Sql.Command.Routine -- functions, procedures, triggers and macros

A routine has a name, arguments and a body. The body of a function is a text or an expression; that
of a procedure is a list of statements, whose reader is given.
-/

import QueryScore.Sql.Command.Phrase

namespace QueryScore.Sql.Command

open QueryScore.Sql.Parser

/-! ## Arguments -/

/-- Whether an argument goes in or comes out, if that is said. -/
def mayDirect : Parser Unit := mayBe ["IN", "OUT", "INOUT"]

/-- An argument of a function: its type, before which a name may stand. Two types in a row are a
name and a type, so the first must end in a word. -/
def functionArgument (r : Rules) : Parser Unit := do
  mayDirect
  let before ← get
  pass (dataType r)
  let last := before[before.length - (← get).length - 1]?
  if (← optional (dataType r)).isSome then
    match last with
    | some (.word _) => pure ()
    | _ => mismatch
  if (← keyword "DEFAULT") || (← sign "=") then pass r.anyExpr

/-- The name of a function and the types of its arguments, which may be missing. -/
def functionSignature (r : Rules) : Parser Unit := do
  passName
  if ← sign "(" then pass (listUntil ")" (functionArgument r))

/-! ## Functions -/

/-- The body of a function as a text. -/
def bodyText : Parser Unit := do
  match ← peek with
  | some (.literal (.dollar _) _) => drop 1
  | _ => pass stringText

/-- The properties of a function: what each is about, the words that announce it, and the rest. -/
def functionProperties (r : Rules) : List (String × List String × Parser Unit) :=
  [("body", ["AS"], bodyText), ("language", ["LANGUAGE"], passIdent),
    ("behavior", ["IMMUTABLE"], pure ()), ("behavior", ["STABLE"], pure ()),
    ("behavior", ["VOLATILE"], pure ()),
    ("nulls", ["CALLED", "ON", "NULL", "INPUT"], pure ()),
    ("nulls", ["RETURNS", "NULL", "ON", "NULL", "INPUT"], pure ()),
    ("nulls", ["STRICT"], pure ()),
    ("parallel", ["PARALLEL"], pass (expectOneOf ["UNSAFE", "RESTRICTED", "SAFE"])),
    ("body", ["RETURN"], pass r.anyExpr)]

/-- One more property of a function, if it comes next; nothing may be said twice. -/
def propertyStep (r : Rules) (told : List String) : Parser (Option (List String)) := do
  for (subject, words, p) in functionProperties r do
    if ← accept words then
      if told.contains subject then mismatch
      p
      return some (subject :: told)
  return none

/-- The rest of `CREATE FUNCTION`. -/
def createFunction (r : Rules) : Parser Unit := do
  passName
  expectSign "("
  pass (listUntil ")" (functionArgument r))
  passBehind ["RETURNS"] (dataType r)
  pass (stepping (propertyStep r) [])

/-! ## Procedures -/

/-- An argument of a procedure. -/
def procedureArgument (r : Rules) : Parser Unit := do
  mayDirect
  passIdent
  pass (dataType r)
  if ← sign "=" then pass r.anyExpr

/-- The arguments of a procedure in brackets, if there are brackets. An argument may be missing
before a comma or the bracket. -/
def procedureArguments (r : Rules) : Parser Unit := do
  if ← sign "(" then
    if ← sign ")" then return
    pass (phrases do
      match ← peek with
      | some (.word _) => procedureArgument r
      | _ => pure ()
      let comma ← sign ","
      if ← sign ")" then return ((), false)
      unless comma do mismatch
      return ((), true))

/-- The rest of `CREATE PROCEDURE`; `body` reads the statements. -/
def createProcedure (r : Rules) (body : Parser Unit) : Parser Unit := do
  passName
  procedureArguments r
  passBehind ["LANGUAGE"] identifier
  expect ["AS"]
  body

/-! ## Triggers -/

/-- A change on which a trigger is run. -/
def triggerEvent : Parser Unit :=
  choose [(["INSERT"], pure ()), (["UPDATE"], passBehind ["OF"] (commaSeparated identifier)),
    (["DELETE"], pure ()), (["TRUNCATE"], pure ())]

/-- Names for the changed rows. -/
def changedRows : Choices :=
  let named : Parser Unit := do
    may ["AS"]
    passName
  [(["OLD", "TABLE"], named), (["NEW", "TABLE"], named)]

/-- The rest of `CREATE TRIGGER`. -/
def createTrigger (r : Rules) : Parser Unit := do
  passName
  choose (wordings [["FOR"], ["BEFORE"], ["AFTER"], ["INSTEAD", "OF"]])
  pass (phrases do
    triggerEvent
    return ((), ← keyword "OR"))
  expect ["ON"]
  passName
  passBehind ["FROM"] passLooseName
  pass enforcement
  passBehind ["REFERENCING"] (chooseAll changedRows)
  expect ["FOR"]
  may ["EACH"]
  pass (expectOneOf ["ROW", "STATEMENT"])
  passBehind ["WHEN"] r.anyExpr
  expect ["EXECUTE"]
  pass (expectOneOf ["FUNCTION", "PROCEDURE"])
  functionSignature r

/-! ## Macros -/

/-- An argument of a macro. -/
def macroArgument (r : Rules) : Parser Unit := do
  passIdent
  if (← sign ":=") || (← sign "=>") then pass r.anyExpr

/-- The rest of `CREATE MACRO`. -/
def createMacro (r : Rules) : Parser Unit := do
  passName
  expectSign "("
  pass (listUntil ")" (macroArgument r))
  expect ["AS"]
  if ← keyword "TABLE" then pass r.query else pass r.anyExpr

end QueryScore.Sql.Command
