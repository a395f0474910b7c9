/-
# QueryScore.Sql.Grammar.Document -- tables read from documents

A document in JSON or XML gives rows once it is said which of its parts are columns. Each reader
here starts behind the keyword.
-/

import QueryScore.Sql.Grammar.Naming

namespace QueryScore.Sql

open QueryScore.Sql.Parser

/-! ## JSON with columns -/

/-- What a column holds when its part is missing or is wrong, if that is said. -/
def faultAnswer : Parser (Option (List Piece)) := do
  if ← keyword "NULL" then return some [said "NULL"]
  if ← keyword "ERROR" then return some [said "ERROR"]
  if ← keyword "DEFAULT" then return some [said "DEFAULT ", .text (← value)]
  return none

/-- One more answer to a fault, if it comes next: the answer to a missing part, and that to a wrong
one; later ones overrule. -/
def faultStep (found : List Piece × List Piece) : Parser (Option (List Piece × List Piece)) := do
  match ← faultAnswer with
  | none => return none
  | some answer =>
    expect ["ON"]
    if ← keyword "EMPTY" then return some (said " " :: answer ++ [said " ON EMPTY"], found.2)
    expect ["ERROR"]
    return some (found.1, said " " :: answer ++ [said " ON ERROR"])

/-- A column of a document; `column` reads the columns of a nested part. -/
def documentColumn (r : Rules) (column : Parser (List Piece)) : Parser (List Piece) := do
  if ← keyword "NESTED" then
    let _ ← keyword "PATH"
    let path ← value
    expect ["COLUMNS"]
    let columns ← inBrackets (commaSeparated column)
    return [said "NESTED PATH ", .text path, said " COLUMNS ("] ++ withCommas columns ++ [said ")"]
  let name ← identifier
  if ← keyword "FOR" then
    expect ["ORDINALITY"]
    return [.text name.render, said " FOR ORDINALITY"]
  let type ← dataType r
  let exists_ ← keyword "EXISTS"
  expect ["PATH"]
  let path ← value
  let (onEmpty, onError) ← stepping faultStep ([], [])
  return [.text name.render, said " "] ++ type ++ [said (if exists_ then " EXISTS" else ""),
    said " PATH ", .text path] ++ onEmpty ++ onError

/-- A column of a document in which parts nest at most so deeply. -/
def documentColumnWithin (r : Rules) : Nat → Parser (List Piece)
  | 0 => mismatch
  | fuel + 1 => documentColumn r (documentColumnWithin r fuel)

/-- The rows of a document. Each nested part takes a token at least. -/
def documentTable (r : Rules) : Parser Table := do
  let parts ← inBrackets do
    let e ← r.anyExpr
    expectSign ","
    let path ← value
    expect ["COLUMNS"]
    let columns ← inBrackets (commaSeparated do
      documentColumnWithin r ((← get).length + 1))
    return [said "JSON_TABLE(", .expr e, said ", ", .text path, said " COLUMNS("] ++
      withCommas columns ++ [said "))"]
  return .form parts (← aliasIfAny r) []

/-! ## JSON with a schema -/

/-- A column of an opened document: its type, where it stands, and whether it is a document. -/
def openedColumn (r : Rules) : Parser (List Piece) := do
  let name ← identifier
  let type ← dataType r
  let path ← optional quotedText
  let document ← do
    if ← keyword "AS" then
      expect ["JSON"]
      pure [said " AS JSON"]
    else pure []
  return .text name.render :: said " " :: type ++
    (path.toList.map fun text => .text (' ' :: quoted '\'' text)) ++ document

/-- The members of a document. -/
def openedTable (r : Rules) : Parser Table := do
  let opening ← inBrackets do
    let e ← r.anyExpr
    let path ← if ← sign "," then some <$> value else pure none
    return [said "OPENJSON(", .expr e] ++
      (path.toList.map fun text => .text (", ".toList ++ text)) ++ [said ")"]
  let columns ← do
    match ← behind ["WITH"] (inBrackets (commaSeparated (openedColumn r))) with
    | some columns => pure (said " WITH (" :: withCommas columns ++ [said ")"])
    | none => pure []
  return .form (opening ++ columns) (← aliasIfAny r) []

/-! ## XML -/

/-- A name for a space of names. -/
def nameSpace (r : Rules) : Parser (List Piece) := do
  let uri ← r.anyExpr
  expect ["AS"]
  return [.expr uri, said " AS ", .text (← identifier).render]

/-- The spaces of names, if they are there. -/
def nameSpaces (r : Rules) : Parser (List Piece) := do
  match ← behind ["XMLNAMESPACES"] (inBrackets (commaSeparated (nameSpace r))) with
  | some found =>
    expectSign ","
    return said "XMLNAMESPACES(" :: withCommas found ++ [said "), "]
  | none => return []

/-- A document that is passed on. The word BY before it says something only if VALUE follows. -/
def passedDocument (r : Rules) : Parser (List Piece) := do
  let byValue ← do if ← keyword "BY" then keyword "VALUE" else pure false
  return said (if byValue then "BY VALUE " else "") :: (← namedExpr r)

/-- The documents that are passed on, if there are any. -/
def passing (r : Rules) : Parser (List Piece) := do
  match ← behind ["PASSING"] (commaSeparated (passedDocument r)) with
  | some found => return said " PASSING " :: withCommas found
  | none => return []

/-- A column of an XML document. -/
def elementColumn (r : Rules) : Parser (List Piece) := do
  let name ← identifier
  if ← keyword "FOR" then
    expect ["ORDINALITY"]
    return [.text name.render, said " FOR ORDINALITY"]
  let type ← dataType r
  let path ← behind ["PATH"] r.anyExpr
  let default_ ← behind ["DEFAULT"] r.anyExpr
  let required ← accept ["NOT", "NULL"]
  unless required do
    let _ ← keyword "NULL"
  return .text name.render :: said " " :: type ++ path.elim [] (clause " PATH ") ++
    default_.elim [] (clause " DEFAULT ") ++ if required then [said " NOT NULL"] else []

/-- The elements of an XML document. -/
def elementTable (r : Rules) : Parser Table := do
  let parts ← inBrackets do
    let spaces ← nameSpaces r
    let e ← r.anyExpr
    let passed ← passing r
    expect ["COLUMNS"]
    let columns ← commaSeparated (elementColumn r)
    return said "XMLTABLE(" :: spaces ++ .expr e :: passed ++ said " COLUMNS " ::
      withCommas columns ++ [said ")"]
  return .form parts (← aliasIfAny r) []

end QueryScore.Sql
