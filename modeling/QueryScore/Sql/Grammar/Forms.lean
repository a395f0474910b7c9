/-
# QueryScore.Sql.Grammar.Forms -- special notations that begin with a keyword

CASE, CAST, EXTRACT, TRIM and their relatives have arguments separated by words. Each reader here
starts behind its keyword and gives the form with the words it is written back with.
-/

import QueryScore.Sql.Grammar.Type

namespace QueryScore.Sql

open QueryScore.Sql.Parser

/-! ## CASE -/

/-- One branch of a CASE, and whether another follows. -/
def caseBranch (r : Rules) : Parser (List Piece × Bool) := do
  let condition ← r.anyExpr
  expect ["THEN"]
  let result ← r.anyExpr
  return ([said " WHEN ", .expr condition, said " THEN ", .expr result], ← keyword "WHEN")

/-- A CASE. -/
def caseForm (r : Rules) : Parser Expr := do
  let operand ← do
    if ← keyword "WHEN" then pure []
    else
      let e ← r.anyExpr
      expect ["WHEN"]
      pure [said " ", .expr e]
  let branches ← phrases (caseBranch r)
  let other ← do
    if ← keyword "ELSE" then
      let e ← r.anyExpr
      pure [said " ELSE ", .expr e]
    else pure []
  expect ["END"]
  return .form (said "CASE" :: operand ++ branches.flatten ++ other ++ [said " END"])

/-! ## Casts -/

/-- The format of a cast, if it is there. -/
def castFormat : Parser (List Piece) := do
  if ← keyword "FORMAT" then
    let format ← value
    if ← accept ["AT", "TIME", "ZONE"] then
      let zone ← value
      return [said " FORMAT ", .text format, said " AT TIME ZONE ", .text zone]
    else return [said " FORMAT ", .text format]
  else return []

/-- A cast by the named function. -/
def castForm (r : Rules) (name : String) : Parser Expr :=
  inBrackets do
    let e ← r.anyExpr
    expect ["AS"]
    let type ← dataType r
    let format ← castFormat
    return .form ([said (name ++ "("), .expr e, said " AS "] ++ type ++ format ++ [said ")"])

/-- A conversion to a type or a character set by the named function. -/
def convertForm (r : Rules) (name : String) : Parser Expr :=
  inBrackets do
    let e ← r.anyExpr
    if ← keyword "USING" then
      let charset ← dottedName
      return .form
        [said (name ++ "("), .expr e, said " USING ", .text (renderPath charset), said ")"]
    expectSign ","
    let type ← dataType r
    let charset ← do
      if ← accept ["CHARACTER", "SET"] then
        let charset ← dottedName
        pure [said " CHARACTER SET ", .text (renderPath charset)]
      else pure []
    return .form ([said (name ++ "("), .expr e, said ", "] ++ type ++ charset ++ [said ")"])

/-! ## Times -/

/-- The fields of a point in time. -/
def timeUnits : List String :=
  ["YEAR", "YEARS", "MONTH", "MONTHS", "WEEK", "WEEKS", "DAY", "DAYS", "DAYOFWEEK", "DAYOFYEAR",
    "DATE", "DATETIME", "CENTURY", "DECADE", "DOW", "DOY", "EPOCH", "HOUR", "HOURS", "ISODOW",
    "ISOYEAR", "ISOWEEK", "JULIAN", "MICROSECOND", "MICROSECONDS", "MILLENIUM", "MILLENNIUM",
    "MILLISECOND", "MILLISECONDS", "MINUTE", "MINUTES", "NANOSECOND", "NANOSECONDS", "QUARTER",
    "SECOND", "SECONDS", "TIME", "TIMEZONE", "TIMEZONE_ABBR", "TIMEZONE_HOUR", "TIMEZONE_MINUTE",
    "TIMEZONE_REGION"]

/-- The units that may follow an interval. -/
def intervalUnits : List String :=
  ["YEAR", "YEARS", "MONTH", "MONTHS", "WEEK", "WEEKS", "DAY", "DAYS", "HOUR", "HOURS", "MINUTE",
    "MINUTES", "SECOND", "SECONDS", "CENTURY", "DECADE", "DOW", "DOY", "EPOCH", "ISODOW", "ISOYEAR",
    "JULIAN", "MICROSECOND", "MICROSECONDS", "MILLENIUM", "MILLENNIUM", "MILLISECOND",
    "MILLISECONDS", "NANOSECOND", "NANOSECONDS", "QUARTER", "TIMEZONE", "TIMEZONE_HOUR",
    "TIMEZONE_MINUTE"]

/-- A field of a point in time; any other name is a field of its own. -/
def timeUnit : Parser (List Char) := do
  match ← oneOf timeUnits with
  | some "WEEK" =>
    if ← sign "(" then
      let day ← identifier
      expectSign ")"
      return "WEEK(".toList ++ day.render ++ ")".toList
    else return "WEEK".toList
  | some unit => return unit.toList
  | none => return (← identifier).render

/-- A size behind a unit, if it is there. -/
def unitSize : Parser (List Char) := do
  let size ← sizeIfAny
  return if size.isEmpty then [] else ' ' :: size

/-- The units of an interval, if they are there. -/
def intervalTail : Parser (List Char) := do
  let leading ← do
    match ← keywordAt 0 with
    | some word => if intervalUnits.contains word then pure (some (← timeUnit)) else pure none
    | none => pure none
  let leadingText := (leading.map (' ' :: ·)).getD []
  if leading = some "SECOND".toList then
    if ← sign "(" then
      let n ← natural
      let fraction ← do
        if ← sign "," then
          let m ← natural
          pure (", " ++ m.repr)
        else pure ""
      expectSign ")"
      return leadingText ++ (" (" ++ n.repr ++ fraction ++ ")").toList
    else return leadingText
  let size ← unitSize
  if ← keyword "TO" then
    let last ← timeUnit
    let fraction ← if last = "SECOND".toList then unitSize else pure []
    return leadingText ++ size ++ " TO ".toList ++ last ++ fraction
  else return leadingText ++ size

/-- An interval whose amount is an operand. -/
def intervalForm (operand : Parser Expr) : Parser Expr := do
  let amount ← operand
  return .form [said "INTERVAL ", .expr amount, .text (← intervalTail)]

/-- A field of a point in time. -/
def extractForm (r : Rules) : Parser Expr :=
  inBrackets do
    let unit ← timeUnit
    let between ← do
      if ← keyword "FROM" then pure " FROM "
      else
        expectSign ","
        pure ", "
    let e ← r.anyExpr
    return .form [said "EXTRACT(", .text unit, said between, .expr e, said ")"]

/-- A number rounded to an integer, to places, or a time to a unit. -/
def roundForm (r : Rules) (name : String) : Parser Expr :=
  inBrackets do
    let e ← r.anyExpr
    let goal ← do
      if ← keyword "TO" then
        let unit ← timeUnit
        pure (" TO ".toList ++ unit)
      else if ← sign "," then
        match ← next with
        | .number text long => pure (", ".toList ++ numberText text long)
        | _ => mismatch
      else pure []
    return .form [said (name ++ "("), .expr e, .text goal, said ")"]

/-! ## Strings -/

/-- A place of one string in another, in the notation with IN. -/
def positionForm (r : Rules) : Parser Expr :=
  inBrackets do
    let e ← r.expr Power.comparison
    expect ["IN"]
    let within ← r.anyExpr
    return .form [said "POSITION(", .expr e, said " IN ", .expr within, said ")"]

/-- Takes a sign or a keyword if one of them comes next. -/
def signOrKeyword (mark word : String) : Parser Bool := do
  if ← sign mark then return true
  keyword word

/-- A part of a string by the named function. -/
def substringForm (r : Rules) (name : String) : Parser Expr :=
  inBrackets do
    let e ← r.anyExpr
    let commas ← atSign ","
    let start ← do
      if ← signOrKeyword "," "FROM" then
        let start ← r.anyExpr
        pure [said (if commas then ", " else " FROM "), .expr start]
      else pure []
    let size ← do
      if ← signOrKeyword "," "FOR" then
        let size ← r.anyExpr
        pure [said (if commas then ", " else " FOR "), .expr size]
      else pure []
    return .form ([said (name ++ "("), .expr e] ++ start ++ size ++ [said ")"])

/-- A string with a part replaced. -/
def overlayForm (r : Rules) : Parser Expr :=
  inBrackets do
    let e ← r.anyExpr
    expect ["PLACING"]
    let what ← r.anyExpr
    expect ["FROM"]
    let start ← r.anyExpr
    let size ← do
      if ← keyword "FOR" then
        let size ← r.anyExpr
        pure [said " FOR ", .expr size]
      else pure []
    return .form ([said "OVERLAY(", .expr e, said " PLACING ", .expr what, said " FROM ",
      .expr start] ++ size ++ [said ")"])

/-- A string without blanks or other characters at its ends. -/
def trimForm (r : Rules) : Parser Expr :=
  inBrackets do
    let side ← oneOf ["BOTH", "LEADING", "TRAILING"]
    let sideText := said ((side.map (· ++ " ")).getD "")
    let e ← r.anyExpr
    if ← keyword "FROM" then
      let target ← r.anyExpr
      return .form [said "TRIM(", sideText, .expr e, said " FROM ", .expr target, said ")"]
    else if ← sign "," then
      let characters ← r.exprs
      return .form ([said "TRIM(", .expr e, said ", "] ++ commaExprs characters ++ [said ")"])
    else return .form [said "TRIM(", sideText, .expr e, said ")"]

/-! ## Records and full text -/

/-- A record of values behind its keyword. Where the fields have types, the values have no names. -/
def recordForm (r : Rules) : Parser Expr := do
  let (fields, overrun) ← recordFields r (typePhrase r)
  if overrun then mismatch
  let item := if fields.isEmpty then namedExpr r else do return [.expr (← r.anyExpr)]
  let items ← inBrackets (commaSeparated item)
  return .form (recordTypeParts fields ++ said "(" :: withCommas items ++ [said ")"])

/-- One entry of a map behind the reader of its key. -/
def mapEntry (r : Rules) (key : Parser Piece) : Parser (List Piece) := do
  let k ← key
  expectSign ":"
  let e ← r.anyExpr
  return [k, said ": ", .expr e]

/-- A map behind its opening brace, the keys being identifiers. -/
def dictionaryForm (r : Rules) : Parser Expr := do
  let key : Parser Piece := do return .text (← identifier).render
  let entries ← listUntil "\x7d" (mapEntry r key)
  return .form (said "\x7b" :: withCommas entries ++ [said "\x7d"])

/-- A map behind its keyword and its opening brace, the keys being expressions. -/
def mapForm (r : Rules) : Parser Expr := do
  let entries ← listUntil "\x7d" (mapEntry r (.expr <$> r.anyExpr))
  return .form (said "MAP \x7b" :: withCommas entries ++ [said "\x7d"])

/-- The mode of a full-text search, if it is there. -/
def searchMode : Parser String := do
  for mode in ["IN NATURAL LANGUAGE MODE WITH QUERY EXPANSION", "IN NATURAL LANGUAGE MODE",
      "IN BOOLEAN MODE", "WITH QUERY EXPANSION"] do
    if ← accept (mode.splitOn " ") then return " " ++ mode
  return ""

/-- A full-text search. -/
def searchForm : Parser Expr := do
  let columns ← dottedNames
  expect ["AGAINST"]
  inBrackets do
    let text ← value
    let mode ← searchMode
    return .form [said "MATCH (", .text ([',', ' '].intercalate (columns.map renderPath)),
      said ") AGAINST (", .text text, said (mode ++ ")")]

/-! ## Queries and lists -/

/-- A test for rows. -/
def existsForm (r : Rules) (negated : Bool) : Parser Expr :=
  inBrackets do
    let q ← r.query
    return .form [said (if negated then "NOT EXISTS (" else "EXISTS ("), .query q, said ")"]

/-- The elements of an array behind its opening bracket. -/
def arrayForm (r : Rules) (name : String) : Parser Expr := do
  let elements ← listUntil "]" r.anyExpr
  return .form (said (name ++ "[") :: commaExprs elements ++ [said "]"])

end QueryScore.Sql
