/-
# QueryScore.Sql.Grammar.Operand -- operands of operators

An operand is a literal, a name, a call, a special form, an operand with a sign, or something in
brackets, with field accesses and subscripts behind it. A keyword that does not begin its form is
a name after all, unless it is reserved.
-/

import QueryScore.Sql.Grammar.Call
import QueryScore.Sql.Grammar.Forms

namespace QueryScore.Sql

open QueryScore.Sql.Parser

/-! ## Operands without accesses -/

/-- A value as an expression. -/
def valueForm : Parser Expr := do return .form [.text (← value)]

/-- A literal with the name of its type before it; the type must be a known one. -/
def typedLiteral (r : Rules) (operand : Parser Expr) : Parser Expr := do
  let phrase ← typePhrase r
  let type ← phrase.complete
  match phrase.sort with
  | .interval => intervalForm operand
  | .custom => mismatch
  | .builtin =>
    let text ← value
    return .form (type ++ [said " ", .text text])

/-- A call behind the word that begins it in braces. -/
def bracedCall (r : Rules) : Parser Expr := do
  expect ["FN"]
  let name ← dottedName
  return .call name (← callTail r)

/-- What stands in braces, behind the opening one: a call, or a map. -/
def braceForm (r : Rules) : Parser Expr := do
  match ← optional (bracedCall r) with
  | some call =>
    expectSign "\x7d"
    return .form [said "\x7bfn ", .expr call, said "\x7d"]
  | none => dictionaryForm r

/-- A negation behind its keyword. -/
def negationForm (r : Rules) : Parser Expr := do
  if ← keyword "EXISTS" then existsForm r true
  else
    let e ← r.expr Power.negation
    return .form [said "NOT ", .expr e]

/-- A call of a function that may stand without brackets. -/
def bareCall (r : Rules) (name : Ident) : Parser Expr := do
  if ← sign "(" then
    let (args, _) ← arguments r
    return .call [name] (said "(" :: args ++ [said ")"])
  else return .call [name] []

/-- The form that begins with a keyword, read behind it; none if the keyword begins no form. -/
def keywordForm (r : Rules) (operand : Parser Expr) (name : Ident) (word : String) :
    Parser (Option Expr) :=
  match word with
  | "TRUE" => pure (some (.form [said "true"]))
  | "FALSE" => pure (some (.form [said "false"]))
  | "NULL" => pure (some (.form [said "NULL"]))
  | "CURRENT_CATALOG" | "CURRENT_USER" | "SESSION_USER" | "USER" => pure (some (.call [name] []))
  | "CURRENT_TIMESTAMP" | "CURRENT_TIME" | "CURRENT_DATE" | "LOCALTIME" | "LOCALTIMESTAMP" =>
    some <$> bareCall r name
  | "CASE" => some <$> caseForm r
  | "CAST" | "TRY_CAST" | "SAFE_CAST" => some <$> castForm r word
  | "CONVERT" | "TRY_CONVERT" => some <$> convertForm r word
  | "EXISTS" => some <$> existsForm r false
  | "EXTRACT" => some <$> extractForm r
  | "CEIL" | "FLOOR" => some <$> roundForm r word
  | "POSITION" => do
    if ← atSign "(" then
      -- The form with IN is tried first; otherwise it is a call like any other.
      some <$> either (positionForm r) fun _ => do return .call [name] (← callTail r)
    else pure none
  | "SUBSTR" | "SUBSTRING" => some <$> substringForm r word
  | "OVERLAY" => some <$> overlayForm r
  | "TRIM" => some <$> trimForm r
  | "INTERVAL" => some <$> intervalForm operand
  | "ARRAY" => do
    if ← sign "[" then some <$> arrayForm r "ARRAY"
    else if ← sign "(" then
      let q ← r.query
      expectSign ")"
      pure (some (.call [name] [said "(", .query q, said ")"]))
    else pure none
  | "NOT" => some <$> negationForm r
  | "STRUCT" => some <$> recordForm r
  | "MATCH" => some <$> searchForm
  | "MAP" => do if ← sign "\x7b" then some <$> mapForm r else pure none
  | "PRIOR" =>
    if r.linking then do return some (.form (clause "PRIOR " (← r.expr Power.sum))) else pure none
  | _ => pure none

/-- Keywords that are never names. -/
def reservedForms : List String := ["EXISTS", "INTERVAL", "STRUCT", "TRIM"]

/-- A word as a name: of a function before a bracket, of a character set before a string if it
starts with `_`, else of a column. -/
def nameForm (r : Rules) (name : Ident) : Parser Expr := do
  match ← peek with
  | some (.sign "(") => return .call [name] (← callTail r)
  | some (.literal kind text) =>
    if name.text.head? = some '_' ∧ (kind = .string ∨ kind = .hexadecimal) then
      drop 1
      return .form [.text name.render, said " ", .text (kind.render text)]
    else return .column name
  | _ => return .column name

/-- An operand that begins with a word, read behind it, with its collation. A word whose form breaks
off is a name without a collation. -/
def wordForm (r : Rules) (operand : Parser Expr) (name : Ident) : Parser Expr := do
  match Token.keyword? (.word name) with
  | none => withCollation (← nameForm r name)
  | some word =>
    match ← optional (keywordForm r operand name word) with
    | some (some form) => withCollation form
    | some none => withCollation (← nameForm r name)
    -- The form broke off, and the word is read once more, as a name.
    | none => if reservedForms.contains word then mismatch else nameForm r name

/-- A plus or minus before its operand, which binds as a factor of a product does. -/
def signedForm (r : Rules) (mark : String) : Parser Expr := do
  return .form (clause mark (← r.expr Power.product))

/-- An operand that begins with a sign, read behind it. -/
def signForm (r : Rules) (mark : String) : Parser Expr :=
  match mark with
  | "[" => arrayForm r ""
  | "\x7b" => braceForm r
  | "-" | "+" => signedForm r mark
  | "(" => bracketForm r
  | _ => mismatch

/-- The signs that begin an operand other than a value. -/
def operandSigns : List String := ["[", "\x7b", "-", "+", "("]

/-- An operand with its collation and nothing behind it; `operand` reads the amount of an interval.
A literal of a type has no collation. -/
def primaryOf (r : Rules) (operand : Parser Expr) : Parser Expr :=
  either (typedLiteral r operand) fun _ => do
    match ← peek with
    | some (.word name) =>
      drop 1
      wordForm r operand name
    | some (.sign mark) =>
      if operandSigns.contains mark then
        drop 1
        withCollation (← signForm r mark)
      else withCollation (← valueForm)
    | _ => withCollation (← valueForm)

/-- An operand with its collation, inside at most `depth` intervals of intervals. -/
def primary (r : Rules) : Nat → Parser Expr
  | 0 => throw .tooDeep
  | depth + 1 => primaryOf r (primary r depth)

/-! ## Accesses -/

/-- What stands behind an operand: a field, or a subscript in square brackets. -/
inductive Access where
  /-- A field. -/
  | field (e : Expr)
  /-- A subscript. -/
  | subscript (parts : List Piece)

/-- The parts of an access. -/
def Access.parts : Access → List Piece
  | .field e => [said ".", .expr e]
  | .subscript parts => said "[" :: parts ++ [said "]"]

/-- The identifiers of a field that is a name. -/
def Access.names? : Access → Option (List Ident)
  | .field (.column name) => some [name]
  | .field (.path names) => some names
  | _ => none

/-- An operand with its accesses: a dotted name, a call by a dotted name, or a form. -/
def Expr.withAccesses (root : Expr) (accesses : List Access) : Expr :=
  match root, accesses with
  | root, [] => root
  | .column first, accesses =>
    match accesses.mapM Access.names?, accesses.getLast?, accesses.dropLast.mapM Access.names? with
    | some names, _, _ => .path (first :: names.flatten)
    | none, some (.field (.call name tail)), some names =>
      .call (first :: names.flatten ++ name) tail
    | none, _, _ => .form (.expr (.column first) :: accesses.flatMap Access.parts)
  | root, accesses => .form (.expr root :: accesses.flatMap Access.parts)

/-- A subscript behind its opening bracket: an index, or a slice. -/
def subscript (r : Rules) : Parser (List Piece) := do
  let lower ← do
    if ← sign ":" then pure none else pure (some (← r.anyExpr))
  let lowerParts := lower.toList.map Piece.expr
  if ← sign "]" then return if lower.isSome then lowerParts else [said ":"]
  -- A slice without a lower bound has had its colon read already.
  if lower.isSome then expectSign ":"
  if ← sign "]" then return lowerParts ++ [said ":"]
  let upper ← r.anyExpr
  if ← sign "]" then return lowerParts ++ [said ":", .expr upper]
  expectSign ":"
  if ← sign "]" then return lowerParts ++ [said ":", .expr upper]
  let stride ← r.anyExpr
  expectSign "]"
  return lowerParts ++ [said ":", .expr upper, said ":", .expr stride]

/-- One more access, if it comes next. A period before a star is none. -/
def accessStep (r : Rules) (accesses : List Access) : Parser (Option (List Access)) := do
  if ← atSign "." then
    match ← peekAt 1 with
    -- A star behind a period is left to the projection.
    | some (.sign "*") => return none
    | some (.literal .string text) =>
      drop 2
      return some (accesses ++ [.field (.column ⟨text, some '\''⟩)])
    | _ =>
      drop 1
      let e ← r.expr Power.period
      return some (accesses ++ [.field e])
  else if ← sign "[" then
    let parts ← subscript r
    return some (accesses ++ [.subscript parts])
  else return none

/-- The deepest nesting of intervals in intervals. -/
def maxIntervals : Nat := 50

/-- An operand. -/
def operand (r : Rules) : Parser Expr := do
  let root ← primary r maxIntervals
  return root.withAccesses (← stepping (accessStep r) [])

end QueryScore.Sql
