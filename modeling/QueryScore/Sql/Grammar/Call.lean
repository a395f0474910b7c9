/-
# QueryScore.Sql.Grammar.Call -- calls of functions

A call has its arguments in brackets, clauses inside them, and clauses behind them: the order of a
group, a filter, the treatment of NULL and the window. Arguments may be named.
-/

import QueryScore.Sql.Grammar.Forms

namespace QueryScore.Sql

open QueryScore.Sql.Parser

/-! ## Arguments -/

/-- The operator behind the name of a named argument. -/
def argumentOperator : Parser String := do
  if ← keyword "VALUE" then return "VALUE"
  if ← sign "=>" then return "=>"
  expectSign ":="
  return ":="

/-- A named argument. -/
def namedArgument (r : Rules) : Parser (List Piece) := do
  let name ← identifier
  let operator ← argumentOperator
  let argument ← exprOrStar r
  return .text name.render :: said (" " ++ operator ++ " ") :: argument.parts

/-- An argument. -/
def argument (r : Rules) : Parser (List Piece) :=
  either (namedArgument r) fun _ => do return (← exprOrStar r).parts

/-- The treatment of NULL, if it is there. -/
def nullTreatment : Parser (Option String) := do
  match ← oneOf ["RESPECT", "IGNORE"] with
  | some word =>
    expect ["NULLS"]
    return some (word ++ " NULLS")
  | none => return none

/-- What is written for missing members in a document, if it is there. -/
def nullClause : Parser (Option (List Piece)) := do
  if ← accept ["ABSENT", "ON", "NULL"] then return some [said "ABSENT ON NULL"]
  if ← accept ["NULL", "ON", "NULL"] then return some [said "NULL ON NULL"]
  return none

/-- A clause of words and an expression, if it is there. -/
def exprClause (r : Rules) (word : String) : Parser (Option (List Piece)) := do
  if ← keyword word then
    let e ← r.anyExpr
    return some [said (word ++ " "), .expr e]
  else return none

/-- The order of the arguments, if it is there. -/
def orderClause (r : Rules) : Parser (Option (List Piece)) := do
  if ← accept ["ORDER", "BY"] then
    let items ← sortItems r
    return some (said "ORDER BY " :: commaSortItems items)
  else return none

/-- The bound of the arguments, if it is there. -/
def boundClause (r : Rules) : Parser (Option (List Piece)) := do
  if ← keyword "HAVING" then
    let kind ← expectOneOf ["MIN", "MAX"]
    let e ← r.anyExpr
    return some [said ("HAVING " ++ kind ++ " "), .expr e]
  else return none

/-- The separator of the arguments, if it is there. -/
def separatorClause : Parser (Option (List Piece)) := do
  if ← keyword "SEPARATOR" then
    let text ← value
    return some [said "SEPARATOR ", .text text]
  else return none

/-- A literal that stands for what has been cut off, if it comes next. -/
def fillerIfAny (r : Rules) : Parser (List Piece) := do
  match ← peek with
  | some (.literal .string _) | some (.literal .escaped _) | some (.literal .unicode _)
  | some (.literal .national _) | some (.literal .hexadecimal _) =>
    return clause " " (← r.anyExpr)
  | _ => return []

/-- What is done when the result grows too long, if that is said. -/
def overflowClause (r : Rules) : Parser (Option (List Piece)) := do
  if ← accept ["ON", "OVERFLOW"] then
    if ← keyword "ERROR" then return some [said "ON OVERFLOW ERROR"]
    expect ["TRUNCATE"]
    let filler ← fillerIfAny r
    let counted ← expectOneOf ["WITH", "WITHOUT"]
    expect ["COUNT"]
    return some (said "ON OVERFLOW TRUNCATE" :: filler ++ [said (" " ++ counted ++ " COUNT")])
  else return none

/-- Parts, separated by blanks. -/
def withBlanks : List (List Piece) → List Piece
  | [] => []
  | [a] => a
  | a :: b :: rest => a ++ said " " :: withBlanks (b :: rest)

/-- `DISTINCT` or `ALL` before arguments, if it is there. -/
def duplicateTreatment : Parser (List Piece) := do
  match ← oneOf ["ALL", "DISTINCT"] with
  | none => return []
  | some word =>
    if word = "ALL" then
      if ← keyword "DISTINCT" then mismatch
    return [said (word ++ " ")]

/-- The arguments of a call behind the opening bracket, and whether they say how to treat NULL. -/
def arguments (r : Rules) : Parser (List Piece × Bool) := do
  let first ← nullClause
  -- No arguments at all, or only the clause on missing members.
  if ← sign ")" then return (first.getD [], false)
  let treatment ← duplicateTreatment
  let args ← commaSeparated (argument r)
  let nulls ← nullTreatment
  let order ← orderClause r
  let limit ← exprClause r "LIMIT"
  let bound ← boundClause r
  let separator ← separatorClause
  let overflow ← overflowClause r
  let last ← nullClause
  expectSign ")"
  let clauses := [first, nulls.map fun text => [said text], order, limit, bound, separator,
    overflow, last].filterMap id
  return (treatment ++ withBlanks (withCommas args :: clauses), nulls.isSome)

/-! ## Windows -/

/-- One end of a window frame. A string there is the amount of an interval. -/
def frameBound (r : Rules) : Parser (List Piece) := do
  if ← accept ["CURRENT", "ROW"] then return [said "CURRENT ROW"]
  let distance ← do
    if ← keyword "UNBOUNDED" then pure [said "UNBOUNDED"]
    else
      match ← peek with
      | some (.literal .string _) =>
        let e ← intervalForm do withCollation (.form [.text (← value)])
        pure [.expr e]
      | _ =>
        let e ← r.anyExpr
        pure [.expr e]
  let direction ← expectOneOf ["PRECEDING", "FOLLOWING"]
  return distance ++ [said (" " ++ direction)]

/-- A window frame. -/
def windowFrame (r : Rules) : Parser (List Piece) := do
  let unit ← expectOneOf ["ROWS", "RANGE", "GROUPS"]
  if ← keyword "BETWEEN" then
    let start ← frameBound r
    expect ["AND"]
    let stop ← frameBound r
    return said (unit ++ " BETWEEN ") :: start ++ said " AND " :: stop
  else
    let start ← frameBound r
    return said (unit ++ " ") :: start

/-- The name a window builds on, if it is there: a word that is no keyword. -/
def windowBase : Parser (List (List Piece)) := do
  if (← peek).any Token.isPlainWord then return [[.text (← identifier).render]] else return []

/-- A window behind its opening bracket. -/
def windowSpec (r : Rules) : Parser (List Piece) := do
  let base ← windowBase
  let partition ← do
    if ← accept ["PARTITION", "BY"] then
      let es ← r.exprs
      pure [said "PARTITION BY " :: commaExprs es]
    else pure []
  let order ← orderClause r
  let frame ← do
    if ← sign ")" then pure []
    else
      let frame ← windowFrame r
      expectSign ")"
      pure [frame]
  return withBlanks (base ++ partition ++ order.toList ++ frame)

/-- A window in brackets, or the name of one. -/
def window (r : Rules) : Parser (List Piece) := do
  if ← sign "(" then
    let spec ← windowSpec r
    return said "(" :: spec ++ [said ")"]
  else
    let name ← identifier
    return [.text name.render]

/-! ## The whole call -/

/-- The order within a group behind a call, if it is there. -/
def withinGroup (r : Rules) : Parser (List Piece) := do
  if ← accept ["WITHIN", "GROUP"] then
    inBrackets do
      expect ["ORDER", "BY"]
      let items ← sortItems r
      return said " WITHIN GROUP (ORDER BY " :: commaSortItems items ++ [said ")"]
  else return []

/-- The filter behind a call, if it is there. The word FILTER is taken even if no filter follows,
and so is a bracket behind it. -/
def callFilter (r : Rules) : Parser (List Piece) := do
  if ← keyword "FILTER" then
    if ← sign "(" then
      if ← keyword "WHERE" then
        let e ← r.anyExpr
        expectSign ")"
        return [said " FILTER (WHERE ", .expr e, said ")"]
  return []

/-- A call of a function, from its opening bracket on. A second list of arguments makes the first
one parameters. -/
def callTail (r : Rules) : Parser (List Piece) := do
  expectSign "("
  let (first, firstNulls) ← arguments r
  let (given, treatsNull) ← do
    if ← sign "(" then
      let (second, secondNulls) ← arguments r
      pure (said "(" :: first ++ said ")(" :: second ++ [said ")"], secondNulls)
    else pure (said "(" :: first ++ [said ")"], firstNulls)
  let group ← withinGroup r
  let filter ← callFilter r
  -- The treatment of NULL stands in the brackets or behind them, not in both.
  let nulls ← if treatsNull then pure none else nullTreatment
  let windowed ← do
    if ← keyword "OVER" then
      let spec ← window r
      pure (said " OVER " :: spec)
    else pure []
  return given ++ group ++ filter ++ (nulls.toList.map fun text => said (" " ++ text)) ++ windowed

end QueryScore.Sql
