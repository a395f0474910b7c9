/-
# QueryScore.Sql.Grammar.Naming -- names behind tables and expressions

A word behind a table or an expression names it. AS may stand before the word, and must where the
word begins something that may follow.
-/

import QueryScore.Sql.Grammar.Type
import QueryScore.Sql.Marks

namespace QueryScore.Sql

open QueryScore.Sql.Parser

/-- Words that do not name the table before them unless AS says so. -/
def notTableNames : List String :=
  ["WITH", "EXPLAIN", "ANALYZE", "SELECT", "WHERE", "GROUP", "SORT", "HAVING", "ORDER", "PIVOT",
    "UNPIVOT", "TOP", "LATERAL", "VIEW", "LIMIT", "OFFSET", "FETCH", "UNION", "EXCEPT",
    "INTERSECT", "MINUS", "ON", "JOIN", "INNER", "CROSS", "FULL", "LEFT", "RIGHT", "NATURAL",
    "USING", "CLUSTER", "DISTRIBUTE", "GLOBAL", "ANTI", "SEMI", "RETURNING", "ASOF",
    "MATCH_CONDITION", "OUTER", "SET", "QUALIFY", "WINDOW", "END", "FOR", "PARTITION", "PREWHERE",
    "SETTINGS", "FORMAT", "START", "CONNECT", "MATCH_RECOGNIZE", "SAMPLE", "TABLESAMPLE", "FROM",
    "OPEN"]

/-- Words that do not name the expression before them unless AS says so. -/
def notColumnNames : List String :=
  ["WITH", "EXPLAIN", "ANALYZE", "SELECT", "WHERE", "GROUP", "SORT", "HAVING", "ORDER", "TOP",
    "LATERAL", "VIEW", "LIMIT", "OFFSET", "FETCH", "UNION", "EXCEPT", "EXCLUDE", "INTERSECT",
    "MINUS", "CLUSTER", "DISTRIBUTE", "RETURNING", "FROM", "INTO", "END"]

/-- A name behind something, with or without AS; `reserved` words are names only behind AS. -/
def nameIfAny (reserved : List String) : Parser (Option Ident) := do
  let explicit ← keyword "AS"
  match ← peek with
  | some (.word name) =>
    let isReserved := (Token.keyword? (.word name)).any reserved.contains
    if isReserved && !explicit then return none
    drop 1
    return some name
  | some (.literal .string text) =>
    drop 1
    return some ⟨text, some '\''⟩
  | _ => if explicit then mismatch else return none

/-- A column of a named table, perhaps with a type. -/
def namedColumn (r : Rules) : Parser (List Char) := do
  let name ← identifier
  match ← optional (dataType r) with
  | some type => return name.render ++ ' ' :: Piece.renderAll type
  | none => return name.render

/-- The columns of a named table in brackets, if they are there. -/
def namedColumns (r : Rules) : Parser (List Char) := do
  if ← atSign "(" then
    let columns ← inBrackets (commaSeparated (namedColumn r))
    return " (".toList ++ [',', ' '].intercalate columns ++ ")".toList
  else return []

/-- The name of a table behind it, if it is there. -/
def aliasIfAny (r : Rules) : Parser (Option Alias) := do
  match ← nameIfAny notTableNames with
  | some name => return some ⟨name, ← namedColumns r⟩
  | none => return none

end QueryScore.Sql
