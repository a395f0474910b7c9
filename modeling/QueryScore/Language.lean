/-
# QueryScore.Language -- the two query languages, and why a text is no query

Queries are written in SQL or in Cypher. A language is named by its upper-case name; a name is
read in any case and with blanks around it. Either the grammar of a language rejects a text, or one
of a few conditions of this library does; only the latter are described in words.
-/

import QueryScore.Text.Blank
import QueryScore.Text.Casing

namespace QueryScore

/-- The language of a query. -/
inductive Language where
  /-- Relational queries. -/
  | sql
  /-- Graph queries. -/
  | cypher
  deriving DecidableEq, Repr

/-- The languages, in the order of their declaration. -/
def Language.all : List Language := [.sql, .cypher]

/-- The name of a language. -/
def Language.name : Language → String
  | .sql => "SQL"
  | .cypher => "CYPHER"

/-- The element of a list whose name a text spells, in any case and with blanks around it. -/
def findByName {α : Type} (name : α → String) (candidates : List α) (text : String) : Option α :=
  let wanted := Text.uppercase (Text.trim text.toList)
  candidates.find? fun a => (name a).toList == wanted

/-- The language that a text names. -/
def Language.ofName? (text : String) : Option Language := findByName name all text

/-- What is said of a text that names no language. -/
def Language.invalidName (text : String) : String := "Invalid language: " ++ text

/-! ## Texts that are no queries -/

/-- The deepest nesting of a graph query that is parsed: brackets and choices by cases. -/
def maxNesting : Nat := 40

/-- Why a text is no query. -/
inductive ParseFailure where
  /-- The grammar rejects the text. -/
  | rejected
  /-- The text nests too deeply to be tried. -/
  | tooDeep
  /-- There is no statement. -/
  | noStatement
  /-- There are several statements. -/
  | severalStatements
  /-- A SELECT has no projection. -/
  | noProjection
  /-- The statement is no query; its first word. -/
  | noQuery (head : String)
  deriving DecidableEq, Repr

/-- The description of a condition of this library. -/
def ParseFailure.reason? : ParseFailure → Option String
  | .rejected => none
  | .tooDeep => some ("query nests deeper than " ++ maxNesting.repr ++ " levels")
  | .noStatement => some "no statement found"
  | .severalStatements => some "expected a single statement"
  | .noProjection => some "SELECT without a projection list"
  | .noQuery head => some ("expected a query, found `" ++ head ++ "`")

/-- The whole message for a text in a language. -/
def ParseFailure.message? (language : Language) (failure : ParseFailure) : Option String :=
  failure.reason?.map fun reason => language.name ++ " parse failure: " ++ reason

end QueryScore
