/-
# QueryScore.Extraction -- the structure of a text in a language

One entry for both languages. Extraction never fails: a text that does not parse has the empty
structure.
-/

import QueryScore.Cypher.Extract
import QueryScore.Language
import QueryScore.Sql.Extract
import QueryScore.Sql.Statement

namespace QueryScore

/-- The structure of a text that parses, or why it does not. -/
def structureOf? (language : Language) (text : String) : Except ParseFailure Structure :=
  match language with
  | .sql => (Sql.parse text.toList).map Sql.Query.toStructure
  | .cypher => Cypher.structure? text.toList

/-- The structure of a text. -/
def extract (language : Language) (text : String) : Structure :=
  match structureOf? language text with
  | .ok found => found
  | .error _ => .unparsed

/-- The text parses. -/
def isValid (language : Language) (text : String) : Bool :=
  match structureOf? language text with
  | .ok _ => true
  | .error _ => false

/-! ## The structure from the tree -/

theorem Sql.extract_of_parse {text : String} {query : Query} (h : parse text.toList = .ok query) :
    extract .sql text = query.toStructure := by
  rw [extract, structureOf?, h]
  rfl

theorem Cypher.extract_of_parse {text : String} {tree : Tree Rule} (h : parse text.toList = .ok tree) :
    extract .cypher text = structureOf text.toList tree := by
  rw [extract, structureOf?, structure?, h]
  rfl

/-- A text that is refused has the empty structure. -/
theorem Cypher.extract_of_refused {text : String} {failure : ParseFailure}
    (h : parse text.toList = .error failure) : extract .cypher text = .unparsed := by
  rw [extract, structureOf?, structure?, h]
  rfl

end QueryScore
