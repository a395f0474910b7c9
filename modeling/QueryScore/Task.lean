/-
# QueryScore.Task -- questions with their reference queries

A task is a question in natural language with the query that answers it in each language. The
question alone is the identity of a task. A task file is a JSON array of tasks, in which the
reference queries go by a short or a long key.
-/

import QueryScore.Json.Decode
import QueryScore.Language

namespace QueryScore

open Json.Document

/-- A question and the queries that answer it. -/
structure Task where
  /-- The question. -/
  question : String
  /-- The reference query in SQL; blank if there is none. -/
  sql : String
  /-- The reference query in Cypher; blank if there is none. -/
  cypher : String
  /-- What the graph query returned when the task was recorded, as JSON text. -/
  recorded : Option String
  deriving DecidableEq, Repr

namespace Task

/-- The reference query in a language. -/
def reference (task : Task) : Language → String
  | .sql => task.sql
  | .cypher => task.cypher

/-- The task has a reference query in a language: one that is not blank. -/
def hasReference (task : Task) (language : Language) : Bool :=
  !(task.reference language).toList.all Text.isBlank

/-- The two tasks ask the same question. -/
def asksSame (a b : Task) : Bool := a.question == b.question

/-- The JSON form of a task; a recorded result is there only if there is one. -/
def toJson (task : Task) : Json :=
  .obj ([("question", .str task.question), ("sql", .str task.sql), ("cypher", .str task.cypher)] ++
    match task.recorded with
    | some text => [("cypher_result", .str text)]
    | none => [])

/-- The fields of the JSON form with their long names. -/
def schema : Schema where
  fields := [("question", []), ("sql", ["reference_sql"]), ("cypher", ["reference_cypher"]),
    ("cypher_result", ["reference_cypher_result"])]
  closed := false

/-- A task from its JSON form. -/
def decode? (d : Json.Document) : Option Task := do
  let fields ← d.fields? schema
  pure {
    question := ← fields.required "question" string?
    sql := ← fields.withDefault "sql" "" string?
    cypher := ← fields.withDefault "cypher" "" string?
    recorded := ← fields.withDefault "cypher_result" none (nullable? string?) }

/-- A task from a JSON text. -/
def parse? (text : String) : Option Task := (Json.Document.read text.toList).bind decode?

end Task

/-! ## Files of values -/

/-- Why a file does not give what it should hold. -/
inductive FileFault where
  /-- It cannot be read. -/
  | unreadable
  /-- Its text is no JSON of the expected shape. -/
  | malformed
  deriving DecidableEq, Repr

/-- What a decoder makes of a file, if it can be read. -/
def decodeFile {α : Type} (decode : Json.Document → Option α) : Option String → Except FileFault α
  | none => .error .unreadable
  | some text =>
    match (Json.Document.read text.toList).bind decode with
    | some value => .ok value
    | none => .error .malformed

/-- The tasks of a task file. -/
def loadTasks : Option String → Except FileFault (List Task) := decodeFile (list? Task.decode?)

end QueryScore
