/-
# QueryScore.Execution.Recorded -- answers recorded earlier

Recorded results answer a query with the rows that its text returned before. Texts that differ
in their blanks only are one query, also inside strings; of several results for one query the
last counts.
-/

import QueryScore.Execution.Answer
import QueryScore.Json.Decode
import QueryScore.Text.Blank

namespace QueryScore

open Json.Document

/-- Rows by the text of their query, whose blanks are collapsed. -/
structure RecordedResults where
  /-- The queries with their rows, each query once. -/
  entries : List (List Char × Rows)

namespace RecordedResults

/-- Nothing is recorded. -/
def empty : RecordedResults := ⟨[]⟩

/-- The results with one more; an older one for that query gives way. -/
def insert (results : RecordedResults) (query : String) (rows : Rows) : RecordedResults :=
  let key := Text.collapse query.toList
  ⟨(key, rows) :: results.entries.filter fun entry => entry.1 != key⟩

/-- The results of a list of queries with their rows. -/
def ofList (results : List (String × Rows)) : RecordedResults :=
  results.foldl (fun done (query, rows) => done.insert query rows) empty

/-- The rows that are recorded for a query. -/
def find? (results : RecordedResults) (query : String) : Option Rows :=
  results.entries.lookup (Text.collapse query.toList)

/-- The number of recorded queries. -/
def size (results : RecordedResults) : Nat := results.entries.length

/-- Nothing is recorded. -/
def isEmpty (results : RecordedResults) : Bool := results.entries.isEmpty

/-- The answer to a query. -/
def answer (results : RecordedResults) (query : String) : Answer :=
  match results.find? query with
  | some rows => .ok rows
  | none => .error (.query "no recorded result for query")

/-- Rows inside a file of results, which nests two containers around them. -/
def decodeRows? : Json.Document → Option Rows := list? (·.value? (Json.maxDepth - 2))

/-- The results of a file: an object from queries to arrays of rows. -/
def decode? (d : Json.Document) : Option RecordedResults := (d.map? decodeRows?).map ofList

end RecordedResults

end QueryScore
