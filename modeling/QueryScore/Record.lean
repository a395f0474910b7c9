/-
# QueryScore.Record -- the outcome of one evaluated task

The full result of a task holds both structures, all scores and the classification. The record
is its flat form, the one that is written to files and summarized. Whether both queries ran is
not stored there; it follows from the category.
-/

import QueryScore.Classification
import QueryScore.Score.Rows
import QueryScore.Structure
import QueryScore.Task

namespace QueryScore

open Score

/-- The scores of one task. -/
structure ScoreVector (α : Type) where
  /-- Tables or labels. -/
  entities : α
  /-- Attributes with their owners. -/
  attributes : α
  /-- Edges; nothing for SQL, whose joins are not scored by themselves. -/
  relations : Option α
  /-- Atomic predicates. -/
  filters : α
  /-- Aggregate functions. -/
  aggregation : α
  /-- Returned columns. -/
  returnColumns : α
  /-- Both queries ran. -/
  executed : Bool
  /-- Both returned the same rows. -/
  accurate : Bool
  /-- The scores of the normalized rows. -/
  rows : SetScores α
  deriving DecidableEq, Repr

/-- Everything known of one evaluated task. -/
structure TaskResult (α : Type) where
  /-- The task. -/
  task : Task
  /-- The language of the generated query. -/
  language : Language
  /-- The generated query as it was given. -/
  script : String
  /-- The structure of the generated query. -/
  generated : Structure
  /-- The structure of the reference query. -/
  expected : Structure
  /-- The scores. -/
  scores : ScoreVector α
  /-- The category and the flags. -/
  classification : Classification
  deriving Repr

/-- The flat outcome of one evaluated task. -/
structure Record (α : Type) where
  /-- The question. -/
  question : String
  /-- The reference query. -/
  expectedScript : String
  /-- The generated query. -/
  generatedScript : String
  /-- The generated query parses. -/
  parsed : Bool
  /-- The results are right. -/
  correct : Bool
  /-- F1 of the entities. -/
  entities : α
  /-- F1 of the attributes. -/
  attributes : α
  /-- F1 of the edges; nothing for SQL. -/
  relations : Option α
  /-- F1 of the filters. -/
  filters : α
  /-- F1 of the aggregate functions. -/
  aggregation : α
  /-- F1 of the returned columns. -/
  returnColumns : α
  /-- Both queries returned the same rows. -/
  accurate : Bool
  /-- F1 of the rows. -/
  rowF1 : α
  /-- Precision of the rows. -/
  rowPrecision : α
  /-- Recall of the rows. -/
  rowRecall : α
  /-- The category. -/
  category : Category
  /-- All categories that apply. -/
  flags : SortedSet Category
  deriving DecidableEq, Repr

/-- The flat form of a result. -/
def TaskResult.toRecord {α : Type} (r : TaskResult α) : Record α where
  question := r.task.question
  expectedScript := r.task.reference r.language
  generatedScript := r.script
  parsed := r.generated.parsed
  correct := r.scores.accurate
  entities := r.scores.entities
  attributes := r.scores.attributes
  relations := r.scores.relations
  filters := r.scores.filters
  aggregation := r.scores.aggregation
  returnColumns := r.scores.returnColumns
  accurate := r.scores.accurate
  rowF1 := r.scores.rows.f1
  rowPrecision := r.scores.rows.precision
  rowRecall := r.scores.rows.coverage
  category := r.classification.category
  flags := r.classification.flags

/-- Both queries ran. -/
def Record.executed {α : Type} (r : Record α) : Bool :=
  r.parsed && r.category != .runtimeError

/-- The task that a record came from, as far as the record tells. -/
def Record.toTask {α : Type} (r : Record α) : Language → Task
  | .sql => ⟨r.question, r.expectedScript, "", none⟩
  | .cypher => ⟨r.question, "", r.expectedScript, none⟩

end QueryScore
