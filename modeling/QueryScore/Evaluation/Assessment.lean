/-
# QueryScore.Evaluation.Assessment -- a generated query against its reference

Evaluating an item compares the structure of a generated query with that of the reference
query of its task, and, if the generated query parses, the rows that both return. The reference
query runs first; a recorded result may stand in for its run. A task without a reference query
in the language cannot be evaluated at all.
-/

import QueryScore.Config
import QueryScore.Evaluation.Plan
import QueryScore.Record
import QueryScore.Text.Quoted

namespace QueryScore

open Score

/-- A task and the query that was generated for it. -/
structure Item where
  /-- The task. -/
  task : Task
  /-- The generated query. -/
  script : String
  deriving DecidableEq, Repr

/-- The task has no reference query in the language. -/
structure BlankReference where
  /-- The question of the task. -/
  question : String
  /-- The language. -/
  language : Language
  deriving DecidableEq, Repr

/-- The lack of a reference query in words. -/
def BlankReference.message (e : BlankReference) : String :=
  "task " ++ String.ofList (Text.quote e.question.toList) ++ " has no " ++ e.language.name ++
    " reference query"

/-- What comes of evaluating an item. -/
abbrev Evaluated (α : Type) := Except BlankReference (TaskResult α)

variable {α : Type} [Scalar α]

/-- The result for an item whose two structures are known, with the comparison of the rows if
both queries ran. -/
def assess (config : Config α) (language : Language) (item : Item)
    (expected generated : Structure) (comparison : Option (RowComparison α)) : TaskResult α :=
  let components : ComponentScores α := compareStructures expected generated
  -- There is something to compare exactly if both queries returned rows.
  let executed := comparison.isSome
  let accurate := comparison.any RowComparison.same
  { task := item.task
    language
    script := item.script
    generated
    expected
    scores := {
      entities := components.entities.f1
      attributes := components.attributes.f1
      relations :=
        match language with
        | .sql => none
        | .cypher => some components.relations.f1
      filters := components.filters.f1
      aggregation := components.aggregation.f1
      returnColumns := components.returnColumns.f1
      executed
      accurate
      rows := (comparison.map RowComparison.scores).getD .zero }
    classification :=
      classify config.threshold
        { language, parsed := generated.parsed, executed, accurate, components } }

/-- The rows that stand in for a run of the reference query, if the settings ask for them. -/
def recordedReference? (config : Config α) (language : Language) (task : Task) :
    Option String :=
  match language with
  | .sql => none
  | .cypher => if config.useRecorded then task.recorded else none

/-- The answer of the reference query: recorded, or from a run. -/
def referenceAnswer {β : Type} (config : Config α) (language : Language) (task : Task)
    (next : Answer → Plan β) : Plan β :=
  match recordedReference? config language task with
  | some text => next ((readRecordedRows text).mapError RecordedRowsFault.toError)
  | none => .answerOf (task.reference language) next

/-- The comparison of what both queries return, if both ran; the second does not run after the
first failed. -/
def comparison {β : Type} (config : Config α) (language : Language) (item : Item)
    (next : Option (RowComparison α) → Plan β) : Plan β :=
  referenceAnswer config language item.task fun
    | .error _ => next none
    | .ok expected =>
      .answerOf item.script fun
        | .error _ => next none
        | .ok generated => next (some (compareRows expected generated))

/-- **The evaluation of an item.** -/
def evaluation (config : Config α) (language : Language) (item : Item) : Plan (Evaluated α) :=
  if item.task.hasReference language then
    .structureOf language (item.task.reference language) fun expected =>
    .structureOf language item.script fun generated =>
      let finish := fun c => Plan.result (.ok (assess config language item expected generated c))
      -- What does not parse is not run.
      if generated.parsed then comparison config language item finish else finish none
  else .result (.error ⟨item.task.question, language⟩)

end QueryScore
