/-
# QueryScore.Validation -- checking a task file by its reference queries

A task is sound if its reference query is there, runs, and returns a row. A question counts
once: later tasks that ask it again are listed and not checked. Of the others, each reference
query that is not blank runs exactly once.
-/

import QueryScore.Evaluation.Plan
import QueryScore.Task

namespace QueryScore

/-- What is wrong with a task. -/
inductive TaskFault where
  /-- There is no reference query in the language. -/
  | blank (language : Language)
  /-- The reference query returns nothing. -/
  | noRows
  /-- The reference query fails. -/
  | failed (error : ExecutionError)
  deriving DecidableEq, Repr

/-- The fault in words. -/
def TaskFault.message : TaskFault → String
  | .blank language => "no " ++ language.name ++ " reference query"
  | .noRows => "reference query returned no rows"
  | .failed error => error.message

/-- The fault that the answer of the reference query shows. -/
def answerFault? : Answer → Option TaskFault
  | .ok rows => if rows.isEmpty then some .noRows else none
  | .error e => some (.failed e)

/-- The fault of a task. -/
def taskFault? (language : Language) (task : Task) : Plan (Option TaskFault) :=
  if task.hasReference language then
    .answerOf (task.reference language) fun answer => .result (answerFault? answer)
  else .result (some (.blank language))

/-- The tasks whose question has not been asked before, also not among the seen questions. -/
def firstTasks (seen : List String) : List Task → List Task
  | [] => []
  | task :: rest =>
    if seen.contains task.question then firstTasks seen rest
    else task :: firstTasks (task.question :: seen) rest

/-- The questions that have been asked before, once for each time they are asked again. -/
def repeatedQuestions (seen : List String) : List Task → List String
  | [] => []
  | task :: rest =>
    if seen.contains task.question then task.question :: repeatedQuestions seen rest
    else repeatedQuestions (task.question :: seen) rest

/-- What is wrong with a task file. -/
structure Validation where
  /-- The number of tasks. -/
  total : Nat
  /-- The first tasks that are unsound, with their faults. -/
  invalid : List (Task × TaskFault)
  /-- The questions that are asked again. -/
  duplicates : List String
  deriving Repr

/-- Nothing is wrong. -/
def Validation.isClean (v : Validation) : Bool := v.invalid.isEmpty && v.duplicates.isEmpty

/-- **The check of a list of tasks** in a language, and the session afterwards. -/
def validate {σ : Type} (executor : Executor σ) (language : Language) (tasks : List Task)
    (session : Session σ) : Validation × Session σ :=
  let firsts := firstTasks [] tasks
  let (faults, session) := runAll executor (firsts.map (taskFault? language)) session
  ({ total := tasks.length
     invalid := (firsts.zip faults).filterMap fun (task, fault?) => fault?.map (task, ·)
     duplicates := repeatedQuestions [] tasks }, session)

/-- The JSON form of the result. -/
def Validation.toJson (v : Validation) : Json :=
  .obj [("total", .int v.total),
    ("invalid", .arr (v.invalid.map fun (task, fault) =>
      .obj [("question", .str task.question), ("reason", .str fault.message)])),
    ("duplicate_questions", Json.strings v.duplicates)]

end QueryScore
