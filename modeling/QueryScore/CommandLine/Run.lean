/-
# QueryScore.CommandLine.Run -- what the commands do

A command looks at its input files, computes, and says what is to be done: print a text, write
the files of a run, or nothing because something failed. It reads all it needs before anything
is written. Settings, tasks or records, generated queries and the source of rows are looked at
in this order, and the first that is wrong ends the command.
-/

import QueryScore.CommandLine.Command
import QueryScore.Evaluation.Assessment
import QueryScore.Execution.Recorded
import QueryScore.Output
import QueryScore.Validation

namespace QueryScore.CommandLine

open Json.Document

/-! ## Batches -/

/-- The answers of a source under the time limits of the settings. -/
def supervised (config : Config Float) (answer : String → Answer) (query : String) : Answer :=
  Supervision.execute config.timeout config.grace (.returns (answer query))

/-- The records of a batch: one for every item that can be evaluated, in order. -/
def batchRecords (config : Config Float) (answer : String → Answer) (language : Language)
    (items : List Item) : List (Record Float) :=
  let plans := items.map (evaluation config language)
  let (results, _) :=
    runAll (Executor.ofFunction (supervised config answer)) plans
      (Session.start config.cacheCapacity ())
  results.filterMap fun
    | .ok result => some result.toRecord
    | .error _ => none

/-- The items for tasks and the queries that were generated for their questions; a question
without one has the empty query. -/
def answeredTasks (tasks : List Task) (responses : List (String × String)) : List Item :=
  tasks.map fun task => ⟨task, (responses.lookup task.question).getD ""⟩

/-- The items of the records of an earlier run. -/
def recordedItems (language : Language) (records : List (Record Float)) : List Item :=
  records.map fun record => ⟨record.toTask language, record.generatedScript⟩

/-! ## Input files -/

/-- What a command sees of the files. -/
structure Inputs where
  /-- The text of a file, if it can be read. -/
  read : String → Option String
  /-- A path leads to a file. -/
  isFile : String → Bool

/-- What a database answers: there is no engine here that could run a query. -/
def withoutEngine (_ : String) : Answer := .error (.query "no engine for SQL")

/-- The answers of a source, if it can be opened. -/
def openSource (inputs : Inputs) : Source → Option (String → Answer)
  | .sqlite path => if inputs.isFile path then some withoutEngine else none
  | .recorded path => do
    let results ← (decodeFile RecordedResults.decode? (inputs.read path)).toOption
    pure results.answer

/-- The settings of a file, or the standard ones. -/
def loadConfig (inputs : Inputs) : Option String → Option (Config Float)
  | some path => (Config.load (inputs.read path)).toOption
  | none => some .standard

/-- The settings of a batch: those of the file must be sound, and what the options put in the
place of one must be so too. -/
def runConfig (inputs : Inputs) (options : RunOptions) : Option (Config Float) := do
  let config ← loadConfig inputs options.config
  let config := { config with
    timeout := options.timeout.getD config.timeout
    workers := (options.workers.map Workers.exactly).getD config.workers }
  config.check.toOption

/-- The generated queries of a file by their questions, the last of each first. -/
def loadResponses (text : Option String) : Option (List (String × String)) :=
  ((decodeFile (map? string?) text).toOption).map List.reverse

/-- The last step of a path without its extension, which begins at the last dot that is not
the first character. -/
def stem (path : String) : String :=
  let steps := (pathSteps path).filter fun step => !step.isEmpty && step != ['.']
  match steps.getLast? with
  | none => "results"
  | some name =>
    if name == ['.', '.'] then "results"
    else
      match name.reverse.dropWhile (· != '.') with
      | _ :: c :: rest => String.ofList (c :: rest).reverse
      | _ => String.ofList name

/-! ## Commands -/

/-- What is to be done for a command. -/
inductive Reply where
  /-- Print a text and exit with a code. -/
  | print (text : String) (code : Nat)
  /-- Write the files of a run and exit with zero, or with one if they cannot be written. -/
  | store (directory name : String) (records : List (Record Float))
  /-- Exit with one. -/
  | fail

/-- The text of a JSON value that is printed. -/
def printed (value : Json) : String := value.pretty ++ "\n"

/-- Evaluate generated queries. -/
def evaluateReply (inputs : Inputs) (tasks responses : String) (language : Language)
    (source : Source) (options : RunOptions) : Option Reply := do
  let config ← runConfig inputs options
  let tasks ← (loadTasks (inputs.read tasks)).toOption
  let given ← loadResponses (inputs.read responses)
  let answer ← openSource inputs source
  pure (.store options.directory (options.name.getD (stem responses))
    (batchRecords config answer language (answeredTasks tasks given)))

/-- Evaluate the queries of a result file again. -/
def rescoreReply (inputs : Inputs) (results : String) (language : Language) (source : Source)
    (options : RunOptions) : Option Reply := do
  let config ← runConfig inputs options
  let records ← (loadRecords (inputs.read results)).toOption
  let answer ← openSource inputs source
  pure (.store options.directory (options.name.getD (stem results ++ "_rescored"))
    (batchRecords config answer language (recordedItems language records)))

/-- Check a task file. -/
def validateReply (inputs : Inputs) (tasks : String) (language : Language) (source : Source)
    (config : Option String) : Option Reply := do
  let config ← loadConfig inputs config
  let tasks ← (loadTasks (inputs.read tasks)).toOption
  let answer ← openSource inputs source
  let (found, _) := validate (Executor.ofFunction (supervised config answer)) language tasks
    (Session.start config.cacheCapacity ())
  pure (.print (printed found.toJson) (if found.isClean then 0 else 1))

/-- **What is to be done for a command.** -/
def Command.reply (inputs : Inputs) : Command → Reply
  | .analyze language query => .print (printed (extract language query).toJson) 0
  | .evaluate tasks responses language source options =>
    (evaluateReply inputs tasks responses language source options).getD .fail
  | .rescore results language source options =>
    (rescoreReply inputs results language source options).getD .fail
  | .validateTasks tasks language source config =>
    (validateReply inputs tasks language source config).getD .fail
  | .summarize results =>
    match loadRecords (inputs.read results) with
    | .ok records => .print (printed (QueryScore.summarize records).toJson) 0
    | .error _ => .fail

/-- The exit code for arguments that are used wrongly. -/
def usageCode : Nat := 2

/-! ## Commands on a disk -/

/-- What a command sees of a disk. -/
def Inputs.ofDisk (disk : Disk) : Inputs where
  read := disk.read
  isFile path := (disk.read path).isSome

/-- How a command ended. -/
structure Exit where
  /-- The exit code. -/
  code : Nat
  /-- What it printed. -/
  printed : String
  deriving DecidableEq, Repr

/-- A reply carried out on a disk. -/
def Reply.perform (disk : Disk) : Reply → Exit × Disk
  | .print text code => (⟨code, text⟩, disk)
  | .fail => (⟨1, ""⟩, disk)
  | .store directory name records =>
    match disk.writeOutput directory name records with
    | (.ok _, disk) => (⟨0, ""⟩, disk)
    | (.error _, disk) => (⟨1, ""⟩, disk)

/-- **A command line carried out on a disk.** -/
def runOnDisk (disk : Disk) (arguments : List String) : Exit × Disk :=
  match Command.read? arguments with
  | some command => (command.reply (.ofDisk disk)).perform disk
  | none => (⟨usageCode, ""⟩, disk)

end QueryScore.CommandLine
