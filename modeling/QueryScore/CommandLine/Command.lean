/-
# QueryScore.CommandLine.Command -- arguments and commands

The arguments of a command are options with a value and operands. An option has a long name
behind two dashes, and its value follows behind an equals sign or as the next argument, which
must not look like an option then. An option stands at most once. Two dashes alone make all
that follows operands; a single dash alone is a value like any other.

There are five commands: print the structure of a query, evaluate generated queries, evaluate
the queries of a result file again, check a task file, and print the summary of a result file.
Where queries are run, they run against a database or against recorded results, never both.
-/

import QueryScore.Decimal.Binary64
import QueryScore.Language
import QueryScore.Text.Blank

namespace QueryScore.CommandLine

/-! ## Options and operands -/

/-- Arguments told apart. -/
structure Arguments where
  /-- The options with their values. -/
  options : List (String × String)
  /-- The operands, in order. -/
  operands : List String
  deriving DecidableEq, Repr

/-- The argument looks like an option: a dash with something behind it. -/
def looksLikeOption (argument : String) : Bool :=
  match argument.toList with
  | '-' :: _ :: _ => true
  | _ => false

/-- The name of an option behind its dashes, and its value if that is attached. -/
def splitOption (body : List Char) : String × Option String :=
  match Text.splitOnce ['='] body with
  | some (name, value) => (String.ofList name, some (String.ofList value))
  | none => (String.ofList body, none)

/-- The arguments with one more option, if it is known and new. -/
def Arguments.withOption (known : List String) (found : Arguments) (name value : String) :
    Option Arguments :=
  if known.contains name && (found.options.lookup name).isNone then
    some { found with options := found.options ++ [(name, value)] }
  else none

/-- The arguments with more operands. -/
def Arguments.withOperands (found : Arguments) (operands : List String) : Arguments :=
  { found with operands := found.operands ++ operands }

/-- Arguments told apart, as far as the known options go. -/
def readFrom (known : List String) (found : Arguments) : List String → Option Arguments
  | [] => some found
  | argument :: rest =>
    match argument.toList with
    | ['-', '-'] => some (found.withOperands rest)
    | '-' :: '-' :: body =>
      match splitOption body with
      | (name, some value) => (found.withOption known name value).bind (readFrom known · rest)
      | (name, none) =>
        match rest with
        | value :: rest =>
          if looksLikeOption value then none
          else (found.withOption known name value).bind (readFrom known · rest)
        | [] => none
    | '-' :: _ :: _ => none
    | _ => readFrom known (found.withOperands [argument]) rest

/-- Arguments with a fixed number of operands. -/
def readArguments (known : List String) (operands : Nat) (arguments : List String) :
    Option Arguments :=
  (readFrom known ⟨[], []⟩ arguments).filter fun found => found.operands.length = operands

/-! ## Values -/

/-- A path: any text that is not empty. -/
def path? (text : String) : Option String := if text.isEmpty then none else some text

/-- A natural number below `2 ^ 64`, a plus sign allowed. -/
def number? (text : String) : Option Nat :=
  let digits :=
    match text.toList with
    | '+' :: rest => rest
    | cs => cs
  if digits.isEmpty || !digits.all Char.isDigit then none
  else some (digits.foldl (fun n c => n * 10 + (c.toNat - '0'.toNat)) 0) |>.filter (· < twoTo 64)

/-- The value of an option that must be there. -/
def Arguments.required {α : Type} (found : Arguments) (name : String)
    (read : String → Option α) : Option α :=
  (found.options.lookup name).bind read

/-- The value of an option that may be missing; there is no result if the value is refused. -/
def Arguments.optional {α : Type} (found : Arguments) (name : String)
    (read : String → Option α) : Option (Option α) :=
  match found.options.lookup name with
  | some text => (read text).map some
  | none => some none

/-! ## Commands -/

/-- What queries run against. -/
inductive Source where
  /-- A database file. -/
  | sqlite (path : String)
  /-- A file of recorded results. -/
  | recorded (path : String)
  deriving DecidableEq, Repr

/-- The file that queries run against. -/
def Source.path : Source → String
  | .sqlite path | .recorded path => path

/-- How a batch is run and where its files go. -/
structure RunOptions where
  /-- The file of the settings. -/
  config : Option String
  /-- A time limit in place of that of the settings. -/
  timeout : Option Nat
  /-- A number of workers in place of that of the settings. -/
  workers : Option Nat
  /-- The directory of the files. -/
  directory : String
  /-- The name of the run. -/
  name : Option String
  deriving DecidableEq, Repr

/-- A command with its arguments. -/
inductive Command where
  /-- Print the structure of a query. -/
  | analyze (language : Language) (query : String)
  /-- Evaluate generated queries against the tasks of a file. -/
  | evaluate (tasks responses : String) (language : Language) (source : Source)
      (options : RunOptions)
  /-- Evaluate the queries of a result file again. -/
  | rescore (results : String) (language : Language) (source : Source) (options : RunOptions)
  /-- Check a task file. -/
  | validateTasks (tasks : String) (language : Language) (source : Source)
      (config : Option String)
  /-- Print the summary of a result file. -/
  | summarize (results : String)
  deriving DecidableEq, Repr

/-- The directory of the files where nothing is said. -/
def defaultDirectory : String := "querylens-output"

/-- The options that say what queries run against. -/
def sourceOptions : List String := ["sqlite", "recorded"]

/-- The options that say how a batch is run. -/
def runOptions : List String := ["config", "timeout-ms", "workers", "output-dir", "name"]

/-- What queries run against: exactly one of the two. -/
def readSource (found : Arguments) : Option Source := do
  match ← found.optional "sqlite" path?, ← found.optional "recorded" path? with
  | some path, none => some (.sqlite path)
  | none, some path => some (.recorded path)
  | _, _ => none

/-- How a batch is run. -/
def readRunOptions (found : Arguments) : Option RunOptions := do
  let directory ← found.optional "output-dir" path?
  pure {
    config := ← found.optional "config" path?
    timeout := ← found.optional "timeout-ms" number?
    workers := ← found.optional "workers" number?
    directory := directory.getD defaultDirectory
    name := ← found.optional "name" some }

/-- The command that arguments stand for; otherwise they are used wrongly. -/
def Command.read? : List String → Option Command
  | "analyze" :: arguments => do
    let found ← readArguments ["language"] 1 arguments
    pure (.analyze (← found.required "language" Language.ofName?) (← found.operands.head?))
  | "evaluate" :: arguments => do
    let found ← readArguments
      (["tasks", "responses", "language"] ++ sourceOptions ++ runOptions) 0 arguments
    pure (.evaluate (← found.required "tasks" path?) (← found.required "responses" path?)
      (← found.required "language" Language.ofName?) (← readSource found)
      (← readRunOptions found))
  | "rescore" :: arguments => do
    let found ← readArguments (["results", "language"] ++ sourceOptions ++ runOptions) 0 arguments
    pure (.rescore (← found.required "results" path?)
      (← found.required "language" Language.ofName?) (← readSource found)
      (← readRunOptions found))
  | "validate-tasks" :: arguments => do
    let found ← readArguments (["tasks", "language", "config"] ++ sourceOptions) 0 arguments
    pure (.validateTasks (← found.required "tasks" path?)
      (← found.required "language" Language.ofName?) (← readSource found)
      (← found.optional "config" path?))
  | "summarize" :: arguments => do
    let found ← readArguments ["results"] 0 arguments
    pure (.summarize (← found.required "results" path?))
  | _ => none

/-- The files that a command reads. -/
def Command.inputs : Command → List String
  | .analyze .. => []
  | .evaluate tasks responses _ source options =>
    [tasks, responses, source.path] ++ options.config.toList
  | .rescore results _ source options => [results, source.path] ++ options.config.toList
  | .validateTasks tasks _ source config => [tasks, source.path] ++ config.toList
  | .summarize results => [results]

end QueryScore.CommandLine
