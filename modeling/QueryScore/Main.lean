/-
# QueryScore.Main -- the program

Reads the files that a command names, computes its reply, and carries the reply out: prints a
text or writes the files of a run. Nothing is decided here.
-/

import QueryScore.CommandLine.Gate
import QueryScore.CommandLine.Run

namespace QueryScore

open CommandLine

/-- The text of a file, or why it cannot be read. -/
def readText (path : String) : IO (Except String String) := do
  try
    match String.fromUTF8? (← IO.FS.readBinFile path) with
    | some text => pure (.ok text)
    | none => pure (.error "stream did not contain valid UTF-8")
  catch e => pure (.error e.toString)

/-- The paths of a list that lead to a file, each with the text of the file if it is one. -/
def readFiles : List String → IO (List (String × Option String))
  | [] => pure []
  | path :: rest => do
    let found ←
      try
        let bytes ← IO.FS.readBinFile path
        pure [(path, String.fromUTF8? bytes)]
      catch _ => pure []
    pure (found ++ (← readFiles rest))

/-- The files of a run, written to a directory. -/
def writeFiles (directory name : String) (records : List (Record Float)) : IO Unit := do
  IO.FS.createDirAll directory
  for (file, text) in outputFiles name records do
    IO.FS.writeFile (directory ++ "/" ++ file) text

/-- A reply carried out; the exit code. -/
def perform : Reply → IO UInt32
  | .print text code => do
    IO.print text
    pure (UInt32.ofNat code)
  | .fail => pure 1
  | .store directory name records =>
    match nameFault? name with
    | some fault => do
      IO.eprintln (OutputError.invalidName name fault).message
      pure 1
    | none => do
      try
        writeFiles directory name records
        pure 0
      catch e =>
        IO.eprintln e.toString
        pure 1

/-- A command carried out; the exit code. -/
def runCommand (command : Command) : IO UInt32 := do
  let files ← readFiles command.inputs
  perform (command.reply
    { read := fun path => (files.lookup path).join
      isFile := fun path => (files.lookup path).isSome })

/-- The gate for a commit message carried out; the exit code. -/
def runGate (path : String) : IO UInt32 := do
  match gateComplaint? path (← readText path) with
  | none => pure 0
  | some complaint =>
    IO.eprintln complaint
    pure 1

/-- A command line carried out; the exit code. -/
def runArguments (arguments : List String) : IO UInt32 :=
  match readGate? arguments, Command.read? arguments with
  | some path, _ => runGate path
  | none, some command => runCommand command
  | none, none => do
    IO.eprintln "the arguments do not form a command"
    pure (UInt32.ofNat usageCode)

end QueryScore

/-- The program. -/
def main (arguments : List String) : IO UInt32 := QueryScore.runArguments arguments
