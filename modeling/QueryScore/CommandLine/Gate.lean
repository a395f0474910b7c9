/-
# QueryScore.CommandLine.Gate -- the gate for commit messages

A second command line checks a file that holds a commit message. It is silent about a sound
message; otherwise it says what is wrong and exits with one.
-/

import QueryScore.CommandLine.Command
import QueryScore.CommitMessage

namespace QueryScore.CommandLine

/-- The file that the arguments ask to check; otherwise they are used wrongly. -/
def readGate? : List String → Option String
  | "commit-msg" :: arguments => do
    let found ← readArguments [] 1 arguments
    found.operands.head?.bind path?
  | _ => none

/-- What is said of a file that cannot be read, and why it cannot. -/
def unreadableMessage (path cause : String) : String :=
  "Failed to read commit message file " ++ path ++ ": " ++ cause

/-- What is wrong with a file: its text, or why it cannot be read. -/
def gateComplaint? (path : String) (file : Except String String) : Option String :=
  match file with
  | .error cause => some (unreadableMessage path cause)
  | .ok text =>
    match CommitMessage.check text with
    | .ok _ => none
    | .error fault => some fault.message

end QueryScore.CommandLine
