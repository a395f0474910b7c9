/-
# QueryScore.Output -- the files of a run

A run has a name and leaves two files in its directory: its records, and the report on them.
The name becomes part of both file names, so it must be a plain one: not blank, no absolute
path, no step to a parent directory, no separator.

A disk holds directories and text files below one root. A path is read step by step from the
root: an empty step and a single dot stay where they are, two dots go up, and every step but
the last one leads through a directory that is there. The files of a run are written here as
they are anywhere: first the directory with all its parents, then one file after the other, and
what was written before a failure stays.
-/

import QueryScore.Record.Codec
import QueryScore.Summary

namespace QueryScore

/-! ## Names of runs -/

/-- Why a text is no name of a run. -/
inductive NameFault where
  /-- It is blank. -/
  | blank
  /-- It is an absolute path. -/
  | absolute
  /-- One of its steps leads to a parent directory. -/
  | traversal
  /-- It has several steps. -/
  | separator
  deriving DecidableEq, Repr

/-- What is wrong with the text. -/
def NameFault.reason : NameFault → String
  | .blank => "must not be empty"
  | .absolute => "absolute paths are not allowed"
  | .traversal => "traversal segments are not allowed"
  | .separator => "path separators are not allowed"

/-- The steps of a path: what stands between its slashes. -/
def pathSteps (path : String) : List (List Char) := Text.splitWhere (· == '/') path.toList

/-- The first reason for which a text is no name of a run. -/
def nameFault? (name : String) : Option NameFault :=
  let cs := name.toList
  if cs.all Text.isBlank then some .blank
  else if cs.head? == some '/' then some .absolute
  else if (pathSteps name).contains "..".toList then some .traversal
  else if cs.any fun c => c == '/' || c == '\\' then some .separator
  else none

/-! ## Files -/

/-- A step in which writing can fail. -/
inductive WriteStep where
  /-- Making the directory. -/
  | directory
  /-- Writing a file. -/
  | file
  deriving DecidableEq, Repr

/-- The step in words. -/
def WriteStep.action : WriteStep → String
  | .directory => "create output directory"
  | .file => "write"

/-- Why the files of a run are not written. -/
inductive OutputError where
  /-- The name of the run is refused. -/
  | invalidName (name : String) (fault : NameFault)
  /-- A step failed. -/
  | failed (step : WriteStep)
  deriving DecidableEq, Repr

/-- The error in words: the whole message for a name, the failed action otherwise. -/
def OutputError.message : OutputError → String
  | .invalidName name fault => "Invalid output name '" ++ name ++ "': " ++ fault.reason
  | .failed step => step.action

/-- The name of the file of records. -/
def recordsFileName (name : String) : String := name ++ ".json"

/-- The name of the file of the report. -/
def reportFileName (name : String) : String := name ++ "_report.md"

/-- The files of a run, in the order of writing. -/
def outputFiles (name : String) (records : List (Record Float)) : List (String × String) :=
  [(recordsFileName name, recordFile records),
    (reportFileName name, (summarize records).report name)]

/-! ## Disks -/

/-- A place on a disk: the names of the directories that lead to it, and its own. -/
abbrev Place := List (List Char)

/-- Directories and text files below one root. -/
structure Disk where
  /-- The directories other than the root. -/
  directories : List Place
  /-- The files with their texts, each place once. -/
  files : List (Place × String)
  deriving Repr

namespace Disk

/-- A disk with nothing on it. -/
def empty : Disk := ⟨[], []⟩

/-- There is a directory at a place. -/
def isDirectory (disk : Disk) (place : Place) : Bool :=
  place.isEmpty || disk.directories.contains place

/-- The text of the file at a place. -/
def file? (disk : Disk) (place : Place) : Option String := disk.files.lookup place

/-- The greatest number of bytes in a name. -/
def maxNameBytes : Nat := 255

/-- A name that a directory or a file can have. -/
def isName (name : List Char) : Bool :=
  (String.ofList name).utf8ByteSize ≤ maxNameBytes && !name.contains '\x00'

/-! ## Reading -/

/-- Why a path leads to no text. -/
inductive ReadFault where
  /-- There is nothing at the path. -/
  | missing
  /-- The path leads on from a file. -/
  | throughFile
  /-- There is a directory at the path. -/
  | directory
  /-- A name on the path is longer than any can be. -/
  | longName
  deriving DecidableEq, Repr

/-- The fault in words, with the number it goes by. -/
def ReadFault.cause : ReadFault → String
  | .missing => "No such file or directory (os error 2)"
  | .throughFile => "Not a directory (os error 20)"
  | .directory => "Is a directory (os error 21)"
  | .longName => "File name too long (os error 36)"

/-- The place that steps lead to from a place. -/
def follow (disk : Disk) (place : Place) : List (List Char) → Except ReadFault Place
  | [] => .ok place
  | step :: rest =>
    if !disk.isDirectory place then
      .error (if (disk.file? place).isSome then .throughFile else .missing)
    else if step.isEmpty || step == ['.'] then disk.follow place rest
    else if step == ['.', '.'] then disk.follow place.dropLast rest
    else if !isName step then .error .longName
    else disk.follow (place ++ [step]) rest

/-- The place of a path; an absolute one lies on no disk. -/
def find (disk : Disk) (path : String) : Except ReadFault Place :=
  match pathSteps path with
  | [] :: _ :: _ => .error .missing
  | steps => disk.follow [] steps

/-- The text of the file that a path leads to, or why there is none. -/
def readText (disk : Disk) (path : String) : Except ReadFault String :=
  match disk.find path with
  | .error fault => .error fault
  | .ok place =>
    match disk.file? place with
    | some text => .ok text
    | none => .error (if disk.isDirectory place then .directory else .missing)

/-- The text of the file that a path leads to. -/
def read (disk : Disk) (path : String) : Option String := (disk.readText path).toOption

/-! ## Writing -/

/-- The disk with a file at a place, in the place of an older one. -/
def putFile (disk : Disk) (place : Place) (text : String) : Disk :=
  { disk with files := (place, text) :: disk.files.filter fun entry => entry.1 != place }

/-- The place that steps lead to, and the disk on which all directories on the way are made.
A file on the way, or a name that none can have, stops it. -/
def make (disk : Disk) (place : Place) : List (List Char) → Option Place × Disk
  | [] => (some place, disk)
  | step :: rest =>
    if step.isEmpty || step == ['.'] then disk.make place rest
    else if step == ['.', '.'] then disk.make place.dropLast rest
    else
      let next := place ++ [step]
      if (disk.file? next).isSome || !isName step then (none, disk)
      else if disk.isDirectory next then disk.make next rest
      else ({ disk with directories := next :: disk.directories } : Disk).make next rest

/-- The place of a directory with all directories on the way made, and the disk afterwards. -/
def makeDirectory (disk : Disk) (path : String) : Option Place × Disk :=
  match pathSteps path with
  | [] :: _ :: _ => (none, disk)
  | steps => disk.make [] steps

/-- The disk with a text in a file of a directory, unless it cannot be written. -/
def write (disk : Disk) (directory : Place) (name text : String) : Option Disk :=
  let place := directory ++ [name.toList]
  if !isName name.toList || disk.isDirectory place then none else some (disk.putFile place text)

/-- The disk with several files in a directory, up to the first that cannot be written. -/
def writeAll (disk : Disk) (directory : Place) : List (String × String) → Bool × Disk
  | [] => (true, disk)
  | (name, text) :: rest =>
    match disk.write directory name text with
    | some disk => disk.writeAll directory rest
    | none => (false, disk)

/-- **The files of a run, written to a directory**: the place of the directory or what went
wrong, and the disk afterwards. -/
def writeOutput (disk : Disk) (directory name : String) (records : List (Record Float)) :
    Except OutputError Place × Disk :=
  match nameFault? name with
  | some fault => (.error (.invalidName name fault), disk)
  | none =>
    match disk.makeDirectory directory with
    | (none, disk) => (.error (.failed .directory), disk)
    | (some place, disk) =>
      match disk.writeAll place (outputFiles name records) with
      | (true, disk) => (.ok place, disk)
      | (false, disk) => (.error (.failed .file), disk)

/-- A place as a path from the root. -/
def pathOf (place : Place) : String := String.ofList (List.intercalate ['/'] place)

end Disk

end QueryScore
