/-
# QueryScore.CommitMessage -- the form of commit messages

The subject of a commit message is its first line that is neither blank nor a comment. It
follows the convention `type(scope)!: description`: one of a few types, an optional scope in
parentheses, an optional exclamation mark, and a description behind the first colon with a
blank. It is short and ends without a period. Subjects that tools write are let through.
-/

import QueryScore.Text.Blank

namespace QueryScore.CommitMessage

open Text

/-- The types of commits. -/
def types : List String :=
  ["build", "chore", "ci", "docs", "feat", "fix", "perf", "refactor", "revert", "style", "test"]

/-- The greatest number of characters in a subject. -/
def maxLength : Nat := 72

/-- How the subjects begin that tools write. -/
def toolOpenings : List String := ["Merge ", "Revert \"", "fixup! ", "squash! "]

/-- Why a message is refused. -/
inductive Fault where
  /-- There is no subject. -/
  | noSubject
  /-- The subject is too long. -/
  | tooLong (subject : List Char)
  /-- The subject ends with a period. -/
  | period
  /-- There is no colon with a blank behind it. -/
  | noColon
  /-- There is nothing behind the colon. -/
  | noDescription
  /-- The scope is not closed at the end of the header. -/
  | openScope
  /-- The scope is empty. -/
  | emptyScope
  /-- The type is none of those allowed. -/
  | unknownType (type : List Char)
  deriving DecidableEq, Repr

/-- The fault in words. -/
def Fault.message : Fault → String
  | .noSubject => "Commit message subject is empty."
  | .tooLong subject =>
    "Commit subject is " ++ subject.length.repr ++ " chars (max " ++ maxLength.repr ++ "): `" ++
      String.ofList subject ++ "`"
  | .period => "Commit subject must not end with a period."
  | .noColon =>
    "Commit subject must follow Conventional Commits, e.g. `fix(scoring): handle empty sets`."
  | .noDescription => "Commit description after `: ` must not be empty."
  | .openScope => "Invalid commit header: unclosed scope parenthesis."
  | .emptyScope => "Commit scope must not be empty."
  | .unknownType type =>
    "Invalid commit type `" ++ String.ofList type ++ "`. Allowed: " ++ ", ".intercalate types

/-- The subject of a message: its first line, trimmed, that is neither blank nor a comment. -/
def subject? (message : List Char) : Option (List Char) :=
  ((splitWhere (· == '\n') message).map trim).find? fun line =>
    !line.isEmpty && line.head? != some '#'

/-- A text without one exclamation mark at its end. -/
def stripMark (header : List Char) : List Char :=
  if header.getLast? = some '!' then header.dropLast else header

/-- The type of a header, whose scope is looked at and left out. -/
def headerType (header : List Char) : Except Fault (List Char) :=
  match header.dropWhile (· != '(') with
  | [] => .ok header
  | _ :: scope =>
    if scope.getLast? ≠ some ')' then .error .openScope
    else if scope.dropLast.isEmpty then .error .emptyScope
    else .ok (header.takeWhile (· != '('))

/-- The subject follows the convention; otherwise the first fault in it. -/
def checkSubject (subject : List Char) : Except Fault Unit :=
  -- Subjects of tools are not checked further, however long they are.
  if toolOpenings.any fun opening => opening.toList.isPrefixOf subject then .ok ()
  else if maxLength < subject.length then .error (.tooLong subject)
  else if subject.getLast? = some '.' then .error .period
  else
    match splitOnce [':', ' '] subject with
    | none => .error .noColon
    | some (header, description) =>
      if (trim description).isEmpty then .error .noDescription
      else
        -- The mark of a breaking change stands behind the scope.
        match headerType (stripMark header) with
        | .error fault => .error fault
        | .ok type =>
          if types.any (fun allowed => allowed.toList == type) then .ok ()
          else .error (.unknownType type)

/-- **The check of a whole message.** -/
def check (message : String) : Except Fault Unit :=
  match subject? message.toList with
  | some subject => checkSubject subject
  | none => .error .noSubject

end QueryScore.CommitMessage
