/-
# QueryScore.Execution.Answer -- what comes of running a query

Running a query gives rows or one of five failures. What the code that runs it does is a
little wider: it may also break off with a payload, which is then reported as a failure with
the text of the payload.
-/

import QueryScore.Duration
import QueryScore.Json.Document
import QueryScore.Json.Writer

namespace QueryScore

/-- The rows that a query returns. -/
abbrev Rows := List Json

/-- Why a query returned no rows. -/
inductive ExecutionError where
  /-- The store rejected the query or failed at it. -/
  | query (reason : String)
  /-- The query ran longer than it may. -/
  | timeout (limit : Milliseconds)
  /-- The query saw that it was cancelled and stopped. -/
  | cancelled
  /-- What it runs on could not be had. -/
  | connection (reason : String)
  /-- The code that ran it broke off. -/
  | panicked (reason : String)
  deriving DecidableEq, Repr

/-- A failure in words. -/
def ExecutionError.message : ExecutionError → String
  | .query reason => "query failed: " ++ reason
  | .timeout limit => "query timed out after " ++ limit.text
  | .cancelled => "query was cancelled"
  | .connection reason => "could not acquire execution resource: " ++ reason
  | .panicked reason => "executor panicked: " ++ reason

/-- Rows, or why there are none. -/
abbrev Answer := Except ExecutionError Rows

/-! ## How an execution ends -/

/-- What an execution that breaks off leaves behind. -/
inductive Payload where
  /-- A text. -/
  | text (message : String)
  /-- Anything else. -/
  | other
  deriving DecidableEq, Repr

/-- The text of a payload. -/
def Payload.message : Payload → String
  | .text message => message
  | .other => "non-string panic payload"

/-- How an execution ends. -/
inductive Ending where
  /-- It returns. -/
  | returned (answer : Answer)
  /-- It breaks off. -/
  | broke (payload : Payload)

/-- The answer that an ending amounts to. -/
def Ending.answer : Ending → Answer
  | .returned answer => answer
  | .broke payload => .error (.panicked payload.message)

/-! ## Recorded rows -/

/-- Why a text holds no recorded rows. -/
inductive RecordedRowsFault where
  /-- It is no JSON. -/
  | malformed
  /-- It is a JSON value, but no array. -/
  | noArray (value : Json)

/-- What is wrong with the text, where it can be said without the reader of JSON. -/
def RecordedRowsFault.reason? : RecordedRowsFault → Option String
  | .malformed => none
  | .noArray value => some ("recorded result is not an array: " ++ value.render)

/-- The failure of the execution that the text stands for. -/
def RecordedRowsFault.toError (fault : RecordedRowsFault) : ExecutionError :=
  .query (fault.reason?.getD "recorded result is not valid JSON")

/-- The rows that a text records: a JSON array. -/
def readRecordedRows (text : String) : Except RecordedRowsFault Rows :=
  match Json.parse? text with
  | some (.arr rows) => .ok rows
  | some value => .error (.noArray value)
  | none => .error .malformed

end QueryScore
