/-
# QueryScore.Config -- the settings of an evaluation

The settings come from a JSON object in which every field may be missing; unknown fields are
refused. What is read is then checked: the threshold lies above zero and not above one, a query
gets some time, and there is at least one worker. The first failing check is reported.
-/

import QueryScore.Decimal.Layout
import QueryScore.Duration
import QueryScore.Json.Decode

namespace QueryScore

open Json.Document

/-- How many items a batch works on at a time. -/
inductive Workers where
  /-- As many as the machine runs at a time. -/
  | available
  /-- A given number. -/
  | exactly (count : Nat)
  deriving DecidableEq, Repr

/-- The settings of an evaluation whose scores are numbers of type `α`. -/
structure Config (α : Type) where
  /-- How long one query may run. -/
  timeout : Milliseconds
  /-- How long a cancelled query may take to let go of what it holds. -/
  grace : Milliseconds
  /-- A dimension below this F1 counts as wrong. -/
  threshold : α
  /-- The size of the worker pool. -/
  workers : Workers
  /-- The number of structures kept; none at zero. -/
  cacheCapacity : Nat
  /-- A task's recorded graph result stands in for a run of its reference query. -/
  useRecorded : Bool
  deriving Repr

namespace Config

/-- Half of the structure has to be right. -/
def defaultThreshold : Float := Float.ofBits 0x3fe0000000000000

/-- The settings where nothing is said. -/
def standard : Config Float where
  timeout := 30000
  grace := 1000
  threshold := defaultThreshold
  workers := .available
  cacheCapacity := 1024
  useRecorded := false

/-- Why settings are refused. -/
inductive Fault where
  /-- There is no text to read. -/
  | unreadable
  /-- The text is no JSON of the expected shape. -/
  | malformed
  /-- The threshold does not lie above zero and up to one. -/
  | threshold (value : Float)
  /-- The time limit is zero. -/
  | noTime
  /-- There is no worker. -/
  | noWorker
  deriving Repr

/-- The field that a fault is about and what is wrong with it. -/
def Fault.field? : Fault → Option (String × String)
  | .unreadable | .malformed => none
  | .threshold value =>
    some ("threshold", String.ofList (Decimal.Style.plain.text value) ++ " is not in (0, 1]")
  | .noTime => some ("timeout_ms", "must be greater than zero")
  | .noWorker => some ("workers", "must be at least one")

/-- The message for a fault of one field. -/
def Fault.message? (fault : Fault) : Option String :=
  fault.field?.map fun (name, reason) => "invalid config value `" ++ name ++ "`: " ++ reason

/-- The settings pass all checks; otherwise the first that fails. -/
def check (config : Config Float) : Except Fault (Config Float) :=
  if !(Float.ofNat 0 < config.threshold && config.threshold ≤ Float.ofNat 1) then
    .error (.threshold config.threshold)
  else if config.timeout = 0 then .error .noTime
  else if config.workers = .exactly 0 then .error .noWorker
  else .ok config

/-- The fields of the JSON form, in declared order. -/
def schema : Schema :=
  .plain ["timeout_ms", "cancel_grace_ms", "threshold", "workers", "cache_capacity",
    "use_recorded_reference_results"] true

/-- Settings from their JSON form, unchecked. -/
def decode? (d : Json.Document) : Option (Config Float) := do
  let fields ← d.fields? schema
  pure {
    timeout := ← fields.withDefault "timeout_ms" standard.timeout natural?
    grace := ← fields.withDefault "cancel_grace_ms" standard.grace natural?
    threshold := ← fields.withDefault "threshold" standard.threshold float?
    workers := ← fields.withDefault "workers" standard.workers
      fun d => (natural? d).map .exactly
    cacheCapacity := ← fields.withDefault "cache_capacity" standard.cacheCapacity natural?
    useRecorded := ← fields.withDefault "use_recorded_reference_results" standard.useRecorded
      bool? }

/-- Checked settings from a JSON text. -/
def parse (text : String) : Except Fault (Config Float) :=
  match (Json.Document.read text.toList).bind decode? with
  | some config => config.check
  | none => .error .malformed

/-- Checked settings from a file, if it can be read. -/
def load : Option String → Except Fault (Config Float)
  | some text => parse text
  | none => .error .unreadable

end Config

end QueryScore
