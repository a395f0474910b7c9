/-
# QueryScore.Execution.Supervision -- running a query under a time limit

A query runs on a worker of its own, which sends its answer to the caller when it ends and
then leaves. The caller waits for the answer up to a limit. After that it raises the flag of
cancellation, gives the worker some more time to let go of what it holds, and answers that the
time was up, whatever may still arrive. All of this is a machine with one step per event, so
every order of events is a run of it; `execute` is the run that the clock chooses for an
execution whose timing is known.
-/

import QueryScore.Execution.Answer

namespace QueryScore.Supervision

/-! ## The machine -/

/-- Where the worker stands. -/
inductive Worker where
  /-- The execution runs. -/
  | running
  /-- It ended; its answer has yet to be sent. -/
  | ended (ending : Ending)
  /-- The answer is sent; the worker has yet to leave. -/
  | sent
  /-- The worker is gone. -/
  | gone

/-- Where the caller stands. -/
inductive Caller where
  /-- It waits for an answer while the time runs. -/
  | waiting
  /-- It raised the flag and waits while the further time runs. -/
  | granting
  /-- It knows its answer and waits until the worker is gone. -/
  | joining (answer : Answer)
  /-- It answered. -/
  | answered (answer : Answer)

/-- The state of one supervised execution. -/
structure State where
  /-- The worker. -/
  worker : Worker
  /-- The answers that were sent and not received. -/
  channel : List Answer
  /-- The caller raised the flag of cancellation. -/
  raised : Bool
  /-- The caller. -/
  caller : Caller

/-- The execution has just begun. -/
def State.start : State := ⟨.running, [], false, .waiting⟩

/-- What can happen. -/
inductive Event where
  /-- The execution ends. -/
  | ends (ending : Ending)
  /-- The worker sends its answer. -/
  | sends
  /-- The worker leaves. -/
  | leaves
  /-- The caller receives the oldest answer. -/
  | receives
  /-- The caller notices that no answer can come any more. -/
  | hangsUp
  /-- The time of the caller is up. -/
  | timeIsUp
  /-- The further time is up as well. -/
  | graceIsUp
  /-- The caller sees the worker gone. -/
  | joins

/-- What the caller says of a worker that left without a word. -/
def silentWorker : Answer := .error (.panicked "worker exited without a result")

/-- **A step of the machine** with a time limit, if the event can happen in that state. -/
def State.step (limit : Milliseconds) (s : State) : Event → Option State
  | .ends ending =>
    match s.worker with
    | .running => some { s with worker := .ended ending }
    | _ => none
  | .sends =>
    match s.worker with
    | .ended ending => some { s with worker := .sent, channel := s.channel ++ [ending.answer] }
    | _ => none
  | .leaves =>
    match s.worker with
    | .sent => some { s with worker := .gone }
    | _ => none
  | .receives =>
    match s.caller, s.channel with
    | .waiting, answer :: rest => some { s with channel := rest, caller := .joining answer }
    -- The answer came too late: the caller has already decided that the time was up.
    | .granting, _ :: rest =>
      some { s with channel := rest, caller := .joining (.error (.timeout limit)) }
    | _, _ => none
  | .hangsUp =>
    match s.worker, s.channel, s.caller with
    -- The worker left and nothing it sent is on its way.
    | .gone, [], .waiting => some { s with caller := .joining silentWorker }
    | .gone, [], .granting => some { s with caller := .joining (.error (.timeout limit)) }
    | _, _, _ => none
  | .timeIsUp =>
    match s.caller with
    -- The flag is raised before the caller waits on, and is never lowered.
    | .waiting => some { s with raised := true, caller := .granting }
    | _ => none
  | .graceIsUp =>
    match s.caller with
    | .granting => some { s with caller := .answered (.error (.timeout limit)) }
    | _ => none
  | .joins =>
    match s.worker, s.caller with
    | .gone, .joining answer => some { s with caller := .answered answer }
    | _, _ => none

/-- The state after a list of events, if they can happen in that order. -/
def State.play (limit : Milliseconds) (s : State) : List Event → Option State
  | [] => some s
  | event :: rest => (s.step limit event).bind (·.play limit rest)

/-- The answer of the caller, once it is given. -/
def State.answer? (s : State) : Option Answer :=
  match s.caller with
  | .answered answer => some answer
  | _ => none

/-! ## Executions with a known timing -/

/-- When and how an execution ends. -/
inductive Conduct where
  /-- After some time, whether it is cancelled or not. -/
  | endsAfter (duration : Milliseconds) (ending : Ending)
  /-- As soon as the flag is raised. -/
  | endsOnCancel (ending : Ending)

/-- The execution returns at once. -/
def Conduct.returns (answer : Answer) : Conduct := .endsAfter 0 (.returned answer)

/-- The execution watches the flag. -/
def Conduct.watches : Conduct → Bool
  | .endsAfter .. => false
  | .endsOnCancel _ => true

/-- The worker ends, sends and leaves, and the caller takes note. -/
def closing (ending : Ending) : List Event := [.ends ending, .sends, .leaves, .receives, .joins]

/-- The events of an execution in the order of the clock. -/
def schedule (limit grace : Milliseconds) : Conduct → List Event
  | .endsAfter duration ending =>
    if duration < limit then closing ending
    else if duration < limit + grace then .timeIsUp :: closing ending
    else [.timeIsUp, .graceIsUp]
  | .endsOnCancel ending => .timeIsUp :: closing ending

/-- The state in which a supervised execution is over. -/
def finalState (limit grace : Milliseconds) (conduct : Conduct) : Option State :=
  State.start.play limit (schedule limit grace conduct)

/-- **The answer of a supervised execution.** -/
def execute (limit grace : Milliseconds) (conduct : Conduct) : Answer :=
  ((finalState limit grace conduct).bind State.answer?).getD (.error (.timeout limit))

/-- The execution saw that it was cancelled. -/
def sawCancel (limit grace : Milliseconds) (conduct : Conduct) : Bool :=
  conduct.watches && (finalState limit grace conduct).any State.raised

/-- An execution that ends in time is answered by its ending. -/
theorem execute_endsAfter {limit grace duration : Milliseconds} (ending : Ending)
    (h : duration < limit) :
    execute limit grace (.endsAfter duration ending) = ending.answer := by
  simp [execute, finalState, schedule, h, closing, State.play, State.start, State.step,
    State.answer?]

/-- An execution that takes longer is answered by the limit. -/
theorem execute_endsAfter_late {limit grace duration : Milliseconds} (ending : Ending)
    (h : limit ≤ duration) :
    execute limit grace (.endsAfter duration ending) = .error (.timeout limit) := by
  have h' : ¬ duration < limit := Nat.not_lt.mpr h
  by_cases hg : duration < limit + grace <;>
    simp [execute, finalState, schedule, h', hg, closing, State.play, State.start, State.step,
      State.answer?]

/-- An execution that waits for its cancellation is answered by the limit. -/
theorem execute_endsOnCancel (limit grace : Milliseconds) (ending : Ending) :
    execute limit grace (.endsOnCancel ending) = .error (.timeout limit) := by
  simp [execute, finalState, schedule, closing, State.play, State.start, State.step,
    State.answer?]

end QueryScore.Supervision
