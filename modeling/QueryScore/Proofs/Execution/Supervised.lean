/-
# QueryScore.Proofs.Execution.Supervised -- every run of a supervised execution

Worker, channel, caller and the two clocks may take turns in any order, and the execution may end in
any way at any time. What a state says of the events that led to it is one invariant
(`State.Follows`): which ending there was, whether its answer is still on its way, and what the
caller knows of it. A step keeps it (`State.Follows.step`), so every run does. From it is read off
what a caller may answer (`supervised_run`): the answer of the execution, or that the time was up, and
never the one once the flag is raised. Each step uses something up (`State.left`), so no run is longer
than six steps, and one that cannot go on has an answer.
-/

import QueryScore.Execution.Supervision
import Mathlib.Data.List.Basic

namespace QueryScore.Supervision

variable {limit : Milliseconds} {past events : List Event} {event : Event} {s s' : State}

/-! ## What happened -/

/-- How the execution ended, if the event is its end. -/
def Event.ending? : Event → Option Ending
  | .ends ending => some ending
  | _ => none

/-- The event is the sending of an answer. -/
def Event.isSending : Event → Bool
  | .sends => true
  | _ => false

/-- The endings among some events. -/
def endings (events : List Event) : List Ending := events.filterMap Event.ending?

/-- The steps that a worker has left. -/
def Worker.left : Worker → Nat
  | .running => 3
  | .ended _ => 2
  | .sent => 1
  | .gone => 0

/-- The steps that a caller has left at most. -/
def Caller.left : Caller → Nat
  | .waiting => 3
  | .granting => 2
  | .joining _ => 1
  | .answered _ => 0

/-- The steps that are left at most. -/
def State.left (s : State) : Nat := s.worker.left + s.caller.left

/-- The answers that a worker has yet to send. -/
def Worker.unsent : Worker → Nat
  | .running | .ended _ => 1
  | .sent | .gone => 0

/-! ## One step -/

/-- **What a step can do**: the worker goes on, an answer is sent or received, or the caller moves. -/
theorem step_cases (h : s.step limit event = some s') :
    (∃ ending, event = .ends ending ∧ s.worker = .running ∧ s' = { s with worker := .ended ending }) ∨
    (∃ ending, event = .sends ∧ s.worker = .ended ending ∧
      s' = { s with worker := .sent, channel := s.channel ++ [ending.answer] }) ∨
    (event = .leaves ∧ s.worker = .sent ∧ s' = { s with worker := .gone }) ∨
    (∃ answer rest, event = .receives ∧ s.caller = .waiting ∧ s.channel = answer :: rest ∧
      s' = { s with channel := rest, caller := .joining answer }) ∨
    (∃ answer rest, event = .receives ∧ s.caller = .granting ∧ s.channel = answer :: rest ∧
      s' = { s with channel := rest, caller := .joining (.error (.timeout limit)) }) ∨
    (event = .hangsUp ∧ s.worker = .gone ∧ s.channel = [] ∧
      ((s.caller = .waiting ∧ s' = { s with caller := .joining silentWorker }) ∨
        (s.caller = .granting ∧ s' = { s with caller := .joining (.error (.timeout limit)) }))) ∨
    (event = .timeIsUp ∧ s.caller = .waiting ∧ s' = { s with raised := true, caller := .granting }) ∨
    (event = .graceIsUp ∧ s.caller = .granting ∧
      s' = { s with caller := .answered (.error (.timeout limit)) }) ∨
    (∃ answer, event = .joins ∧ s.worker = .gone ∧ s.caller = .joining answer ∧
      s' = { s with caller := .answered answer }) := by
  obtain ⟨worker, channel, raised, caller⟩ := s
  cases event <;> simp only [State.step] at h <;> split at h <;> simp_all

/-- A step uses one of those that are left. -/
theorem left_step (h : s.step limit event = some s') : s'.left < s.left := by
  rcases step_cases h with ⟨_, _, hw, rfl⟩ | ⟨_, _, hw, rfl⟩ | ⟨_, hw, rfl⟩ | ⟨_, _, _, hc, _, rfl⟩ |
    ⟨_, _, _, hc, _, rfl⟩ | ⟨_, _, _, ⟨hc, rfl⟩ | ⟨hc, rfl⟩⟩ | ⟨_, hc, rfl⟩ | ⟨_, hc, rfl⟩ |
    ⟨_, _, _, hc, rfl⟩
  all_goals simp_all [State.left, Worker.left, Caller.left]

/-- An answer is sent by a worker that has one. -/
theorem unsent_step (h : s.step limit event = some s') :
    s'.worker.unsent + (if event.isSending then 1 else 0) = s.worker.unsent := by
  rcases step_cases h with ⟨_, rfl, hw, rfl⟩ | ⟨_, rfl, hw, rfl⟩ | ⟨rfl, hw, rfl⟩ | ⟨_, _, rfl, _, _, rfl⟩ |
    ⟨_, _, rfl, _, _, rfl⟩ | ⟨rfl, _, _, ⟨_, rfl⟩ | ⟨_, rfl⟩⟩ | ⟨rfl, _, rfl⟩ | ⟨rfl, _, rfl⟩ |
    ⟨_, rfl, _, _, rfl⟩
  all_goals simp_all [Worker.unsent, Event.isSending]

/-! ## What a state says of the past -/

/-- **`s.worker.Follows past channel`** -- the worker stands where these events have led it: the
execution has not ended, or it ended once and its answer is with the worker, on its way or received. -/
def Worker.Follows (past : List Event) (channel : List Answer) : Worker → Prop
  | .running => endings past = [] ∧ channel = [] ∧ .receives ∉ past
  | .ended ending => endings past = [ending] ∧ channel = [] ∧ .receives ∉ past
  | .sent | .gone => ∃ ending, endings past = [ending] ∧
      (channel = [ending.answer] ∧ .receives ∉ past ∨ channel = [] ∧ .receives ∈ past)

/-- **`Known limit past raised answer`** -- what a caller may answer: that the time was up, if it raised
the flag, and otherwise what it received. -/
def Known (limit : Milliseconds) (past : List Event) (raised : Bool) (answer : Answer) : Prop :=
  if raised then answer = .error (.timeout limit)
  else .receives ∈ past ∧ ∃ ending, endings past = [ending] ∧ answer = ending.answer

/-- **`Caller.Follows limit past raised`** -- the caller stands where these events have led it. -/
def Caller.Follows (limit : Milliseconds) (past : List Event) (raised : Bool) : Caller → Prop
  | .waiting => raised = false ∧ .receives ∉ past
  | .granting => raised = true ∧ .receives ∉ past
  | .joining answer | .answered answer => Known limit past raised answer

/-- **`s.Follows limit past`** -- the state is what these events have come to. -/
structure State.Follows (limit : Milliseconds) (past : List Event) (s : State) : Prop where
  /-- The worker and the channel. -/
  worker : s.worker.Follows past s.channel
  /-- The caller. -/
  caller : s.caller.Follows limit past s.raised
  /-- The flag is raised where the time was up. -/
  raised : s.raised = true ↔ .timeIsUp ∈ past
  /-- Nobody hung up. -/
  noHangUp : .hangsUp ∉ past

theorem follows_start : State.start.Follows limit [] :=
  ⟨⟨rfl, rfl, by simp⟩, ⟨rfl, by simp⟩, by simp [State.start], by simp⟩

theorem endings_append (first second : List Event) :
    endings (first ++ second) = endings first ++ endings second :=
  List.filterMap_append

theorem endings_other (h : event.ending? = none) : endings (past ++ [event]) = endings past := by
  rw [endings_append, endings, endings, List.filterMap_cons_none h, List.filterMap_nil, List.append_nil]

/-- An event that is no end of the execution and no reception leaves a worker as it was. -/
theorem Worker.Follows.other {worker : Worker} {channel : List Answer} (h : worker.Follows past channel)
    (hends : event.ending? = none) (hreceives : event ≠ .receives) :
    worker.Follows (past ++ [event]) channel := by
  cases worker <;> simpa [Worker.Follows, endings_other hends, hreceives.symm] using h

/-- What is known stays known. -/
theorem Known.other {raised : Bool} {answer : Answer} (h : Known limit past raised answer)
    (hends : event.ending? = none) : Known limit (past ++ [event]) raised answer := by
  unfold Known at h ⊢
  split
  · next hraised => rwa [if_pos hraised] at h
  · next hraised =>
    rw [if_neg hraised] at h
    obtain ⟨hreceived, ending, hendings, hanswer⟩ := h
    exact ⟨List.mem_append_left _ hreceived, ending, (endings_other hends).trans hendings, hanswer⟩

/-- An event that is no end of the execution and no reception leaves a caller as it was. -/
theorem Caller.Follows.other {caller : Caller} {raised : Bool} (h : caller.Follows limit past raised)
    (hends : event.ending? = none) (hreceives : event ≠ .receives) :
    caller.Follows limit (past ++ [event]) raised := by
  cases caller with
  | waiting | granting => simpa [Caller.Follows, hreceives.symm] using h
  | joining _ | answered _ => exact Known.other h hends

/-- While the execution runs nothing is known but that the time was up. -/
theorem Caller.Follows.ends {caller : Caller} {raised : Bool} {ending : Ending}
    (h : caller.Follows limit past raised) (hreceived : .receives ∉ past) :
    caller.Follows limit (past ++ [.ends ending]) raised := by
  cases caller with
  | waiting | granting => simpa [Caller.Follows] using h
  | joining _ | answered _ =>
    cases raised with
    | true => exact h
    | false => exact absurd h.1 hreceived

/-- An answer on its way is that of the one ending, and was not received before. -/
theorem Worker.Follows.of_channel {worker : Worker} {answer : Answer} {rest : List Answer}
    (h : worker.Follows past (answer :: rest)) :
    (worker = .sent ∨ worker = .gone) ∧ rest = [] ∧
      ∃ ending, endings past = [ending] ∧ answer = ending.answer := by
  cases worker with
  | running | ended _ => cases h.2.1
  | sent | gone =>
    obtain ⟨ending, hendings, ⟨hchannel, -⟩ | ⟨hchannel, -⟩⟩ := h
    · cases hchannel
      exact ⟨by simp, rfl, ending, hendings, rfl⟩
    · cases hchannel

/-- Reception leaves a worker that has sent its answer with nothing on its way. -/
theorem Worker.Follows.receives {worker : Worker} {answer : Answer} {rest : List Answer}
    (h : worker.Follows past (answer :: rest)) : worker.Follows (past ++ [.receives]) rest := by
  obtain ⟨hworker, rfl, ending, hendings, -⟩ := h.of_channel
  have hafter : ∃ ending, endings (past ++ [.receives]) = [ending] ∧
      (([] : List Answer) = [ending.answer] ∧ .receives ∉ past ++ [.receives] ∨
        ([] : List Answer) = [] ∧ .receives ∈ past ++ [.receives]) :=
    ⟨ending, (endings_other rfl).trans hendings, .inr ⟨rfl, by simp⟩⟩
  rcases hworker with rfl | rfl <;> exact hafter

/-- **A step keeps what the state says of the past.** -/
theorem State.Follows.step (hs : s.Follows limit past) (h : s.step limit event = some s') :
    s'.Follows limit (past ++ [event]) := by
  obtain ⟨hworker, hcaller, hraised, hhang⟩ := hs
  rcases step_cases h with ⟨ending, rfl, hw, rfl⟩ | ⟨ending, rfl, hw, rfl⟩ | ⟨rfl, hw, rfl⟩ |
    ⟨answer, rest, rfl, hc, hchannel, rfl⟩ | ⟨answer, rest, rfl, hc, hchannel, rfl⟩ |
    ⟨rfl, hw, hchannel, hc⟩ | ⟨rfl, hc, rfl⟩ | ⟨rfl, hc, rfl⟩ | ⟨answer, rfl, hw, hc, rfl⟩
  · -- the execution ends
    rw [hw] at hworker
    obtain ⟨hendings, hchannel, hreceived⟩ := hworker
    refine ⟨⟨?_, hchannel, by simpa using hreceived⟩, hcaller.ends hreceived, by simpa using hraised,
      by simpa using hhang⟩
    rw [endings_append, hendings]
    rfl
  · -- the answer is sent
    rw [hw] at hworker
    obtain ⟨hendings, hchannel, hreceived⟩ := hworker
    refine ⟨⟨ending, (endings_other rfl).trans hendings, .inl ⟨?_, by simpa using hreceived⟩⟩,
      hcaller.other rfl (by simp), by simpa using hraised, by simpa using hhang⟩
    rw [hchannel, List.nil_append]
  · -- the worker leaves
    rw [hw] at hworker
    have hgone : Worker.gone.Follows past s.channel := hworker
    exact ⟨hgone.other rfl (by simp), hcaller.other rfl (by simp), by simpa using hraised,
      by simpa using hhang⟩
  · -- an answer is received in time
    rw [hchannel] at hworker
    obtain ⟨-, -, ending, hendings, rfl⟩ := hworker.of_channel
    rw [hc] at hcaller
    refine ⟨hworker.receives, ?_, by simpa using hraised, by simpa using hhang⟩
    show Known limit (past ++ [.receives]) s.raised ending.answer
    rw [Known, if_neg (by simp [hcaller.1])]
    exact ⟨by simp, ending, (endings_other rfl).trans hendings, rfl⟩
  · -- an answer is received too late
    rw [hchannel] at hworker
    rw [hc] at hcaller
    refine ⟨hworker.receives, ?_, by simpa using hraised, by simpa using hhang⟩
    show Known limit (past ++ [.receives]) s.raised (.error (.timeout limit))
    rw [Known, if_pos hcaller.1]
  · -- nobody hangs up: a worker that left has sent its answer, and a caller that waits has not
    -- received it
    exfalso
    rw [hw, hchannel] at hworker
    obtain ⟨ending, -, ⟨hsent, -⟩ | ⟨-, hreceived⟩⟩ := hworker
    · cases hsent
    · rcases hc with ⟨hc, -⟩ | ⟨hc, -⟩ <;> rw [hc] at hcaller <;> exact hcaller.2 hreceived
  · -- the time is up
    rw [hc] at hcaller
    exact ⟨hworker.other rfl (by simp), ⟨rfl, by simpa using hcaller.2⟩, by simp, by simpa using hhang⟩
  · -- the further time is up
    rw [hc] at hcaller
    refine ⟨hworker.other rfl (by simp), ?_, by simpa using hraised, by simpa using hhang⟩
    show Known limit (past ++ [.graceIsUp]) s.raised (.error (.timeout limit))
    rw [Known, if_pos hcaller.1]
  · -- the caller answers
    rw [hc] at hcaller
    exact ⟨hworker.other rfl (by simp), Known.other hcaller rfl, by simpa using hraised,
      by simpa using hhang⟩

/-! ## Whole runs -/

theorem play_append {first second : List Event} :
    s.play limit (first ++ second) = (s.play limit first).bind (·.play limit second) := by
  induction first generalizing s with
  | nil => rfl
  | cons event rest ih =>
    rw [List.cons_append, State.play, State.play, Option.bind_assoc]
    congr 1
    funext middle
    exact ih

/-- A run that went on after some events went through the state behind them. -/
theorem exists_of_play {second : List Event} (h : s.play limit (past ++ event :: second) = some s') :
    ∃ before after, s.play limit past = some before ∧ before.step limit event = some after ∧
      after.play limit second = some s' := by
  rw [play_append] at h
  obtain ⟨before, hbefore, h⟩ := Option.bind_eq_some_iff.mp h
  obtain ⟨after, hafter, h⟩ := Option.bind_eq_some_iff.mp h
  exact ⟨before, after, hbefore, hafter, h⟩

/-- **The state behind a run says what the run was.** -/
theorem State.Follows.play (hs : s.Follows limit past) (h : s.play limit events = some s') :
    s'.Follows limit (past ++ events) := by
  induction events generalizing s past with
  | nil =>
    cases h
    simpa using hs
  | cons event rest ih =>
    obtain ⟨middle, hmiddle, hrest⟩ := Option.bind_eq_some_iff.mp h
    simpa using ih (hs.step hmiddle) hrest

theorem follows_of_play (h : State.start.play limit events = some s) : s.Follows limit events := by
  simpa using follows_start.play h

/-- No run is longer than the steps that were left. -/
theorem left_play (h : s.play limit events = some s') : events.length + s'.left ≤ s.left := by
  induction events generalizing s with
  | nil =>
    cases h
    simp
  | cons event rest ih =>
    obtain ⟨middle, hmiddle, hrest⟩ := Option.bind_eq_some_iff.mp h
    have hstep := left_step hmiddle
    have hmore := ih hrest
    rw [List.length_cons]
    omega

/-- A run sends what was unsent, and no more. -/
theorem unsent_play (h : s.play limit events = some s') :
    s'.worker.unsent + events.countP Event.isSending = s.worker.unsent := by
  induction events generalizing s with
  | nil =>
    cases h
    simp
  | cons event rest ih =>
    obtain ⟨middle, hmiddle, hrest⟩ := Option.bind_eq_some_iff.mp h
    rw [← unsent_step hmiddle, ← ih hrest, List.countP_cons, Nat.add_assoc]

/-- Where nothing can happen any more, the caller has answered. -/
theorem answered_of_stuck (hs : s.Follows limit past) (h : ∀ event, s.step limit event = none) :
    ∃ answer, s.answer? = some answer := by
  obtain ⟨worker, channel, raised, caller⟩ := s
  cases worker with
  | running => cases h (.ends (.broke .other))
  | ended ending => cases h .sends
  | sent => cases h .leaves
  | gone =>
    cases caller with
    | waiting => cases h .timeIsUp
    | granting => cases h .graceIsUp
    | joining answer => cases h .joins
    | answered answer => exact ⟨answer, rfl⟩

/-- Once an answer was received, the flag stays as it is. -/
theorem State.Follows.raised_eq (hs : s.Follows limit past) (hreceived : .receives ∈ past)
    (h : s.play limit events = some s') : s'.raised = s.raised := by
  induction events generalizing s past with
  | nil =>
    cases h
    rfl
  | cons event rest ih =>
    obtain ⟨middle, hmiddle, hrest⟩ := Option.bind_eq_some_iff.mp h
    have hcaller := hs.caller
    rw [ih (hs.step hmiddle) (List.mem_append_left _ hreceived) hrest]
    rcases step_cases hmiddle with ⟨_, _, _, rfl⟩ | ⟨_, _, _, rfl⟩ | ⟨_, _, rfl⟩ | ⟨_, _, _, _, _, rfl⟩ |
      ⟨_, _, _, _, _, rfl⟩ | ⟨_, _, _, ⟨_, rfl⟩ | ⟨_, rfl⟩⟩ | ⟨_, hc, rfl⟩ | ⟨_, _, rfl⟩ |
      ⟨_, _, _, _, rfl⟩
    all_goals try rfl
    -- only a caller that still waits raises the flag
    rw [hc] at hcaller
    exact absurd hreceived hcaller.2

/-- The answer of a caller is known. -/
theorem State.Follows.known (hs : s.Follows limit past) {answer : Answer} (h : s.answer? = some answer) :
    Known limit past s.raised answer := by
  have hcaller := hs.caller
  unfold State.answer? at h
  split at h
  · next found hfound =>
    cases h
    rwa [hfound] at hcaller
  · cases h

/-! ## What every run keeps to -/

/-- **`Supervised limit events s`** -- what holds of every run of a supervised execution. -/
structure Supervised (limit : Milliseconds) (events : List Event) (s : State) : Prop where
  /-- Rows are answered only where the execution returned just these and the flag is not raised. -/
  rows : ∀ rows, s.answer? = some (.ok rows) →
    endings events = [.returned (.ok rows)] ∧ s.raised = false
  /-- Once the flag is raised the only answer is that the time was up. -/
  late : s.raised = true → ∀ answer, s.answer? = some answer → answer = .error (.timeout limit)
  /-- The flag is raised only after the time was up and no answer had been received. -/
  raised : s.raised = true → ∃ before after, events = before ++ .timeIsUp :: after ∧ .receives ∉ before
  /-- At most one answer is ever sent. -/
  sentOnce : events.countP Event.isSending ≤ 1
  /-- An answer received before the time was up is answered unchanged: what the execution returned, or
  with the text of what it left behind. -/
  inTime : ∀ before after, events = before ++ .receives :: after → .timeIsUp ∉ before →
    s.raised = false ∧ ∃ ending, endings before = [ending] ∧ ∀ answer, s.answer? = some answer →
      match ending with
      | .returned returned => answer = returned
      | .broke payload => answer = .error (.panicked payload.message)
  /-- Nobody takes the worker for silent. -/
  noHangUp : .hangsUp ∉ events
  /-- What is said of a silent worker is answered only if the execution itself said so. -/
  notSilent : s.answer? = some silentWorker → ∃ ending, endings events = [ending] ∧ ending.answer = silentWorker
  /-- A run takes a few steps. -/
  bounded : events.length ≤ 6
  /-- A run that cannot go on has an answer. -/
  answers : (∀ event, s.step limit event = none) → ∃ answer, s.answer? = some answer

/-- Rows that are answered are those of the execution, and the flag is not raised. -/
theorem State.Follows.rows (hs : s.Follows limit events) {rows : Rows}
    (h : s.answer? = some (.ok rows)) :
    endings events = [.returned (.ok rows)] ∧ s.raised = false := by
  have hknown := hs.known h
  unfold Known at hknown
  split at hknown
  · cases hknown
  · next hraised =>
    obtain ⟨-, ending, hendings, hanswer⟩ := hknown
    cases ending with
    | returned answer =>
      obtain rfl : Except.ok rows = answer := hanswer
      exact ⟨hendings, by simpa using hraised⟩
    | broke payload => cases hanswer

/-- Where the time was up, nothing had been received before. -/
theorem not_received_of_timeIsUp {before after : List Event}
    (h : State.start.play limit (before ++ .timeIsUp :: after) = some s) : .receives ∉ before := by
  obtain ⟨middle, next, hbefore, hstep, -⟩ := exists_of_play h
  have hcaller := (follows_of_play hbefore).caller
  have hc : middle.caller = .waiting := by
    have hcases := step_cases hstep
    simp only [reduceCtorEq, false_and, exists_false, false_or, true_and, or_false] at hcases
    exact hcases.1
  rw [hc] at hcaller
  exact hcaller.2

/-- An answer that is received while the flag is down is that of the execution, and stays it. -/
theorem inTime_of_receives {before after : List Event}
    (h : State.start.play limit (before ++ .receives :: after) = some s) (hearly : .timeIsUp ∉ before) :
    s.raised = false ∧ ∃ ending, endings before = [ending] ∧
      ∀ answer, s.answer? = some answer → answer = ending.answer := by
  obtain ⟨middle, next, hbefore, hstep, hafter⟩ := exists_of_play h
  have hmiddle := follows_of_play hbefore
  have hdown : middle.raised = false := by simpa [hearly] using hmiddle.raised
  -- the caller still waits, and what it finds is the answer of the one ending
  obtain ⟨hchannel, hnext⟩ : (∃ answer rest, middle.channel = answer :: rest) ∧
      next.raised = middle.raised := by
    rcases step_cases hstep with ⟨_, h, _⟩ | ⟨_, h, _⟩ | ⟨h, _⟩ | ⟨answer, rest, _, _, hchannel, rfl⟩ |
      ⟨answer, rest, _, _, hchannel, rfl⟩ | ⟨h, _⟩ | ⟨h, _⟩ | ⟨h, _⟩ | ⟨_, h, _⟩
    all_goals first
      | cases h
      | exact ⟨⟨answer, rest, hchannel⟩, rfl⟩
  obtain ⟨answer, rest, hchannel⟩ := hchannel
  have hworker := hmiddle.worker
  rw [hchannel] at hworker
  obtain ⟨-, -, ending, hendings, -⟩ := hworker.of_channel
  have hfinal : s.raised = false := by
    rw [(hmiddle.step hstep).raised_eq (by simp) hafter, hnext, hdown]
  refine ⟨hfinal, ending, hendings, fun given hgiven => ?_⟩
  have hknown := (follows_of_play h).known hgiven
  rw [hfinal] at hknown
  obtain ⟨-, last, hlast, hanswer⟩ := hknown
  rw [endings_append, hendings, List.singleton_append] at hlast
  rw [hanswer, (List.cons.inj hlast).1]

/-- **Whatever the order of the events, and however the execution ends**, a run is supervised. -/
theorem supervised_run (h : State.start.play limit events = some s) : Supervised limit events s where
  rows _ hrows := (follows_of_play h).rows hrows
  late hraised answer hanswer := by
    have hknown := (follows_of_play h).known hanswer
    rwa [hraised, Known, if_pos rfl] at hknown
  raised hraised := by
    obtain ⟨before, after, rfl⟩ :=
      List.append_of_mem ((follows_of_play h).raised.mp hraised)
    exact ⟨before, after, rfl, not_received_of_timeIsUp h⟩
  sentOnce := by
    have hunsent := unsent_play h
    rw [show State.start.worker.unsent = 1 from rfl] at hunsent
    omega
  inTime before after hevents hearly := by
    subst hevents
    obtain ⟨hraised, ending, hendings, hanswer⟩ := inTime_of_receives h hearly
    refine ⟨hraised, ending, hendings, fun answer hgiven => ?_⟩
    cases ending <;> exact hanswer answer hgiven
  noHangUp := (follows_of_play h).noHangUp
  notSilent hsilent := by
    have hknown := (follows_of_play h).known hsilent
    unfold Known at hknown
    split at hknown
    · cases hknown
    · obtain ⟨-, ending, hendings, hanswer⟩ := hknown
      exact ⟨ending, hendings, hanswer.symm⟩
  bounded := by
    have hleft := left_play h
    rw [show State.start.left = 6 from rfl] at hleft
    omega
  answers := answered_of_stuck (follows_of_play h)

/-- Rows that arrive after the time was up are not answered. -/
theorem supervised_run_lateRows :
    State.start.play 50
        [.timeIsUp, .ends (.returned (.ok [.bool true])), .sends, .receives, .leaves, .joins] =
      some ⟨.gone, [], true, .answered (.error (.timeout 50))⟩ ∧
    Supervised 50 [.timeIsUp, .ends (.returned (.ok [.bool true])), .sends, .receives, .leaves, .joins]
      ⟨.gone, [], true, .answered (.error (.timeout 50))⟩ :=
  ⟨rfl, supervised_run rfl⟩

end QueryScore.Supervision
