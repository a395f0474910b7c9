/-
# QueryScore.Execution.Cancellation -- a flag that stops a running query

A flag is shared by the caller, who raises it, and by the code that runs the query, which
watches it or registers hooks on it. Raising the flag runs every registered hook; a hook that
is registered later runs at once. Calls on one flag may overlap: each is a sequence of atomic
steps, and the list of hooks is guarded by a lock that a registration holds while it looks at
the flag and adds its hook. A call that runs alone is the sequence of all its steps.
-/

namespace QueryScore.Cancellation

variable {ι : Type}

/-! ## Steps of a call -/

/-- What all holders of a flag share. -/
structure Flag (ι : Type) where
  /-- The flag is raised. -/
  raised : Bool
  /-- The hooks that wait for it, in the order of registration. -/
  waiting : List ι
  /-- A registration holds the list of hooks. -/
  locked : Bool
  deriving DecidableEq, Repr

/-- A flag that nobody has used. -/
def Flag.fresh : Flag ι := ⟨false, [], false⟩

/-- A call on a flag, as what is left of it. -/
inductive Call (ι : Type) where
  /-- A cancellation that has yet to raise the flag. -/
  | cancel
  /-- A cancellation that raised the flag and has yet to take the waiting hooks. -/
  | collect
  /-- A registration that has yet to take the lock and to look at the flag. -/
  | register (hook : ι)
  /-- A registration that holds the lock, saw no raised flag and has yet to add its hook. -/
  | add (hook : ι)
  /-- Hooks have yet to run, one after the other; without hooks the call is over. -/
  | run (hooks : List ι)
  deriving DecidableEq, Repr

/-- The call is over. -/
def Call.isOver : Call ι → Bool
  | .run [] => true
  | _ => false

/-- **The next step of a call**: the flag after it, what is left of the call, and the hook that
the step ran. There is none while the call waits for the lock, and when it is over. -/
def Call.step (flag : Flag ι) : Call ι → Option (Flag ι × Call ι × Option ι)
  | .cancel => some ({ flag with raised := true }, .collect, none)
  | .collect =>
    if flag.locked then none else some ({ flag with waiting := [] }, .run flag.waiting, none)
  | .register hook =>
    if flag.locked then none
    else if flag.raised then some (flag, .run [hook], none)
    else some ({ flag with locked := true }, .add hook, none)
  | .add hook =>
    some ({ flag with waiting := flag.waiting ++ [hook], locked := false }, .run [], none)
  | .run (hook :: rest) => some (flag, .run rest, some hook)
  | .run [] => none

/-! ## Calls that overlap -/

/-- Calls in progress on one flag. -/
structure System (ι : Type) where
  /-- The flag. -/
  flag : Flag ι
  /-- The calls, as what is left of each. -/
  calls : List (Call ι)
  /-- The hooks that ran, in order. -/
  ran : List ι
  deriving DecidableEq, Repr

/-- All calls are about to begin. -/
def System.start (calls : List (Call ι)) : System ι := ⟨.fresh, calls, []⟩

/-- A step of one of the calls. -/
def System.step (s : System ι) (index : Nat) : Option (System ι) := do
  let call ← s.calls[index]?
  let (flag, rest, hook) ← call.step s.flag
  pure ⟨flag, s.calls.set index rest, s.ran ++ hook.toList⟩

/-- The steps of a schedule, which names the call that moves. -/
def System.play (s : System ι) : List Nat → Option (System ι)
  | [] => some s
  | index :: rest => (s.step index).bind (·.play rest)

/-! ## A call by itself -/

/-- What is left of a call, run by itself for at most so many steps: the flag in the end and
the hooks that ran. -/
def finish : Nat → Flag ι → Call ι → Flag ι × List ι
  | 0, flag, _ => (flag, [])
  | steps + 1, flag, call =>
    match call.step flag with
    | none => (flag, [])
    | some (next, rest, hook) =>
      let (last, ran) := finish steps next rest
      (last, hook.toList ++ ran)

/-- A whole call by itself. Every step but the first two runs a waiting hook, or the own one. -/
def Flag.perform (flag : Flag ι) (call : Call ι) : Flag ι × List ι :=
  finish (flag.waiting.length + 3) flag call

/-- Raise the flag and run the hooks that wait for it. -/
def Flag.cancel (flag : Flag ι) : Flag ι × List ι := flag.perform .cancel

/-- Register a hook; it runs at once if the flag is raised. -/
def Flag.onCancel (flag : Flag ι) (hook : ι) : Flag ι × List ι := flag.perform (.register hook)

end QueryScore.Cancellation
