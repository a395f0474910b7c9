/-
# QueryScore.Proofs.Execution.Cancelled -- every interleaving of calls on one flag

Requests to raise a flag and to register hooks on it may overlap in any way: the steps of their calls
take turns as a schedule says. Every hook is at any time in exactly one place, with a call, on the list of
those that wait, or among those that ran (`System.Sound.kept`), and after the flag is raised hooks wait
only as long as some call has yet to collect them (`System.Sound.collected`). A step keeps this, so every
run does. From it is read off that no hook is lost and none runs twice (`cancelled_run`). The steps that
are left grow fewer with each one, and a call waits for the lock only while another call can move, so
all calls come to an end.
-/

import QueryScore.Execution.Cancellation
import Mathlib.Algebra.Order.BigOperators.Group.List
import Mathlib.Algebra.Order.Ring.Nat
import Mathlib.Data.List.Perm.Subperm

namespace QueryScore.Cancellation

variable {ι : Type}

/-! ## What is asked for -/

/-- A call that has yet to begin. -/
inductive Request (ι : Type) where
  /-- Raise the flag. -/
  | cancel
  /-- Register a hook. -/
  | onCancel (hook : ι)
  deriving DecidableEq, Repr

/-- The call that answers a request. -/
def Request.call : Request ι → Call ι
  | .cancel => .cancel
  | .onCancel hook => .register hook

/-- The hook that a request registers. -/
def Request.hook? : Request ι → Option ι
  | .cancel => none
  | .onCancel hook => some hook

/-- **`hooks requests`** -- the hooks that are registered. -/
def hooks (requests : List (Request ι)) : List ι := requests.filterMap Request.hook?

/-- The state before any call has begun. -/
def System.ofRequests (requests : List (Request ι)) : System ι := .start (requests.map Request.call)

/-- All calls are over. -/
def System.IsOver (s : System ι) : Prop := ∀ call ∈ s.calls, call.isOver = true

variable {requests : List (Request ι)} {s s' : System ι} {index : Nat} {schedule : List Nat}
  {flag flag' : Flag ι} {call rest : Call ι} {hook : Option ι}

/-! ## One step -/

/-- **What a step of a call can do.** -/
theorem Call.step_cases (h : call.step flag = some (flag', rest, hook)) :
    (call = .cancel ∧ rest = .collect ∧ hook = none ∧ flag' = { flag with raised := true }) ∨
    (call = .collect ∧ flag.locked = false ∧ rest = .run flag.waiting ∧ hook = none ∧
      flag' = { flag with waiting := [] }) ∨
    (∃ own, call = .register own ∧ flag.locked = false ∧ flag.raised = true ∧ rest = .run [own] ∧
      hook = none ∧ flag' = flag) ∨
    (∃ own, call = .register own ∧ flag.locked = false ∧ flag.raised = false ∧ rest = .add own ∧
      hook = none ∧ flag' = { flag with locked := true }) ∨
    (∃ own, call = .add own ∧ rest = .run [] ∧ hook = none ∧
      flag' = { flag with waiting := flag.waiting ++ [own], locked := false }) ∨
    (∃ own more, call = .run (own :: more) ∧ rest = .run more ∧ hook = some own ∧ flag' = flag) := by
  cases call with
  | cancel => simp_all [Call.step]
  | collect =>
    simp only [Call.step] at h
    split at h <;> simp_all
  | register own =>
    simp only [Call.step] at h
    split at h
    · cases h
    · split at h <;> simp_all
  | add own => simp_all [Call.step]
  | run own =>
    cases own with
    | nil => simp [Call.step] at h
    | cons own more => simp_all [Call.step]

/-- **A step of the system** is a step of one of its calls. -/
theorem System.step_cases (h : s.step index = some s') : ∃ before call after flag rest hook,
    s.calls = before ++ call :: after ∧ call.step s.flag = some (flag, rest, hook) ∧
      s' = ⟨flag, before ++ rest :: after, s.ran ++ hook.toList⟩ := by
  obtain ⟨call, hcall, h⟩ := Option.bind_eq_some_iff.mp h
  obtain ⟨⟨flag, rest, hook⟩, hstep, hnext⟩ := Option.bind_eq_some_iff.mp h
  obtain ⟨hlt, hget⟩ := List.getElem?_eq_some_iff.mp hcall
  obtain ⟨before, after, hcalls, -, hset⟩ : ∃ before after, s.calls = before ++ s.calls[index] :: after ∧
      before.length = index ∧ s.calls.set index rest = before ++ rest :: after := List.exists_of_set hlt
  rw [hget] at hcalls
  refine ⟨before, call, after, flag, rest, hook, hcalls, hstep, ?_⟩
  rw [← hset]
  exact (Option.some.inj hnext).symm

/-! ## Where the hooks are -/

/-- The hooks that a call has yet to pass on or to run. -/
def Call.held : Call ι → List ι
  | .register hook | .add hook => [hook]
  | .run hooks => hooks
  | .cancel | .collect => []

/-- The call holds the lock. -/
def Call.isAdding : Call ι → Bool
  | .add _ => true
  | _ => false

/-- The call has raised the flag or found it raised, and has hooks to collect or to run. -/
def Call.isDue : Call ι → Bool
  | .collect | .run (_ :: _) => true
  | _ => false

/-- **`s.Sound requests`** -- the state has come from these requests. -/
structure System.Sound (requests : List (Request ι)) (s : System ι) : Prop where
  /-- Each hook is with a call, waits or ran. -/
  kept : (s.calls.flatMap Call.held ++ s.flag.waiting ++ s.ran).Perm (hooks requests)
  /-- The lock is held by the one call that is about to add its hook. -/
  locked : s.calls.countP Call.isAdding = s.flag.locked.toNat
  /-- The flag is raised, or will be, exactly if this was asked for. -/
  asked : s.flag.raised = true ∨ .cancel ∈ s.calls ↔ .cancel ∈ requests
  /-- Before the flag is raised nothing runs. -/
  down : s.flag.raised = false → s.ran = [] ∧ s.calls.countP Call.isDue = 0
  /-- After it is raised hooks wait, or are about to, only while a call has yet to collect them. -/
  collected : s.flag.raised = true → .collect ∈ s.calls ∨ s.flag.waiting = [] ∧ s.flag.locked = false

/-- No request has begun. -/
theorem countP_requests (p : Call ι → Bool) (hcancel : p .cancel = false) (hregister : ∀ hook, p (.register hook) = false)
    (requests : List (Request ι)) : (requests.map Request.call).countP p = 0 := by
  rw [List.countP_eq_zero]
  intro call hcall
  obtain ⟨request, -, rfl⟩ := List.mem_map.mp hcall
  cases request <;> simp [Request.call, hcancel, hregister]

theorem sound_ofRequests (requests : List (Request ι)) : (System.ofRequests requests).Sound requests where
  kept := by
    have hheld : (requests.map Request.call).flatMap Call.held = hooks requests := by
      unfold hooks
      rw [List.flatMap_map, List.filterMap_eq_flatMap_toList]
      exact List.flatMap_congr fun request _ => by cases request <;> rfl
    simp [System.ofRequests, System.start, Flag.fresh, hheld]
  locked := countP_requests _ rfl (fun _ => rfl) requests
  asked := by
    have hcall (request : Request ι) : request.call = .cancel ↔ request = .cancel := by
      cases request <;> simp [Request.call]
    simp [System.ofRequests, System.start, Flag.fresh, hcall]
  down _ := ⟨rfl, countP_requests _ rfl (fun _ => rfl) requests⟩
  collected := by
    intro hraised
    cases hraised

/-- A hook moves, and none is lost or doubled. -/
theorem Call.kept_step (h : call.step flag = some (flag', rest, hook)) :
    (rest.held ++ flag'.waiting ++ hook.toList).Perm (call.held ++ flag.waiting) := by
  rcases Call.step_cases h with ⟨rfl, rfl, rfl, rfl⟩ | ⟨rfl, -, rfl, rfl, rfl⟩ |
    ⟨own, rfl, -, -, rfl, rfl, rfl⟩ | ⟨own, rfl, -, -, rfl, rfl, rfl⟩ | ⟨own, rfl, rfl, rfl, rfl⟩ |
    ⟨own, more, rfl, rfl, rfl, rfl⟩
  · simp [Call.held]
  · simp [Call.held]
  · simp [Call.held]
  · simp [Call.held]
  · simp [Call.held]
  · simpa [Call.held] using List.perm_append_singleton own (more ++ flag'.waiting)

theorem System.kept_step (h : s.step index = some s') :
    (s'.calls.flatMap Call.held ++ s'.flag.waiting ++ s'.ran).Perm
      (s.calls.flatMap Call.held ++ s.flag.waiting ++ s.ran) := by
  obtain ⟨before, call, after, flag, rest, hook, hcalls, hstep, rfl⟩ := System.step_cases h
  classical
  have hcall := List.perm_iff_count.mp (Call.kept_step hstep)
  rw [List.perm_iff_count]
  intro x
  have hx := hcall x
  simp only [hcalls, List.flatMap_append, List.flatMap_cons, List.count_append] at hx ⊢
  omega

/-- **A step keeps what the state says of the requests.** -/
theorem System.Sound.step (hs : s.Sound requests) (h : s.step index = some s') : s'.Sound requests := by
  have hkept := (System.kept_step h).trans hs.kept
  obtain ⟨-, hlocked, hasked, hdown, hcollected⟩ := hs
  obtain ⟨before, call, after, flag, rest, hook, hcalls, hstep, rfl⟩ := System.step_cases h
  rw [hcalls] at hlocked hasked hdown hcollected
  simp only [List.countP_append, List.countP_cons] at hlocked hdown
  -- one call at a time: what it was is gone, and what is left of it stands in its place
  rcases Call.step_cases hstep with ⟨rfl, rfl, rfl, rfl⟩ | ⟨rfl, hfree, rfl, rfl, rfl⟩ |
    ⟨own, rfl, hfree, hup, rfl, rfl, rfl⟩ | ⟨own, rfl, hfree, hlow, rfl, rfl, rfl⟩ | ⟨own, rfl, rfl, rfl, rfl⟩ |
    ⟨own, more, rfl, rfl, rfl, rfl⟩
  · -- the flag is raised
    refine ⟨hkept, ?_, ?_, ?_, ?_⟩
    · simpa [Call.isAdding] using hlocked
    · simpa using hasked
    · simp
    · simp
  · -- the hooks are collected
    have hraised : s.flag.raised = true := by
      by_contra hlow
      simpa [Call.isDue] using hdown (by simpa using hlow)
    refine ⟨hkept, ?_, ?_, ?_, ?_⟩
    · simpa [Call.isAdding] using hlocked
    · simpa using hasked
    · simp [hraised]
    · simp [hfree]
  · -- a hook is registered after the flag was raised
    refine ⟨hkept, ?_, ?_, ?_, ?_⟩
    · simpa [Call.isAdding] using hlocked
    · simpa using hasked
    · simp [hup]
    · simpa using hcollected
  · -- a registration finds the flag down and holds the lock
    refine ⟨hkept, ?_, ?_, ?_, ?_⟩
    · have hnone : before.countP Call.isAdding + after.countP Call.isAdding = 0 := by
        simpa [Call.isAdding, hfree] using hlocked
      show (before ++ .add own :: after).countP Call.isAdding = 1
      rw [List.countP_append, List.countP_cons, if_pos (show (Call.add own).isAdding = true from rfl)]
      omega
    · simpa using hasked
    · simpa [Call.isDue] using hdown
    · simp [hlow]
  · -- the hook is added
    have hheld : s.flag.locked = true := by
      cases hfree : s.flag.locked with
      | true => rfl
      | false => simp [Call.isAdding, hfree] at hlocked
    refine ⟨hkept, ?_, ?_, ?_, ?_⟩
    · rw [hheld, if_pos (show (Call.add own).isAdding = true from rfl), Bool.toNat_true] at hlocked
      show (before ++ .run [] :: after).countP Call.isAdding = 0
      rw [List.countP_append, List.countP_cons, if_neg (by simp [Call.isAdding])]
      omega
    · simpa using hasked
    · simpa [Call.isDue] using hdown
    · intro hraised
      simpa [hheld] using hcollected hraised
  · -- a hook runs
    have hraised : s.flag.raised = true := by
      by_contra hlow
      simpa [Call.isDue] using hdown (by simpa using hlow)
    refine ⟨hkept, ?_, ?_, ?_, ?_⟩
    · simpa [Call.isAdding] using hlocked
    · simpa using hasked
    · simp [hraised]
    · simpa using hcollected

/-- **The state behind a run says what was asked for.** -/
theorem System.Sound.play (hs : s.Sound requests) (h : s.play schedule = some s') : s'.Sound requests := by
  induction schedule generalizing s with
  | nil =>
    cases h
    exact hs
  | cons index rest ih =>
    obtain ⟨middle, hmiddle, hrest⟩ := Option.bind_eq_some_iff.mp h
    exact ih (hs.step hmiddle) hrest

/-! ## How long a run can be -/

/-- The steps that a call has left at most, those of its hook included. -/
def Call.left : Call ι → Nat
  | .register _ => 3
  | .cancel | .add _ => 2
  | .collect => 1
  | .run hooks => hooks.length

/-- The steps that are left at most. -/
def System.left (s : System ι) : Nat := (s.calls.map Call.left).sum + s.flag.waiting.length

theorem Call.left_step (h : call.step flag = some (flag', rest, hook)) :
    rest.left + flag'.waiting.length < call.left + flag.waiting.length := by
  rcases Call.step_cases h with ⟨rfl, rfl, rfl, rfl⟩ | ⟨rfl, -, rfl, rfl, rfl⟩ |
    ⟨own, rfl, -, -, rfl, rfl, rfl⟩ | ⟨own, rfl, -, -, rfl, rfl, rfl⟩ | ⟨own, rfl, rfl, rfl, rfl⟩ |
    ⟨own, more, rfl, rfl, rfl, rfl⟩
  all_goals
    simp only [Call.left, List.length_cons, List.length_nil, List.length_append]
    omega

theorem System.left_step (h : s.step index = some s') : s'.left < s.left := by
  obtain ⟨before, call, after, flag, rest, hook, hcalls, hstep, rfl⟩ := System.step_cases h
  have hcall := Call.left_step hstep
  unfold System.left
  simp only [hcalls, List.map_append, List.map_cons, List.sum_append, List.sum_cons]
  omega

theorem left_play (h : s.play schedule = some s') : schedule.length + s'.left ≤ s.left := by
  induction schedule generalizing s with
  | nil =>
    cases h
    simp
  | cons index rest ih =>
    obtain ⟨middle, hmiddle, hrest⟩ := Option.bind_eq_some_iff.mp h
    have hstep := System.left_step hmiddle
    have hmore := ih hrest
    rw [List.length_cons]
    omega

theorem Request.left_call (request : Request ι) : request.call.left ≤ 3 := by
  cases request <;> simp [Request.call, Call.left]

theorem left_ofRequests (requests : List (Request ι)) : (System.ofRequests requests).left ≤ 3 * requests.length := by
  show ((requests.map Request.call).map Call.left).sum ≤ 3 * requests.length
  induction requests with
  | nil => exact Nat.le_refl _
  | cons request requests ih =>
    have hone := request.left_call
    rw [List.map_cons, List.map_cons, List.sum_cons, List.length_cons]
    omega

/-- A call that is not over and does not wait for the lock can move. -/
theorem Call.exists_step (hcall : call.isOver = false) (hfree : flag.locked = true → call.isAdding = true) :
    ∃ next, call.step flag = some next := by
  rw [← Option.isSome_iff_exists]
  cases call with
  | cancel | add _ => rfl
  | collect =>
    have hopen : flag.locked = false := by simpa [Call.isAdding] using hfree
    simp [Call.step, hopen]
  | register own =>
    have hopen : flag.locked = false := by simpa [Call.isAdding] using hfree
    cases hraised : flag.raised <;> simp [Call.step, hopen, hraised]
  | run own =>
    cases own with
    | nil => simp [Call.isOver] at hcall
    | cons own more => rfl

theorem System.exists_step (hcall : call ∈ s.calls) (hover : call.isOver = false)
    (hfree : s.flag.locked = true → call.isAdding = true) : ∃ index next, s.step index = some next := by
  obtain ⟨⟨flag, rest, hook⟩, hstep⟩ := Call.exists_step hover hfree
  obtain ⟨index, hindex⟩ := List.mem_iff_getElem?.mp hcall
  refine ⟨index, ⟨flag, s.calls.set index rest, s.ran ++ hook.toList⟩, ?_⟩
  simp [System.step, hindex, hstep]

/-- **Calls do not block each other for ever**: where none can move, all are over. -/
theorem System.Sound.isOver_of_stuck (hs : s.Sound requests) (h : ∀ index, s.step index = none) : s.IsOver := by
  intro call hcall
  by_contra hover
  have hover : call.isOver = false := by simpa using hover
  -- the call that holds the lock can move, and without it every other call can
  have hmove : ∃ index next, s.step index = some next := by
    cases hlock : s.flag.locked with
    | false => exact System.exists_step hcall hover (by simp [hlock])
    | true =>
      have hcount := hs.locked
      rw [hlock, Bool.toNat_true] at hcount
      obtain ⟨holder, hholder, hadding⟩ := List.countP_pos_iff.mp (by omega : 0 < s.calls.countP Call.isAdding)
      refine System.exists_step hholder ?_ fun _ => hadding
      cases holder <;> simp_all [Call.isAdding, Call.isOver]
  obtain ⟨index, next, hnext⟩ := hmove
  rw [h index] at hnext
  cases hnext

/-! ## What every run keeps to -/

/-- **`Cancelled requests schedule s`** -- what holds of every run of requests on one flag. -/
structure Cancelled (requests : List (Request ι)) (schedule : List Nat) (s : System ι) : Prop where
  /-- No hook runs before the flag is raised. -/
  raisedFirst : s.flag.raised = false → s.ran = []
  /-- Only registered hooks run, and each at most as often as it was registered. -/
  registered : s.ran.Subperm (hooks requests)
  /-- None runs twice. -/
  once : (hooks requests).Nodup → s.ran.Nodup
  /-- When all calls are over, every hook has run, and once, if there was a cancellation. -/
  allRan : s.IsOver → .cancel ∈ requests → s.ran.Perm (hooks requests)
  /-- Without a cancellation none runs. -/
  noneRan : .cancel ∉ requests → s.ran = []
  /-- A run that cannot go on has brought all calls to an end. -/
  completes : (∀ index, s.step index = none) → s.IsOver
  /-- A run takes a few steps. -/
  bounded : schedule.length ≤ 3 * requests.length

/-- A call that is over holds no hook and has none to collect. -/
theorem System.IsOver.flatMap_held (h : s.IsOver) : s.calls.flatMap Call.held = [] := by
  rw [List.flatMap_eq_nil_iff]
  intro call hcall
  have hover := h call hcall
  cases call with
  | run own => cases own <;> simp_all [Call.isOver, Call.held]
  | _ => cases hover

/-- **No hook is lost**: once all calls are over and the flag is raised, all have run. -/
theorem System.Sound.ran_perm (hs : s.Sound requests) (hover : s.IsOver) (hcancel : .cancel ∈ requests) :
    s.ran.Perm (hooks requests) := by
  have hraised : s.flag.raised = true := by
    rcases hs.asked.mpr hcancel with hraised | hmem
    · exact hraised
    · cases hover _ hmem
  have hwaiting : s.flag.waiting = [] := by
    rcases hs.collected hraised with hmem | ⟨hwaiting, -⟩
    · cases hover _ hmem
    · exact hwaiting
  simpa [hover.flatMap_held, hwaiting] using hs.kept

/-- **Whatever the order of the steps**, each hook runs once if the flag is raised at all, and not before. -/
theorem cancelled_run (h : (System.ofRequests requests).play schedule = some s) : Cancelled requests schedule s := by
  have hs : s.Sound requests := (sound_ofRequests requests).play h
  have hregistered : s.ran.Subperm (hooks requests) :=
    (List.sublist_append_right _ s.ran).subperm.trans hs.kept.subperm
  refine ⟨fun hlow => (hs.down hlow).1, hregistered, ?_, hs.ran_perm, ?_, hs.isOver_of_stuck, ?_⟩
  · intro hnodup
    obtain ⟨ran, hperm, hsub⟩ := hregistered
    exact hperm.nodup_iff.mp (hsub.nodup hnodup)
  · intro hnone
    refine (hs.down ?_).1
    by_contra hraised
    exact hnone (hs.asked.mp (.inl (by simpa using hraised)))
  · have hleft := left_play h
    have hstart := left_ofRequests requests
    omega

/-- Two registrations and two cancellations, the first registration across the first of them. -/
theorem cancelled_run_acrossCancel :
    (System.ofRequests [.onCancel 1, .cancel, .onCancel 2, .cancel]).play [0, 1, 0, 2, 3, 3, 1, 3, 2] =
      some ⟨⟨true, [], false⟩, [.run [], .run [], .run [], .run []], [1, 2]⟩ ∧
    Cancelled [.onCancel 1, .cancel, .onCancel 2, .cancel] [0, 1, 0, 2, 3, 3, 1, 3, 2]
      ⟨⟨true, [], false⟩, [.run [], .run [], .run [], .run []], [1, 2]⟩ :=
  ⟨rfl, cancelled_run rfl⟩

/-! ## A call by itself -/

theorem Call.isAdding_step (h : call.step flag = some (flag', rest, hook)) (hlock : flag.locked = call.isAdding) :
    flag'.locked = rest.isAdding := by
  rcases Call.step_cases h with ⟨rfl, rfl, rfl, rfl⟩ | ⟨rfl, -, rfl, rfl, rfl⟩ |
    ⟨own, rfl, -, -, rfl, rfl, rfl⟩ | ⟨own, rfl, -, -, rfl, rfl, rfl⟩ | ⟨own, rfl, rfl, rfl, rfl⟩ |
    ⟨own, more, rfl, rfl, rfl, rfl⟩
  all_goals first
    | exact hlock
    | rfl

/-- A call that has the lock, or finds it free, stops only at its end. -/
theorem Call.eq_run_nil (hlock : flag.locked = call.isAdding) (h : call.step flag = none) : call = .run [] := by
  by_contra hne
  have hover : call.isOver = false := by
    cases call with
    | run own =>
      cases own with
      | nil => exact absurd rfl hne
      | cons => rfl
    | _ => rfl
  obtain ⟨next, hnext⟩ := Call.exists_step hover fun hheld => hlock ▸ hheld
  rw [h] at hnext
  cases hnext

/-- What is left of a call, with enough steps, is a run of the system to its end. -/
theorem exists_play_finish (steps : Nat) (flag : Flag ι) (call : Call ι) (ran : List ι)
    (hlock : flag.locked = call.isAdding) (hleft : call.left + flag.waiting.length ≤ steps) :
    ∃ schedule, System.play ⟨flag, [call], ran⟩ schedule =
      some ⟨(finish steps flag call).1, [.run []], ran ++ (finish steps flag call).2⟩ := by
  induction steps generalizing flag call ran with
  | zero =>
    cases hstep : call.step flag with
    | none =>
      obtain rfl := Call.eq_run_nil hlock hstep
      exact ⟨[], by simp [System.play, finish]⟩
    | some next =>
      obtain ⟨flag', rest, hook⟩ := next
      have hless := Call.left_step hstep
      omega
  | succ steps ih =>
    cases hstep : call.step flag with
    | none =>
      obtain rfl := Call.eq_run_nil hlock hstep
      exact ⟨[], by simp [System.play, finish, Call.step]⟩
    | some next =>
      obtain ⟨flag', rest, hook⟩ := next
      have hless := Call.left_step hstep
      obtain ⟨schedule, hplay⟩ := ih flag' rest (ran ++ hook.toList) (Call.isAdding_step hstep hlock) (by omega)
      refine ⟨0 :: schedule, ?_⟩
      simpa [System.play, System.step, finish, hstep] using hplay

/-- **A call by itself is a run**, and comes to its end. -/
theorem exists_play_perform (flag : Flag ι) (hfree : flag.locked = false) (request : Request ι) :
    ∃ schedule, System.play ⟨flag, [request.call], []⟩ schedule =
      some ⟨(flag.perform request.call).1, [.run []], (flag.perform request.call).2⟩ := by
  have hleft : request.call.left ≤ 3 := request.left_call
  refine exists_play_finish _ flag request.call [] ?_ (by omega)
  rw [hfree]
  cases request <;> rfl

end QueryScore.Cancellation
