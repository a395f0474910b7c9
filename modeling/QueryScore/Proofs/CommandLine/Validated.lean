/-
# QueryScore.Proofs.CommandLine.Validated -- what the check of a task file reports

The check goes through the tasks with a list of the questions it has seen. What it keeps and what it
lists is said here without that list: a task is a repeat if one that stands before it asks the same
(`firstTasks_eq`, `repeatedQuestions_eq`). Of the others, those with a reference query are asked one
after the other, each once, and the faults are those that the answers show (`runAll_taskFaults`). So
nothing is wrong exactly if no question is asked twice and every reference query is there and returns
a row (`isClean_iff`), and the command exits with zero exactly then (`validated`).
-/

import Mathlib.Data.List.Infix
import QueryScore.CommandLine.Run

namespace QueryScore

variable {σ : Type} {executor : Executor σ} {language : Language} {task other : Task} {tasks : List Task}
  {seen : List String} {store : σ} {fault : TaskFault} {answer : Answer}

/-! ## Questions that are asked again -/

/-- **`task.isAskedIn earlier`** -- one of the earlier tasks asks the question of the task. -/
def Task.isAskedIn (task : Task) (earlier : List Task) : Bool := earlier.any task.asksSame

/-- Each task with the tasks that stand before it. -/
def withEarlier (tasks : List Task) : List (Task × List Task) := tasks.zip tasks.inits

/-- The tasks whose question no task before them asks. -/
def originals (tasks : List Task) : List Task :=
  ((withEarlier tasks).filter fun (task, earlier) => !task.isAskedIn earlier).map Prod.fst

/-- The tasks whose question a task before them asks. -/
def repeats (tasks : List Task) : List Task :=
  ((withEarlier tasks).filter fun (task, earlier) => task.isAskedIn earlier).map Prod.fst

theorem withEarlier_cons (task : Task) (tasks : List Task) :
    withEarlier (task :: tasks) =
      (task, []) :: (withEarlier tasks).map fun x => (x.1, task :: x.2) := by
  unfold withEarlier
  rw [List.inits_cons, List.zip_cons_cons, List.zip_map_right]
  rfl

/-- The task asks one of the questions that have been seen, or that of an earlier task. -/
def isSeen (seen : List String) (task : Task) (earlier : List Task) : Bool :=
  seen.contains task.question || task.isAskedIn earlier

/-- It is the same whether a task stands before another or its question has been seen. -/
theorem isSeen_cons (seen : List String) (task other : Task) (earlier : List Task) :
    isSeen seen other (task :: earlier) = isSeen (task.question :: seen) other earlier := by
  unfold isSeen Task.isAskedIn
  rw [List.any_cons, List.contains_cons, ← Bool.or_assoc, Bool.or_comm (seen.contains _)]
  rfl

/-- A question that has been seen need not be noted again. -/
theorem isSeen_of_contains (h : seen.contains task.question = true) (other : Task) (earlier : List Task) :
    isSeen (task.question :: seen) other earlier = isSeen seen other earlier := by
  unfold isSeen
  rw [List.contains_cons]
  by_cases heq : other.question = task.question
  · rw [heq, h, Bool.or_true]
  · rw [beq_false_of_ne heq, Bool.false_or]

/-- The tasks that a list of seen questions parts off. -/
def parted (keep : Bool → Bool) (seen : List String) (tasks : List Task) : List Task :=
  ((withEarlier tasks).filter fun x => keep (isSeen seen x.1 x.2)).map Prod.fst

theorem parted_cons (keep : Bool → Bool) (seen : List String) (task : Task) (tasks : List Task) :
    parted keep seen (task :: tasks) =
      (if keep (seen.contains task.question) then [task] else []) ++
        parted keep (task.question :: seen) tasks := by
  have hfront : isSeen seen task [] = seen.contains task.question := Bool.or_false _
  have hrest : ((withEarlier tasks).map fun x => (x.1, task :: x.2)).filter
        (fun x => keep (isSeen seen x.1 x.2)) =
      ((withEarlier tasks).filter fun x => keep (isSeen (task.question :: seen) x.1 x.2)).map
        fun x => (x.1, task :: x.2) := by
    rw [List.filter_map]
    congr 1
    apply List.filter_congr
    intro x _
    exact congrArg keep (isSeen_cons seen task x.1 x.2)
  unfold parted
  rw [withEarlier_cons, List.filter_cons, hrest]
  simp only [hfront]
  split
  · rw [List.map_cons, List.map_map]
    rfl
  · rw [List.map_map]
    rfl

theorem parted_of_contains (h : seen.contains task.question = true) (keep : Bool → Bool) (tasks : List Task) :
    parted keep (task.question :: seen) tasks = parted keep seen tasks := by
  unfold parted
  congr 1
  apply List.filter_congr
  intro x _
  exact congrArg keep (isSeen_of_contains h x.1 x.2)

/-- **What is checked are the tasks whose question is new.** -/
theorem firstTasks_eq (seen : List String) (tasks : List Task) :
    firstTasks seen tasks = parted not seen tasks := by
  induction tasks generalizing seen with
  | nil => rfl
  | cons task tasks ih =>
    rw [parted_cons]
    unfold firstTasks
    split
    · rename_i hseen
      rw [ih, hseen, parted_of_contains hseen]
      rfl
    · rename_i hseen
      rw [ih, Bool.eq_false_iff.mpr hseen]
      rfl

/-- **What is listed are the questions of the other tasks.** -/
theorem repeatedQuestions_eq (seen : List String) (tasks : List Task) :
    repeatedQuestions seen tasks = (parted id seen tasks).map Task.question := by
  induction tasks generalizing seen with
  | nil => rfl
  | cons task tasks ih =>
    rw [parted_cons]
    unfold repeatedQuestions
    split
    · rename_i hseen
      rw [ih, hseen, parted_of_contains hseen]
      rfl
    · rename_i hseen
      rw [ih, Bool.eq_false_iff.mpr hseen]
      rfl

theorem firstTasks_nil (tasks : List Task) : firstTasks [] tasks = originals tasks := firstTasks_eq [] tasks

theorem repeatedQuestions_nil (tasks : List Task) :
    repeatedQuestions [] tasks = (repeats tasks).map Task.question := repeatedQuestions_eq [] tasks

/-- No question is checked twice, and none that has been seen. -/
theorem firstTasks_distinct (seen : List String) (tasks : List Task) :
    ((firstTasks seen tasks).map Task.question).Nodup ∧
      ∀ task ∈ firstTasks seen tasks, task.question ∉ seen := by
  induction tasks generalizing seen with
  | nil => exact ⟨List.nodup_nil, by simp [firstTasks]⟩
  | cons task tasks ih =>
    unfold firstTasks
    split
    · exact ih seen
    · rename_i hseen
      obtain ⟨hnodup, hunseen⟩ := ih (task.question :: seen)
      refine ⟨?_, ?_⟩
      · rw [List.map_cons, List.nodup_cons]
        refine ⟨?_, hnodup⟩
        intro hmem
        obtain ⟨other, hother, heq⟩ := List.mem_map.mp hmem
        exact hunseen other hother (heq ▸ List.mem_cons_self)
      · intro other hother
        rcases List.mem_cons.mp hother with rfl | hother
        · simpa using hseen
        · exact fun hmem => hunseen other hother (List.mem_cons_of_mem _ hmem)

/-- Nothing is listed exactly if all questions are new and differ. -/
theorem repeatedQuestions_eq_nil_iff (seen : List String) (tasks : List Task) :
    repeatedQuestions seen tasks = [] ↔
      (tasks.map Task.question).Nodup ∧ ∀ task ∈ tasks, task.question ∉ seen := by
  induction tasks generalizing seen with
  | nil => simp [repeatedQuestions]
  | cons task tasks ih =>
    unfold repeatedQuestions
    split
    · rename_i hseen
      have hmem : task.question ∈ seen := by simpa using hseen
      constructor
      · intro h
        cases h
      · intro h
        exact absurd hmem (h.2 task List.mem_cons_self)
    · rename_i hseen
      have hnew : task.question ∉ seen := by simpa using hseen
      rw [ih, List.map_cons, List.nodup_cons]
      simp only [List.mem_cons, not_or, List.mem_map, forall_eq_or_imp]
      constructor
      · rintro ⟨hnodup, hall⟩
        refine ⟨⟨?_, hnodup⟩, hnew, fun other hother => (hall other hother).2⟩
        rintro ⟨other, hother, heq⟩
        exact (hall other hother).1 heq
      · rintro ⟨⟨hne, hnodup⟩, -, hall⟩
        exact ⟨hnodup, fun other hother => ⟨fun heq => hne ⟨other, hother, heq⟩, hall other hother⟩⟩

/-- Where no question is asked twice, every task is checked. -/
theorem firstTasks_of_nodup (hnodup : (tasks.map Task.question).Nodup)
    (hseen : ∀ task ∈ tasks, task.question ∉ seen) : firstTasks seen tasks = tasks := by
  induction tasks generalizing seen with
  | nil => rfl
  | cons task tasks ih =>
    rw [List.map_cons, List.nodup_cons] at hnodup
    have hnew : ¬ seen.contains task.question = true := by
      simpa using hseen task List.mem_cons_self
    unfold firstTasks
    rw [if_neg hnew, ih hnodup.2]
    intro other hother hmem
    rcases List.mem_cons.mp hmem with heq | hmem
    · exact hnodup.1 (heq ▸ List.mem_map_of_mem hother)
    · exact hseen other (List.mem_cons_of_mem _ hother) hmem

/-! ## Queries that are asked in turn -/

/-- The answers to queries that are asked one after the other, and what the executor has become. -/
def Executor.inTurn (executor : Executor σ) : List String → σ → List Answer × σ
  | [], store => ([], store)
  | query :: queries, store =>
    let (answer, store) := executor query store
    let (answers, store) := inTurn executor queries store
    (answer :: answers, store)

theorem Executor.inTurn_ofFunction (answer : String → Answer) (queries : List String) (store : Unit) :
    Executor.inTurn (.ofFunction answer) queries store = (queries.map answer, store) := by
  induction queries with
  | nil => rfl
  | cons query queries ih =>
    unfold inTurn
    simp only [Executor.ofFunction] at ih ⊢
    rw [ih]
    rfl

theorem Executor.length_inTurn (executor : Executor σ) (queries : List String) (store : σ) :
    (Executor.inTurn executor queries store).1.length = queries.length := by
  induction queries generalizing store with
  | nil => rfl
  | cons query queries ih => exact congrArg (· + 1) (ih _)

/-- The tasks that have a reference query. -/
def withReference (language : Language) (tasks : List Task) : List Task :=
  tasks.filter fun task => task.hasReference language

/-- The reference queries of some tasks. -/
def references (language : Language) (tasks : List Task) : List String :=
  tasks.map fun task => task.reference language

/-- Each task that has a reference query with the answer to it, where these are asked in turn. -/
def answered (executor : Executor σ) (language : Language) (tasks : List Task) (store : σ) :
    List (Task × Answer) :=
  let asked := withReference language tasks
  asked.zip (Executor.inTurn executor (references language asked) store).1

/-- **`IsFault language answers task fault`** -- what is wrong with a task by the answers that were given:
it has no reference query, or the answer to it is an error or has no rows. -/
inductive IsFault (language : Language) (answers : List (Task × Answer)) : Task → TaskFault → Prop
  | blank {task : Task} : task.hasReference language = false → IsFault language answers task (.blank language)
  | noRows {task : Task} : (task, .ok []) ∈ answers → IsFault language answers task .noRows
  | failed {task : Task} {error : ExecutionError} :
      (task, .error error) ∈ answers → IsFault language answers task (.failed error)

theorem answerFault?_eq_some_iff : answerFault? answer = some fault ↔
    (answer = .ok [] ∧ fault = .noRows) ∨ ∃ error, answer = .error error ∧ fault = .failed error := by
  cases answer with
  | ok rows => cases rows <;> simp [answerFault?, eq_comm]
  | error error => simp [answerFault?, eq_comm]

/-- One more answer shows what it shows, and the others what they did. -/
theorem isFault_cons_iff {answers : List (Task × Answer)} (hreference : task.hasReference language = true) :
    IsFault language ((task, answer) :: answers) other fault ↔
      (other = task ∧ answerFault? answer = some fault) ∨ IsFault language answers other fault := by
  rw [answerFault?_eq_some_iff]
  constructor
  · rintro (hblank | hmem | hmem)
    · exact .inr (.blank hblank)
    · rcases List.mem_cons.mp hmem with heq | hmem
      · obtain ⟨rfl, rfl⟩ := Prod.mk.inj heq
        exact .inl ⟨rfl, .inl ⟨rfl, rfl⟩⟩
      · exact .inr (.noRows hmem)
    · rcases List.mem_cons.mp hmem with heq | hmem
      · obtain ⟨rfl, rfl⟩ := Prod.mk.inj heq
        exact .inl ⟨rfl, .inr ⟨_, rfl, rfl⟩⟩
      · exact .inr (.failed hmem)
  · rintro (⟨rfl, ⟨rfl, rfl⟩ | ⟨error, rfl, rfl⟩⟩ | hblank | hmem | hmem)
    · exact .noRows List.mem_cons_self
    · exact .failed List.mem_cons_self
    · exact .blank hblank
    · exact .noRows (List.mem_cons_of_mem _ hmem)
    · exact .failed (List.mem_cons_of_mem _ hmem)

theorem withReference_of_hasReference (h : task.hasReference language = true) (tasks : List Task) :
    withReference language (task :: tasks) = task :: withReference language tasks := by
  simp [withReference, h]

theorem withReference_of_not_hasReference (h : task.hasReference language = false) (tasks : List Task) :
    withReference language (task :: tasks) = withReference language tasks := by
  simp [withReference, h]

theorem mem_of_mem_answered (h : (task, answer) ∈ answered executor language tasks store) :
    task ∈ tasks ∧ task.hasReference language = true :=
  List.mem_filter.mp (List.of_mem_zip h).1

/-- A fault that an answer shows is one of a task whose reference query was asked. -/
theorem IsFault.cases_answered (h : IsFault language (answered executor language tasks store) task fault) :
    (task.hasReference language = false ∧ fault = .blank language) ∨
      (task ∈ tasks ∧ task.hasReference language = true) := by
  cases h with
  | blank hblank => exact .inl ⟨hblank, rfl⟩
  | noRows hmem => exact .inr (mem_of_mem_answered hmem)
  | failed hmem => exact .inr (mem_of_mem_answered hmem)

/-- The session behind the query of a task. -/
def afterTask (executor : Executor σ) (language : Language) (task : Task) (session : Session σ) : Session σ :=
  { session with
    store := (executor (task.reference language) session.store).2
    calls := session.calls + 1 }

theorem run_taskFault_of_hasReference (h : task.hasReference language = true) (session : Session σ) :
    (taskFault? language task).run executor session =
      (answerFault? (executor (task.reference language) session.store).1,
        afterTask executor language task session) := by
  unfold taskFault?
  rw [if_pos h]
  rfl

theorem run_taskFault_of_not_hasReference (h : task.hasReference language = false) (session : Session σ) :
    (taskFault? language task).run executor session = (some (.blank language), session) := by
  unfold taskFault?
  rw [h]
  rfl

/-- **`Inspected executor language tasks session faults after`** -- the tasks have the faults that the
answers show, and each reference query was asked once, in order. -/
structure Inspected (executor : Executor σ) (language : Language) (tasks : List Task) (session : Session σ)
    (faults : List (Option TaskFault)) (after : Session σ) : Prop where
  length : faults.length = tasks.length
  fault_iff : ∀ task fault, (task, some fault) ∈ tasks.zip faults ↔
    task ∈ tasks ∧ IsFault language (answered executor language tasks session.store) task fault
  store : after.store =
    (Executor.inTurn executor (references language (withReference language tasks)) session.store).2
  calls : after.calls = session.calls + (withReference language tasks).length

/-- A task whose reference query is asked stands before the others. -/
theorem Inspected.ask {session after : Session σ} {faults : List (Option TaskFault)}
    (hreference : task.hasReference language = true)
    (h : Inspected executor language tasks (afterTask executor language task session) faults after) :
    Inspected executor language (task :: tasks) session
      (answerFault? (executor (task.reference language) session.store).1 :: faults) after where
  length := congrArg (· + 1) h.length
  fault_iff other fault := by
    have hanswered : answered executor language (task :: tasks) session.store =
        (task, (executor (task.reference language) session.store).1) ::
          answered executor language tasks (afterTask executor language task session).store := by
      unfold answered
      rw [withReference_of_hasReference hreference]
      rfl
    rw [hanswered, isFault_cons_iff hreference, List.zip_cons_cons, List.mem_cons, h.fault_iff, List.mem_cons,
      Prod.mk.injEq]
    constructor
    · rintro (⟨heq, hfault⟩ | ⟨hmem, hfault⟩)
      · exact ⟨.inl heq, .inl ⟨heq, hfault.symm⟩⟩
      · exact ⟨.inr hmem, .inr hfault⟩
    · rintro ⟨hmem, ⟨heq, hfault⟩ | hfault⟩
      · exact .inl ⟨heq, hfault.symm⟩
      · rcases hfault.cases_answered with ⟨hblank, -⟩ | ⟨hlater, -⟩
        · -- only a later task may be without a reference query
          refine .inr ⟨hmem.resolve_left ?_, hfault⟩
          rintro rfl
          rw [hreference] at hblank
          cases hblank
        · exact .inr ⟨hlater, hfault⟩
  store := by
    rw [withReference_of_hasReference hreference, h.store]
    rfl
  calls := by
    rw [withReference_of_hasReference hreference, h.calls, List.length_cons]
    show session.calls + 1 + _ = _
    omega

/-- So does a task without one. -/
theorem Inspected.pass {session after : Session σ} {faults : List (Option TaskFault)}
    (hreference : task.hasReference language = false)
    (h : Inspected executor language tasks session faults after) :
    Inspected executor language (task :: tasks) session (some (.blank language) :: faults) after where
  length := congrArg (· + 1) h.length
  fault_iff other fault := by
    have hanswered : answered executor language (task :: tasks) session.store =
        answered executor language tasks session.store := by
      unfold answered
      rw [withReference_of_not_hasReference hreference]
    rw [hanswered, List.zip_cons_cons, List.mem_cons, h.fault_iff, List.mem_cons, Prod.mk.injEq]
    constructor
    · rintro (⟨rfl, hfault⟩ | ⟨hmem, hfault⟩)
      · obtain rfl := Option.some.inj hfault
        exact ⟨.inl rfl, .blank hreference⟩
      · exact ⟨.inr hmem, hfault⟩
    · rintro ⟨rfl | hmem, hfault⟩
      · rcases hfault.cases_answered with ⟨-, rfl⟩ | ⟨-, hasked⟩
        · exact .inl ⟨rfl, rfl⟩
        · rw [hreference] at hasked
          cases hasked
      · exact .inr ⟨hmem, hfault⟩
  store := by rw [withReference_of_not_hasReference hreference, h.store]
  calls := by rw [withReference_of_not_hasReference hreference, h.calls]

/-- **What the check finds of some tasks.** -/
theorem runAll_taskFaults (executor : Executor σ) (language : Language) (tasks : List Task) (session : Session σ) :
    Inspected executor language tasks session (runAll executor (tasks.map (taskFault? language)) session).1
      (runAll executor (tasks.map (taskFault? language)) session).2 := by
  induction tasks generalizing session with
  | nil => exact ⟨rfl, by simp, rfl, rfl⟩
  | cons task tasks ih =>
    rw [List.map_cons, runAll]
    cases hreference : task.hasReference language with
    | true =>
      rw [run_taskFault_of_hasReference hreference]
      exact (ih _).ask hreference
    | false =>
      rw [run_taskFault_of_not_hasReference hreference]
      exact (ih _).pass hreference

/-! ## The check -/

theorem mem_invalid_iff {tasks : List Task} {faults : List (Option TaskFault)} :
    (task, fault) ∈ (tasks.zip faults).filterMap (fun (task, fault?) => fault?.map (task, ·)) ↔
      (task, some fault) ∈ tasks.zip faults := by
  rw [List.mem_filterMap]
  constructor
  · rintro ⟨⟨other, fault?⟩, hmem, hfound⟩
    obtain ⟨found, rfl, heq⟩ := Option.map_eq_some_iff.mp hfound
    cases heq
    exact hmem
  · intro hmem
    exact ⟨_, hmem, rfl⟩

/-- What is reported of some tasks stands in their order. -/
theorem invalid_sublist (tasks : List Task) (faults : List (Option TaskFault)) :
    (((tasks.zip faults).filterMap fun (task, fault?) => fault?.map (task, ·)).map Prod.fst).Sublist tasks := by
  induction tasks generalizing faults with
  | nil => exact .slnil
  | cons task tasks ih =>
    cases faults with
    | nil => exact List.nil_sublist _
    | cons fault? faults =>
      rw [List.zip_cons_cons, List.filterMap_cons]
      cases fault? with
      | none => exact (ih faults).cons _
      | some fault => exact (ih faults).cons_cons _

/-- **`IsClean executor language tasks store`** -- no question is asked twice, no reference query is blank,
and each of them, asked in turn, returns a row. -/
structure IsClean (executor : Executor σ) (language : Language) (tasks : List Task) (store : σ) : Prop where
  distinct : (tasks.map Task.question).Nodup
  present : ∀ task ∈ tasks, task.hasReference language = true
  rows : ∀ answer ∈ (Executor.inTurn executor (references language tasks) store).1,
    ∃ row rows, answer = .ok (row :: rows)

/-- **`Validated executor language tasks session found after`** -- what the check of some tasks reports. -/
structure Validated (executor : Executor σ) (language : Language) (tasks : List Task) (session : Session σ)
    (found : Validation) (after : Session σ) : Prop where
  total : found.total = tasks.length
  /-- Each task whose question was asked before is listed with it, in order. -/
  duplicates : found.duplicates = (repeats tasks).map Task.question
  /-- The other tasks ask different questions. -/
  distinct : ((originals tasks).map Task.question).Nodup
  /-- What is reported of them stands in their order. -/
  inOrder : (found.invalid.map Prod.fst).Sublist (originals tasks)
  /-- Reported are those that have a fault, with the fault. -/
  invalid_iff : ∀ task fault, (task, fault) ∈ found.invalid ↔
    task ∈ originals tasks ∧ IsFault language (answered executor language (originals tasks) session.store) task fault
  /-- What the executor has become is what it becomes when it is asked their reference queries in turn. -/
  store : after.store = (Executor.inTurn executor
    (references language (withReference language (originals tasks))) session.store).2
  /-- It was not asked more often. -/
  calls : after.calls = session.calls + (withReference language (originals tasks)).length
  clean_iff : found.isClean = true ↔ IsClean executor language tasks session.store

theorem withReference_of_all (h : ∀ task ∈ tasks, task.hasReference language = true) :
    withReference language tasks = tasks := List.filter_eq_self.mpr h

/-- Nothing is wrong with tasks exactly if each has a reference query and each answer a row. -/
theorem forall_not_isFault_iff :
    (∀ task ∈ tasks, ∀ fault, ¬ IsFault language (answered executor language tasks store) task fault) ↔
      (∀ task ∈ tasks, task.hasReference language = true) ∧
        ∀ answer ∈ (Executor.inTurn executor (references language tasks) store).1,
          ∃ row rows, answer = .ok (row :: rows) := by
  have hanswered (hpresent : ∀ task ∈ tasks, task.hasReference language = true) :
      answered executor language tasks store =
        tasks.zip (Executor.inTurn executor (references language tasks) store).1 := by
    unfold answered
    rw [withReference_of_all hpresent]
  constructor
  · intro hnone
    have hpresent : ∀ task ∈ tasks, task.hasReference language = true := by
      intro task htask
      cases hreference : task.hasReference language with
      | true => rfl
      | false => exact absurd (.blank hreference) (hnone task htask _)
    refine ⟨hpresent, ?_⟩
    rw [hanswered hpresent] at hnone
    intro answer hanswer
    have hlength : (Executor.inTurn executor (references language tasks) store).1.length ≤ tasks.length := by
      rw [Executor.length_inTurn, references, List.length_map]
    rw [← List.map_snd_zip hlength] at hanswer
    obtain ⟨⟨task, given⟩, hmem, rfl⟩ := List.mem_map.mp hanswer
    have htask := (List.of_mem_zip hmem).1
    cases given with
    | error error => exact absurd (.failed hmem) (hnone task htask _)
    | ok rows =>
      cases rows with
      | nil => exact absurd (.noRows hmem) (hnone task htask _)
      | cons row rows => exact ⟨row, rows, rfl⟩
  · rintro ⟨hpresent, hrows⟩ task htask fault hfault
    rw [hanswered hpresent] at hfault
    cases hfault with
    | blank hblank =>
      rw [hpresent task htask] at hblank
      cases hblank
    | noRows hmem =>
      obtain ⟨row, rows, heq⟩ := hrows _ (List.of_mem_zip hmem).2
      cases heq
    | failed hmem =>
      obtain ⟨row, rows, heq⟩ := hrows _ (List.of_mem_zip hmem).2
      cases heq

theorem isClean_iff {found : Validation} : found.isClean = true ↔ found.invalid = [] ∧ found.duplicates = [] := by
  unfold Validation.isClean
  rw [Bool.and_eq_true, List.isEmpty_iff, List.isEmpty_iff]

theorem mem_validate_invalid_iff (executor : Executor σ) (language : Language) (tasks : List Task)
    (session : Session σ) (task : Task) (fault : TaskFault) :
    (task, fault) ∈ (validate executor language tasks session).1.invalid ↔ task ∈ originals tasks ∧
      IsFault language (answered executor language (originals tasks) session.store) task fault := by
  have hinspected := runAll_taskFaults executor language (firstTasks [] tasks) session
  have hmem : (task, fault) ∈ (validate executor language tasks session).1.invalid ↔ _ :=
    mem_invalid_iff.trans (hinspected.fault_iff task fault)
  rwa [firstTasks_nil] at hmem

/-- Nothing is reported exactly if nothing is wrong. -/
theorem validate_isClean_iff (executor : Executor σ) (language : Language) (tasks : List Task)
    (session : Session σ) : (validate executor language tasks session).1.isClean = true ↔
      IsClean executor language tasks session.store := by
  have hduplicates : (validate executor language tasks session).1.duplicates = repeatedQuestions [] tasks := rfl
  have hunseen : ∀ task ∈ tasks, task.question ∉ ([] : List String) := fun _ _ => List.not_mem_nil
  have hinvalid := mem_validate_invalid_iff executor language tasks session
  -- on either side the questions differ, so all tasks are checked
  have hall (hnodup : (tasks.map Task.question).Nodup) : originals tasks = tasks := by
    rw [← firstTasks_nil, firstTasks_of_nodup hnodup hunseen]
  rw [isClean_iff, hduplicates, repeatedQuestions_eq_nil_iff, List.eq_nil_iff_forall_not_mem]
  constructor
  · rintro ⟨hnone, hnodup, -⟩
    rw [hall hnodup] at hinvalid
    obtain ⟨hpresent, hrows⟩ := forall_not_isFault_iff.mp fun task htask fault hfault =>
      hnone (task, fault) ((hinvalid task fault).mpr ⟨htask, hfault⟩)
    exact ⟨hnodup, hpresent, hrows⟩
  · intro h
    rw [hall h.distinct] at hinvalid
    refine ⟨?_, h.distinct, hunseen⟩
    rintro ⟨task, fault⟩ hmem
    obtain ⟨htask, hfault⟩ := (hinvalid task fault).mp hmem
    exact forall_not_isFault_iff.mpr ⟨h.present, h.rows⟩ task htask fault hfault

/-- **The check of any tasks with any executor.** -/
theorem validated_validate (executor : Executor σ) (language : Language) (tasks : List Task)
    (session : Session σ) :
    Validated executor language tasks session (validate executor language tasks session).1
      (validate executor language tasks session).2 := by
  have hinspected := runAll_taskFaults executor language (firstTasks [] tasks) session
  have hstore : (validate executor language tasks session).2.store = _ := hinspected.store
  have hcalls : (validate executor language tasks session).2.calls = _ := hinspected.calls
  rw [firstTasks_nil] at hstore hcalls
  exact {
    total := rfl
    duplicates := repeatedQuestions_nil tasks
    distinct := firstTasks_nil tasks ▸ (firstTasks_distinct [] tasks).1
    inOrder := firstTasks_nil tasks ▸ invalid_sublist _ _
    invalid_iff := mem_validate_invalid_iff executor language tasks session
    store := hstore
    calls := hcalls
    clean_iff := validate_isClean_iff executor language tasks session }

/-- Where the answer to a query is always the same, nothing is wrong exactly if every question is asked
once and every reference query is there and returns a row. -/
theorem isClean_ofFunction_iff (answer : String → Answer) (language : Language) (tasks : List Task) (store : Unit) :
    IsClean (.ofFunction answer) language tasks store ↔ (tasks.map Task.question).Nodup ∧
      ∀ task ∈ tasks, task.hasReference language = true ∧
        ∃ row rows, answer (task.reference language) = .ok (row :: rows) := by
  have hanswers : (Executor.inTurn (.ofFunction answer) (references language tasks) store).1 =
      tasks.map fun task => answer (task.reference language) := by
    rw [Executor.inTurn_ofFunction, references, List.map_map]
    rfl
  constructor
  · intro h
    have hrows := h.rows
    rw [hanswers] at hrows
    refine ⟨h.distinct, fun task htask => ⟨h.present task htask, ?_⟩⟩
    exact hrows _ (List.mem_map_of_mem htask)
  · rintro ⟨hdistinct, hall⟩
    refine ⟨hdistinct, fun task htask => (hall task htask).1, ?_⟩
    rw [hanswers]
    intro answer hanswer
    obtain ⟨task, htask, rfl⟩ := List.mem_map.mp hanswer
    exact (hall task htask).2

namespace CommandLine

/-- **`Loads inputs path source settings config tasks answer`** -- the files of a check can be read, and
this is what they hold. -/
structure Loads (inputs : Inputs) (path : String) (source : Source) (settings : Option String)
    (config : Config Float) (tasks : List Task) (answer : String → Answer) : Prop where
  config : loadConfig inputs settings = some config
  tasks : loadTasks (inputs.read path) = .ok tasks
  source : openSource inputs source = some answer

theorem reply_validateTasks {inputs : Inputs} {path : String} {source : Source} {settings : Option String}
    {config : Config Float} {answer : String → Answer}
    (h : Loads inputs path source settings config tasks answer) (language : Language) :
    (Command.validateTasks path language source settings).reply inputs =
      let found := (validate (.ofFunction (supervised config answer)) language tasks
        (.start config.cacheCapacity ())).1
      .print (printed found.toJson) (if found.isClean then 0 else 1) := by
  simp [Command.reply, validateReply, h.config, h.tasks, h.source, Except.toOption]

/-- **What the check of a task file reports**: with any executor, as `Validated` says; and the command
prints such a report and exits with zero exactly if every question is asked once and every reference
query is there and returns a row. -/
theorem validated (executor : Executor σ) (language : Language) (tasks : List Task) (session : Session σ) :
    Validated executor language tasks session (validate executor language tasks session).1
      (validate executor language tasks session).2 ∧
    ∀ (inputs : Inputs) (path : String) (source : Source) (settings : Option String) (config : Config Float)
      (answer : String → Answer), Loads inputs path source settings config tasks answer →
      ∃ found after code,
        Validated (.ofFunction (supervised config answer)) language tasks (.start config.cacheCapacity ())
          found after ∧
        (Command.validateTasks path language source settings).reply inputs =
          .print (printed found.toJson) code ∧
        (code = 0 ↔ (tasks.map Task.question).Nodup ∧ ∀ task ∈ tasks, task.hasReference language = true ∧
          ∃ row rows, supervised config answer (task.reference language) = .ok (row :: rows)) := by
  refine ⟨validated_validate executor language tasks session, ?_⟩
  intro inputs path source settings config answer hloads
  have hvalidated := validated_validate (.ofFunction (supervised config answer)) language tasks
    (.start config.cacheCapacity ())
  refine ⟨_, _, _, hvalidated, reply_validateTasks hloads language, ?_⟩
  rw [← isClean_ofFunction_iff, ← hvalidated.clean_iff]
  split
  · rename_i hclean
    exact ⟨fun _ => hclean, fun _ => rfl⟩
  · rename_i hclean
    exact ⟨fun h => absurd h (by decide), fun h => absurd h hclean⟩

/-- Four tasks: the second asks again what the first asks, the third has no query, and nothing is
recorded for the query of the fourth. -/
def fourTasks : List Task :=
  [⟨"a", "A", "", none⟩, ⟨"a", "B", "", none⟩, ⟨"b", " ", "", none⟩, ⟨"c", "C", "", none⟩]

/-- The files that hold them, and a row for the first. -/
def fourInputs : Inputs where
  read
    | "tasks" => some ("[\x7b\"question\":\"a\",\"sql\":\"A\"\x7d,\x7b\"question\":\"a\",\"sql\":\"B\"\x7d," ++
        "\x7b\"question\":\"b\",\"sql\":\" \"\x7d,\x7b\"question\":\"c\",\"sql\":\"C\"\x7d]")
    | "rows" => some "\x7b\"A\":[1]\x7d"
    | _ => none
  isFile _ := true

theorem validated_fourTasks : ∃ answer found after code,
    Loads fourInputs "tasks" (.recorded "rows") none .standard fourTasks answer ∧
    Validated (.ofFunction (supervised .standard answer)) .sql fourTasks
      (.start Config.standard.cacheCapacity ()) found after ∧
    (Command.validateTasks "tasks" .sql (.recorded "rows") none).reply fourInputs =
      .print (printed found.toJson) code ∧
    found.duplicates = ["a"] ∧ (⟨"b", " ", "", none⟩, .blank .sql) ∈ found.invalid ∧
    after.calls = 2 ∧ code ≠ 0 := by
  obtain ⟨answer, hsource⟩ := Option.isSome_iff_exists.mp
    (show (openSource fourInputs (.recorded "rows")).isSome = true by decide +kernel)
  have hloads : Loads fourInputs "tasks" (.recorded "rows") none .standard fourTasks answer :=
    ⟨rfl, by decide +kernel, hsource⟩
  obtain ⟨found, after, code, hvalidated, hreply, hcode⟩ :=
    (validated (.ofFunction answer) .sql fourTasks (.start 0 ())).2 _ _ _ _ _ _ hloads
  refine ⟨answer, found, after, code, hloads, hvalidated, hreply, hvalidated.duplicates, ?_,
    hvalidated.calls, ?_⟩
  · exact (hvalidated.invalid_iff _ _).mpr ⟨by decide, .blank rfl⟩
  · intro hzero
    exact absurd (hcode.mp hzero).1 (by decide)

end CommandLine

end QueryScore
