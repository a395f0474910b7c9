/-
# QueryScore.Proofs.Evaluation.Shared -- plans that share a session

Jobs that take turns in one session look texts up, extract them and store what they found in any
order; two jobs may both miss a key and both store it, and others may drop it again. The one fact
that every step keeps is that the cache is faithful and that a job waiting to store holds the
extraction of its text (`Batch.Sound`). From it the step lemma (`Job.step_sound`) reads off that no
step changes what any job will come to, and that each step brings its job nearer to its end.

By induction on the schedule (`Batch.play_sound`), whatever the order of the steps was, the results
are those of the plans by themselves; and no schedule is longer than the plans allow.
-/

import Mathlib.Algebra.Order.BigOperators.Group.List
import Mathlib.Algebra.Order.Ring.Nat
import QueryScore.Evaluation.Plan
import QueryScore.Proofs.Evaluation.Coherent

namespace QueryScore

variable {β : Type} {answer : String → Answer}

/-! ## What a job will come to, and when -/

/-- The steps that a plan takes if every text has to be extracted. -/
def Plan.steps (answer : String → Answer) : Plan β → Nat
  | .result _ => 0
  | .structureOf language text next => (next (extract language text)).steps answer + 2
  | .answerOf query next => (next (answer query)).steps answer + 1

/-- What a job will come to. -/
def Job.value (answer : String → Answer) : Job β → β
  | .active plan => plan.value answer
  | .storing _ _ found next => (next found).value answer

/-- The steps that a job has left if every text has to be extracted. -/
def Job.steps (answer : String → Answer) : Job β → Nat
  | .active plan => plan.steps answer
  | .storing _ _ found next => (next found).steps answer + 1

/-- **`job.Sound`** -- what waits to be stored for a text is its extraction. -/
def Job.Sound : Job β → Prop
  | .active _ => True
  | .storing language text found _ => found = extract language text

/-- A job that is over has come to its result. -/
theorem Job.value_of_result {job : Job β} {value : β} (h : job.result? = some value) :
    job.value answer = value := by
  cases job with
  | active plan =>
    cases plan with
    | result found => exact Option.some.inj h
    | structureOf _ _ _ => cases h
    | answerOf _ _ => cases h
  | storing _ _ _ _ => cases h

/-- A job without a step is over. -/
theorem Job.result_of_step_none {σ : Type} {executor : Executor σ} {session : Session σ}
    {job : Job β} (h : job.step executor session = none) : ∃ value, job.result? = some value := by
  cases job with
  | active plan =>
    cases plan with
    | result found => exact ⟨found, rfl⟩
    | structureOf language text next =>
      simp only [Job.step] at h
      split at h <;> cases h
    | answerOf _ _ => cases h
  | storing _ _ _ _ => cases h

/-- **A step keeps what its job will come to**, brings it nearer, and leaves the session faithful
and the job sound. -/
theorem Job.step_sound {session session' : Session Unit} {job job' : Job β}
    (hsession : session.Faithful) (hjob : job.Sound)
    (h : job.step (.ofFunction answer) session = some (session', job')) :
    (session'.Faithful ∧ session'.cache.capacity = session.cache.capacity) ∧ job'.Sound ∧
      job'.value answer = job.value answer ∧ job'.steps answer < job.steps answer := by
  cases job with
  | active plan =>
    cases plan with
    | result found => cases h
    | structureOf language text next =>
      have hnext := Cache.Faithful.lookup hsession (language, text)
      have hcapacity := session.cache.capacity_lookup (language, text)
      have hfound : ∀ found, (session.cache.lookup (language, text)).1 = some found →
          found = extract language text := fun found => Cache.Faithful.lookup_eq hsession
      simp only [Job.step] at h
      cases hlookup : session.cache.lookup (language, text) with
      | mk kept cache =>
        rw [hlookup] at h hnext hcapacity hfound
        -- A miss extracts and has yet to store; a hit gives what an extraction would give.
        cases kept with
        | none =>
          cases h
          exact ⟨⟨hnext, hcapacity⟩, rfl, rfl, Nat.lt_succ_self _⟩
        | some found =>
          have hvalue : found = extract language text := hfound found rfl
          cases h
          refine ⟨⟨hnext, hcapacity⟩, trivial, ?_, ?_⟩
          · rw [hvalue]
            rfl
          · rw [hvalue]
            show (next _).steps answer < (next _).steps answer + 2
            omega
    | answerOf query next =>
      cases h
      exact ⟨⟨hsession, rfl⟩, trivial, rfl, Nat.lt_succ_self _⟩
  | storing language text found next =>
    have hfound : found = extraction (language, text) := hjob
    cases h
    refine ⟨⟨?_, rfl⟩, trivial, rfl, Nat.lt_succ_self _⟩
    rw [hfound]
    exact Cache.Faithful.store hsession (language, text)

/-! ## Whole batches -/

/-- **`batch.Sound`** -- what is remembered, and what waits to be, are extractions. -/
structure Batch.Sound (batch : Batch Unit β) : Prop where
  /-- What is remembered are extractions. -/
  session : batch.session.Faithful
  /-- What waits to be remembered are extractions. -/
  jobs : ∀ job ∈ batch.jobs, job.Sound

/-- What the jobs will come to. -/
def Batch.values (answer : String → Answer) (batch : Batch Unit β) : List β :=
  batch.jobs.map (Job.value answer)

/-- The steps that are left in all if every text has to be extracted. -/
def Batch.steps (answer : String → Answer) (batch : Batch Unit β) : Nat :=
  (batch.jobs.map (Job.steps answer)).sum

theorem Batch.sound_start {session : Session Unit} (hsession : session.Faithful)
    (plans : List (Plan β)) : (Batch.start session plans).Sound := by
  refine ⟨hsession, fun job hjob => ?_⟩
  obtain ⟨plan, -, rfl⟩ := List.mem_map.mp hjob
  trivial

/-- An element that is exchanged for a smaller one makes the sum smaller. -/
theorem sum_set_lt {f : β → Nat} {xs : List β} {index : Nat} {x y : β}
    (hx : xs[index]? = some x) (hlt : f y < f x) :
    ((xs.set index y).map f).sum < (xs.map f).sum := by
  induction xs generalizing index with
  | nil => cases hx
  | cons z zs ih =>
    cases index with
    | zero =>
      cases hx
      simp only [List.set_cons_zero, List.map_cons, List.sum_cons]
      omega
    | succ index =>
      have hrest : ((zs.set index y).map f).sum < (zs.map f).sum := ih hx
      simp only [List.set_cons_succ, List.map_cons, List.sum_cons]
      omega

/-- A step of a batch is a step of one of its jobs. -/
theorem Batch.step_cases {σ : Type} {executor : Executor σ} {batch batch' : Batch σ β}
    {index : Nat} (h : batch.step executor index = some batch') :
    ∃ job session' job', batch.jobs[index]? = some job ∧
      job.step executor batch.session = some (session', job') ∧
      batch' = ⟨session', batch.jobs.set index job'⟩ := by
  simp only [Batch.step, Option.bind_eq_bind, Option.bind_eq_some_iff] at h
  obtain ⟨job, hjob, ⟨session', job'⟩, hstep, hbatch⟩ := h
  exact ⟨job, session', job', hjob, hstep, (Option.some.inj hbatch).symm⟩

/-- **A step of a batch changes no result** and leaves fewer steps. -/
theorem Batch.step_sound {batch batch' : Batch Unit β} {index : Nat} (hbatch : batch.Sound)
    (h : batch.step (.ofFunction answer) index = some batch') :
    batch'.Sound ∧ batch'.session.cache.capacity = batch.session.cache.capacity ∧
      batch'.values answer = batch.values answer ∧ batch'.steps answer < batch.steps answer := by
  obtain ⟨job, session', job', hjob, hstep, rfl⟩ := Batch.step_cases h
  have hsound : job.Sound := hbatch.jobs job (List.mem_of_getElem? hjob)
  obtain ⟨⟨hsession, hcapacity⟩, hsound', hvalue, hsteps⟩ :=
    Job.step_sound hbatch.session hsound hstep
  refine ⟨⟨hsession, fun other hother => ?_⟩, hcapacity, ?_, sum_set_lt hjob hsteps⟩
  · rcases List.mem_or_eq_of_mem_set hother with hold | rfl
    · exact hbatch.jobs other hold
    · exact hsound'
  · -- the job that moved will come to what it would have come to before
    obtain ⟨hlt, hget⟩ := List.getElem?_eq_some_iff.mp hjob
    show (batch.jobs.set index job').map (Job.value answer) = batch.jobs.map (Job.value answer)
    apply List.ext_getElem?
    intro place
    rw [List.map_set, List.getElem?_set]
    split
    · next hplace =>
      subst hplace
      simp [hlt, hvalue, hget]
    · rfl

/-- **Whatever the order of the steps, the results are those of the plans.** -/
theorem Batch.play_sound {schedule : List Nat} {batch batch' : Batch Unit β}
    (hbatch : batch.Sound) (h : batch.play (.ofFunction answer) schedule = some batch') :
    batch'.Sound ∧ batch'.session.cache.capacity = batch.session.cache.capacity ∧
      batch'.values answer = batch.values answer ∧
      schedule.length + batch'.steps answer ≤ batch.steps answer := by
  induction schedule generalizing batch with
  | nil =>
    cases h
    exact ⟨hbatch, rfl, rfl, by simp⟩
  | cons index rest ih =>
    obtain ⟨middle, hstep, hrest⟩ := Option.bind_eq_some_iff.mp h
    obtain ⟨hmiddle, hcapacity, hvalues, hsteps⟩ := Batch.step_sound hbatch hstep
    obtain ⟨hlast, hcapacity', hvalues', hsteps'⟩ := ih hmiddle hrest
    refine ⟨hlast, hcapacity'.trans hcapacity, hvalues'.trans hvalues, ?_⟩
    rw [List.length_cons]
    omega

/-- Results are there where every job is over. -/
theorem results_iff {jobs : List (Job β)} {outcomes : List β} :
    jobs.mapM Job.result? = some outcomes ↔ jobs.map Job.result? = outcomes.map some := by
  induction jobs generalizing outcomes with
  | nil => cases outcomes <;> simp
  | cons job rest ih =>
    rw [List.mapM_cons]
    cases outcomes with
    | nil =>
      cases job.result? <;> cases hrest : rest.mapM Job.result? <;> simp
    | cons outcome outcomes =>
      simp only [Option.bind_eq_bind, Option.bind_eq_some_iff, List.map_cons, List.cons.injEq]
      constructor
      · rintro ⟨value, hvalue, values, hvalues, hall⟩
        cases hall
        exact ⟨hvalue, ih.mp hvalues⟩
      · rintro ⟨hvalue, hvalues⟩
        exact ⟨outcome, hvalue, outcomes, ih.mpr hvalues, rfl⟩

/-- The results are what the jobs come to. -/
theorem Batch.results_eq {batch : Batch Unit β} {outcomes : List β}
    (h : batch.results? = some outcomes) : outcomes = batch.values answer := by
  have hall := results_iff.mp h
  apply List.ext_getElem?
  intro index
  have hindex : (batch.jobs.map Job.result?)[index]? = (outcomes.map some)[index]? := by rw [hall]
  rw [List.getElem?_map, List.getElem?_map] at hindex
  rw [Batch.values, List.getElem?_map]
  cases hjob : batch.jobs[index]? with
  | none => simpa [hjob] using hindex.symm
  | some job =>
    cases houtcome : outcomes[index]? with
    | none => simp [hjob, houtcome] at hindex
    | some outcome =>
      rw [hjob, houtcome] at hindex
      have hresult : job.result? = some outcome := Option.some.inj hindex
      rw [Option.map_some, Job.value_of_result hresult]

theorem exists_outcomes {jobs : List (Job β)} (h : ∀ job ∈ jobs, ∃ value, job.result? = some value) :
    ∃ outcomes : List β, jobs.map Job.result? = outcomes.map some := by
  induction jobs with
  | nil => exact ⟨[], rfl⟩
  | cons job rest ih =>
    obtain ⟨value, hvalue⟩ := h job List.mem_cons_self
    obtain ⟨values, hvalues⟩ := ih fun other hother => h other (List.mem_cons_of_mem _ hother)
    exact ⟨value :: values, by rw [List.map_cons, hvalue, hvalues]; rfl⟩

/-- Where no job has a step, the results are there. -/
theorem Batch.results_of_stuck {σ : Type} {executor : Executor σ} {batch : Batch σ β}
    (h : ∀ index, batch.step executor index = none) : ∃ outcomes, batch.results? = some outcomes := by
  have hover : ∀ job ∈ batch.jobs, ∃ value, job.result? = some value := by
    intro job hjob
    obtain ⟨index, hindex⟩ := List.getElem?_of_mem hjob
    have hstep := h index
    simp only [Batch.step, hindex, Option.bind_eq_bind, Option.bind_some] at hstep
    have hnone : job.step executor batch.session = none := by
      cases hjob : job.step executor batch.session with
      | none => rfl
      | some next =>
        rw [hjob] at hstep
        cases hstep
    exact Job.result_of_step_none hnone
  obtain ⟨outcomes, houtcomes⟩ := exists_outcomes hover
  exact ⟨outcomes, results_iff.mpr houtcomes⟩

/-! ## Batches of evaluations -/

section Evaluations

open Score

variable {α : Type} [Scalar α]

/-- The evaluation of an item by itself, in a session that remembers nothing. -/
def evaluatedAlone (answer : String → Answer) (config : Config α) (language : Language)
    (item : Item) : Evaluated α :=
  ((evaluation { config with cacheCapacity := 0 } language item).run (.ofFunction answer)
    (.start 0 ())).1

theorem evaluatedAlone_eq (answer : String → Answer) (config : Config α) (language : Language)
    (item : Item) :
    evaluatedAlone answer config language item =
      (evaluation config language item).value answer :=
  Plan.run_ofFunction answer _ (Session.faithful_start 0 ())

/-- An evaluation extracts two texts and runs two queries at most. -/
theorem steps_evaluation_le (answer : String → Answer) (config : Config α) (language : Language)
    (item : Item) : (evaluation config language item).steps answer ≤ 6 := by
  have hcompare : ∀ next : Option (RowComparison α) → Plan (Evaluated α),
      (∀ rows, (next rows).steps answer = 0) →
      (comparison config language item next).steps answer ≤ 2 := by
    intro next hnext
    -- behind the answer of the reference query there is one more query, or none
    have hafter : ∀ expected, (afterReference item next expected).steps answer ≤ 1 := by
      intro expected
      cases expected with
      | error _ => simp [afterReference, hnext]
      | ok rows =>
        simp only [afterReference, Plan.steps]
        cases answer item.script <;> simp [hnext]
    rw [comparison_eq, referenceAnswer]
    split
    · exact Nat.le_succ_of_le (hafter _)
    · exact Nat.succ_le_succ (hafter _)
  unfold evaluation
  split
  · simp only [Plan.steps]
    split
    · have := hcompare (fun c => .result (.ok (assess config language item
        (extract language (item.task.reference language)) (extract language item.script) c)))
        fun _ => rfl
      omega
    · simp [Plan.steps]
  · exact Nat.zero_le _

/-- **Sharing the cache is invisible in the results of a batch.** After any schedule of the jobs,
with any capacity: what is remembered of a text is its extraction, and no more than the capacity;
the results, once they are there, are in the order of the items, one for each, and each is that of
its item alone; while they are not there some job can move, and the moves are bounded. -/
theorem batch_eq_alone (answer : String → Answer) (config : Config α) (language : Language)
    (items : List Item) (schedule : List Nat) (batch : Batch Unit (Evaluated α))
    (hplay : (Batch.start (.start config.cacheCapacity ())
      (items.map (evaluation config language))).play (.ofFunction answer) schedule = some batch) :
    (∀ outcomes, batch.results? = some outcomes →
      outcomes = items.map (evaluatedAlone answer config language)) ∧
    ((∀ index, batch.step (.ofFunction answer) index = none) →
      batch.results? = some (items.map (evaluatedAlone answer config language))) ∧
    schedule.length ≤ 6 * items.length ∧
    batch.session.cache.entries.length ≤ config.cacheCapacity ∧
    (batch.session.cache.entries.map Prod.fst).Nodup ∧
    ∀ entry ∈ batch.session.cache.entries, entry.2 = extract entry.1.1 entry.1.2 := by
  have hstart := Batch.sound_start (Session.faithful_start config.cacheCapacity ())
    (items.map (evaluation config language))
  obtain ⟨hsound, hcapacity, hvalues, hsteps⟩ := Batch.play_sound hstart hplay
  have halone : batch.values answer = items.map (evaluatedAlone answer config language) := by
    rw [hvalues, Batch.values, Batch.start, List.map_map, List.map_map]
    exact List.map_congr_left fun item _ => (evaluatedAlone_eq answer config language item).symm
  refine ⟨fun outcomes houtcomes => ?_, fun hstuck => ?_, ?_, ?_, hsound.session.distinct,
    hsound.session.exact⟩
  · exact (Batch.results_eq houtcomes).trans halone
  · obtain ⟨outcomes, houtcomes⟩ := Batch.results_of_stuck hstuck
    rw [houtcomes, Batch.results_eq houtcomes, halone]
  · have hall : ∀ steps ∈ (Batch.start (.start config.cacheCapacity ())
        (items.map (evaluation config language))).jobs.map (Job.steps answer), steps ≤ 6 := by
      intro steps hmem
      simp only [Batch.start, List.map_map, List.mem_map] at hmem
      obtain ⟨item, -, rfl⟩ := hmem
      exact steps_evaluation_le answer config language item
    have hsum := List.sum_le_card_nsmul _ 6 hall
    simp only [Batch.start, List.length_map, nsmul_eq_mul, Nat.cast_id] at hsum
    simp only [Batch.steps, Batch.start] at hsteps
    omega
  · have hwithin := hsound.session.within
    rwa [hcapacity] at hwithin

/-- Two tasks with the same reference query. -/
def twoItems : List Item :=
  [⟨⟨"a", "", "RETURN 1", none⟩, "RETURN 1"⟩, ⟨⟨"b", "", "RETURN 1", none⟩, "RETURN 2"⟩]

/-- There is room for one structure. -/
def narrow : Config Float := { Config.standard with cacheCapacity := 1 }

/-- Both jobs miss the same text before either has stored it, and store it one after the other;
then each drops what the other one has stored. -/
theorem batch_eq_alone_twoItems : ∃ batch : Batch Unit (Evaluated Float),
    (Batch.start (.start narrow.cacheCapacity ()) (twoItems.map (evaluation narrow .cypher))).play
      (.ofFunction fun _ => .ok []) [0, 1, 0, 1, 1, 0, 1, 0, 0, 1, 1] = some batch ∧
    batch.results? = some (twoItems.map (evaluatedAlone (fun _ => .ok []) narrow .cypher)) := by
  have hover : ((Batch.start (.start narrow.cacheCapacity ())
      (twoItems.map (evaluation narrow .cypher))).play (.ofFunction fun _ => .ok [])
      [0, 1, 0, 1, 1, 0, 1, 0, 0, 1, 1]).any (fun batch => batch.results?.isSome) = true := by
    decide +kernel
  obtain ⟨batch, hplay, hresults⟩ := (Option.any_eq_true _ _).mp hover
  obtain ⟨outcomes, houtcomes⟩ := Option.isSome_iff_exists.mp hresults
  refine ⟨batch, hplay, ?_⟩
  rw [houtcomes, (batch_eq_alone _ narrow .cypher twoItems _ batch hplay).1 outcomes houtcomes]

end Evaluations

end QueryScore
