/-
# QueryScore.Evaluation.Plan -- what an evaluation asks for, step by step

An evaluation needs structures of texts and answers to queries, and what it asks for next may
depend on what it got. A plan says just that, so one description serves every way of carrying
it out: `Plan.run` carries it out in one go with the cache and the executor of a session,
`Plan.value` without either, and a batch interleaves the steps of many plans.

A batch carries out its plans by jobs that share one session and take turns in any order. The
cache is not held while a text is extracted: a job looks the text up in one step and stores its
structure in a later one, and other jobs may step in between. Results are listed in the order
of the plans, whichever job is first.
-/

import QueryScore.Cache
import QueryScore.Execution.Supervision
import QueryScore.Extraction

namespace QueryScore

/-- What is asked for until there is a result. -/
inductive Plan (β : Type) where
  /-- The result is there. -/
  | result (value : β)
  /-- The structure of a text is needed. -/
  | structureOf (language : Language) (text : String) (next : Structure → Plan β)
  /-- The answer to a query is needed. -/
  | answerOf (query : String) (next : Answer → Plan β)

/-- The result of a plan when every query has one answer and nothing is remembered. -/
def Plan.value {β : Type} (answer : String → Answer) : Plan β → β
  | .result value => value
  | .structureOf language text next => (next (extract language text)).value answer
  | .answerOf query next => (next (answer query)).value answer

/-! ## Sessions -/

/-- Something that answers queries and may change by that. -/
abbrev Executor (σ : Type) := String → σ → Answer × σ

/-- An executor that is a function of the text of the query. -/
def Executor.ofFunction (answer : String → Answer) : Executor Unit := fun query s =>
  (answer query, s)

/-- What evaluations leave behind for those that follow. -/
structure Session (σ : Type) where
  /-- The structures that were extracted last. -/
  cache : Cache (Language × String) Structure
  /-- What the executor has become. -/
  store : σ
  /-- How often the executor was asked. -/
  calls : Nat

/-- A session that has done nothing. -/
def Session.start {σ : Type} (capacity : Nat) (store : σ) : Session σ :=
  ⟨.ofCapacity capacity, store, 0⟩

variable {σ β : Type}

/-- The answer to a query, and the session afterwards. -/
def Session.ask (session : Session σ) (executor : Executor σ) (query : String) :
    Answer × Session σ :=
  let (answer, store) := executor query session.store
  (answer, { session with store, calls := session.calls + 1 })

/-- The result of a plan that is carried out in one go, and the session afterwards. -/
def Plan.run (executor : Executor σ) : Plan β → Session σ → β × Session σ
  | .result value, session => (value, session)
  | .structureOf language text next, session =>
    let fetched := session.cache.fetch (language, text) fun _ => extract language text
    (next fetched.value).run executor { session with cache := fetched.cache }
  | .answerOf query next, session =>
    let (answer, session) := session.ask executor query
    (next answer).run executor session

/-- The results of plans that are carried out one after the other. -/
def runAll (executor : Executor σ) : List (Plan β) → Session σ → List β × Session σ
  | [], session => ([], session)
  | plan :: rest, session =>
    let (value, session) := plan.run executor session
    let (values, session) := runAll executor rest session
    (value :: values, session)

/-! ## Batches -/

/-- A plan that is being carried out. -/
inductive Job (β : Type) where
  /-- The plan goes on from here. -/
  | active (plan : Plan β)
  /-- A structure was extracted and has yet to be stored. -/
  | storing (language : Language) (text : String) (found : Structure) (next : Structure → Plan β)

/-- The result of a job that is over. -/
def Job.result? : Job β → Option β
  | .active (.result value) => some value
  | _ => none

/-- **The next step of a job** in a shared session; a job that is over has none. -/
def Job.step (executor : Executor σ) (session : Session σ) : Job β → Option (Session σ × Job β)
  | .active (.result _) => none
  | .active (.structureOf language text next) =>
    match session.cache.lookup (language, text) with
    | (some found, cache) => some ({ session with cache }, .active (next found))
    | (none, cache) =>
      some ({ session with cache }, .storing language text (extract language text) next)
  | .active (.answerOf query next) =>
    let (answer, session) := session.ask executor query
    some (session, .active (next answer))
  | .storing language text found next =>
    let cache := session.cache.store (language, text) found
    some ({ session with cache }, .active (next found))

/-- Jobs in progress in one session. -/
structure Batch (σ β : Type) where
  /-- The session. -/
  session : Session σ
  /-- The jobs, in the order of their plans. -/
  jobs : List (Job β)

/-- All plans are about to begin. -/
def Batch.start (session : Session σ) (plans : List (Plan β)) : Batch σ β :=
  ⟨session, plans.map .active⟩

/-- A step of one of the jobs. -/
def Batch.step (executor : Executor σ) (batch : Batch σ β) (index : Nat) :
    Option (Batch σ β) := do
  let job ← batch.jobs[index]?
  let (session, job) ← job.step executor batch.session
  pure ⟨session, batch.jobs.set index job⟩

/-- The steps of a schedule, which names the job that moves. -/
def Batch.play (executor : Executor σ) (batch : Batch σ β) : List Nat → Option (Batch σ β)
  | [] => some batch
  | index :: rest => (batch.step executor index).bind (·.play executor rest)

/-- The results in the order of the plans, once all jobs are over. -/
def Batch.results? (batch : Batch σ β) : Option (List β) := batch.jobs.mapM Job.result?

end QueryScore
