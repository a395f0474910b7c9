/-
# QueryScore.Proofs.Evaluation.Remembered -- a cache changes no result

A cache is faithful to a function if it keeps at most as many values as its capacity, each under
a key of its own, and each the one that the function gives for that key. Looking up and storing
keep a cache faithful (`Faithful.lookup`, `Faithful.store`), whatever was dropped in between, so a
value that is found is the value that would be computed.

For plans this means that a session with a faithful cache only decides what the executor answers:
a run follows a path of the plan on which every structure is the extraction of its text
(`Plan.exists_path`). With an executor that is a function there is one such path, and its end is
the value of the plan (`Plan.run_ofFunction`).
-/

import QueryScore.Evaluation.Plan
import Mathlib.Data.List.Basic

namespace QueryScore

/-! ## Faithful caches -/

namespace Cache

variable {κ β : Type} [BEq κ] [LawfulBEq κ] {f : κ → β} {cache : Cache κ β} {key : κ} {value : β}

/-- **`Faithful f cache`** -- the cache keeps values of `f`, one for a key and not too many. -/
structure Faithful (f : κ → β) (cache : Cache κ β) : Prop where
  /-- There are no more values than the capacity. -/
  within : cache.entries.length ≤ cache.capacity
  /-- No key has two values. -/
  distinct : (cache.entries.map Prod.fst).Nodup
  /-- Each value is that of its key. -/
  exact : ∀ entry ∈ cache.entries, entry.2 = f entry.1

omit [BEq κ] [LawfulBEq κ] in
theorem faithful_ofCapacity (f : κ → β) (capacity : Nat) :
    (ofCapacity capacity : Cache κ β).Faithful f :=
  ⟨Nat.zero_le _, List.nodup_nil, fun _ h => absurd h List.not_mem_nil⟩

omit [LawfulBEq κ] in
theorem others_sublist (cache : Cache κ β) (key : κ) :
    (cache.others key).Sublist cache.entries :=
  List.filter_sublist

theorem not_mem_keys_others (cache : Cache κ β) (key : κ) :
    key ∉ (cache.others key).map Prod.fst := by
  intro h
  obtain ⟨entry, hmem, rfl⟩ := List.mem_map.mp h
  simp [others] at hmem

theorem mem_of_lookup {entries : List (κ × β)} (h : entries.lookup key = some value) :
    (key, value) ∈ entries := by
  induction entries with
  | nil => cases h
  | cons entry rest ih =>
    obtain ⟨key', value'⟩ := entry
    rw [List.lookup_cons] at h
    by_cases hkey : (key == key') = true
    · rw [hkey] at h
      cases h
      rw [eq_of_beq hkey]
      exact List.mem_cons_self
    · rw [Bool.eq_false_iff.mpr hkey] at h
      exact List.mem_cons_of_mem _ (ih h)

/-- Where a key has a value, the other keys are fewer. -/
theorem length_others_lt (h : (key, value) ∈ cache.entries) :
    (cache.others key).length < cache.entries.length := by
  apply List.length_filter_lt_length_iff_exists.mpr
  exact ⟨(key, value), h, by simp⟩

/-- A key with its value in front of the others: still one value for a key, each its own. -/
theorem Faithful.front (h : cache.Faithful f) :
    (((key, f key) :: cache.others key).map Prod.fst).Nodup ∧
      ∀ entry ∈ (key, f key) :: cache.others key, entry.2 = f entry.1 := by
  have hsub := cache.others_sublist key
  constructor
  · rw [List.map_cons, List.nodup_cons]
    exact ⟨cache.not_mem_keys_others key, (hsub.map Prod.fst).nodup h.distinct⟩
  · intro entry hentry
    rcases List.mem_cons.mp hentry with rfl | hentry
    · rfl
    · exact h.exact entry (hsub.subset hentry)

/-- A value that is found is the value of its key. -/
theorem Faithful.lookup_eq (h : cache.Faithful f) (hfound : (cache.lookup key).1 = some value) :
    value = f key := by
  have hlookup : cache.entries.lookup key = some value := by
    unfold lookup at hfound
    split at hfound
    · next _ heq => rwa [heq]
    · cases hfound
  exact h.exact (key, value) (mem_of_lookup hlookup)

theorem Faithful.lookup (h : cache.Faithful f) (key : κ) : (cache.lookup key).2.Faithful f := by
  cases hlookup : cache.entries.lookup key with
  | none =>
    have hsame : (cache.lookup key).2 = cache := by simp [Cache.lookup, hlookup]
    rwa [hsame]
  | some value =>
    have hmem := mem_of_lookup hlookup
    have hvalue : value = f key := h.exact _ hmem
    subst hvalue
    have hnext : (cache.lookup key).2 =
        { cache with entries := (key, f key) :: cache.others key } := by
      simp [Cache.lookup, hlookup]
    rw [hnext]
    -- the key had a value before, so that moving it to the front adds none
    have hlength : (cache.others key).length + 1 ≤ cache.capacity :=
      Nat.le_trans (length_others_lt hmem) h.within
    exact ⟨hlength, h.front.1, h.front.2⟩

theorem Faithful.store (h : cache.Faithful f) (key : κ) : (cache.store key (f key)).Faithful f := by
  have hsub : (cache.store key (f key)).entries.Sublist ((key, f key) :: cache.others key) :=
    List.take_sublist _ _
  refine ⟨?_, (hsub.map Prod.fst).nodup h.front.1, ?_⟩
  · exact List.length_take_le _ _
  · intro entry hentry
    exact h.front.2 entry (hsub.subset hentry)

omit [LawfulBEq κ] in
@[simp] theorem capacity_lookup (cache : Cache κ β) (key : κ) :
    (cache.lookup key).2.capacity = cache.capacity := by
  unfold Cache.lookup
  split <;> rfl

omit [LawfulBEq κ] in
@[simp] theorem capacity_store (cache : Cache κ β) (key : κ) (value : β) :
    (cache.store key value).capacity = cache.capacity := rfl

/-- **What is fetched is what would be computed**, and the cache stays faithful. -/
theorem Faithful.fetch (h : cache.Faithful f) (key : κ) :
    (cache.fetch key fun _ => f key).value = f key ∧
      (cache.fetch key fun _ => f key).cache.Faithful f ∧
      (cache.fetch key fun _ => f key).cache.capacity = cache.capacity := by
  unfold Cache.fetch
  have hnext := h.lookup key
  have hcapacity := cache.capacity_lookup key
  cases hlookup : cache.lookup key with
  | mk found next =>
    rw [hlookup] at hnext hcapacity
    cases found with
    | none => exact ⟨rfl, hnext.store key, hcapacity⟩
    | some value => exact ⟨h.lookup_eq (by rw [hlookup]), hnext, hcapacity⟩

end Cache

/-! ## Faithful sessions -/

variable {σ β : Type}

/-- The structure of a text in a language, by key. -/
def extraction (key : Language × String) : Structure := extract key.1 key.2

/-- **`session.Faithful`** -- what is remembered of texts are their extractions. -/
def Session.Faithful (session : Session σ) : Prop := session.cache.Faithful extraction

theorem Session.faithful_start (capacity : Nat) (store : σ) :
    (Session.start capacity store).Faithful :=
  Cache.faithful_ofCapacity extraction capacity

/-! ## Paths of plans -/

/-- **`Path plan asked value`** -- with the answers of `asked` to the queries of `asked`, and with
every structure the extraction of its text, the plan comes to `value`. -/
inductive Plan.Path : Plan β → List (String × Answer) → β → Prop where
  /-- The plan is over. -/
  | result (value : β) : Path (.result value) [] value
  /-- A text is extracted. -/
  | structureOf {language : Language} {text : String} {next : Structure → Plan β}
      {asked : List (String × Answer)} {value : β} :
      Path (next (extract language text)) asked value →
      Path (.structureOf language text next) asked value
  /-- A query is answered. -/
  | answerOf {query : String} {next : Answer → Plan β} (answer : Answer)
      {asked : List (String × Answer)} {value : β} :
      Path (next answer) asked value →
      Path (.answerOf query next) ((query, answer) :: asked) value

/-- **`Answers executor store asked store'`** -- the executor gives these answers to these queries,
one after the other, and becomes `store'`. -/
def Executor.Answers (executor : Executor σ) : σ → List (String × Answer) → σ → Prop
  | store, [], store' => store' = store
  | store, (query, answer) :: rest, store' =>
    (executor query store).1 = answer ∧ executor.Answers (executor query store).2 rest store'

/-- Where the executor keeps to a rule in every state, so do its answers. -/
theorem Executor.Answers.keeps {executor : Executor σ} (rule : String → Answer → Prop)
    (hrule : ∀ query store, rule query (executor query store).1)
    {asked : List (String × Answer)} {store store' : σ} (h : executor.Answers store asked store') :
    ∀ entry ∈ asked, rule entry.1 entry.2 := by
  induction asked generalizing store with
  | nil => exact fun _ hmem => absurd hmem List.not_mem_nil
  | cons entry rest ih =>
    obtain ⟨hanswer, hrest⟩ := h
    intro entry' hmem
    rcases List.mem_cons.mp hmem with rfl | hmem
    · rw [← hanswer]
      exact hrule _ _
    · exact ih hrest entry' hmem

/-- **A run follows a path of its plan.** Its answers are those of the executor, each of which is
counted, and the session stays faithful. -/
theorem Plan.exists_path (executor : Executor σ) (plan : Plan β) {session : Session σ}
    (hsession : session.Faithful) :
    ∃ asked, plan.Path asked (plan.run executor session).1 ∧
      executor.Answers session.store asked (plan.run executor session).2.store ∧
      (plan.run executor session).2.calls = session.calls + asked.length ∧
      (plan.run executor session).2.Faithful := by
  induction plan generalizing session with
  | result value => exact ⟨[], .result value, rfl, rfl, hsession⟩
  | structureOf language text next ih =>
    obtain ⟨hvalue, hcache, -⟩ := Cache.Faithful.fetch hsession (language, text)
    change (session.cache.fetch (language, text) fun _ => extract language text).value =
      extract language text at hvalue
    rw [Plan.run, hvalue]
    have hnext : ({ session with cache := (session.cache.fetch (language, text)
        fun _ => extract language text).cache } : Session σ).Faithful := hcache
    obtain ⟨asked, hpath, hrest⟩ := ih (extract language text) hnext
    exact ⟨asked, .structureOf hpath, hrest⟩
  | answerOf query next ih =>
    rw [Plan.run]
    have hnext : (session.ask executor query).2.Faithful := hsession
    obtain ⟨asked, hpath, hanswers, hcalls, hfaithful⟩ := ih (session.ask executor query).1 hnext
    refine ⟨(query, (session.ask executor query).1) :: asked, .answerOf _ hpath, ⟨rfl, hanswers⟩,
      ?_, hfaithful⟩
    rw [hcalls, List.length_cons]
    show session.calls + 1 + asked.length = session.calls + (asked.length + 1)
    omega

/-- A path whose answers are those of a function ends in the value of the plan. -/
theorem Plan.Path.value_eq {answer : String → Answer} {plan : Plan β}
    {asked : List (String × Answer)} {value : β} (h : plan.Path asked value)
    (hasked : ∀ entry ∈ asked, entry.2 = answer entry.1) : value = plan.value answer := by
  induction h with
  | result value => rfl
  | structureOf _ ih => exact ih hasked
  | answerOf found _ ih =>
    have hfound := hasked _ List.mem_cons_self
    rw [Plan.value, ← hfound]
    exact ih fun entry hmem => hasked entry (List.mem_cons_of_mem _ hmem)

/-- **With an executor that is a function of the query, a run gives the value of its plan** in any
session whose cache is faithful. -/
theorem Plan.run_ofFunction (answer : String → Answer) (plan : Plan β) {session : Session Unit}
    (hsession : session.Faithful) :
    (plan.run (.ofFunction answer) session).1 = plan.value answer := by
  obtain ⟨asked, hpath, hanswers, -, -⟩ := plan.exists_path (.ofFunction answer) hsession
  exact hpath.value_eq (hanswers.keeps (fun query found => found = answer query)
    fun _ _ => rfl)

/-- Plans that run one after the other leave a faithful session. -/
theorem faithful_runAll (executor : Executor σ) (plans : List (Plan β)) {session : Session σ}
    (hsession : session.Faithful) : (runAll executor plans session).2.Faithful := by
  induction plans generalizing session with
  | nil => exact hsession
  | cons plan rest ih =>
    obtain ⟨-, -, -, -, hfaithful⟩ := plan.exists_path executor hsession
    exact ih hfaithful

end QueryScore
