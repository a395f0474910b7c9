/-
# QueryScore.Proofs.Evaluation.Recent -- which keys a cache still knows

What a cache keeps is a function of the keys that were asked for: the distinct ones among them, the
most recently used first (`recent`), cut off at its capacity (`Log.Recalls`). So whether a value is
computed can be read off the history of the calls alone, whatever was computed in them, and a larger
cache knows at least what a smaller one knows. What is returned is what the last computation for the
key produced; a log of the computations runs along to say which one that is.
-/

import QueryScore.Proofs.Evaluation.Remembered
import Mathlib.Data.List.Induction

namespace QueryScore.Cache

variable {κ β : Type} [BEq κ]

/-! ## Calls -/

/-- A key, and what is computed for it where it is not kept. -/
abbrev Call (κ β : Type) := κ × (Unit → β)

/-- A cache, and the computations that were run, the latest first. -/
structure Log (κ β : Type) where
  /-- The cache. -/
  cache : Cache κ β
  /-- The keys with what was computed for them. -/
  computed : List (κ × β)

/-- The cache and the log after one more call. -/
def Log.call (log : Log κ β) (call : Call κ β) : Log κ β :=
  let fetched := log.cache.fetch call.1 call.2
  ⟨fetched.cache, if fetched.computed then (call.1, call.2 ()) :: log.computed else log.computed⟩

/-- **`logOf capacity calls`** -- the cache and the log after these calls, from an empty cache. -/
def logOf (capacity : Nat) (calls : List (Call κ β)) : Log κ β :=
  calls.foldl Log.call ⟨ofCapacity capacity, []⟩

theorem logOf_concat (capacity : Nat) (calls : List (Call κ β)) (call : Call κ β) :
    logOf capacity (calls ++ [call]) = (logOf capacity calls).call call := by
  unfold logOf
  rw [List.foldl_append]
  rfl

/-- **`recent keys`** -- the distinct keys, the most recently used first. -/
def recent (keys : List κ) : List κ := keys.reverse.eraseDups

/-- What a call comes to: a value that was kept moves to the front, any other is computed and stored. -/
theorem fetch_cases (cache : Cache κ β) (key : κ) (compute : Unit → β) :
    (∃ value, cache.entries.lookup key = some value ∧
      cache.fetch key compute = ⟨value, false, { cache with entries := (key, value) :: cache.others key }⟩) ∨
    (cache.entries.lookup key = none ∧
      cache.fetch key compute = ⟨compute (), true, cache.store key (compute ())⟩) := by
  unfold fetch lookup
  cases hlookup : cache.entries.lookup key with
  | some value => exact .inl ⟨value, rfl, rfl⟩
  | none => exact .inr ⟨rfl, rfl⟩

/-! ## The most recent keys -/

section Recent

variable [LawfulBEq κ]

theorem eraseDups_filter_ne (key : κ) : (keys : List κ) →
    (keys.filter fun k => !(k == key)).eraseDups = keys.eraseDups.filter fun k => !(k == key)
  | [] => rfl
  | k :: keys => by
    have ih := eraseDups_filter_ne key (keys.filter fun b => !(b == k))
    rw [List.eraseDups_cons, List.filter_cons, List.filter_cons]
    by_cases hk : k = key
    · subst hk
      have hgone : ∀ b ∈ (keys.filter fun b => !(b == k)).eraseDups, (!(b == k)) = true := by
        intro b hb
        exact (List.mem_filter.mp (List.mem_eraseDups.mp hb)).2
      simp [List.filter_eq_self.mpr hgone]
    · have hkeep : (!(k == key)) = true := by simpa using hk
      rw [if_pos hkeep, if_pos hkeep, List.eraseDups_cons, ← ih, List.filter_filter, List.filter_filter]
      simp only [Bool.and_comm]
termination_by keys => keys.length
decreasing_by exact Nat.lt_succ_of_le (List.length_filter_le _ _)

/-- A key that is used moves to the front. -/
theorem recent_concat (keys : List κ) (key : κ) :
    recent (keys ++ [key]) = key :: (recent keys).filter fun k => !(k == key) := by
  unfold recent
  rw [List.reverse_append, List.reverse_singleton, List.singleton_append, List.eraseDups_cons,
    eraseDups_filter_ne]

theorem nodup_recent (keys : List κ) : (recent keys).Nodup := by
  induction keys using List.reverseRecOn with
  | nil => exact List.nodup_nil
  | append_singleton keys key ih =>
    rw [recent_concat, List.nodup_cons]
    exact ⟨by simp, ih.filter _⟩

/-- One key is taken out of a list without repetitions: of the first `n + 1` keys, `n` at least are
left, so what is left begins the same. -/
theorem take_filter_ne {keys : List κ} (h : keys.Nodup) (key : κ) (n : Nat) :
    ((keys.take (n + 1)).filter fun k => !(k == key)).take n = (keys.filter fun k => !(k == key)).take n := by
  induction keys generalizing n with
  | nil => rfl
  | cons k keys ih =>
    obtain ⟨hnew, hrest⟩ := List.nodup_cons.mp h
    rw [List.take_succ_cons, List.filter_cons, List.filter_cons]
    by_cases hk : k = key
    · subst hk
      have hkeep : ∀ b ∈ keys, (!(b == k)) = true := by
        intro b hb
        have hne : b ≠ k := fun h => hnew (h ▸ hb)
        simpa using hne
      have hfirst : ∀ b ∈ keys.take n, (!(b == k)) = true := fun b hb => hkeep b (List.mem_of_mem_take hb)
      simp [List.filter_eq_self.mpr hkeep, List.filter_eq_self.mpr hfirst, List.take_take]
    · have hkeep : (!(k == key)) = true := by simpa using hk
      rw [if_pos hkeep, if_pos hkeep]
      cases n with
      | zero => rfl
      | succ n => rw [List.take_succ_cons, List.take_succ_cons, ih hrest n]

/-- The keys that are kept after a call, from those that were kept before it. -/
theorem take_recent_concat (keys : List κ) (key : κ) (capacity : Nat) :
    (key :: ((recent keys).take capacity).filter fun k => !(k == key)).take capacity =
      (recent (keys ++ [key])).take capacity := by
  rw [recent_concat]
  cases capacity with
  | zero => rfl
  | succ n => rw [List.take_succ_cons, List.take_succ_cons, take_filter_ne (nodup_recent keys)]

end Recent

/-! ## What a cache recalls -/

/-- **`log.Recalls capacity keys`** -- after calls for these keys the cache keeps the most recent of
them, each with what was computed for it last. -/
structure Log.Recalls (log : Log κ β) (capacity : Nat) (keys : List κ) : Prop where
  within : log.cache.capacity = capacity
  kept : log.cache.entries.map Prod.fst = (recent keys).take capacity
  values : ∀ entry ∈ log.cache.entries, log.computed.lookup entry.1 = some entry.2

variable [LawfulBEq κ] {log : Log κ β} {capacity : Nat} {keys : List κ} {key : κ} {compute : Unit → β}

omit [LawfulBEq κ] in
theorem recalls_ofCapacity (capacity : Nat) : (⟨ofCapacity capacity, []⟩ : Log κ β).Recalls capacity [] where
  within := rfl
  kept := List.take_nil.symm
  values := fun _ h => absurd h List.not_mem_nil

omit [LawfulBEq κ] in
theorem keys_others (cache : Cache κ β) (key : κ) :
    (cache.others key).map Prod.fst = (cache.entries.map Prod.fst).filter fun k => !(k == key) := by
  unfold others
  rw [List.filter_map]
  rfl

omit [LawfulBEq κ] in
theorem Log.Recalls.length_le (h : log.Recalls capacity keys) : log.cache.entries.length ≤ capacity := by
  rw [← List.length_map Prod.fst, h.kept]
  exact List.length_take_le _ _

/-- **A value is computed exactly if its key is not among the most recent ones.** -/
theorem Log.Recalls.computed_iff (h : log.Recalls capacity keys) :
    (log.cache.fetch key compute).computed = true ↔ key ∉ (recent keys).take capacity := by
  rw [← h.kept]
  rcases fetch_cases log.cache key compute with ⟨value, hfound, hfetch⟩ | ⟨hnone, hfetch⟩
  · have hmem : key ∈ log.cache.entries.map Prod.fst := List.mem_map_of_mem (f := Prod.fst) (mem_of_lookup hfound)
    simp [hfetch, hmem]
  · have hnew : key ∉ log.cache.entries.map Prod.fst := by
      intro hmem
      obtain ⟨entry, hentry, hkey⟩ := List.mem_map.mp hmem
      have hother := List.lookup_eq_none_iff.mp hnone entry hentry
      simp [hkey] at hother
    simp [hfetch, hnew]

/-- **What is returned is what the last computation for the key produced**, the one of this call if
there was one. -/
theorem Log.Recalls.lookup_computed (h : log.Recalls capacity keys) :
    (log.call (key, compute)).computed.lookup key = some (log.cache.fetch key compute).value := by
  unfold Log.call
  rcases fetch_cases log.cache key compute with ⟨value, hfound, hfetch⟩ | ⟨-, hfetch⟩
  · simp only [hfetch]
    exact h.values (key, value) (mem_of_lookup hfound)
  · simp [hfetch]

/-- What is kept under other keys is what was kept before, and nothing was computed for them. -/
theorem Log.Recalls.values_front (h : log.Recalls capacity keys) {computed : List (κ × β)} {value : β}
    (hvalue : computed.lookup key = some value)
    (hothers : ∀ k, k ≠ key → computed.lookup k = log.computed.lookup k) :
    ∀ entry ∈ (key, value) :: log.cache.others key, computed.lookup entry.1 = some entry.2 := by
  intro entry hentry
  rcases List.mem_cons.mp hentry with rfl | hentry
  · exact hvalue
  · obtain ⟨hmem, hother⟩ := List.mem_filter.mp hentry
    rw [hothers entry.1 (by simpa using hother)]
    exact h.values entry hmem

/-- **One more call**: its key becomes the most recent one. -/
theorem Log.Recalls.call (h : log.Recalls capacity keys) :
    (log.call (key, compute)).Recalls capacity (keys ++ [key]) := by
  have hvalue : (log.call (key, compute)).computed.lookup key = some (log.cache.fetch key compute).value :=
    h.lookup_computed
  have hkeys (value : β) : ((key, value) :: log.cache.others key).map Prod.fst =
      key :: ((recent keys).take capacity).filter fun k => !(k == key) := by
    rw [List.map_cons, keys_others, h.kept]
  unfold Log.call at hvalue ⊢
  rcases fetch_cases log.cache key compute with ⟨value, hfound, hfetch⟩ | ⟨hnone, hfetch⟩
  · simp only [hfetch, Bool.false_eq_true, if_false] at hvalue ⊢
    -- the key had a value before, so that moving it to the front adds none
    have hlength : (key :: ((recent keys).take capacity).filter fun k => !(k == key)).length ≤ capacity := by
      rw [← hkeys value, List.length_map, List.length_cons]
      exact Nat.le_trans (length_others_lt (mem_of_lookup hfound)) h.length_le
    refine ⟨h.within, ?_, h.values_front hvalue fun _ _ => rfl⟩
    rw [hkeys, ← take_recent_concat, List.take_of_length_le hlength]
  · simp only [hfetch, if_true] at hvalue ⊢
    have hothers : ∀ k, k ≠ key → ((key, compute ()) :: log.computed).lookup k = log.computed.lookup k := by
      intro k hk
      rw [List.lookup_cons, beq_false_of_ne hk]
    refine ⟨h.within, ?_, fun entry hentry => h.values_front hvalue hothers entry (List.mem_of_mem_take hentry)⟩
    show (((key, compute ()) :: log.cache.others key).take log.cache.capacity).map Prod.fst = _
    rw [List.map_take, hkeys, h.within, take_recent_concat]

theorem recalls_logOf (capacity : Nat) (calls : List (Call κ β)) :
    (logOf capacity calls).Recalls capacity (calls.map Prod.fst) := by
  induction calls using List.reverseRecOn with
  | nil => exact recalls_ofCapacity capacity
  | append_singleton calls call ih =>
    rw [logOf_concat, List.map_append]
    exact ih.call

omit [LawfulBEq κ] in
theorem Log.Recalls.size (h : log.Recalls capacity keys) : log.cache.size = min capacity (recent keys).length := by
  unfold Cache.size
  rw [← List.length_map Prod.fst, h.kept, List.length_take]

/-- **What a cache knows after any calls.** A call computes exactly if its key is not among the most
recently used distinct keys of the calls before it, as many of them as the capacity says; it returns what
the last computation for that key produced, its own included; and afterwards as many values are
kept as there are distinct keys, or as the capacity allows. So a cache without capacity computes every
time and stays empty, and what a smaller cache knows, a larger one knows after the same calls. -/
theorem fetch_recent (capacity : Nat) (calls : List (Call κ β)) (key : κ) (compute : Unit → β) :
    (((logOf capacity calls).cache.fetch key compute).computed = true ↔
      key ∉ (recent (calls.map Prod.fst)).take capacity) ∧
    (logOf capacity (calls ++ [(key, compute)])).computed.lookup key =
      some ((logOf capacity calls).cache.fetch key compute).value ∧
    ((logOf capacity calls).cache.fetch key compute).cache.size =
      min capacity (recent (calls.map Prod.fst ++ [key])).length ∧
    (capacity = 0 → ((logOf capacity calls).cache.fetch key compute).computed = true ∧
      ((logOf capacity calls).cache.fetch key compute).cache.isEmpty = true) ∧
    ∀ larger, capacity ≤ larger → ((logOf capacity calls).cache.fetch key compute).computed = false →
      ((logOf larger calls).cache.fetch key compute).computed = false := by
  have h := recalls_logOf capacity calls
  have hcall : ((logOf capacity calls).call (key, compute)).Recalls capacity (calls.map Prod.fst ++ [key]) := h.call
  have hsize : ((logOf capacity calls).cache.fetch key compute).cache.size =
      min capacity (recent (calls.map Prod.fst ++ [key])).length := hcall.size
  refine ⟨h.computed_iff, ?_, hsize, ?_, ?_⟩
  · rw [logOf_concat]
    exact h.lookup_computed
  · rintro rfl
    refine ⟨h.computed_iff.mpr (by simp), ?_⟩
    rw [Nat.zero_min] at hsize
    exact List.isEmpty_iff_length_eq_zero.mpr hsize
  · intro larger hle hkept
    have hrecent : key ∈ (recent (calls.map Prod.fst)).take capacity := by
      by_contra hnew
      rw [h.computed_iff.mpr hnew] at hkept
      cases hkept
    have hmore := (List.take_sublist_take_left hle).subset hrecent
    rw [Bool.eq_false_iff]
    intro hcomputed
    exact (recalls_logOf larger calls).computed_iff.mp hcomputed hmore

/-- Four calls for three keys, numbered. -/
def fourCalls : List (Call (Language × String) Nat) :=
  [((.sql, "a"), fun _ => 1), ((.sql, "b"), fun _ => 2), ((.sql, "a"), fun _ => 3), ((.cypher, "a"), fun _ => 4)]

theorem fetch_recent_fourCalls :
    ((logOf 2 fourCalls).cache.fetch (.sql, "b") fun _ => 5).computed = true ∧
      ((logOf 3 fourCalls).cache.fetch (.sql, "b") fun _ => 5).computed = false ∧
      ((logOf 3 fourCalls).cache.fetch (.sql, "b") fun _ => 5).value = 2 ∧
      ((logOf 4 fourCalls).cache.fetch (.sql, "b") fun _ => 5).computed = false ∧
      ((logOf 4 fourCalls).cache.fetch (.sql, "b") fun _ => 5).cache.size = 3 ∧
      ((logOf 0 fourCalls).cache.fetch (.sql, "b") fun _ => 5).cache.isEmpty = true := by
  obtain ⟨hsmall, -⟩ := fetch_recent 2 fourCalls (.sql, "b") fun _ => 5
  obtain ⟨hthree, hvalue, -, -, hlarger⟩ := fetch_recent 3 fourCalls (.sql, "b") fun _ => 5
  obtain ⟨-, -, hsize, -⟩ := fetch_recent 4 fourCalls (.sql, "b") fun _ => 5
  obtain ⟨-, -, -, hnone, -⟩ := fetch_recent 0 fourCalls (.sql, "b") fun _ => 5
  have hkept : ((logOf 3 fourCalls).cache.fetch (.sql, "b") fun _ => 5).computed = false :=
    Bool.eq_false_iff.mpr fun h => hthree.mp h (by decide)
  have hlog : (logOf 3 (fourCalls ++ [((.sql, "b"), fun _ => 5)])).computed.lookup (.sql, "b") = some 2 := by decide
  exact ⟨hsmall.mpr (by decide), hkept, (Option.some.inj (hlog.symm.trans hvalue)).symm, hlarger 4 (by decide) hkept,
    hsize, (hnone rfl).2⟩

end QueryScore.Cache
