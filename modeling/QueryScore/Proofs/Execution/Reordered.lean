/-
# QueryScore.Proofs.Execution.Reordered -- recorded results in another order

The entries of a file of results are handed on in any order. What a query may then be answered is exactly
this: the rows of any of the entries whose text differs from it in blanks only, or, where there is none,
that nothing is recorded (`exists_order_iff`). So the order does not matter exactly if texts that differ in
blanks only have the same rows (`answer_reordered_iff`). A file may well break this, since blanks also
count inside the strings of a query (`answer_reordered_ne`).
-/

import QueryScore.Execution.Recorded
import Mathlib.Data.List.Induction
import Mathlib.Data.List.Perm.Basic

namespace QueryScore.RecordedResults

/-- **`SameQuery a b`** -- the texts differ in blanks only. -/
def SameQuery (a b : String) : Prop := Text.collapse a.toList = Text.collapse b.toList

/-- **`Consistent entries`** -- texts that differ in blanks only have the same rows. -/
def Consistent (entries : List (String × Rows)) : Prop :=
  ∀ a ∈ entries, ∀ b ∈ entries, SameQuery a.1 b.1 → a.2 = b.2

/-- What is said where nothing is recorded. -/
def unrecorded : Answer := .error (.query "no recorded result for query")

variable {entries order : List (String × Rows)} {query other : String} {rows : Rows}

/-! ## What one entry does -/

theorem find?_insert_of_same (results : RecordedResults) (h : SameQuery query other) :
    (results.insert query rows).find? other = some rows := by
  unfold find? insert
  rw [List.lookup_cons, beq_iff_eq.mpr h.symm]

theorem find?_insert_of_not_same (results : RecordedResults) (h : ¬ SameQuery query other) :
    (results.insert query rows).find? other = results.find? other := by
  have hne : Text.collapse other.toList ≠ Text.collapse query.toList := fun heq => h heq.symm
  unfold find? insert
  rw [List.lookup_cons, beq_false_of_ne hne]
  show (results.entries.filter fun entry => entry.1 != Text.collapse query.toList).lookup _ = _
  -- the entries that gave way have another key than the one that is looked up
  induction results.entries with
  | nil => rfl
  | cons entry rest ih =>
    by_cases hentry : entry.1 = Text.collapse query.toList
    · have hother : Text.collapse other.toList ≠ entry.1 := by rwa [hentry]
      rw [List.filter_cons_of_neg (by simp [hentry]), ih, List.lookup_cons, beq_false_of_ne hother]
    · rw [List.filter_cons_of_pos (by simp [hentry]), List.lookup_cons, List.lookup_cons, ih]

theorem ofList_concat (entries : List (String × Rows)) (entry : String × Rows) :
    ofList (entries ++ [entry]) = (ofList entries).insert entry.1 entry.2 := by
  unfold ofList
  rw [List.foldl_append]
  rfl

/-- The last entry for a query is found. -/
theorem answer_concat (entries : List (String × Rows)) (entry : String × Rows) :
    (ofList (entries ++ [entry])).answer entry.1 = .ok entry.2 := by
  unfold answer
  rw [ofList_concat, find?_insert_of_same _ rfl]

/-! ## What many entries do -/

/-- What is found comes from an entry whose text differs in blanks only. -/
theorem exists_of_find?_ofList (h : (ofList entries).find? query = some rows) :
    ∃ entry ∈ entries, SameQuery entry.1 query ∧ entry.2 = rows := by
  induction entries using List.reverseRecOn with
  | nil => cases h
  | append_singleton entries entry ih =>
    rw [ofList_concat] at h
    by_cases hsame : SameQuery entry.1 query
    · rw [find?_insert_of_same _ hsame] at h
      exact ⟨entry, by simp, hsame, Option.some.inj h⟩
    · rw [find?_insert_of_not_same _ hsame] at h
      obtain ⟨found, hmem, hfound⟩ := ih h
      exact ⟨found, List.mem_append_left _ hmem, hfound⟩

/-- Where an entry has such a text, something is found. -/
theorem isSome_find?_ofList {entry : String × Rows} (hmem : entry ∈ entries) (hsame : SameQuery entry.1 query) :
    ((ofList entries).find? query).isSome = true := by
  induction entries using List.reverseRecOn with
  | nil => cases hmem
  | append_singleton entries last ih =>
    rw [ofList_concat]
    by_cases hlast : SameQuery last.1 query
    · rw [find?_insert_of_same _ hlast]
      rfl
    · rw [find?_insert_of_not_same _ hlast]
      rcases List.mem_append.mp hmem with hmem | hmem
      · exact ih hmem
      · obtain rfl := List.mem_singleton.mp hmem
        exact absurd hsame hlast

/-- **What a query is answered**: the rows of one of its entries, or that there is none. -/
theorem answer_cases (entries : List (String × Rows)) (query : String) :
    (∃ entry ∈ entries, SameQuery entry.1 query ∧ (ofList entries).answer query = .ok entry.2) ∨
    ((∀ entry ∈ entries, ¬ SameQuery entry.1 query) ∧ (ofList entries).answer query = unrecorded) := by
  unfold answer
  cases hfind : (ofList entries).find? query with
  | some rows =>
    obtain ⟨entry, hmem, hsame, rfl⟩ := exists_of_find?_ofList hfind
    exact .inl ⟨entry, hmem, hsame, rfl⟩
  | none =>
    refine .inr ⟨fun entry hmem hsame => ?_, rfl⟩
    have hsome := isSome_find?_ofList hmem hsame
    rw [hfind] at hsome
    cases hsome

/-! ## Entries in any order -/

/-- Every entry may be the last one. -/
theorem exists_order_of_mem {entry : String × Rows} (h : entry ∈ entries) :
    ∃ order, order.Perm entries ∧ (ofList order).answer entry.1 = .ok entry.2 := by
  obtain ⟨before, after, rfl⟩ := List.append_of_mem h
  refine ⟨before ++ after ++ [entry], ?_, answer_concat _ _⟩
  exact (List.perm_append_singleton entry _).trans List.perm_middle.symm

/-- Texts that differ in blanks only are answered alike. -/
theorem answer_of_same (results : RecordedResults) (h : SameQuery query other) :
    results.answer query = results.answer other := by
  unfold answer find?
  rw [h]

/-- **What a query may be answered**, depending on the order of the entries. -/
theorem exists_order_iff (entries : List (String × Rows)) (query : String) (given : Answer) :
    (∃ order, order.Perm entries ∧ (ofList order).answer query = given) ↔
      (∃ entry ∈ entries, SameQuery entry.1 query ∧ given = .ok entry.2) ∨
      ((∀ entry ∈ entries, ¬ SameQuery entry.1 query) ∧ given = unrecorded) := by
  constructor
  · rintro ⟨order, hperm, rfl⟩
    rcases answer_cases order query with ⟨entry, hmem, hsame, hanswer⟩ | ⟨hnone, hanswer⟩
    · exact .inl ⟨entry, hperm.mem_iff.mp hmem, hsame, hanswer⟩
    · exact .inr ⟨fun entry hmem => hnone entry (hperm.mem_iff.mpr hmem), hanswer⟩
  · rintro (⟨entry, hmem, hsame, rfl⟩ | ⟨hnone, rfl⟩)
    · obtain ⟨order, hperm, hanswer⟩ := exists_order_of_mem hmem
      exact ⟨order, hperm, (answer_of_same _ hsame).symm.trans hanswer⟩
    · refine ⟨entries, .refl _, ?_⟩
      rcases answer_cases entries query with ⟨entry, hmem, hsame, -⟩ | ⟨-, hanswer⟩
      · exact absurd hsame (hnone entry hmem)
      · exact hanswer

/-- The order does not matter exactly if texts that differ in blanks only have the same rows. -/
theorem answer_perm_iff (entries : List (String × Rows)) :
    (∀ order, order.Perm entries → ∀ query, (ofList order).answer query = (ofList entries).answer query) ↔
      Consistent entries := by
  constructor
  · intro h a ha b hb hsame
    obtain ⟨first, hfirst, hanswer⟩ := exists_order_of_mem ha
    obtain ⟨second, hsecond, hanswer'⟩ := exists_order_of_mem hb
    rw [h first hfirst] at hanswer
    rw [h second hsecond, ← answer_of_same _ hsame, hanswer] at hanswer'
    exact Except.ok.inj hanswer'
  · intro h order hperm query
    rcases (exists_order_iff entries query _).mp ⟨order, hperm, rfl⟩ with ⟨a, ha, hsame, hanswer⟩ | ⟨hnone, hanswer⟩
    · rcases answer_cases entries query with ⟨b, hb, hsame', hanswer'⟩ | ⟨hnone, -⟩
      · rw [hanswer, hanswer', h a ha b hb (hsame.trans hsame'.symm)]
      · exact absurd hsame (hnone a ha)
    · rcases answer_cases entries query with ⟨b, hb, hsame, -⟩ | ⟨-, hanswer'⟩
      · exact absurd hsame (hnone b hb)
      · rw [hanswer, hanswer']

/-- **The results of a file in any order of its entries.** A query may be answered the rows of any entry
whose text differs from it in blanks only; so every query has one answer, whatever the order, exactly if
such entries have the same rows. -/
theorem answer_reordered_iff {d : Json.Document} (h : d.map? decodeRows? = some entries) :
    ∃ results, decode? d = some results ∧
      (∀ query given, (∃ order, order.Perm entries ∧ (ofList order).answer query = given) ↔
        (∃ entry ∈ entries, SameQuery entry.1 query ∧ given = .ok entry.2) ∨
        ((∀ entry ∈ entries, ¬ SameQuery entry.1 query) ∧ given = unrecorded)) ∧
      ((∀ order, order.Perm entries → ∀ query, (ofList order).answer query = results.answer query) ↔
        Consistent entries) := by
  refine ⟨ofList entries, ?_, exists_order_iff entries, answer_perm_iff entries⟩
  unfold decode?
  rw [h, Option.map_some]

/-- Two queries that differ in the blanks of a string. -/
def spacedEntries : List (String × Rows) :=
  [("SELECT 'a b'", [.arr [.str "a b"]]), ("SELECT 'a  b'", [.arr [.str "a  b"]])]

/-- A file of their results. -/
def spacedDocument : Json.Document :=
  .object [(some "SELECT 'a b'", .array [.array [.string (some "a b")]]),
    (some "SELECT 'a  b'", .array [.array [.string (some "a  b")]])]

theorem sameQuery_spacedEntries : SameQuery "SELECT 'a b'" "SELECT 'a  b'" := by
  unfold SameQuery
  decide +kernel

theorem not_consistent_spacedEntries : ¬ Consistent spacedEntries := by
  intro h
  have hrows := h _ (List.mem_cons_self ..) _ (List.mem_cons_of_mem _ (List.mem_cons_self ..)) sameQuery_spacedEntries
  simp at hrows

theorem answer_reordered_spacedDocument :
    spacedDocument.map? decodeRows? = some spacedEntries ∧
      ∃ results, decode? spacedDocument = some results ∧
        (∃ order, order.Perm spacedEntries ∧ (ofList order).answer "SELECT 'a b'" = .ok [.arr [.str "a b"]]) ∧
        (∃ order, order.Perm spacedEntries ∧ (ofList order).answer "SELECT 'a b'" = .ok [.arr [.str "a  b"]]) ∧
        ¬ ∀ order, order.Perm spacedEntries → ∀ query, (ofList order).answer query = results.answer query := by
  have hmap : spacedDocument.map? decodeRows? = some spacedEntries := rfl
  obtain ⟨results, hresults, hgiven, hsame⟩ := answer_reordered_iff hmap
  refine ⟨hmap, results, hresults, (hgiven _ _).mpr (.inl ⟨_, List.mem_cons_self .., rfl, rfl⟩),
    (hgiven _ _).mpr (.inl ⟨_, List.mem_cons_of_mem _ (List.mem_cons_self ..), sameQuery_spacedEntries.symm, rfl⟩),
    hsame.not.mpr not_consistent_spacedEntries⟩

/-- **Two different texts, one of which takes the place of the other**: which one depends on the order. -/
theorem answer_reordered_ne :
    (spacedEntries.map Prod.fst).Nodup ∧ spacedEntries.reverse.Perm spacedEntries ∧
      (ofList spacedEntries).answer "SELECT 'a b'" = .ok [.arr [.str "a  b"]] ∧
      (ofList spacedEntries.reverse).answer "SELECT 'a b'" = .ok [.arr [.str "a b"]] := by
  refine ⟨by decide, List.reverse_perm _, ?_, ?_⟩
  · rw [answer_of_same _ sameQuery_spacedEntries]
    exact answer_concat [("SELECT 'a b'", _)] ("SELECT 'a  b'", [.arr [.str "a  b"]])
  · exact answer_concat [("SELECT 'a  b'", _)] ("SELECT 'a b'", [.arr [.str "a b"]])

end QueryScore.RecordedResults
