/-
# QueryScore.Filter -- predicates split into atoms

Filters are compared as sets of atomic predicates. A predicate is stripped of the parentheses
that wrap it, cut at the connectives `AND` and `OR` of its top level, and the operands are
treated the same way; the `AND` that belongs to a `BETWEEN` is no connective. What cannot be
cut is an atom and is kept in its comparison form. The splitting knows quotes and brackets and
nothing else of a language, so it serves both.
-/

import QueryScore.Name
import QueryScore.SortedSet
import QueryScore.Text.Keyword

namespace QueryScore.Filter

open Text

/-! ## Operands -/

/-- The keywords that decide where a predicate is cut. -/
def keywords : List String := ["BETWEEN", "AND", "OR"]

/-- The trimmed stretches of a text from `start` on between the connectives among the hits;
`pending` is true while a `BETWEEN` waits for its `AND`. -/
def operandsFrom (cs : List Char) (start : Nat) (pending : Bool) : List Hit → List (List Char)
  | [] => [trim (cs.drop start)]
  | h :: hits =>
    if h.keyword = "BETWEEN" then operandsFrom cs start true hits
    else if h.keyword = "AND" && pending then operandsFrom cs start false hits
    else trim ((cs.take h.start).drop start) :: operandsFrom cs h.stop pending hits

/-- The operands of a predicate at its top-level connectives; a single one if it has none. -/
def operands (cs : List Char) : List (List Char) :=
  operandsFrom cs 0 false (findKeywords keywords cs)

theorem length_lt_of_mem_operandsFrom {cs piece : List Char} {start : Nat} {pending : Bool}
    {hits : List Hit} (hstart : 0 < start) (hcs : 0 < cs.length)
    (hh : ∀ h ∈ hits, h.start < h.stop ∧ h.stop ≤ cs.length)
    (hp : piece ∈ operandsFrom cs start pending hits) : piece.length < cs.length := by
  induction hits generalizing start pending with
  | nil =>
    simp only [operandsFrom, List.mem_singleton] at hp
    subst hp
    have := length_trim_le (cs.drop start)
    simp only [List.length_drop] at this
    omega
  | cons h hits ih =>
    have hh' : ∀ k ∈ hits, k.start < k.stop ∧ k.stop ≤ cs.length :=
      fun k hk => hh k (List.mem_cons_of_mem _ hk)
    have hb := hh h (by simp)
    unfold operandsFrom at hp
    split at hp
    · exact ih hstart hh' hp
    · split at hp
      · exact ih hstart hh' hp
      · rcases List.mem_cons.mp hp with rfl | hp
        · have := length_trim_le ((cs.take h.start).drop start)
          simp only [List.length_drop, List.length_take] at this
          omega
        · exact ih (by omega) hh' hp

/-- The operands of a predicate that is cut are shorter than it. -/
theorem length_lt_of_mem_operands {cs piece : List Char} (hp : piece ∈ operands cs)
    (hn : (operands cs).length ≠ 1) : piece.length < cs.length := by
  have hh : ∀ h ∈ findKeywords keywords cs, h.start < h.stop ∧ h.stop ≤ cs.length :=
    fun h hh => of_mem_findKeywords (by decide) hh
  unfold operands at hp hn
  generalize findKeywords keywords cs = hits at hp hn hh
  generalize false = pending at hp hn
  induction hits generalizing pending with
  | nil => simp [operandsFrom] at hn
  | cons h hits ih =>
    have hh' : ∀ k ∈ hits, k.start < k.stop ∧ k.stop ≤ cs.length :=
      fun k hk => hh k (List.mem_cons_of_mem _ hk)
    have hb := hh h (by simp)
    unfold operandsFrom at hp hn
    split at hp
    · rename_i hbetween
      rw [if_pos hbetween] at hn
      exact ih hh' _ hp hn
    · rename_i hbetween
      rw [if_neg hbetween] at hn
      split at hp
      · rename_i hand
        rw [if_pos hand] at hn
        exact ih hh' _ hp hn
      · rcases List.mem_cons.mp hp with rfl | hp
        · have := length_trim_le ((cs.take h.start).drop 0)
          simp only [List.length_drop, List.length_take] at this
          omega
        · exact length_lt_of_mem_operandsFrom (by omega) (by omega) hh' hp

/-! ## Atoms -/

/-- The comparison forms of the atoms of a predicate; empty ones are dropped. -/
def atoms (cs : List Char) : List (List Char) :=
  let body := stripWrappingParens cs
  if _hn : (operands body).length = 1 then
    let atom := Name.normalizeFragment body
    if atom.isEmpty then [] else [atom]
  else (operands body).attach.flatMap fun ⟨piece, _⟩ => atoms piece
termination_by cs.length
decreasing_by
  rename_i hp
  exact Nat.lt_of_lt_of_le (length_lt_of_mem_operands hp _hn) (length_stripWrappingParens_le cs)

/-- The set of the atoms of some predicates. -/
def normalize (filters : List String) : SortedSet String :=
  .ofList (filters.flatMap fun filter => (atoms filter.toList).map String.ofList)

end QueryScore.Filter
