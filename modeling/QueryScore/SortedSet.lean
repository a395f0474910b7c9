/-
# QueryScore.SortedSet -- finite sets as strictly ascending lists

A finite set of ordered elements is the strictly ascending list of its members, so equal sets
are equal values and a set is written in one order only. Insertion keeps the list ascending;
everything else is built from it. Main statements: `mem_insert`, `mem_ofList`, `mem_union`,
and `ext`, by which sets with the same members are equal.
-/

namespace QueryScore

/-- A finite set: its members, strictly ascending. -/
structure SortedSet (α : Type) [Ord α] where
  /-- The members in ascending order. -/
  toList : List α
  /-- Each member is smaller than all that follow. -/
  ascending : toList.Pairwise (fun a b => compare a b = .lt)

namespace SortedSet

variable {α : Type} [Ord α]

instance [DecidableEq α] : DecidableEq (SortedSet α) := fun s t =>
  decidable_of_iff (s.toList = t.toList) (by cases s; cases t; simp)

instance [Repr α] : Repr (SortedSet α) := ⟨fun s n => reprPrec s.toList n⟩

instance : Membership α (SortedSet α) := ⟨fun s a => a ∈ s.toList⟩

theorem mem_def {a : α} {s : SortedSet α} : a ∈ s ↔ a ∈ s.toList := Iff.rfl

instance [DecidableEq α] (a : α) (s : SortedSet α) : Decidable (a ∈ s) :=
  inferInstanceAs (Decidable (a ∈ s.toList))

/-! ## Insertion -/

/-- An ascending list with one more member. -/
def insertAscending (a : α) : List α → List α
  | [] => [a]
  | b :: bs =>
    match compare a b with
    | .lt => a :: b :: bs
    | .eq => b :: bs
    | .gt => b :: insertAscending a bs

theorem mem_of_mem_insertAscending {a x : α} {bs : List α} (h : x ∈ insertAscending a bs) :
    x = a ∨ x ∈ bs := by
  induction bs with
  | nil => simp_all [insertAscending]
  | cons b bs ih =>
    unfold insertAscending at h
    split at h <;> simp_all
    rcases h with h | h
    · exact .inr (.inl h)
    · rcases ih h with h | h
      · exact .inl h
      · exact .inr (.inr h)

theorem mem_insertAscending [Std.LawfulEqOrd α] {a x : α} {bs : List α} :
    x ∈ insertAscending a bs ↔ x = a ∨ x ∈ bs := by
  refine ⟨mem_of_mem_insertAscending, ?_⟩
  induction bs with
  | nil => simp [insertAscending]
  | cons b bs ih =>
    intro h
    unfold insertAscending
    split
    · simpa using h
    · rename_i heq
      rw [Std.LawfulEqOrd.compare_eq_iff_eq.mp heq] at h
      simpa using h
    · rcases h with h | h
      · simp [ih (.inl h)]
      · rcases List.mem_cons.mp h with h | h
        · simp [h]
        · simp [ih (.inr h)]

theorem pairwise_insertAscending [Std.TransOrd α] (a : α) {bs : List α}
    (h : bs.Pairwise (fun a b => compare a b = .lt)) :
    (insertAscending a bs).Pairwise (fun a b => compare a b = .lt) := by
  induction bs with
  | nil => simp [insertAscending]
  | cons b bs ih =>
    have hb := List.pairwise_cons.mp h
    unfold insertAscending
    split
    · rename_i hab
      refine List.pairwise_cons.mpr ⟨fun x hx => ?_, h⟩
      rcases List.mem_cons.mp hx with rfl | hx
      · exact hab
      · exact Std.TransCmp.lt_trans hab (hb.1 x hx)
    · exact h
    · rename_i hab
      refine List.pairwise_cons.mpr ⟨fun x hx => ?_, ih hb.2⟩
      rcases mem_of_mem_insertAscending hx with rfl | hx
      · exact Std.OrientedCmp.lt_of_gt hab
      · exact hb.1 x hx

/-- The empty set. -/
def empty : SortedSet α := ⟨[], .nil⟩

instance : Inhabited (SortedSet α) := ⟨empty⟩

/-- The set with one more member. -/
def insert [Std.TransOrd α] (a : α) (s : SortedSet α) : SortedSet α :=
  ⟨insertAscending a s.toList, pairwise_insertAscending a s.ascending⟩

/-- The set of the elements of a list. -/
def ofList [Std.TransOrd α] (as : List α) : SortedSet α := as.foldl (fun s a => s.insert a) empty

/-- The members of either set. -/
def union [Std.TransOrd α] (s t : SortedSet α) : SortedSet α :=
  t.toList.foldl (fun s a => s.insert a) s

/-- The number of members. -/
def size (s : SortedSet α) : Nat := s.toList.length

/-- The set has no member. -/
def isEmpty (s : SortedSet α) : Bool := s.toList.isEmpty

/-- The number of members of `s` that are members of `t`. -/
def overlap [DecidableEq α] (s t : SortedSet α) : Nat := s.toList.countP (· ∈ t)

/-! ## Membership -/

@[simp] theorem not_mem_empty (a : α) : a ∉ (empty : SortedSet α) := by
  simp [mem_def, empty]

theorem mem_insert [Std.TransOrd α] [Std.LawfulEqOrd α] {a x : α} {s : SortedSet α} :
    x ∈ s.insert a ↔ x = a ∨ x ∈ s :=
  mem_insertAscending

theorem mem_foldl_insert [Std.TransOrd α] [Std.LawfulEqOrd α] {x : α} (as : List α)
    (s : SortedSet α) :
    x ∈ as.foldl (fun s a => s.insert a) s ↔ x ∈ s ∨ x ∈ as := by
  induction as generalizing s with
  | nil => simp
  | cons a as ih =>
    rw [List.foldl_cons, ih, mem_insert, List.mem_cons]
    grind

theorem mem_ofList [Std.TransOrd α] [Std.LawfulEqOrd α] {x : α} {as : List α} :
    x ∈ ofList as ↔ x ∈ as := by
  simp [ofList, mem_foldl_insert]

theorem mem_union [Std.TransOrd α] [Std.LawfulEqOrd α] {x : α} {s t : SortedSet α} :
    x ∈ s.union t ↔ x ∈ s ∨ x ∈ t :=
  mem_foldl_insert t.toList s

/-- Sets with the same members are equal. -/
theorem ext [Std.TransOrd α] {s t : SortedSet α} (h : ∀ x, x ∈ s ↔ x ∈ t) : s = t := by
  obtain ⟨as, ha⟩ := s
  obtain ⟨bs, hb⟩ := t
  congr
  replace h : ∀ x, x ∈ as ↔ x ∈ bs := h
  induction as generalizing bs with
  | nil =>
    cases bs with
    | nil => rfl
    | cons b bs => exact absurd ((h b).mpr (by simp)) (by simp)
  | cons a as ih =>
    cases bs with
    | nil => exact absurd ((h a).mp (by simp)) (by simp)
    | cons b bs =>
      have ha' := List.pairwise_cons.mp ha
      have hb' := List.pairwise_cons.mp hb
      have irrefl : ∀ x : α, compare x x ≠ .lt := fun x hx => by
        rw [show compare x x = .eq from Std.ReflCmp.compare_self] at hx
        cases hx
      -- Each head is in the other list; were they different, each would be greater than the other.
      have hab : a = b := by
        rcases List.mem_cons.mp ((h a).mp (by simp)) with e | e
        · exact e
        · rcases List.mem_cons.mp ((h b).mpr (by simp)) with e' | e'
          · exact e'.symm
          · exact absurd (Std.TransCmp.lt_trans (ha'.1 b e') (hb'.1 a e)) (irrefl a)
      subst hab
      rw [ih ha'.2 bs hb'.2]
      intro x
      constructor
      · intro hx
        rcases List.mem_cons.mp ((h x).mp (by simp [hx])) with e | e
        · exact absurd (e ▸ ha'.1 x hx) (irrefl a)
        · exact e
      · intro hx
        rcases List.mem_cons.mp ((h x).mpr (by simp [hx])) with e | e
        · exact absurd (e ▸ hb'.1 x hx) (irrefl a)
        · exact e

end SortedSet

end QueryScore
