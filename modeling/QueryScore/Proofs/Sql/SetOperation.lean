/-
# QueryScore.Proofs.Sql.SetOperation -- the columns of the two sides of a set operation

A query resolves the columns of all its blocks by one list of owners and one list of projected
names. On the two sides of a set operation these lists are joined, so a name that one side
declares may reach a column of the other. `attributes_setOp_iff` says exactly when it does not:
the two sides keep their columns, and with them their attributes, iff no qualifier and no bare
name of one side is declared differently by the other (`Clashless`).

The statement is about trees of queries without common tables and sort keys of their own. Sort
keys name columns of both sides at once and belong to neither.
-/

import QueryScore.Extraction

namespace QueryScore.Sql

/-! ## What a body declares and what it refers to -/

/-- **`Body.owners b`** -- the names of the tables that the blocks of `b` read; later ones
overrule. -/
def Body.owners (b : Body) : List (String × String) :=
  b.blocks.flatMap fun block => block.sources.flatMap Source.owners

/-- **`Body.named b`** -- the names that the blocks of `b` give to projected items. -/
def Body.named (b : Body) : List String :=
  b.blocks.flatMap fun block => block.projection.filterMap Item.alias?

/-- **`Body.columns b`** -- the column references of `b` outside its WHERE conditions, at any
depth. -/
def Body.columns (b : Body) : List ColumnRef :=
  ((b.blocks.flatMap Select.attributeSources).flatMap Expr.subexprs).filterMap Expr.columnRef?

/-- **`Body.declared? b q`** -- the table that `q` names in `b`. -/
def Body.declared? (b : Body) (q : String) : Option String := b.owners.reverse.lookup q

/-- **`Body.resolve b ref`** -- the attribute that a column stands for by the names of `b`. -/
def Body.resolve (b : Body) (ref : ColumnRef) : Option String := attribute? b.owners b.named ref

section SetOperation

variable {op : String} {a b : Body}

@[simp] theorem Body.owners_setOp : (Body.setOp op a b).owners = a.owners ++ b.owners := by
  simp [Body.owners, Body.blocks]

@[simp] theorem Body.named_setOp : (Body.setOp op a b).named = a.named ++ b.named := by
  simp [Body.named, Body.blocks]

@[simp] theorem Body.columns_setOp : (Body.setOp op a b).columns = a.columns ++ b.columns := by
  simp [Body.columns, Body.blocks]

/-- In the joined list of owners the right side comes first. -/
theorem ownerOf_append (as bs : List (String × String)) (q : String) :
    ownerOf (as ++ bs) q = ((bs.reverse.lookup q).getD (ownerOf as q)) := by
  unfold ownerOf
  rw [List.reverse_append, List.lookup_append]
  cases bs.reverse.lookup q <;> rfl

end SetOperation

/-- Without common tables and sort keys, the attributes of a query are those of the columns of
its body. -/
theorem Query.mem_attributes {recursive : Bool} {body : Body} {tail : List Piece} {x : String} :
    x ∈ (Query.mk recursive [] body [] tail).attributes ↔
      ∃ ref ∈ body.columns, body.resolve ref = some x := by
  have hblocks : (Query.mk recursive [] body [] tail).blocks = body.blocks := by
    simp [Query.blocks, Query.ctes, Query.body]
  simp only [Query.attributes, hblocks, Query.orderBy, List.map_nil, List.append_nil,
    SortedSet.mem_ofList, List.mem_filterMap, Body.columns, Body.resolve, Body.owners, Body.named,
    Option.bind_eq_some_iff]
  constructor
  · rintro ⟨e, he, ref, href, hx⟩
    exact ⟨ref, ⟨e, he, href⟩, hx⟩
  · rintro ⟨ref, ⟨e, he, href⟩, hx⟩
    exact ⟨e, he, ref, href, hx⟩

/-! ## When the sides keep their columns -/

/-- **`KeepsColumns op a b`** -- every column of either side stands for the same attribute by the
names of both sides as by the names of its own side. -/
def KeepsColumns (op : String) (a b : Body) : Prop :=
  (∀ ref ∈ a.columns, (Body.setOp op a b).resolve ref = a.resolve ref) ∧
    ∀ ref ∈ b.columns, (Body.setOp op a b).resolve ref = b.resolve ref

/-- **`Clashless a b`** -- no name of one side means something else on the other. A qualifier of
the left side that the right side declares names the same table there; one of the right side that
only the left side declares names the table of that very name; and a bare column that the other
side projects under this name is projected so on its own side as well. -/
structure Clashless (a b : Body) : Prop where
  /-- Qualifiers of the left side. -/
  left_qualified : ∀ ref ∈ a.columns, ∀ q, ref.qualifier = some q →
    ∀ table, b.declared? q = some table → table = ownerOf a.owners q
  /-- Qualifiers of the right side. -/
  right_qualified : ∀ ref ∈ b.columns, ∀ q, ref.qualifier = some q → b.declared? q = none →
    ownerOf a.owners q = q
  /-- Bare columns of the left side. -/
  left_bare : ∀ ref ∈ a.columns, ref.qualifier = none → ref.column ∈ b.named →
    ref.column ∈ a.named
  /-- Bare columns of the right side. -/
  right_bare : ∀ ref ∈ b.columns, ref.qualifier = none → ref.column ∈ a.named →
    ref.column ∈ b.named

/-- A qualified column stands for the same attribute under two lists iff its qualifier has the
same owner. -/
theorem attribute?_qualified_eq_iff {owners owners' : List (String × String)}
    {named named' : List String} {ref : ColumnRef} {q : String} (hq : ref.qualifier = some q) :
    attribute? owners named ref = attribute? owners' named' ref ↔
      ownerOf owners q = ownerOf owners' q := by
  simp only [attribute?, hq, Option.some.injEq]
  constructor
  · intro h
    have h' := congrArg String.toList h
    simp only [String.toList_append, List.append_cancel_right_eq] at h'
    exact String.toList_inj.mp h'
  · intro h
    rw [h]

/-- A bare column stands for the same attribute under two lists iff both name it or neither. -/
theorem attribute?_bare_eq_iff {owners owners' : List (String × String)}
    {named named' : List String} {ref : ColumnRef} (hq : ref.qualifier = none) :
    attribute? owners named ref = attribute? owners' named' ref ↔
      (ref.column ∈ named ↔ ref.column ∈ named') := by
  simp only [attribute?, hq, List.contains_eq_mem, decide_eq_true_eq]
  by_cases h : ref.column ∈ named <;> by_cases h' : ref.column ∈ named' <;> simp [h, h']

/-- A column of the left side is kept iff the right side declares nothing else for its names. -/
theorem resolve_setOp_left_iff {op : String} {a b : Body} {ref : ColumnRef} :
    (Body.setOp op a b).resolve ref = a.resolve ref ↔
      (∀ q, ref.qualifier = some q →
        ∀ table, b.declared? q = some table → table = ownerOf a.owners q) ∧
      (ref.qualifier = none → ref.column ∈ b.named → ref.column ∈ a.named) := by
  unfold Body.resolve
  cases hq : ref.qualifier with
  | some q =>
    rw [attribute?_qualified_eq_iff hq, Body.owners_setOp, ownerOf_append, ← Body.declared?]
    cases hb : b.declared? q <;> simp [hb]
  | none =>
    rw [attribute?_bare_eq_iff hq, Body.named_setOp, List.mem_append]
    simp

/-- A column of the right side is kept iff the left side adds nothing to its names. -/
theorem resolve_setOp_right_iff {op : String} {a b : Body} {ref : ColumnRef} :
    (Body.setOp op a b).resolve ref = b.resolve ref ↔
      (∀ q, ref.qualifier = some q → b.declared? q = none → ownerOf a.owners q = q) ∧
      (ref.qualifier = none → ref.column ∈ a.named → ref.column ∈ b.named) := by
  unfold Body.resolve
  cases hq : ref.qualifier with
  | some q =>
    have hown : ownerOf b.owners q = (b.declared? q).getD q := rfl
    rw [attribute?_qualified_eq_iff hq, Body.owners_setOp, ownerOf_append, ← Body.declared?, hown]
    cases hb : b.declared? q <;> simp [hb]
  | none =>
    rw [attribute?_bare_eq_iff hq, Body.named_setOp, List.mem_append]
    simp

theorem keepsColumns_iff {op : String} {a b : Body} : KeepsColumns op a b ↔ Clashless a b := by
  simp only [KeepsColumns, resolve_setOp_left_iff, resolve_setOp_right_iff]
  constructor
  · rintro ⟨hl, hr⟩
    exact ⟨fun ref h => (hl ref h).1, fun ref h => (hr ref h).1, fun ref h => (hl ref h).2,
      fun ref h => (hr ref h).2⟩
  · rintro ⟨hlq, hrq, hlb, hrb⟩
    exact ⟨fun ref h => ⟨hlq ref h, hlb ref h⟩, fun ref h => ⟨hrq ref h, hrb ref h⟩⟩

/-! ## The attributes of a set operation -/

/-- The attributes of a set operation are those of its two sides if these keep their columns. -/
theorem attributes_setOp_of_keepsColumns {op : String} {a b : Body} (h : KeepsColumns op a b)
    (recursive : Bool) (tail : List Piece) :
    (Query.mk recursive [] (.setOp op a b) [] tail).attributes =
      (Query.mk recursive [] a [] tail).attributes.union
        (Query.mk recursive [] b [] tail).attributes := by
  obtain ⟨ha, hb⟩ := h
  apply SortedSet.ext
  intro x
  rw [SortedSet.mem_union, Query.mem_attributes, Query.mem_attributes, Query.mem_attributes,
    Body.columns_setOp]
  constructor
  · rintro ⟨ref, href, hx⟩
    rcases List.mem_append.mp href with href | href
    · exact .inl ⟨ref, href, by rw [← ha ref href, hx]⟩
    · exact .inr ⟨ref, href, by rw [← hb ref href, hx]⟩
  · rintro (⟨ref, href, hx⟩ | ⟨ref, href, hx⟩)
    · exact ⟨ref, List.mem_append_left _ href, by rw [ha ref href, hx]⟩
    · exact ⟨ref, List.mem_append_right _ href, by rw [hb ref href, hx]⟩

/-- **The two sides of a set operation.** Each side keeps its columns, and the attributes of the
whole are the union of those of the sides, exactly when no name of one side clashes with the
other. -/
theorem attributes_setOp_iff (op : String) (a b : Body) (recursive : Bool) (tail : List Piece) :
    (KeepsColumns op a b ∧
      (Query.mk recursive [] (.setOp op a b) [] tail).attributes =
        (Query.mk recursive [] a [] tail).attributes.union
          (Query.mk recursive [] b [] tail).attributes) ↔
      Clashless a b := by
  have hiff : KeepsColumns op a b ↔ Clashless a b := keepsColumns_iff
  rw [← hiff]
  exact ⟨fun h => h.1, fun h => ⟨h, attributes_setOp_of_keepsColumns h recursive tail⟩⟩

/-- An alias that both sides declare, for different tables, hides the table of the left side. -/
theorem attributes_union_of_clashing_alias :
    (extract .sql "SELECT a.x FROM t a UNION SELECT a.x FROM u a").attributes ≠
      (extract .sql "SELECT a.x FROM t a").attributes.union
        (extract .sql "SELECT a.x FROM u a").attributes := by
  decide +kernel

end QueryScore.Sql
