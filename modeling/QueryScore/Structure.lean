/-
# QueryScore.Structure -- what a query asks for, whatever its language

A structure lists the semantic components of one query: the tables or labels it refers to, the
attributes it mentions outside its filters, its joins or edges, its filters, its aggregation,
and what it returns in which order. Sets are kept as sets; relations, grouping keys, returned
columns and sort keys keep the order of the text. A text that does not parse has the empty
structure.
-/

import QueryScore.SortedSet

namespace QueryScore

/-! ## Relations -/

/-- The part of a relation that is scored. -/
structure RelationKey where
  /-- The side of a join or the type of an edge; empty when untyped. -/
  kind : String
  /-- The table or label on the left; empty when unresolved. -/
  source : String
  /-- The table or label on the right; empty when unresolved. -/
  target : String
  deriving DecidableEq, Repr

/-- A relation key as the list of its three texts. -/
def RelationKey.toList (key : RelationKey) : List String := [key.kind, key.source, key.target]

theorem RelationKey.toList_injective {a b : RelationKey} (h : a.toList = b.toList) : a = b := by
  cases a
  cases b
  simp_all [RelationKey.toList]

/-- Relation keys are ordered by kind, then by source, then by target. -/
instance : Ord RelationKey := ⟨fun a b => compare a.toList b.toList⟩

theorem RelationKey.compare_eq (a b : RelationKey) : compare a b = compare a.toList b.toList := rfl

instance : Std.TransOrd RelationKey where
  eq_swap := by
    intro a b
    rw [RelationKey.compare_eq, RelationKey.compare_eq]
    exact Std.OrientedCmp.eq_swap
  isLE_trans := by
    intro a b c hab hbc
    rw [RelationKey.compare_eq] at hab hbc ⊢
    exact Std.TransCmp.isLE_trans hab hbc

instance : Std.LawfulEqOrd RelationKey where
  compare_self := by
    intro a
    rw [RelationKey.compare_eq]
    exact Std.ReflCmp.compare_self
  eq_of_compare := by
    intro a b h
    rw [RelationKey.compare_eq] at h
    exact RelationKey.toList_injective (Std.LawfulEqCmp.eq_of_compare h)

/-- A join of two tables or an edge between two nodes. The condition informs only. -/
structure Relation extends RelationKey where
  /-- The text of the join condition, if there is one. -/
  condition : Option String
  deriving DecidableEq, Repr

/-! ## Aggregation and order -/

/-- How a query aggregates. -/
structure Aggregation where
  /-- The aggregate functions, in upper case. -/
  functions : SortedSet String
  /-- The grouping keys, written or implied. -/
  groupBy : List String
  /-- The condition on groups, if there is one. -/
  having : Option String
  deriving DecidableEq, Repr

/-- The direction of a sort key. -/
inductive Direction where
  /-- Smallest first, also when nothing is written. -/
  | ascending
  /-- Greatest first. -/
  | descending
  deriving DecidableEq, Repr

/-- A key that results are sorted by. -/
structure SortKey where
  /-- The normal form of the sorted expression. -/
  column : String
  /-- The direction. -/
  direction : Direction
  deriving DecidableEq, Repr

/-! ## The structure of a query -/

/-- The semantic components of one query. -/
structure Structure where
  /-- Tables or labels, in lower case. -/
  entities : SortedSet String
  /-- Attributes as `owner,field`, or the field alone when its owner is unknown. -/
  attributes : SortedSet String
  /-- Joins or edges, in the order of the text. -/
  relations : List Relation
  /-- Filter predicates, in lower case. -/
  filters : SortedSet String
  /-- Aggregate functions, grouping keys and the condition on groups. -/
  aggregation : Aggregation
  /-- Returned columns, in the order of the text. -/
  returnColumns : List String
  /-- Sort keys, in the order of the text. -/
  orderings : List SortKey
  /-- The text parsed. -/
  parsed : Bool
  deriving DecidableEq, Repr

/-- The structure of a text that does not parse. -/
def Structure.unparsed : Structure where
  entities := .empty
  attributes := .empty
  relations := []
  filters := .empty
  aggregation := ⟨.empty, [], none⟩
  returnColumns := []
  orderings := []
  parsed := false

instance : Inhabited Structure := ⟨.unparsed⟩

/-- The scored parts of the relations, as a set. -/
def Structure.relationKeys (s : Structure) : SortedSet RelationKey :=
  .ofList (s.relations.map Relation.toRelationKey)

/-- The returned columns, as a set. -/
def Structure.returnColumnSet (s : Structure) : SortedSet String := .ofList s.returnColumns

end QueryScore
