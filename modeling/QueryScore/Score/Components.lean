/-
# QueryScore.Score.Components -- two structures compared component by component

Six dimensions of a structure are scored as sets. Relations count by kind and ends alone,
filters after they are split into atoms, and returned columns without their order. A dimension
applies unless it is empty on both sides.
-/

import QueryScore.Filter
import QueryScore.Score.Sets
import QueryScore.Structure

namespace QueryScore.Score

/-- A scored component of a structure. -/
inductive Dimension where
  /-- Tables or labels. -/
  | entities
  /-- Attributes with their owners. -/
  | attributes
  /-- Joins or edges. -/
  | relations
  /-- Atomic predicates. -/
  | filters
  /-- Aggregate functions. -/
  | aggregation
  /-- Returned columns. -/
  | returnColumns
  deriving DecidableEq, Repr

/-- The dimensions in the order of judgement. -/
def Dimension.all : List Dimension :=
  [.entities, .attributes, .relations, .filters, .aggregation, .returnColumns]

/-- The F1 of one dimension, and whether it applies at all. -/
structure DimensionScore (α : Type) where
  /-- The F1; zero where the dimension does not apply. -/
  f1 : α
  /-- One of the two sets has a member. -/
  applicable : Bool
  deriving DecidableEq, Repr

/-- The scores of all dimensions. -/
structure ComponentScores (α : Type) where
  /-- Tables or labels. -/
  entities : DimensionScore α
  /-- Attributes with their owners. -/
  attributes : DimensionScore α
  /-- Joins or edges. -/
  relations : DimensionScore α
  /-- Atomic predicates. -/
  filters : DimensionScore α
  /-- Aggregate functions. -/
  aggregation : DimensionScore α
  /-- Returned columns. -/
  returnColumns : DimensionScore α
  deriving DecidableEq, Repr

/-- The score of one dimension. -/
def ComponentScores.get {α : Type} (scores : ComponentScores α) : Dimension → DimensionScore α
  | .entities => scores.entities
  | .attributes => scores.attributes
  | .relations => scores.relations
  | .filters => scores.filters
  | .aggregation => scores.aggregation
  | .returnColumns => scores.returnColumns

variable {α : Type} [Scalar α]

/-- The score of a dimension whose sets are these. -/
def scoreDimension {β : Type} [Ord β] [DecidableEq β] (expected generated : SortedSet β) :
    DimensionScore α :=
  ⟨f1 expected generated, !(expected.isEmpty && generated.isEmpty)⟩

/-- The scores of a generated structure against the expected one. -/
def compareStructures (expected generated : Structure) : ComponentScores α where
  entities := scoreDimension expected.entities generated.entities
  attributes := scoreDimension expected.attributes generated.attributes
  relations := scoreDimension expected.relationKeys generated.relationKeys
  filters :=
    scoreDimension (Filter.normalize expected.filters.toList)
      (Filter.normalize generated.filters.toList)
  aggregation := scoreDimension expected.aggregation.functions generated.aggregation.functions
  returnColumns := scoreDimension expected.returnColumnSet generated.returnColumnSet

end QueryScore.Score
