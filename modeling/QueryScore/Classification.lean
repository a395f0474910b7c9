/-
# QueryScore.Classification -- why a generated query fell short

One evaluated query gets a category, the first that fits of an ordered list: it does not
parse, it did not run, its result is right, a dimension of its structure scores below the
threshold, or only its result differs. It also gets flags, all categories that apply; a right
result is never a flag. Relations are judged for graph queries only, because joins in SQL are
not scored by themselves.
-/

import QueryScore.Language
import QueryScore.Score.Components

namespace QueryScore

open Score

/-! ## Categories -/

/-- Why a generated query fell short, or that it did not. -/
inductive Category where
  /-- The text does not parse. -/
  | syntaxError
  /-- It parses, but it failed or timed out. -/
  | runtimeError
  /-- The results are the same. -/
  | correct
  /-- Wrong tables or labels. -/
  | wrongEntity
  /-- Wrong columns or properties. -/
  | wrongAttribute
  /-- Wrong joins or edges. -/
  | wrongRelation
  /-- Wrong predicates. -/
  | wrongFilter
  /-- Wrong aggregate functions. -/
  | wrongAggregation
  /-- Wrong returned columns. -/
  | wrongReturnColumns
  /-- The structure is close, but the rows differ. -/
  | resultMismatch
  deriving DecidableEq, Repr

namespace Category

/-- All categories, in the order of decision. -/
def all : List Category :=
  [.syntaxError, .runtimeError, .correct, .wrongEntity, .wrongAttribute, .wrongRelation,
    .wrongFilter, .wrongAggregation, .wrongReturnColumns, .resultMismatch]

/-- The place of a category in the order of decision. -/
def rank : Category → Nat
  | .syntaxError => 0
  | .runtimeError => 1
  | .correct => 2
  | .wrongEntity => 3
  | .wrongAttribute => 4
  | .wrongRelation => 5
  | .wrongFilter => 6
  | .wrongAggregation => 7
  | .wrongReturnColumns => 8
  | .resultMismatch => 9

theorem rank_injective {a b : Category} (h : a.rank = b.rank) : a = b := by
  cases a <;> cases b <;> simp_all [rank]

instance : Ord Category := ⟨fun a b => compare a.rank b.rank⟩

theorem compare_eq (a b : Category) : compare a b = compare a.rank b.rank := rfl

instance : Std.TransOrd Category where
  eq_swap := by
    intro a b
    rw [compare_eq, compare_eq]
    exact Std.OrientedCmp.eq_swap
  isLE_trans := by
    intro a b c hab hbc
    rw [compare_eq] at hab hbc ⊢
    exact Std.TransCmp.isLE_trans hab hbc

instance : Std.LawfulEqOrd Category where
  compare_self := by
    intro a
    rw [compare_eq]
    exact Std.ReflCmp.compare_self
  eq_of_compare := by
    intro a b h
    rw [compare_eq] at h
    exact rank_injective (Std.LawfulEqCmp.eq_of_compare h)

/-- The name of a category. -/
def name : Category → String
  | .syntaxError => "SYNTAX_ERROR"
  | .runtimeError => "RUNTIME_ERROR"
  | .correct => "CORRECT"
  | .wrongEntity => "WRONG_ENTITY"
  | .wrongAttribute => "WRONG_ATTRIBUTE"
  | .wrongRelation => "WRONG_RELATION"
  | .wrongFilter => "WRONG_FILTER"
  | .wrongAggregation => "WRONG_AGGREGATION"
  | .wrongReturnColumns => "WRONG_RETURN_COLUMNS"
  | .resultMismatch => "RESULT_MISMATCH"

/-- The category that a text names, in any case and with blanks around it. -/
def ofName? (text : String) : Option Category := findByName name all text

/-- What is said of a text that names no category. -/
def invalidName (text : String) : String := "Invalid error category: " ++ text

/-- The category of a dimension that scores too low. -/
def ofDimension : Dimension → Category
  | .entities => .wrongEntity
  | .attributes => .wrongAttribute
  | .relations => .wrongRelation
  | .filters => .wrongFilter
  | .aggregation => .wrongAggregation
  | .returnColumns => .wrongReturnColumns

end Category

/-! ## Classification -/

/-- What is known of one evaluated query. -/
structure Evidence (α : Type) where
  /-- The language of the query. -/
  language : Language
  /-- The text parses. -/
  parsed : Bool
  /-- Both queries ran. -/
  executed : Bool
  /-- Both returned the same rows. -/
  accurate : Bool
  /-- The scores of its structure. -/
  components : ComponentScores α
  deriving Repr

/-- The category of a query and all categories that apply. -/
structure Classification where
  /-- The first category that fits. -/
  category : Category
  /-- All categories that apply. -/
  flags : SortedSet Category
  deriving DecidableEq, Repr

/-- The dimensions that are judged in a language, in the order of judgement. -/
def judgedDimensions : Language → List Dimension
  | .sql => Dimension.all.filter (· != .relations)
  | .cypher => Dimension.all

variable {α : Type} [Scalar α]

/-- The judged dimensions that apply and score below the threshold. -/
def failingDimensions (threshold : α) (e : Evidence α) : List Dimension :=
  (judgedDimensions e.language).filter fun d =>
    (e.components.get d).applicable && decide ((e.components.get d).f1 < threshold)

/-- The first category that fits. -/
def primaryCategory (threshold : α) (e : Evidence α) : Category :=
  if !e.parsed then .syntaxError
  else if !e.executed then .runtimeError
  else if e.accurate then .correct
  else
    match failingDimensions threshold e with
    | d :: _ => .ofDimension d
    | [] => .resultMismatch

/-- All categories that apply. -/
def applicableFlags (threshold : α) (e : Evidence α) : List Category :=
  (if !e.parsed then [.syntaxError] else if !e.executed then [.runtimeError] else []) ++
    (failingDimensions threshold e).map .ofDimension ++
    (if e.accurate then [] else [.resultMismatch])

/-- The classification of one evaluated query. -/
def classify (threshold : α) (e : Evidence α) : Classification :=
  ⟨primaryCategory threshold e, .ofList (applicableFlags threshold e)⟩

end QueryScore
