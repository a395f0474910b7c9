/-
# QueryScore.Summary -- many records at a glance

A summary counts the records that parsed, ran and are right, averages the scores, and counts
the categories and the flags. A rate is a share of all records and an average runs over the
records that carry the score; without records both are zero, except that an average of edge
scores which no record carries is left out.

The report on a run is a summary as a Markdown text: a table of scores with three places each,
and a table of the categories that occur as category or as flag.
-/

import QueryScore.Decimal.Layout
import QueryScore.Json.Basic
import QueryScore.Record

namespace QueryScore

open Score

/-- The summary of a list of records. -/
structure Summary (α : Type) where
  /-- The number of records. -/
  total : Nat
  /-- The share that parses. -/
  parsedRate : α
  /-- The share where both queries ran. -/
  executedRate : α
  /-- The share with the right rows. -/
  accurateRate : α
  /-- The average F1 of the entities. -/
  entities : α
  /-- The average F1 of the attributes. -/
  attributes : α
  /-- The average F1 of the edges, over the records that have one. -/
  relations : Option α
  /-- The average F1 of the filters. -/
  filters : α
  /-- The average F1 of the aggregate functions. -/
  aggregation : α
  /-- The average F1 of the returned columns. -/
  returnColumns : α
  /-- The average F1 of the rows. -/
  rows : α
  /-- The categories that occur, each with the number of its records. -/
  categories : List (Category × Nat)
  /-- The flags that occur, each with the number of records that carry it. -/
  flags : List (Category × Nat)
  deriving Repr

variable {α : Type}

/-- The number of records in a category. -/
def categoryCount (records : List (Record α)) (category : Category) : Nat :=
  records.countP fun r => r.category == category

/-- The number of records that carry a flag. -/
def flagCount (records : List (Record α)) (flag : Category) : Nat :=
  records.countP fun r => decide (flag ∈ r.flags)

/-- The categories with a count above zero, in the order of decision. -/
def positiveCounts (count : Category → Nat) : List (Category × Nat) :=
  (Category.all.map fun c => (c, count c)).filter fun entry => entry.2 != 0

variable [Scalar α]

/-- The share of the records with a property. -/
def rate (holds : Record α → Bool) (records : List (Record α)) : α :=
  if records.isEmpty then Scalar.zero
  else Scalar.ofCount (records.countP holds) / Scalar.ofCount records.length

/-- The average of numbers, if there are any. -/
def mean? (values : List α) : Option α :=
  if values.isEmpty then none
  else some (values.foldl (· + ·) Scalar.zero / Scalar.ofCount values.length)

/-- The average of a score that every record carries. -/
def average (score : Record α → α) (records : List (Record α)) : α :=
  (mean? (records.map score)).getD Scalar.zero

/-- The summary of records. -/
def summarize (records : List (Record α)) : Summary α where
  total := records.length
  parsedRate := rate Record.parsed records
  executedRate := rate Record.executed records
  accurateRate := rate Record.accurate records
  entities := average Record.entities records
  attributes := average Record.attributes records
  relations := mean? (records.filterMap Record.relations)
  filters := average Record.filters records
  aggregation := average Record.aggregation records
  returnColumns := average Record.returnColumns records
  rows := average Record.rowF1 records
  categories := positiveCounts (categoryCount records)
  flags := positiveCounts (flagCount records)

/-! ## As JSON -/

/-- The JSON form of counts: an object from names to numbers. -/
def countsJson (counts : List (Category × Nat)) : Json :=
  .obj (counts.map fun (category, n) => (category.name, .int n))

/-- The JSON form of a summary. -/
def Summary.toJson (s : Summary Float) : Json :=
  .obj [("total", .int s.total), ("syntax_rate", .float s.parsedRate),
    ("execution_success_rate", .float s.executedRate),
    ("execution_accuracy_rate", .float s.accurateRate), ("mean_entity_f1", .float s.entities),
    ("mean_attribute_f1", .float s.attributes),
    ("mean_relation_f1", Json.ofOption .float s.relations), ("mean_filter_f1", .float s.filters),
    ("mean_aggregation_f1", .float s.aggregation),
    ("mean_return_column_f1", .float s.returnColumns), ("mean_result_f1", .float s.rows),
    ("categories", countsJson s.categories), ("flags", countsJson s.flags)]

/-! ## The report on a run -/

/-- A score as the report shows it. -/
def scoreText (x : Float) : String := String.ofList (Decimal.fixed 3 x)

/-- One row of a table. -/
def tableRow (cells : List String) : String := "| " ++ " | ".intercalate cells ++ " |"

/-- The metrics of a summary with their values. -/
def Summary.metrics (s : Summary Float) : List (String × String) :=
  [("Syntax rate", scoreText s.parsedRate), ("Execution success rate", scoreText s.executedRate),
    ("Execution accuracy", scoreText s.accurateRate), ("Entity F1", scoreText s.entities),
    ("Attribute F1", scoreText s.attributes),
    ("Relation F1", (s.relations.map scoreText).getD "N/A"), ("Filter F1", scoreText s.filters),
    ("Aggregation F1", scoreText s.aggregation),
    ("Return column F1", scoreText s.returnColumns), ("Result F1", scoreText s.rows)]

/-- The categories that occur, with their counts as category and as flag. -/
def Summary.seen (s : Summary Float) : List (Category × Nat × Nat) :=
  (Category.all.map fun c =>
    (c, (s.categories.lookup c).getD 0, (s.flags.lookup c).getD 0)).filter
      fun (_, primary, flagged) => primary != 0 || flagged != 0

/-- The lines of the report on a run with a name. -/
def Summary.reportLines (name : String) (s : Summary Float) : List String :=
  ["# querylens Evaluation Report: " ++ name, "", "Tasks evaluated: " ++ s.total.repr, "",
    "## Scores", "", tableRow ["Metric", "Value"], "|--------|-------|"] ++
  s.metrics.map (fun (metric, value) => tableRow [metric, value]) ++
  ["", "## Error Categories", "", tableRow ["Category", "Primary", "Flagged"],
    "|----------|---------|---------|"] ++
  s.seen.map fun (category, primary, flagged) =>
    tableRow [category.name, primary.repr, flagged.repr]

/-- The report on a run with a name. -/
def Summary.report (name : String) (s : Summary Float) : String :=
  String.join ((s.reportLines name).map (· ++ "\n"))

end QueryScore
