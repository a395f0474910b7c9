/-
# QueryScore.Record.Codec -- results and records as JSON

The JSON forms of a result and of a record, and the reader of records. The keys are those that
result files have always had. A record file is an array of records, indented, with a line end
behind it.
-/

import QueryScore.Json.Writer
import QueryScore.Record
import QueryScore.Structure.Codec

namespace QueryScore

open Json.Document

/-! ## Writing -/

/-- The JSON form of a set of categories. -/
def categoriesJson (categories : SortedSet Category) : Json :=
  Json.strings (categories.toList.map Category.name)

/-- The JSON form of a classification. -/
def Classification.toJson (c : Classification) : Json :=
  .obj [("category", .str c.category.name), ("flags", categoriesJson c.flags)]

/-- The JSON form of the scores of a task. -/
def ScoreVector.toJson (s : ScoreVector Float) : Json :=
  .obj [("entity_f1", .float s.entities), ("attribute_f1", .float s.attributes),
    ("relation_f1", Json.ofOption .float s.relations), ("filter_f1", .float s.filters),
    ("aggregation_f1", .float s.aggregation), ("return_column_f1", .float s.returnColumns),
    ("execution_success", .bool s.executed), ("execution_accuracy", .bool s.accurate),
    ("result_f1", .float s.rows.f1), ("result_precision", .float s.rows.precision),
    ("result_recall", .float s.rows.coverage)]

/-- The JSON form of a result. -/
def TaskResult.toJson (r : TaskResult Float) : Json :=
  .obj [("task", r.task.toJson), ("language", .str r.language.name),
    ("generated_script", .str r.script), ("generated", r.generated.toJson),
    ("expected", r.expected.toJson), ("scores", r.scores.toJson),
    ("classification", r.classification.toJson)]

/-- The JSON form of a record. -/
def Record.toJson (r : Record Float) : Json :=
  .obj [("question", .str r.question), ("expected_script", .str r.expectedScript),
    ("generated_script", .str r.generatedScript), ("syntaxically_correct", .bool r.parsed),
    ("correct_result", .bool r.correct), ("entity_f1", .float r.entities),
    ("attribute_f1", .float r.attributes), ("relation_f1", Json.ofOption .float r.relations),
    ("filter_f1", .float r.filters), ("aggregation_f1", .float r.aggregation),
    ("return_column_f1", .float r.returnColumns), ("execution_accuracy", .bool r.accurate),
    ("result_f1", .float r.rowF1), ("result_precision", .float r.rowPrecision),
    ("result_recall", .float r.rowRecall), ("error_category", .str r.category.name),
    ("error_flags", categoriesJson r.flags)]

/-- The text of a record file. -/
def recordFile (records : List (Record Float)) : String :=
  (Json.arr (records.map Record.toJson)).pretty ++ "\n"

/-! ## Reading -/

/-- The category that a document names, spelled exactly. -/
def Category.decode? (d : Json.Document) : Option Category := do
  let name ← d.caseName?
  all.find? fun category => category.name == name

/-- The fields of the JSON form of a record. -/
def Record.schema : Schema :=
  .plain ["question", "expected_script", "generated_script", "syntaxically_correct",
    "correct_result", "entity_f1", "attribute_f1", "relation_f1", "filter_f1", "aggregation_f1",
    "return_column_f1", "execution_accuracy", "result_f1", "result_precision", "result_recall",
    "error_category", "error_flags"] false

/-- A record from its JSON form. -/
def Record.decode? (d : Json.Document) : Option (Record Float) := do
  let fields ← d.fields? schema
  pure {
    question := ← fields.required "question" string?
    expectedScript := ← fields.required "expected_script" string?
    generatedScript := ← fields.required "generated_script" string?
    parsed := ← fields.required "syntaxically_correct" bool?
    correct := ← fields.required "correct_result" bool?
    entities := ← fields.required "entity_f1" float?
    attributes := ← fields.required "attribute_f1" float?
    relations := ← fields.withDefault "relation_f1" none (nullable? float?)
    filters := ← fields.required "filter_f1" float?
    aggregation := ← fields.required "aggregation_f1" float?
    returnColumns := ← fields.required "return_column_f1" float?
    accurate := ← fields.required "execution_accuracy" bool?
    rowF1 := ← fields.required "result_f1" float?
    rowPrecision := ← fields.required "result_precision" float?
    rowRecall := ← fields.required "result_recall" float?
    category := ← fields.required "error_category" Category.decode?
    flags := ← fields.required "error_flags" fun d => (d.list? Category.decode?).map .ofList }

/-- A record from a JSON text. -/
def Record.parse? (text : String) : Option (Record Float) :=
  (Json.Document.read text.toList).bind decode?

/-- The records of a record file. -/
def loadRecords : Option String → Except FileFault (List (Record Float)) :=
  decodeFile (list? Record.decode?)

end QueryScore
