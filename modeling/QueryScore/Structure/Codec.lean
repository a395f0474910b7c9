/-
# QueryScore.Structure.Codec -- structures as JSON

The JSON form of a structure, and its reader. A relation has a condition only where there is
one; sets are arrays in ascending order.
-/

import QueryScore.Json.Decode
import QueryScore.Structure

namespace QueryScore

open Json.Document

/-! ## Writing -/

/-- The word for a direction. -/
def Direction.name : Direction → String
  | .ascending => "ASC"
  | .descending => "DESC"

/-- The JSON form of a relation. -/
def Relation.toJson (r : Relation) : Json :=
  .obj ([("kind", .str r.kind), ("source", .str r.source), ("target", .str r.target)] ++
    match r.condition with
    | some condition => [("condition", .str condition)]
    | none => [])

/-- The JSON form of an aggregation. -/
def Aggregation.toJson (a : Aggregation) : Json :=
  .obj [("functions", Json.strings a.functions.toList), ("group_by", Json.strings a.groupBy),
    ("having", Json.ofOption .str a.having)]

/-- The JSON form of a sort key. -/
def SortKey.toJson (k : SortKey) : Json :=
  .obj [("column", .str k.column), ("direction", .str k.direction.name)]

/-- The members of the JSON form that hold the components. -/
def Structure.componentMembers (s : Structure) : List (String × Json) :=
  [("entities", Json.strings s.entities.toList),
    ("attributes", Json.strings s.attributes.toList),
    ("relations", .arr (s.relations.map Relation.toJson)),
    ("filters", Json.strings s.filters.toList),
    ("aggregations", s.aggregation.toJson),
    ("return_columns", Json.strings s.returnColumns),
    ("orderings", .arr (s.orderings.map SortKey.toJson))]

/-- The JSON form of a structure. -/
def Structure.toJson (s : Structure) : Json :=
  .obj (s.componentMembers ++ [("parse_success", .bool s.parsed)])

/-! ## Reading -/

/-- The direction that a document names. -/
def Direction.decode? (d : Json.Document) : Option Direction := do
  let name ← d.caseName?
  [Direction.ascending, .descending].find? fun direction => direction.name == name

/-- A relation from its JSON form. -/
def Relation.decode? (d : Json.Document) : Option Relation := do
  let fields ← d.fields? (.plain ["kind", "source", "target", "condition"] false)
  pure {
    kind := ← fields.required "kind" string?
    source := ← fields.required "source" string?
    target := ← fields.required "target" string?
    condition := ← fields.withDefault "condition" none (nullable? string?) }

/-- A set of strings from its JSON form. -/
def decodeStringSet? (d : Json.Document) : Option (SortedSet String) :=
  (d.list? string?).map .ofList

/-- An aggregation from its JSON form. -/
def Aggregation.decode? (d : Json.Document) : Option Aggregation := do
  let fields ← d.fields? (.plain ["functions", "group_by", "having"] false)
  pure {
    functions := ← fields.required "functions" decodeStringSet?
    groupBy := ← fields.required "group_by" (list? string?)
    having := ← fields.withDefault "having" none (nullable? string?) }

/-- A sort key from its JSON form. -/
def SortKey.decode? (d : Json.Document) : Option SortKey := do
  let fields ← d.fields? (.plain ["column", "direction"] false)
  pure {
    column := ← fields.required "column" string?
    direction := ← fields.required "direction" Direction.decode? }

/-- The fields of the JSON form of a structure. -/
def Structure.schema : Schema :=
  .plain ["entities", "attributes", "relations", "filters", "aggregations", "return_columns",
    "orderings", "parse_success"] false

/-- A structure from its JSON form. -/
def Structure.decode? (d : Json.Document) : Option Structure := do
  let fields ← d.fields? schema
  pure {
    entities := ← fields.required "entities" decodeStringSet?
    attributes := ← fields.required "attributes" decodeStringSet?
    relations := ← fields.required "relations" (list? Relation.decode?)
    filters := ← fields.required "filters" decodeStringSet?
    aggregation := ← fields.required "aggregations" Aggregation.decode?
    returnColumns := ← fields.required "return_columns" (list? string?)
    orderings := ← fields.required "orderings" (list? SortKey.decode?)
    parsed := ← fields.required "parse_success" bool? }

end QueryScore
