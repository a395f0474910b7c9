/-
# QueryScore.Json.Decode -- typed values from documents

A decoder turns a document into a value of a type or refuses it. A record is decoded from an
object, whose unknown keys are ignored or refused as the record says and whose known keys may
stand once, or from an array that holds the fields in their declared order. A field may have
further names. The members of an object that nothing asks for are never decoded.
-/

import QueryScore.Json.Document

namespace QueryScore.Json.Document

/-! ## Scalars and lists -/

/-- A string that names a text. -/
def string? : Document → Option String
  | .string s => s
  | _ => none

/-- A truth value. -/
def bool? : Document → Option Bool
  | .bool b => some b
  | _ => none

/-- An unsigned 64-bit integer, written without point and exponent. -/
def natural? : Document → Option Nat
  | .number n => n.int?.bind fun i => if 0 ≤ i then some i.toNat else none
  | _ => none

/-- A number as a float. -/
def float? : Document → Option Float
  | .number n => n.asFloat?
  | _ => none

/-- The value `null`, or what the decoder accepts. -/
def nullable? {α : Type} (decode : Document → Option α) : Document → Option (Option α)
  | .null => some none
  | d => (decode d).map some

/-- An array of what the decoder accepts. -/
def list? {α : Type} (decode : Document → Option α) : Document → Option (List α)
  | .array items => items.mapM decode
  | _ => none

/-- The name of a case without contents: a string, or an object with that one key and `null`. -/
def caseName? : Document → Option String
  | .string s => s
  | .object [(key, .null)] => key
  | _ => none

/-! ## Records -/

/-- The fields of a record: each has a name and further names for it. -/
structure Schema where
  /-- Names and further names, in declared order. -/
  fields : List (String × List String)
  /-- Keys that are no names of fields are refused. -/
  closed : Bool

/-- A schema whose fields have one name each. -/
def Schema.plain (names : List String) (closed : Bool) : Schema :=
  ⟨names.map fun name => (name, []), closed⟩

/-- The field that a key names. -/
def Schema.field? (schema : Schema) (key : String) : Option String :=
  (schema.fields.find? fun (name, others) => name == key || others.contains key).map Prod.fst

/-- The documents of the fields that are present. -/
abbrev Fields := List (String × Document)

/-- The fields among the members of an object. -/
def Schema.ofMembers (schema : Schema) : List (Option String × Document) → Fields → Option Fields
  | [], found => some found
  | (key, value) :: rest, found => do
    match schema.field? (← key) with
    | some name =>
      if (found.lookup name).isSome then none else schema.ofMembers rest ((name, value) :: found)
    | none => if schema.closed then none else schema.ofMembers rest found

/-- The fields of a record, from an object or from an array. -/
def fields? (schema : Schema) : Document → Option Fields
  | .object members => schema.ofMembers members []
  | .array items =>
    if items.length ≤ schema.fields.length then some ((schema.fields.map Prod.fst).zip items)
    else none
  | _ => none

/-- A field that must be present. -/
def Fields.required {α : Type} (fields : Fields) (name : String) (decode : Document → Option α) :
    Option α :=
  (fields.lookup name).bind decode

/-- A field with a value for its absence. -/
def Fields.withDefault {α : Type} (fields : Fields) (name : String) (default : α)
    (decode : Document → Option α) : Option α :=
  match fields.lookup name with
  | some d => decode d
  | none => some default

/-! ## Maps -/

/-- The entries of an object, as they come. -/
def map? {α : Type} (decode : Document → Option α) : Document → Option (List (String × α))
  | .object members => members.mapM fun (key, value) => do pure (← key, ← decode value)
  | _ => none

end QueryScore.Json.Document
