/-
# QueryScore.Json.Basic -- JSON values

A number is an integer or a float, and the two are never equal: which one a text holds is
decided by how it is written. An object is a list of members. The canonical object, built by
`Json.object`, lists its keys once each and in ascending order; a later member takes the place
of an earlier one with the same key.
-/

namespace QueryScore

/-- A JSON value. -/
inductive Json where
  /-- The value `null`. -/
  | null
  /-- A truth value. -/
  | bool (b : Bool)
  /-- A number written without point and exponent. -/
  | int (n : Int)
  /-- Any other number. -/
  | float (x : Float)
  /-- A string. -/
  | str (s : String)
  /-- An array. -/
  | arr (items : List Json)
  /-- An object, as its members. -/
  | obj (members : List (String × Json))
  deriving Repr, Inhabited, BEq

namespace Json

/-- The members with one added at its place; an old member with that key gives way. -/
def insertMember (key : String) (value : Json) : List (String × Json) → List (String × Json)
  | [] => [(key, value)]
  | (k, v) :: rest =>
    match compare key k with
    | .lt => (key, value) :: (k, v) :: rest
    | .eq => (key, value) :: rest
    | .gt => (k, v) :: insertMember key value rest

/-- The canonical object of some members, the last of each key. -/
def object (members : List (String × Json)) : Json :=
  .obj (members.foldl (fun done (k, v) => insertMember k v done) [])

/-- An array of strings. -/
def strings (items : List String) : Json := .arr (items.map .str)

/-- The value `null` for nothing. -/
def ofOption {α : Type} (f : α → Json) : Option α → Json
  | none => .null
  | some a => f a

/-- The value of the first member with a key. -/
def get? (key : String) : Json → Option Json
  | .obj members => members.lookup key
  | _ => none

/-- The value is `null`. -/
def isNull : Json → Bool
  | .null => true
  | _ => false

end Json

end QueryScore
