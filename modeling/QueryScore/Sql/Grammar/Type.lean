/-
# QueryScore.Sql.Grammar.Type -- types, with the types and columns inside them

Besides the types that are known by their names there are lists of values, and types built from
others: arrays, records, unions, maps and nested tables. An angle bracket that closes a type may be
half of the sign `>>`, whose other half then closes the type around it.

Types nest without a bound of their own. Each takes a token at least, so the number of tokens left
is fuel enough.
-/

import QueryScore.Sql.Grammar.Column

namespace QueryScore.Sql

open QueryScore.Sql.Parser

/-! ## Types with values -/

/-- A value of a listed type, perhaps with its number. -/
def listedValue : Parser (List Piece) := do
  let name ← stringText
  let text := Piece.text (quoted '\'' name)
  if ← sign "=" then return [text, said " = ", .text (← signedNumeral)] else return [text]

/-- A type that lists its values, behind its keyword. -/
def listedType (name : String) (listed : Parser (List Piece)) : Parser (List Piece) := do
  let values ← inBrackets (commaSeparated listed)
  return said (name ++ "(") :: withCommas values ++ [said ")"]

/-- A point in time with its precision and perhaps its time zone, behind the keyword. -/
def zonedType : Parser (List Piece) :=
  inBrackets do
    let n ← natural
    let zone ← if ← sign "," then some <$> stringText else pure none
    return said ("DateTime64(" ++ n.repr) ::
      (zone.toList.map fun text => .text (", '".toList ++ text ++ ['\''])) ++ [said ")"]

/-! ## Types with types -/

/-- What kind of type has been read, as far as a literal may follow it. -/
inductive TypeSort where
  /-- The type of intervals. -/
  | interval
  /-- A type by a name that is not known. -/
  | custom
  /-- Any other type. -/
  | builtin
  deriving DecidableEq, Repr

/-- A type as it is read: its parts, and whether an angle bracket behind it has been taken that
closes the type around it. -/
structure TypePhrase where
  /-- The kind of type. -/
  sort : TypeSort
  /-- The parts as they are written back. -/
  parts : List Piece
  /-- A closing angle bracket too many has been taken. -/
  overrun : Bool

/-- A type that closes as it should. -/
def TypePhrase.complete (phrase : TypePhrase) : Parser (List Piece) :=
  if phrase.overrun then mismatch else pure phrase.parts

/-- The angle bracket behind a type in a type; tells whether it closes the outer type too. -/
def closingAngle (overrun : Bool) : Parser Bool := do
  -- The inner type has taken a bracket too many, which is this one.
  if overrun then return false
  if ← sign ">" then return false
  expectSign ">>"
  return true

/-- A field of a record: a name before its type if two words come next. -/
def recordField (r : Rules) (type : Parser TypePhrase) : Parser (List Piece × Bool) := do
  let isWord : Option Token → Bool := fun
    | some (.word _) => true
    | _ => false
  let name ← do
    if isWord (← peekAt 0) && isWord (← peekAt 1) then
      let name ← identifier
      pure [.text name.render, said " "]
    else pure []
  let phrase ← type
  let options ← do
    match ← behind ["OPTIONS"] (namedOptions r) with
    | some options => pure (said " OPTIONS(" :: options ++ [said ")"])
    | none => pure []
  return (name ++ phrase.parts ++ options, phrase.overrun)

/-- The fields of a record type in angle brackets, and whether the last one closes the outer type
too. No fields if there is no bracket. -/
def recordFields (r : Rules) (type : Parser TypePhrase) : Parser (List (List Piece) × Bool) := do
  if ← sign "<" then
    let fields ← phrases do
      let (field, overrun) ← recordField r type
      let more ← if overrun then pure false else sign ","
      return ((field, overrun), more)
    let overrun ← closingAngle (fields.any Prod.snd)
    return (fields.map Prod.fst, overrun)
  else return ([], false)

/-- The written form of a record type's fields. -/
def recordTypeParts (fields : List (List Piece)) : List Piece :=
  if fields.isEmpty then [said "STRUCT"]
  else said "STRUCT<" :: withCommas fields ++ [said ">"]

/-- The types that hold one other type in brackets, with their spellings. -/
def wrappers : List (String × String) :=
  [("NULLABLE", "Nullable"), ("LOWCARDINALITY", "LowCardinality")]

/-- A type built from others that begins with a keyword, read behind it. -/
def builtType (r : Rules) (type : Parser TypePhrase) (word : String) : Parser TypePhrase := do
  let complete : Parser (List Piece) := do (← type).complete
  let whole (parts : List Piece) : TypePhrase := ⟨.builtin, parts, false⟩
  let columns (name : String) : Parser TypePhrase := do
    let found ← inBrackets (commaSeparated (columnDefinition r complete))
    return whole (said (name ++ "(") :: withCommas found ++ [said ")"])
  match word with
  | "ENUM" | "ENUM8" | "ENUM16" => whole <$> listedType word listedValue
  | "SET" => whole <$> listedType word do return [.text (quoted '\'' (← quotedText))]
  | "DATETIME64" => whole <$> zonedType
  | "FIXEDSTRING" =>
    let n ← inBrackets natural
    return whole [said ("FixedString(" ++ n.repr ++ ")")]
  | "ARRAY" =>
    expectSign "<"
    let element ← type
    -- A double bracket behind the element closes the outer type as well.
    let overrun ← closingAngle element.overrun
    return ⟨.builtin, said "ARRAY<" :: element.parts ++ [said ">"], overrun⟩
  | "STRUCT" =>
    let (fields, overrun) ← recordFields r type
    return ⟨.builtin, recordTypeParts fields, overrun⟩
  | "UNION" =>
    let fields ← inBrackets (commaSeparated do
      let name ← identifier
      return .text name.render :: said " " :: (← complete))
    return whole (said "UNION(" :: withCommas fields ++ [said ")"])
  | "MAP" =>
    inBrackets do
      let key ← complete
      expectSign ","
      let value ← complete
      return whole (said "Map(" :: key ++ said ", " :: value ++ [said ")"])
  | "TUPLE" =>
    let fields ← inBrackets (commaSeparated (recordField r type))
    return whole (said "Tuple(" :: withCommas (fields.map Prod.fst) ++ [said ")"])
  | "NESTED" => columns "Nested"
  | "TABLE" => if ← atSign "(" then columns "TABLE" else return whole [said "TABLE"]
  | word =>
    match wrappers.lookup word with
    | some name =>
      let inner ← inBrackets complete
      return whole (said (name ++ "(") :: inner ++ [said ")"])
    | none => mismatch

/-- The keywords that begin a type built from others or from values. -/
def builtWords : List String :=
  ["ENUM", "ENUM8", "ENUM16", "SET", "DATETIME64", "FIXEDSTRING", "ARRAY", "STRUCT", "UNION", "MAP",
    "TUPLE", "NESTED", "TABLE", "NULLABLE", "LOWCARDINALITY"]

/-- A type without the sizes of arrays of it. -/
def elementType (r : Rules) (type : Parser TypePhrase) : Parser TypePhrase := do
  match ← peek with
  | some (.word name) =>
    if ← accept ["ANY", "TYPE"] then return ⟨.builtin, [said "ANY TYPE"], false⟩
    let word := (Token.keyword? (.word name)).getD ""
    if builtWords.contains word then
      drop 1
      builtType r type word
    else
      match ← knownType word with
      | some text => return ⟨if word = "INTERVAL" then .interval else .builtin, [.text text], false⟩
      | none => return ⟨.custom, [.text (← customType)], false⟩
  | _ => mismatch

/-- A size in square brackets makes a type that of arrays. -/
def arrayStep (phrase : TypePhrase) : Parser (Option TypePhrase) := do
  return (← arraySize).map fun size => ⟨.builtin, phrase.parts ++ [.text size], phrase.overrun⟩

/-- A type in which types nest at most so deeply. -/
def typeWithin (r : Rules) : Nat → Parser TypePhrase
  | 0 => mismatch
  | fuel + 1 => do stepping arrayStep (← elementType r (typeWithin r fuel))

/-- A type as it stands in another. -/
def typePhrase (r : Rules) : Parser TypePhrase := do typeWithin r ((← get).length + 1)

/-- A type. -/
def dataType (r : Rules) : Parser (List Piece) := do (← typePhrase r).complete

/-- A definition of a column with its type. -/
def column (r : Rules) : Parser (List Piece) := columnDefinition r (dataType r)

end QueryScore.Sql
