/-
# QueryScore.Sql.DataType -- the types that casts and literals name

A known type is written back in its own spelling, its sizes without blanks. Any other dotted name
is a custom type, written back as it stands with its modifiers. The list of known types says what
may follow each. Types that hold other types are built on these in `Grammar.Type`.
-/

import QueryScore.Sql.Parser

namespace QueryScore.Sql

/-! ## Known types -/

/-- What may follow the name of a type. -/
inductive TypeShape where
  /-- Nothing. -/
  | bare
  /-- One size. -/
  | size
  /-- One size, then `UNSIGNED`. -/
  | integer
  /-- One size and a number of places. -/
  | exact
  /-- A length in characters. -/
  | length
  /-- A length in bytes. -/
  | byteLength
  /-- A precision, then a time zone. -/
  | moment
  /-- `INTEGER`. -/
  | signedness
  deriving DecidableEq, Repr

/-- The keyword of each known type of one word, its spelling, and what may follow it. -/
def knownTypes : List (String × String × TypeShape) :=
  [("BOOLEAN", "BOOLEAN", .bare), ("BOOL", "BOOL", .bare), ("REAL", "REAL", .bare),
    ("FLOAT4", "FLOAT4", .bare), ("FLOAT8", "FLOAT8", .bare), ("FLOAT32", "Float32", .bare),
    ("FLOAT64", "FLOAT64", .bare), ("INT16", "Int16", .bare), ("INT32", "Int32", .bare),
    ("INT64", "INT64", .bare), ("INT128", "Int128", .bare), ("INT256", "Int256", .bare),
    ("UINT8", "UInt8", .bare), ("UINT16", "UInt16", .bare), ("UINT32", "UInt32", .bare),
    ("UINT64", "UInt64", .bare), ("UINT128", "UInt128", .bare), ("UINT256", "UInt256", .bare),
    ("TINYBLOB", "TINYBLOB", .bare), ("MEDIUMBLOB", "MEDIUMBLOB", .bare),
    ("LONGBLOB", "LONGBLOB", .bare), ("BYTEA", "BYTEA", .bare), ("UUID", "UUID", .bare),
    ("DATE", "DATE", .bare), ("DATE32", "Date32", .bare), ("JSON", "JSON", .bare),
    ("JSONB", "JSONB", .bare), ("REGCLASS", "REGCLASS", .bare), ("TEXT", "TEXT", .bare),
    ("TINYTEXT", "TINYTEXT", .bare), ("MEDIUMTEXT", "MEDIUMTEXT", .bare),
    ("LONGTEXT", "LONGTEXT", .bare), ("INTERVAL", "INTERVAL", .bare),
    ("TIMESTAMP_NTZ", "TIMESTAMP_NTZ", .bare), ("TSVECTOR", "TSVECTOR", .bare),
    ("TSQUERY", "TSQUERY", .bare), ("TRIGGER", "TRIGGER", .bare),
    ("HUGEINT", "HUGEINT", .bare), ("UBIGINT", "UBIGINT", .bare), ("UHUGEINT", "UHUGEINT", .bare),
    ("USMALLINT", "USMALLINT", .bare), ("UTINYINT", "UTINYINT", .bare),
    ("TINYINT", "TINYINT", .integer), ("INT2", "INT2", .integer),
    ("SMALLINT", "SMALLINT", .integer), ("MEDIUMINT", "MEDIUMINT", .integer),
    ("INT", "INT", .integer), ("INT4", "INT4", .integer), ("INT8", "INT8", .integer),
    ("INTEGER", "INTEGER", .integer), ("BIGINT", "BIGINT", .integer),
    ("FLOAT", "FLOAT", .size), ("BYTES", "BYTES", .size),
    ("CLOB", "CLOB", .size), ("BINARY", "BINARY", .size), ("BLOB", "BLOB", .size),
    ("DATETIME", "DATETIME", .size), ("STRING", "STRING", .size), ("BIT", "BIT", .size),
    ("VARBIT", "VARBIT", .size), ("TIMESTAMPTZ", "TIMESTAMPTZ", .size),
    ("TIMETZ", "TIMETZ", .size),
    ("VARCHAR", "VARCHAR", .length), ("NVARCHAR", "NVARCHAR", .length),
    ("CHARACTER", "CHARACTER", .length), ("CHAR", "CHAR", .length),
    ("VARBINARY", "VARBINARY", .byteLength),
    ("NUMERIC", "NUMERIC", .exact), ("DECIMAL", "DECIMAL", .exact), ("DEC", "DEC", .exact),
    ("BIGNUMERIC", "BIGNUMERIC", .exact), ("BIGDECIMAL", "BIGDECIMAL", .exact),
    ("DOUBLE", "DOUBLE", .exact),
    ("TIMESTAMP", "TIMESTAMP", .moment), ("TIME", "TIME", .moment),
    ("SIGNED", "SIGNED", .signedness), ("UNSIGNED", "UNSIGNED", .signedness)]

/-- The types of several words: the first keyword, those behind it, the spelling, and what may
follow. -/
def compoundTypes : List (String × List String × String × TypeShape) :=
  [("DOUBLE", ["PRECISION"], "DOUBLE PRECISION", .bare),
    ("CHARACTER", ["VARYING"], "CHARACTER VARYING", .length),
    ("CHARACTER", ["LARGE", "OBJECT"], "CHARACTER LARGE OBJECT", .size),
    ("CHAR", ["VARYING"], "CHAR VARYING", .length),
    ("CHAR", ["LARGE", "OBJECT"], "CHAR LARGE OBJECT", .size),
    ("BIT", ["VARYING"], "BIT VARYING", .size)]

/-! ## Reading a type -/

namespace Parser

/-- A size in brackets, if it is there. -/
def sizeIfAny : Parser (List Char) := do
  if ← sign "(" then
    let n ← natural
    expectSign ")"
    return "(".toList ++ n.repr.toList ++ ")".toList
  else return []

/-- A size and a number of places, if they are there. -/
def exactSizeIfAny : Parser (List Char) := do
  if ← sign "(" then
    let n ← natural
    let places ← do
      if ← sign "," then
        let places ← natural
        pure ("," ++ places.repr)
      else pure ""
    expectSign ")"
    return "(".toList ++ n.repr.toList ++ places.toList ++ ")".toList
  else return []

/-- A length in characters, if it is there. -/
def lengthIfAny : Parser (List Char) := do
  if ← sign "(" then
    let length ← do
      if ← keyword "MAX" then pure "MAX"
      else
        let n ← natural
        let unit ← oneOf ["CHARACTERS", "OCTETS"]
        pure (n.repr ++ (unit.map (" " ++ ·)).getD "")
    expectSign ")"
    return "(".toList ++ length.toList ++ ")".toList
  else return []

/-- A length in bytes, if it is there. -/
def byteLengthIfAny : Parser (List Char) := do
  if ← sign "(" then
    let length ← if ← keyword "MAX" then pure "MAX" else Nat.repr <$> natural
    expectSign ")"
    return "(".toList ++ length.toList ++ ")".toList
  else return []

/-- A time zone, if it is there. -/
def zoneIfAny : Parser (List Char) := do
  if ← keyword "WITH" then
    expect ["TIME", "ZONE"]
    return " WITH TIME ZONE".toList
  else if ← keyword "WITHOUT" then
    expect ["TIME", "ZONE"]
    return " WITHOUT TIME ZONE".toList
  else return []

/-- What follows the name of a type. -/
def typeTail : TypeShape → Parser (List Char)
  | .bare => pure []
  | .size => sizeIfAny
  | .integer => do
    let size ← sizeIfAny
    return size ++ (if ← keyword "UNSIGNED" then " UNSIGNED".toList else [])
  | .exact => exactSizeIfAny
  | .length => lengthIfAny
  | .byteLength => byteLengthIfAny
  | .moment => do return (← sizeIfAny) ++ (← zoneIfAny)
  | .signedness => do return if ← keyword "INTEGER" then " INTEGER".toList else []

/-- One more modifier of a custom type; commas between them say nothing. -/
def typeModifierStep (found : List (List Char)) : Parser (Option (List (List Char))) := do
  match ← next with
  | .word name => return some (found ++ [name.render])
  | .number text _ => return some (found ++ [text])
  | .literal .string text => return some (found ++ [text])
  | .sign "," => return some found
  | _ => mismatch

/-- The modifiers of a custom type in brackets, if they are there. -/
def typeModifiers : Parser (List Char) := do
  if ← sign "(" then
    let found ← stepping (fun found => do
      if ← atSign ")" then return none else typeModifierStep found) []
    expectSign ")"
    if found.isEmpty then return []
    return "(".toList ++ [',', ' '].intercalate found ++ ")".toList
  else return []

/-- A custom type. -/
def customType : Parser (List Char) := do
  let name ← dottedName
  return renderPath name ++ (← typeModifiers)

/-- A known type whose first keyword comes next. -/
def knownType (word : String) : Parser (Option (List Char)) := do
  for (first, behind, spelling, shape) in compoundTypes do
    if first = word then
      if ← accept (first :: behind) then return some (spelling.toList ++ (← typeTail shape))
  match knownTypes.find? (·.1 = word) with
  | some (_, spelling, shape) =>
    drop 1
    return some (spelling.toList ++ (← typeTail shape))
  | none => return none

/-- The size of an array type in square brackets behind its element type, if it is there. -/
def arraySize : Parser (Option (List Char)) := do
  if ← sign "[" then
    let size ← optional natural
    expectSign "]"
    return some ("[".toList ++ ((size.map Nat.repr).getD "").toList ++ "]".toList)
  else return none

end Parser

end QueryScore.Sql
