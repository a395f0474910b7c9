/-
# QueryScore.Execution.Cell -- database values as JSON

A relational store returns rows of cells, each of one of five storage classes. As JSON a row
is an array: a real number without a finite value becomes `null`, the bytes of a text are read
as UTF-8, and a blob is written in lower-case hexadecimal digits.

Every list of bytes stands for a text. Well-formed sequences give their characters; of the
others every longest part that begins a character, and every byte that begins none, gives one
replacement character.
-/

import QueryScore.Decimal.Binary64
import QueryScore.Json.Basic

namespace QueryScore.Text

/-! ## Bytes read as UTF-8 -/

/-- What stands for bytes that are no character. -/
def replacement : Char := '\ufffd'

/-- The beginning of a character. -/
structure Utf8Start where
  /-- The bits read so far. -/
  bits : Nat
  /-- The least next byte. -/
  low : Nat
  /-- The greatest next byte. -/
  high : Nat
  /-- How many bytes are missing. -/
  missing : Nat
  deriving DecidableEq, Repr

/-- The beginning that a first byte makes, if it begins a longer character. The range of the
second byte keeps out long spellings, surrogates and numbers that are too great. -/
def utf8Start? (byte : Nat) : Option Utf8Start :=
  if 0xc2 ≤ byte && byte ≤ 0xdf then some ⟨byte - 0xc0, 0x80, 0xbf, 1⟩
  else if byte = 0xe0 then some ⟨0, 0xa0, 0xbf, 2⟩
  else if byte = 0xed then some ⟨0xd, 0x80, 0x9f, 2⟩
  else if 0xe1 ≤ byte && byte ≤ 0xef then some ⟨byte - 0xe0, 0x80, 0xbf, 2⟩
  else if byte = 0xf0 then some ⟨0, 0x90, 0xbf, 3⟩
  else if byte = 0xf4 then some ⟨4, 0x80, 0x8f, 3⟩
  else if 0xf1 ≤ byte && byte ≤ 0xf3 then some ⟨byte - 0xf0, 0x80, 0xbf, 3⟩
  else none

/-- What a byte gives where a character begins, and the beginning that it leaves. -/
def firstByte (byte : Nat) : List Char × Option Utf8Start :=
  if byte < 0x80 then ([Char.ofNat byte], none)
  else
    match utf8Start? byte with
    | some start => ([], some start)
    | none => ([replacement], none)

/-- The text of bytes that follow a beginning, if one is open. -/
def decodeUtf8From : Option Utf8Start → List UInt8 → List Char
  | none, [] => []
  | some _, [] => [replacement]
  | none, byte :: rest =>
    let (found, next) := firstByte byte.toNat
    found ++ decodeUtf8From next rest
  | some start, byte :: rest =>
    if start.low ≤ byte.toNat && byte.toNat ≤ start.high then
      let bits := start.bits * 64 + byte.toNat % 64
      if start.missing ≤ 1 then Char.ofNat bits :: decodeUtf8From none rest
      else decodeUtf8From (some ⟨bits, 0x80, 0xbf, start.missing - 1⟩) rest
    else
      let (found, next) := firstByte byte.toNat
      replacement :: (found ++ decodeUtf8From next rest)

/-- The text of bytes. -/
def decodeUtf8 (bytes : List UInt8) : List Char := decodeUtf8From none bytes

end QueryScore.Text

namespace QueryScore

/-! ## Cells -/

/-- A value in a table. -/
inductive Cell where
  /-- No value. -/
  | null
  /-- An integer. -/
  | integer (n : Int)
  /-- A real number. -/
  | real (x : Float)
  /-- A text, as its bytes. -/
  | text (bytes : List UInt8)
  /-- A blob. -/
  | blob (bytes : List UInt8)

/-- A byte as two hexadecimal digits. -/
def hexByte (byte : UInt8) : List Char :=
  [Nat.digitChar (byte.toNat / 16), Nat.digitChar (byte.toNat % 16)]

/-- The JSON form of a cell. -/
def Cell.toJson : Cell → Json
  | .null => .null
  | .integer n => .int n
  | .real x =>
    match Decimal.Binary64.ofFloat x with
    | .finite .. => .float x
    | _ => .null
  | .text bytes => .str (String.ofList (Text.decodeUtf8 bytes))
  | .blob bytes => .str (String.ofList (bytes.flatMap hexByte))

/-- The JSON form of a row. -/
def rowJson (cells : List Cell) : Json := .arr (cells.map Cell.toJson)

end QueryScore
