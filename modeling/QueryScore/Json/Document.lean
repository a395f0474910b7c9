/-
# QueryScore.Json.Document -- JSON texts as they are written

Reading goes in two steps. A text is first read into a document, which keeps what the grammar
alone decides: numbers as written, members in the order of the text with repeated keys, and
nesting of any depth. A string whose escapes leave a surrogate without its partner is still a
string of the grammar, but names no text. Only what a reader of the document asks for is then
decoded, so an ignored part may hold numbers or strings that have no value.
-/

import QueryScore.Json.Number
import QueryScore.Text.Hexadecimal

namespace QueryScore.Json

open Decimal

/-- A JSON text, as written. -/
inductive Document where
  /-- The word `null`. -/
  | null
  /-- The word `true` or `false`. -/
  | bool (b : Bool)
  /-- A number as written. -/
  | number (n : Numeral)
  /-- A string; `none` if a surrogate in it has no partner. -/
  | string (s : Option String)
  /-- An array. -/
  | array (items : List Document)
  /-- An object with its members as they come. -/
  | object (members : List (Option String × Document))
  deriving Repr, Inhabited

/-! ## Strings -/

/-- The code unit of four hexadecimal digits. -/
def codeUnit? (a b c d : Char) : Option Nat := Text.hexNumber? [a, b, c, d]

/-- The character of an escape letter. -/
def unescape? (c : Char) : Option Char :=
  [('"', '"'), ('\\', '\\'), ('/', '/'), ('b', '\x08'), ('f', '\x0c'), ('n', '\n'),
    ('r', '\r'), ('t', '\t')].lookup c

/-- The code units of a string whose opening quote was read, and the text after it. A unit is
a code point, or one half of a surrogate pair. -/
def readUnits : List Char → Option (List Nat × List Char)
  | [] => none
  | '"' :: rest => some ([], rest)
  | '\\' :: 'u' :: a :: b :: c :: d :: rest => do
    let unit ← codeUnit? a b c d
    let (units, after) ← readUnits rest
    pure (unit :: units, after)
  | '\\' :: letter :: rest => do
    let c ← unescape? letter
    let (units, after) ← readUnits rest
    pure (c.toNat :: units, after)
  | c :: rest =>
    -- Only a backslash at the end of the text gets here.
    if c < ' ' || c == '\\' then none
    else do
      let (units, after) ← readUnits rest
      pure (c.toNat :: units, after)

/-- The unit is the first half of a surrogate pair. -/
def isHighHalf (n : Nat) : Bool := 0xd800 ≤ n && n < 0xdc00

/-- The unit is the second half of a surrogate pair. -/
def isLowHalf (n : Nat) : Bool := 0xdc00 ≤ n && n < 0xe000

/-- The text of code units, if every half has its partner. -/
def joinUnits : List Nat → Option (List Char)
  | [] => some []
  | [n] => if isHighHalf n || isLowHalf n then none else some [Char.ofNat n]
  | n :: m :: rest =>
    -- A first half needs the second half right behind it.
    if isHighHalf n then
      if isLowHalf m then
        (joinUnits rest).map (Char.ofNat (0x10000 + (n - 0xd800) * 0x400 + (m - 0xdc00)) :: ·)
      else none
    else if isLowHalf n then none
    else (joinUnits (m :: rest)).map (Char.ofNat n :: ·)

/-- A string whose opening quote was read, and the text after it. -/
def readString (cs : List Char) : Option (Option String × List Char) :=
  (readUnits cs).map fun (units, rest) => ((joinUnits units).map String.ofList, rest)

/-! ## Numbers -/

/-- The digits before the point: a zero alone, or digits that start with another. -/
def readWhole : List Char → Option (List Char × List Char)
  -- A number has no leading zeros.
  | '0' :: rest => if rest.head?.any Char.isDigit then none else some (['0'], rest)
  | cs =>
    let (digits, rest) := splitDigits cs
    if digits.isEmpty then none else some (digits, rest)

/-- The digits after the point, none if there is no point. -/
def readFraction : List Char → Option (List Char × List Char)
  | '.' :: cs =>
    let (digits, rest) := splitDigits cs
    if digits.isEmpty then none else some (digits, rest)
  | cs => some ([], cs)

/-- The power of ten, if there is one. -/
def readPower : List Char → Option (Option (Bool × List Char) × List Char)
  | [] => some (none, [])
  | c :: cs =>
    if c == 'e' || c == 'E' then
      let (negative, rest) := splitSign cs
      let (digits, rest) := splitDigits rest
      if digits.isEmpty then none else some (some (negative, digits), rest)
    else some (none, c :: cs)

/-- A number, and the text after it. -/
def readNumeral (cs : List Char) : Option (Numeral × List Char) := do
  let (negative, rest) :=
    match cs with
    | '-' :: rest => (true, rest)
    | _ => (false, cs)
  let (whole, rest) ← readWhole rest
  let (fraction, rest) ← readFraction rest
  let (power, rest) ← readPower rest
  pure (⟨negative, whole, fraction, power⟩, rest)

/-! ## Values -/

/-- The blanks that JSON allows between its tokens. -/
def isSpace (c : Char) : Bool := c == ' ' || c == '\n' || c == '\t' || c == '\r'

/-- The text without leading blanks. -/
def skipSpace (cs : List Char) : List Char := cs.dropWhile isSpace

mutual

/-- A value, and the text after it. Every two nested calls take a character, which bounds the
fuel that a text needs. -/
def readValue : Nat → List Char → Option (Document × List Char)
  | 0, _ => none
  | fuel + 1, cs =>
    match skipSpace cs with
    | 'n' :: 'u' :: 'l' :: 'l' :: rest => some (.null, rest)
    | 't' :: 'r' :: 'u' :: 'e' :: rest => some (.bool true, rest)
    | 'f' :: 'a' :: 'l' :: 's' :: 'e' :: rest => some (.bool false, rest)
    | '"' :: rest => (readString rest).map fun (s, after) => (.string s, after)
    | '[' :: rest =>
      match skipSpace rest with
      | ']' :: after => some (.array [], after)
      | inside => (readItems fuel inside).map fun (items, after) => (.array items, after)
    | '{' :: rest =>
      match skipSpace rest with
      | '}' :: after => some (.object [], after)
      | inside => (readMembers fuel inside).map fun (members, after) => (.object members, after)
    | other => (readNumeral other).map fun (n, after) => (.number n, after)

/-- One or more items with commas between them, up to the closing bracket. -/
def readItems : Nat → List Char → Option (List Document × List Char)
  | 0, _ => none
  | fuel + 1, cs => do
    let (item, rest) ← readValue fuel cs
    match skipSpace rest with
    | ']' :: after => pure ([item], after)
    | ',' :: more =>
      let (items, after) ← readItems fuel more
      pure (item :: items, after)
    | _ => none

/-- One or more members with commas between them, up to the closing brace. -/
def readMembers : Nat → List Char → Option (List (Option String × Document) × List Char)
  | 0, _ => none
  | fuel + 1, cs =>
    match skipSpace cs with
    | '"' :: inside => do
      let (key, rest) ← readString inside
      match skipSpace rest with
      | ':' :: rest =>
        let (value, rest) ← readValue fuel rest
        match skipSpace rest with
        | '}' :: after => pure ([(key, value)], after)
        | ',' :: more =>
          let (members, after) ← readMembers fuel more
          pure ((key, value) :: members, after)
        | _ => none
      | _ => none
    | _ => none

end

/-- The document that makes up a whole text. -/
def Document.read (cs : List Char) : Option Document :=
  match readValue (2 * cs.length + 2) cs with
  | some (document, rest) => if (skipSpace rest).isEmpty then some document else none
  | none => none

/-! ## Values of documents -/

/-- The greatest nesting of arrays and objects in a text that is decoded as a value. -/
def maxDepth : Nat := 127

mutual

/-- The value of a document in which at most `depth` containers are nested. -/
def Document.value? (depth : Nat) : Document → Option Json
  | .null => some .null
  | .bool b => some (.bool b)
  | .number n => n.value?
  -- A string that names no text makes the whole value fail.
  | .string s => s.map .str
  | .array items => if depth = 0 then none else (itemValues? (depth - 1) items).map .arr
  | .object members => if depth = 0 then none else (memberValues? (depth - 1) members).map .object

/-- The values of items. -/
def itemValues? (depth : Nat) : List Document → Option (List Json)
  | [] => some []
  | item :: rest => do pure ((← item.value? depth) :: (← itemValues? depth rest))

/-- The values of members. -/
def memberValues? (depth : Nat) : List (Option String × Document) → Option (List (String × Json))
  | [] => some []
  | (key, value) :: rest => do
    pure ((← key, ← value.value? depth) :: (← memberValues? depth rest))

end

/-- The value that a whole text stands for. -/
def parse? (text : String) : Option Json :=
  (Document.read text.toList).bind (·.value? maxDepth)

end QueryScore.Json
