/-
# QueryScore.Json.Writer -- JSON values as text

Two layouts: the compact one without blanks, and the indented one, where every item and
member stands on its own line behind two more blanks than its container. A string is escaped
only where it must be: quote, backslash and control characters, the common ones by a letter.
A float that is no number has no JSON text and is written as `null`.
-/

import QueryScore.Decimal.Layout
import QueryScore.Json.Basic

namespace QueryScore.Json

/-! ## Scalars -/

/-- The escape letter of a control character that has one. -/
def escapeLetter? (c : Char) : Option Char :=
  [('"', '"'), ('\\', '\\'), ('\x08', 'b'), ('\x0c', 'f'), ('\n', 'n'), ('\r', 'r'),
    ('\t', 't')].lookup c

/-- A hexadecimal digit in lower case. -/
def hexDigit (n : Nat) : Char := Nat.digitChar n

/-- One character inside a string. -/
def escapeChar (c : Char) : List Char :=
  match escapeLetter? c with
  | some letter => ['\\', letter]
  | none =>
    if c < ' ' then
      ['\\', 'u', '0', '0', hexDigit (c.toNat / 16), hexDigit (c.toNat % 16)]
    else [c]

/-- A string with its quotes. -/
def quoted (s : String) : List Char := '"' :: (s.toList.flatMap escapeChar ++ ['"'])

/-- The text of an integer. -/
def intText (n : Int) : List Char :=
  if n < 0 then '-' :: Nat.toDigits 10 n.natAbs else Nat.toDigits 10 n.natAbs

/-- The text of a float; `null` unless it is finite. -/
def floatText (x : Float) : List Char :=
  match Decimal.Binary64.ofFloat x with
  | .finite .. => Decimal.Style.json.text x
  | _ => "null".toList

/-! ## The compact layout -/

mutual

/-- The compact text of a value. -/
def compact : Json → List Char
  | .null => "null".toList
  | .bool b => if b then "true".toList else "false".toList
  | .int n => intText n
  | .float x => floatText x
  | .str s => quoted s
  | .arr items => '[' :: (compactItems items ++ [']'])
  | .obj members => '{' :: (compactMembers members ++ ['}'])

/-- The items of an array, with commas between them. -/
def compactItems : List Json → List Char
  | [] => []
  | [item] => compact item
  | item :: next :: rest => compact item ++ ',' :: compactItems (next :: rest)

/-- The members of an object, with commas between them. -/
def compactMembers : List (String × Json) → List Char
  | [] => []
  | [(key, value)] => quoted key ++ ':' :: compact value
  | (key, value) :: next :: rest =>
    quoted key ++ ':' :: (compact value ++ ',' :: compactMembers (next :: rest))

end

/-- The compact text of a value, as a string. -/
def render (value : Json) : String := String.ofList (compact value)

/-! ## The indented layout -/

/-- A new line at a nesting level. -/
def newLine (level : Nat) : List Char := '\n' :: List.replicate (2 * level) ' '

mutual

/-- The indented text of a value that stands at a nesting level. -/
def indented (level : Nat) : Json → List Char
  | .arr [] => "[]".toList
  | .arr (item :: rest) =>
    '[' :: (indentedItems (level + 1) (item :: rest) ++ newLine level ++ [']'])
  | .obj [] => "{}".toList
  | .obj (member :: rest) =>
    '{' :: (indentedMembers (level + 1) (member :: rest) ++ newLine level ++ ['}'])
  | .null => "null".toList
  | .bool b => if b then "true".toList else "false".toList
  | .int n => intText n
  | .float x => floatText x
  | .str s => quoted s

/-- The items of an array, each on its line. -/
def indentedItems (level : Nat) : List Json → List Char
  | [] => []
  | item :: rest =>
    newLine level ++ indented level item ++
      (if rest.isEmpty then [] else [',']) ++ indentedItems level rest

/-- The members of an object, each on its line. -/
def indentedMembers (level : Nat) : List (String × Json) → List Char
  | [] => []
  | (key, value) :: rest =>
    newLine level ++ quoted key ++ ':' :: ' ' :: (indented level value ++
      (if rest.isEmpty then [] else [',']) ++ indentedMembers level rest)

end

/-- The indented text of a value, as a string. -/
def pretty (value : Json) : String := String.ofList (indented 0 value)

end QueryScore.Json
