/-
# QueryScore.Name -- normal forms of names and fragments

Names of tables, columns and labels are compared without their quotes, without blanks around
them, and in lower case. A dotted name stands for its last part; dots inside quotes separate
nothing. A fragment of a query is compared with its blanks collapsed and in lower case.
-/

import QueryScore.Text.Blank
import QueryScore.Text.Casing

namespace QueryScore.Name

open Text

/-! ## Single identifiers -/

/-- The text between an opening and a closing character at its two ends. -/
def between? (opening closing : Char) (cs : List Char) : Option (List Char) :=
  (stripStart [opening] cs).bind (stripEnd [closing])

/-- The identifier without one layer of `"…"`, back quotes or `[…]`. -/
def unquote (cs : List Char) : List Char :=
  (between? '"' '"' cs <|> between? '`' '`' cs <|> between? '[' ']' cs).getD cs

/-- The identifier trimmed, unquoted and in lower case. -/
def normalize (cs : List Char) : List Char := lowercase (unquote (trim cs))

/-! ## Dotted names -/

/-- The character that closes what `opening` opened. -/
def closingQuote (opening : Char) : Char := if opening = '[' then ']' else opening

/-- The quote that is open after a character. -/
def quoteAfter : Option Char → Char → Option Char
  | some opening, c => if c = closingQuote opening then none else some opening
  | none, c => if c = '"' || c = '`' || c = '[' then some c else none

/-- Each character with whether it is a dot outside quotes. -/
def markDots (quote : Option Char) : List Char → List (Char × Bool)
  | [] => []
  | c :: cs => (c, quote.isNone && c == '.') :: markDots (quoteAfter quote c) cs

/-- The parts of a dotted name, trimmed. -/
def parts (cs : List Char) : List (List Char) :=
  (splitWhere Prod.snd (markDots none cs)).map fun part => trim (part.map Prod.fst)

/-- The last two parts of a dotted name, without their quotes. -/
def splitQualified (cs : List Char) : Option (List Char × List Char) :=
  match (parts cs).reverse with
  | relation :: schema :: _ => some (unquote schema, unquote relation)
  | _ => none

/-- The normal form of the last part of a dotted name. -/
def normalizeRelation (cs : List Char) : List Char :=
  match splitQualified (trim cs) with
  | some (_, relation) => normalize relation
  | none => normalize cs

/-! ## Fragments -/

/-- The comparison form of a query fragment: blanks collapsed, lower case. -/
def normalizeFragment (cs : List Char) : List Char := lowercase (collapse cs)

end QueryScore.Name
