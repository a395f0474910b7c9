/-
# QueryScore.Sql.Token -- the tokens of a SQL text

A token is a word, a number, a quoted literal, an operator or another sign. A bare word is a
keyword wherever the grammar looks for one, whatever its case; a quoted word never is. Words and
literals are written back with their quotes: a quote inside is doubled unless the text already
has it doubled or escaped.
-/

import QueryScore.Sql.Escape
import QueryScore.Text.Casing

namespace QueryScore.Sql

/-! ## Identifiers -/

/-- A text between quotes `q`, each single `q` in it doubled. A `q` after a backslash stays, and so
does a pair of `q`. -/
def doubleQuotes (q : Char) (previous : Char) : List Char → List Char
  | [] => []
  | c :: cs =>
    if c = q then
      if previous = '\\' then c :: doubleQuotes q previous cs
      else
        match cs with
        | [] => [c, c]
        | d :: ds =>
          if d = q then c :: d :: doubleQuotes q c ds else c :: c :: d :: doubleQuotes q d ds
    else c :: doubleQuotes q c cs

/-- A text in quotes. -/
def quoted (q : Char) (cs : List Char) : List Char := q :: doubleQuotes q '\x00' cs ++ [q]

/-- An identifier: its text and the quote it is written in, if any. -/
structure Ident where
  /-- The text between the quotes. -/
  text : List Char
  /-- The quote on both sides. -/
  quote : Option Char
  deriving DecidableEq, Repr

/-- The written form of an identifier. -/
def Ident.render (name : Ident) : List Char :=
  match name.quote with
  | none => name.text
  | some q => quoted q name.text

/-- The written form of a dotted name. -/
def renderPath (names : List Ident) : List Char := ['.'].intercalate (names.map Ident.render)

/-! ## Literals -/

/-- The quoted literals. -/
inductive LiteralKind where
  /-- A string `'…'`. -/
  | string
  /-- A string `"…"`, where a value must stand. -/
  | double
  /-- A national string `N'…'`. -/
  | national
  /-- A hexadecimal string `X'…'`. -/
  | hexadecimal
  /-- A byte string `B'…'`. -/
  | bytes
  /-- A byte string `B"…"`. -/
  | bytesDouble
  /-- A raw string `R'…'`. -/
  | raw
  /-- A raw string `R"…"`. -/
  | rawDouble
  /-- A raw string between three quotes `'` on either side. -/
  | tripleRaw
  /-- A raw string between three quotes `"` on either side. -/
  | tripleRawDouble
  /-- A string `E'…'` with escapes. -/
  | escaped
  /-- A string `U&'…'` of code points. -/
  | unicode
  /-- A string `$tag$…$tag$`. -/
  | dollar (tag : List Char)
  deriving DecidableEq, Repr

/-- The written form of a literal. -/
def LiteralKind.render (text : List Char) : LiteralKind → List Char
  | .string => quoted '\'' text
  | .double => quoted '"' text
  | .national => ['N', '\''] ++ text ++ ['\'']
  | .hexadecimal => ['X', '\''] ++ text ++ ['\'']
  | .bytes => ['B', '\''] ++ text ++ ['\'']
  | .bytesDouble => ['B', '"'] ++ text ++ ['"']
  | .raw => ['R', '\''] ++ text ++ ['\'']
  | .rawDouble => ['R', '"'] ++ text ++ ['"']
  | .tripleRaw => 'R' :: List.replicate 3 '\'' ++ text ++ List.replicate 3 '\''
  | .tripleRawDouble => 'R' :: List.replicate 3 '"' ++ text ++ List.replicate 3 '"'
  | .escaped => ['E', '\''] ++ text.flatMap escapeLetter ++ ['\'']
  | .unicode => ['U', '&', '\''] ++ text.flatMap escapeCode ++ ['\'']
  | .dollar tag => ['$'] ++ tag ++ ['$'] ++ text ++ ['$'] ++ tag ++ ['$']

/-! ## Tokens -/

/-- A token. -/
inductive Token where
  /-- A word, bare or quoted. -/
  | word (name : Ident)
  /-- A number as it is written, and whether the letter `L` follows it. -/
  | number (text : List Char) (long : Bool)
  /-- A literal in quotes: the text between them. -/
  | literal (kind : LiteralKind) (text : List Char)
  /-- An operator or a punctuation mark. -/
  | sign (text : String)
  /-- A parameter such as `?` or `$1`. -/
  | parameter (text : List Char)
  deriving DecidableEq, Repr

/-- The keyword that a bare word spells: the word in upper case. -/
def Token.keyword? : Token → Option String
  | .word ⟨text, none⟩ => some (String.ofList (Text.uppercase text))
  | _ => none

/-- A number with the letter `L` if it has one. -/
def numberText (text : List Char) (long : Bool) : List Char := if long then text ++ ['L'] else text

end QueryScore.Sql
