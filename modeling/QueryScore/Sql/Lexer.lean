/-
# QueryScore.Sql.Lexer -- a SQL text as tokens

Blanks, `--` comments and nested `/* */` comments separate tokens. A quoted stretch ends at the
first quote that is not doubled; one that never ends refuses the whole text. Of the operators the
longest that fits is taken. Words start with a letter, `_`, `#` or `@` and go on with letters,
digits, `_`, `#`, `@` and `$`.

Lexing takes fuel, one unit for a token or a skipped stretch, and each takes a character at least,
so the number of characters suffices.
-/

import QueryScore.Sql.Escape
import QueryScore.Sql.Token
import QueryScore.Text.Alphabetic
import QueryScore.Text.Blank

namespace QueryScore.Sql

/-! ## Quoted stretches -/

/-- What stands before the closing quote, doubled quotes read as one, and what follows it. -/
def readQuoted (q : Char) : List Char → Option (List Char × List Char)
  | [] => none
  | c :: cs =>
    if c = q then
      match cs with
      | [] => some ([], [])
      | d :: ds =>
        -- A doubled quote is one quote of the text.
        if d = q then (readQuoted q ds).map fun (text, rest) => (q :: text, rest)
        else some ([], d :: ds)
    else (readQuoted q cs).map fun (text, rest) => (c :: text, rest)

/-- A literal that starts at its opening quote's successor. -/
def readLiteral (kind : LiteralKind) (q : Char) (cs : List Char) :
    Option (Token × List Char) :=
  let body := match kind with
    | .hexadecimal => readEscaped controlEscape cs
    | .escaped => readEscaped nonzeroEscape cs
    | .unicode => readEscaped codeEscape cs
    | .tripleRaw | .tripleRawDouble => Text.splitOnce (List.replicate 3 q) cs
    | _ => readQuoted q cs
  body.map fun (text, rest) => (.literal kind text, rest)

/-- A raw string that starts at its opening quote's successor: two quotes are an empty string, three
open a string that three quotes close. -/
def readRaw (single triple : LiteralKind) (q : Char) (cs : List Char) :
    Option (Token × List Char) :=
  match Text.stripStart [q, q] cs, Text.stripStart [q] cs with
  | some rest, _ => readLiteral triple q rest
  | none, some rest => some (.literal single [], rest)
  | none, none => readLiteral single q cs

/-- What follows a block comment of which `depth + 1` openings are unclosed. -/
def skipBlockComment (depth : Nat) : List Char → Option (List Char)
  | [] => none
  | '/' :: '*' :: cs => skipBlockComment (depth + 1) cs
  | '*' :: '/' :: cs =>
    match depth with
    | 0 => some cs
    | depth + 1 => skipBlockComment depth cs
  | _ :: cs => skipBlockComment depth cs

/-! ## Words -/

/-- A word may start with this character. -/
def startsWord (c : Char) : Bool := Text.isAlphabetic c || c == '_' || c == '#' || c == '@'

/-- A word may go on with this character. -/
def continuesWord (c : Char) : Bool :=
  Text.isAlphabetic c || c.isDigit || c == '_' || c == '#' || c == '@' || c == '$'

/-- A bare word of which `first` has been read. -/
def readWord (first cs : List Char) : Token × List Char :=
  (.word ⟨first ++ cs.takeWhile continuesWord, none⟩, cs.dropWhile continuesWord)

/-- The literal that a letter and a quote open. -/
def prefixedLiteral? (c quote : Char) : Option LiteralKind :=
  match c, quote with
  | 'b', '\'' | 'B', '\'' => some .bytes
  | 'b', '"' | 'B', '"' => some .bytesDouble
  | 'r', '\'' | 'R', '\'' => some .raw
  | 'r', '"' | 'R', '"' => some .rawDouble
  | 'n', '\'' | 'N', '\'' => some .national
  | 'e', '\'' | 'E', '\'' => some .escaped
  | 'x', '\'' | 'X', '\'' => some .hexadecimal
  | _, _ => none

/-! ## Numbers -/

/-- An exponent with at least one digit. -/
def readExponent (cs : List Char) : List Char × List Char :=
  match cs with
  | e :: cs' =>
    if e = 'e' || e = 'E' then
      let (sign, rest) := match cs' with
        | '+' :: r => (['+'], r)
        | '-' :: r => (['-'], r)
        | r => ([], r)
      let digits := rest.takeWhile Char.isDigit
      if digits.isEmpty then ([], cs) else (e :: sign ++ digits, rest.dropWhile Char.isDigit)
    else ([], cs)
  | [] => ([], [])

/-- A number, or the period alone. -/
def readNumber (cs : List Char) : Token × List Char :=
  let whole := cs.takeWhile Char.isDigit
  let afterWhole := cs.dropWhile Char.isDigit
  match whole, afterWhole with
  | ['0'], 'x' :: rest =>
    let isHex (c : Char) : Bool := c.isDigit || ('a' ≤ c ∧ c ≤ 'f') || ('A' ≤ c ∧ c ≤ 'F')
    (.literal .hexadecimal (rest.takeWhile isHex), rest.dropWhile isHex)
  | _, _ =>
    let (point, afterPoint) := match afterWhole with
      | '.' :: rest => (['.'], rest)
      | rest => ([], rest)
    let fraction := afterPoint.takeWhile Char.isDigit
    let afterFraction := afterPoint.dropWhile Char.isDigit
    -- A point without digits on either side is a sign.
    if whole.isEmpty && fraction.isEmpty then (.sign ".", afterPoint)
    else
      let (exponent, rest) := readExponent afterFraction
      let text := whole ++ point ++ fraction ++ exponent
      match rest with
      -- The letter marks a long number and is no part of its text.
      | 'L' :: rest => (.number text true, rest)
      | rest => (.number text false, rest)

/-! ## Parameters and dollar quotes -/

/-- A parameter `$name`, or a string between two marks `$tag$`. -/
def readDollar (cs : List Char) : Option (Token × List Char) :=
  let isTag (c : Char) : Bool := Text.isAlphanumeric c || c == '_'
  let tag := cs.takeWhile isTag
  match cs.dropWhile isTag with
  | '$' :: rest =>
    (Text.splitOnce (['$'] ++ tag ++ ['$']) rest).map fun (text, rest) =>
      (.literal (.dollar tag) text, rest)
  | rest => some (.parameter ('$' :: tag), rest)

/-! ## Operators -/

/-- The operators of several characters, each before those it starts with. -/
def longSigns : List String :=
  ["!~~*", "->>", "||/", "!~~", "!~*", "<=>", "~~*", "#>>", "->", "||", "|/", "=>", "==", "!=",
    "!!", "!~", "<=", "<>", "<<", "<@", ">=", ">>", "::", ":=", "&&", "^@", "~~", "~*", "#-",
    "#>", "@>", "@?", "//"]

/-- The first of some signs that a text starts with. -/
def readSign (signs : List String) (cs : List Char) : Option (Token × List Char) :=
  signs.findSome? fun sign =>
    (Text.stripStart sign.toList cs).map fun rest => (.sign sign, rest)

/-- A token that starts with `@` or `#` and is none of the operators: a word if a character that may
start it follows, else the mark itself. The character behind the mark belongs to the word
whatever it is, unless it is a blank or, behind `@`, a quote. -/
def readMark (mark : Char) (cs : List Char) : Token × List Char :=
  match cs with
  | [] => (.sign (String.singleton mark), [])
  | c :: rest =>
    if c = ' ' || (mark = '@' && (c = '\'' || c = '"' || c = '`')) then
      (.sign (String.singleton mark), cs)
    else if mark = '@' && c = '@' then
      match rest with
      | [] => (.sign "@@", [])
      | d :: rest' => if d = ' ' then (.sign "@@", rest) else readWord ['@', '@', d] rest'
    else readWord [mark, c] rest

/-! ## The whole text -/

/-- The token at the start of a text that starts with no blank and no comment. `afterWord` says that
a word ends right before it. -/
def readToken (afterWord : Bool) (cs : List Char) : Option (Token × List Char) :=
  match cs with
  | [] => none
  | '\'' :: rest => readLiteral .string '\'' rest
  | 'u' :: '&' :: '\'' :: rest | 'U' :: '&' :: '\'' :: rest => readLiteral .unicode '\'' rest
  -- A point before an underscore separates two parts of a name; elsewhere the text is refused.
  | '.' :: '_' :: rest => if afterWord then some (.sign ".", '_' :: rest) else none
  | '$' :: rest => readDollar rest
  | '?' :: rest =>
    some (.parameter ('?' :: rest.takeWhile Text.isNumeric), rest.dropWhile Text.isNumeric)
  | c :: rest =>
    -- A letter right before a quote says what kind of literal follows.
    match rest.head?.bind (prefixedLiteral? c) with
    | some .raw => readRaw .raw .tripleRaw '\'' rest.tail
    | some .rawDouble => readRaw .rawDouble .tripleRawDouble '"' rest.tail
    | some kind => readLiteral kind (rest.head?.getD '\'') rest.tail
    | none =>
      if c = '"' || c = '`' then
        (readQuoted c rest).map fun (text, rest) => (.word ⟨text, some c⟩, rest)
      else if c.isDigit || c = '.' then some (readNumber cs)
      else
        -- What begins none of the longer operators is a mark, a word, or a sign of one character.
        match readSign longSigns cs with
        | some found => some found
        | none =>
          if c = '@' || c = '#' then some (readMark c rest)
          else if startsWord c then some (readWord [c] rest)
          else some (.sign (String.singleton c), rest)

/-- The tokens of a text, in order. -/
def lexFrom (fuel : Nat) (afterWord : Bool) (cs : List Char) : Option (List Token) :=
  match fuel with
  | 0 => if cs.isEmpty then some [] else none
  | fuel + 1 =>
    match cs with
    | [] => some []
    -- Comments come before operators, which may begin with the same characters.
    | '-' :: '-' :: rest => lexFrom fuel false (rest.dropWhile (· ≠ '\n'))
    | '/' :: '*' :: rest => (skipBlockComment 0 rest).bind (lexFrom fuel false)
    | c :: rest =>
      if Text.isBlank c then lexFrom fuel false rest
      else
        match readToken afterWord (c :: rest) with
        | none => none
        | some (token, rest') =>
          -- Only a word that ends right here allows a point before an underscore.
          let isWord := match token with
            | .word _ => true
            | _ => false
          (lexFrom fuel isWord rest').map (token :: ·)

/-- The tokens of a text; none if a quoted stretch or a comment does not end. -/
def lex (cs : List Char) : Option (List Token) := lexFrom cs.length false cs

end QueryScore.Sql
