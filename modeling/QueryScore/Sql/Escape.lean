/-
# QueryScore.Sql.Escape -- string literals with escapes

In some literals a backslash gives the characters behind it another meaning. Three conventions
are in use: a single letter for a control character; letters, octal and hexadecimal numbers;
and code points of four or six hexadecimal digits alone. All three find the end of the literal
in the same way, at the first quote that is neither doubled nor behind a backslash, and differ
in what they make of a backslash. A literal with a meaningless escape is refused.
-/

import QueryScore.Text.Hexadecimal

namespace QueryScore.Sql

open Text

/-! ## Parts of a literal -/

/-- A character of a literal. -/
inductive LiteralPart where
  /-- A character that stands for itself. -/
  | plain (c : Char)
  /-- A character behind a backslash. -/
  | escaped (c : Char)
  deriving DecidableEq, Repr

/-- The character itself. -/
def LiteralPart.char : LiteralPart → Char
  | .plain c | .escaped c => c

/-- The character, if no backslash stands before it. -/
def LiteralPart.plain? : LiteralPart → Option Char
  | .plain c => some c
  | .escaped _ => none

/-- The parts before the closing quote, doubled quotes read as one, and what follows it. -/
def readParts : List Char → Option (List LiteralPart × List Char)
  | [] => none
  | '\\' :: c :: rest => (readParts rest).map fun (parts, after) => (.escaped c :: parts, after)
  | '\'' :: '\'' :: rest =>
    (readParts rest).map fun (parts, after) => (.plain '\'' :: parts, after)
  | '\'' :: rest => some ([], rest)
  | c :: rest => (readParts rest).map fun (parts, after) => (.plain c :: parts, after)

/-- A convention for escapes: the character that a backslash with the given character behind it
stands for, and how many of the parts that follow belong to it. -/
abbrev Convention := Char → List LiteralPart → Option (Char × Nat)

/-- The text of some parts. -/
def resolve (meaning : Convention) : List LiteralPart → Option (List Char)
  | [] => some []
  | .plain c :: rest => (resolve meaning rest).map (c :: ·)
  | .escaped c :: rest => do
    let (found, taken) ← meaning c rest
    let text ← resolve meaning (rest.drop taken)
    pure (found :: text)
termination_by parts => parts.length
decreasing_by
  · simp
  · simp only [List.length_drop, List.length_cons]
    omega

/-- The text of a literal that starts behind its opening quote, and what follows it. -/
def readEscaped (meaning : Convention) (cs : List Char) : Option (List Char × List Char) := do
  let (parts, rest) ← readParts cs
  let text ← resolve meaning parts
  pure (text, rest)

/-! ## Conventions -/

/-- A letter or a zero for a control character; any other character stands for itself. -/
def controlEscape : Convention := fun c _ =>
  let controls := [('0', '\x00'), ('a', '\x07'), ('b', '\x08'), ('f', '\x0c'), ('n', '\n'),
    ('r', '\r'), ('t', '\t'), ('Z', '\x1a')]
  some ((controls.lookup c).getD c, 0)

/-- The character of a number that is cut to a byte, if that is an ASCII character. -/
def byteChar? (n : Nat) : Option Char :=
  let byte := n % 256
  if byte < 128 then some (Char.ofNat byte) else none

/-- The character of exactly so many hexadecimal digits at the front of some parts. -/
def codePoint? (places : Nat) (parts : List LiteralPart) : Option (Char × Nat) := do
  let digits ← (parts.take places).mapM LiteralPart.plain?
  if digits.length < places then none
  else
    let n ← hexNumber? digits
    pure (← charOfCode? n, places)

/-- The digits of some kind at the front of some parts, at most so many. -/
def digitsAhead (isDigit : Char → Bool) (most : Nat) (parts : List LiteralPart) : List Char :=
  ((parts.take most).takeWhile fun part => part.plain?.any isDigit).map LiteralPart.char

/-- The character is an octal digit. -/
def isOctalDigit (c : Char) : Bool := '0' ≤ c && c ≤ '7'

/-- A letter for a control character, a code point of four or eight hexadecimal digits, a byte in
hexadecimal or octal digits, or a character that stands for itself. -/
def letterEscape : Convention := fun c rest =>
  match [('b', '\x08'), ('f', '\x0c'), ('n', '\n'), ('r', '\r'), ('t', '\t')].lookup c with
  | some control => some (control, 0)
  | none =>
    if c = 'u' then codePoint? 4 rest
    else if c = 'U' then codePoint? 8 rest
    else if c = 'x' then
      match digitsAhead isHexDigit 2 rest with
      | [] => some (c, 0)
      | digits => do pure (← byteChar? (← hexNumber? digits), digits.length)
    else if isOctalDigit c then
      let digits := digitsAhead isOctalDigit 2 rest
      let n := (c :: digits).foldl (fun n d => n * 8 + (d.toNat - '0'.toNat)) 0
      (byteChar? n).map (·, digits.length)
    else some (c, 0)

/-- As `letterEscape`, but no escape stands for the character zero. -/
def nonzeroEscape : Convention := fun c rest =>
  (letterEscape c rest).filter fun (found, _) => found ≠ '\x00'

/-- A code point of four hexadecimal digits, or of six behind a plus sign; or a backslash. -/
def codeEscape : Convention := fun c rest =>
  if c = '\\' then some (c, 0)
  else if c = '+' then codePoint? 6 rest
  else do
    let (found, _) ← codePoint? 4 (.plain c :: rest)
    pure (found, 3)

/-! ## Writing -/

/-- A character of a literal under `letterEscape`. -/
def escapeLetter : Char → List Char
  | '\'' => ['\\', '\'']
  | '\\' => ['\\', '\\']
  | '\n' => ['\\', 'n']
  | '\t' => ['\\', 't']
  | '\r' => ['\\', 'r']
  | c => [c]

/-- A character of a literal under `codeEscape`: all but ASCII characters by their code points. -/
def escapeCode (c : Char) : List Char :=
  if c = '\'' then ['\'', '\'']
  else if c = '\\' then ['\\', '\\']
  else if c.toNat < 128 then [c]
  else if c.toNat < 65536 then '\\' :: hexText 4 c.toNat
  else '\\' :: '+' :: hexText 6 c.toNat

end QueryScore.Sql
