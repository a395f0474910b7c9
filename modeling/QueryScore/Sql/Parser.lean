/-
# QueryScore.Sql.Parser -- reading phrases from a list of tokens

A parser takes the tokens that are left and gives a phrase with the tokens behind it, or refuses.
It refuses a mismatch, which an alternative may mend, or a nesting that is too deep, which nothing
mends. Repetition is bounded by the number of tokens left.
-/

import QueryScore.Decimal.Binary64
import QueryScore.Sql.Vocabulary

namespace QueryScore.Sql

/-- Why a phrase is not there. -/
inductive Refusal where
  /-- The tokens do not fit. -/
  | mismatch
  /-- The phrase nests too deeply. -/
  | tooDeep
  deriving DecidableEq, Repr

/-- A reader of phrases. -/
abbrev Parser (α : Type) := StateT (List Token) (Except Refusal) α

namespace Parser

variable {α : Type}

/-! ## Refusal and choice -/

/-- The tokens do not fit. -/
def mismatch : Parser α := throw .mismatch

/-- The phrase if it is there; otherwise nothing is taken. -/
def optional (p : Parser α) : Parser (Option α) := fun input =>
  match p input with
  | .ok (a, rest) => .ok (some a, rest)
  | .error .mismatch => .ok (none, input)
  | .error .tooDeep => .error .tooDeep

/-- The first phrase, else the second. -/
def either (p : Parser α) (q : Unit → Parser α) : Parser α := do
  match ← optional p with
  | some a => pure a
  | none => q ()

/-! ## Single tokens -/

/-- The token at a distance, if there is one. -/
def peekAt (distance : Nat) : Parser (Option Token) := do
  return (← get)[distance]?

/-- The next token, if there is one. -/
def peek : Parser (Option Token) := peekAt 0

/-- Takes the next token. -/
def next : Parser Token := do
  match ← get with
  | [] => mismatch
  | token :: rest =>
    set rest
    pure token

/-- Drops tokens. -/
def drop (count : Nat) : Parser Unit := modify (List.drop count)

/-- The keyword at a distance. -/
def keywordAt (distance : Nat) : Parser (Option String) := do
  return (← peekAt distance).bind Token.keyword?

/-- A keyword comes next. -/
def atKeyword (word : String) : Parser Bool := do return (← keywordAt 0) == some word

/-- A sign comes next. -/
def atSign (sign : String) : Parser Bool := do return (← peek) == some (.sign sign)

/-- Takes keywords if they all come next. -/
def accept (words : List String) : Parser Bool := do
  let found := (← get).take words.length |>.map Token.keyword?
  if found == words.map some then
    drop words.length
    pure true
  else pure false

/-- Takes a keyword if it comes next. -/
def keyword (word : String) : Parser Bool := accept [word]

/-- Takes one of some keywords if one comes next. -/
def oneOf (words : List String) : Parser (Option String) := do
  match ← keywordAt 0 with
  | some word =>
    if words.contains word then
      drop 1
      pure (some word)
    else pure none
  | none => pure none

/-- Takes the first of some lists of keywords that comes next. -/
def acceptAny (choices : List (List String)) : Parser (Option (List String)) := do
  for words in choices do
    if ← accept words then return some words
  return none

/-- Takes keywords that must come next. -/
def expect (words : List String) : Parser Unit := do
  unless ← accept words do mismatch

/-- Takes one of some keywords that must come next. -/
def expectOneOf (words : List String) : Parser String := do
  match ← oneOf words with
  | some word => pure word
  | none => mismatch

/-- Takes a sign if it comes next. -/
def sign (text : String) : Parser Bool := do
  if ← atSign text then
    drop 1
    pure true
  else pure false

/-- Takes a sign that must come next. -/
def expectSign (text : String) : Parser Unit := do
  unless ← sign text do mismatch

/-! ## Repetition -/

/-- As many phrases as come, at most `fuel`: each tells whether another may follow. -/
def repeatWhile (p : Parser (α × Bool)) : Nat → Parser (List α)
  | 0 => mismatch
  | fuel + 1 => do
    let (a, more) ← p
    if more then return a :: (← repeatWhile p fuel) else pure [a]

/-- Phrases as long as each says that another follows. -/
def phrases (p : Parser (α × Bool)) : Parser (List α) := do
  repeatWhile p ((← get).length + 1)

/-- One phrase or more, separated by commas. -/
def commaSeparated (p : Parser α) : Parser (List α) :=
  phrases do
    let a ← p
    return (a, ← sign ",")

/-- Phrases separated by commas and closed by a sign; there may be none. -/
def listUntil (closing : String) (p : Parser α) : Parser (List α) := do
  if ← sign closing then return []
  let found ← commaSeparated p
  expectSign closing
  return found

/-- A phrase in round brackets. -/
def inBrackets (p : Parser α) : Parser α := do
  expectSign "("
  let a ← p
  expectSign ")"
  return a

/-- The phrase behind keywords, if they come next. -/
def behind (words : List String) (p : Parser α) : Parser (Option α) := do
  if ← accept words then return some (← p) else return none

/-- Repeats a step that may apply, from a value on, at most `fuel` times. -/
def iterate (step : α → Parser (Option α)) : Nat → α → Parser α
  | 0, a => pure a
  | fuel + 1, a => do
    match ← step a with
    | some b => iterate step fuel b
    | none => pure a

/-- Repeats a step as long as it applies. -/
def stepping (step : α → Parser (Option α)) (a : α) : Parser α := do
  iterate step ((← get).length + 1) a

/-! ## Names -/

/-- An identifier: any word, or a string that stands for one. -/
def identifier : Parser Ident := do
  match ← next with
  | .word name => pure name
  | .literal .string text => pure ⟨text, some '\''⟩
  | _ => mismatch

/-- A dotted name. -/
def dottedName : Parser (List Ident) :=
  phrases do
    let name ← identifier
    return (name, ← sign ".")

/-- A list of dotted names in brackets. -/
def dottedNames : Parser (List (List Ident)) := inBrackets (commaSeparated dottedName)

/-- Identifiers in brackets. -/
def nameList : Parser (List Ident) := inBrackets (commaSeparated identifier)

/-- Identifiers in brackets, if there are brackets. -/
def nameListIfAny : Parser (List Ident) := do
  if ← atSign "(" then nameList else return []

/-! ## Values -/

/-- A number without a fraction or an exponent. -/
def natural : Parser Nat := do
  match ← next with
  | .number text _ =>
    match (String.ofList text).toNat? with
    | some n => if text.all Char.isDigit ∧ n < twoTo 64 then pure n else mismatch
    | none => mismatch
  | _ => mismatch

/-- The token behind a mark for a parameter: a word or a number. -/
def parameterName (mark : String) : Parser (List Char) := do
  match ← next with
  | .word name => pure (mark.toList ++ name.text)
  | .number text false => pure (mark.toList ++ text)
  | _ => mismatch

/-- A value: a literal, a truth value, NULL or a parameter, as it is written back. -/
def value : Parser (List Char) := do
  let token ← next
  match token with
  | .number text long => pure (numberText text long)
  | .literal kind text => pure (kind.render text)
  | .parameter text => pure text
  | .sign ":" => parameterName ":"
  | .sign "@" => parameterName "@"
  | .word ⟨text, some '"'⟩ => pure (LiteralKind.double.render text)
  | .word _ =>
    match token.keyword? with
    | some "TRUE" => pure "true".toList
    | some "FALSE" => pure "false".toList
    | some "NULL" => pure "NULL".toList
    | _ => mismatch
  | .sign _ => mismatch

/-- A number or a parameter, as it is written back. -/
def numeral : Parser (List Char) := do
  match ← peek with
  | some (.number _ _) | some (.parameter _) | some (.sign ":") | some (.sign "@") => value
  | _ => mismatch

/-- A number or a parameter, perhaps with a plus or minus before it. -/
def signedNumeral : Parser (List Char) := do
  if ← sign "+" then return '+' :: (← numeral)
  if ← sign "-" then return '-' :: (← numeral)
  numeral

/-- The text of a string; a word that is no keyword may stand for one. -/
def stringText : Parser (List Char) := do
  let token ← next
  match token with
  | .literal .string text | .literal .escaped text | .literal .unicode text => pure text
  | .word name => if token.isPlainWord then pure name.text else mismatch
  | _ => mismatch

/-- The text of a string in single quotes. -/
def quotedText : Parser (List Char) := do
  match ← next with
  | .literal .string text => pure text
  | _ => mismatch

end Parser

end QueryScore.Sql
