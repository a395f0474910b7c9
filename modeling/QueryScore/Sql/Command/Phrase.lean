/-
# QueryScore.Sql.Command.Phrase -- phrases that are only checked

Of a command that is no query nothing is kept but its first words. So its phrases are read to see
that they are well formed, and dropped. Many of them are announced by words: a list of such phrases
is read by the first whose words come next.

A table has columns and constraints in brackets. A constraint may have a name; an index has columns
to sort by, each perhaps with the class of its comparisons.
-/

import QueryScore.Sql.Grammar.Change

namespace QueryScore.Sql.Command

open QueryScore.Sql.Parser

variable {α : Type}

/-- Reads a phrase and drops it. -/
def pass (p : Parser α) : Parser Unit := do
  let _ ← p

/-- Reads phrases separated by commas and drops them. -/
def passList (p : Parser α) : Parser Unit := pass (commaSeparated p)

/-- Reads a phrase in brackets and drops it. -/
def passBracketed (p : Parser α) : Parser Unit := pass (inBrackets p)

/-- Reads phrases in brackets, separated by commas, and drops them. -/
def passListed (p : Parser α) : Parser Unit := passBracketed (commaSeparated p)

/-- Reads a phrase if keywords that announce it come next. -/
def passBehind (words : List String) (p : Parser α) : Parser Unit := pass (behind words p)

/-- Takes keywords if they come next. -/
def may (words : List String) : Parser Unit := pass (accept words)

/-- Takes one of some keywords if one comes next. -/
def mayBe (words : List String) : Parser Unit := pass (oneOf words)

/-- Takes a sign if it comes next. -/
def maySign (text : String) : Parser Unit := pass (sign text)

/-- Reads a phrase if it is there. -/
def mayPass (p : Parser α) : Parser Unit := pass (optional p)

/-- `IF EXISTS`, if it is there. -/
def mayExist : Parser Unit := may ["IF", "EXISTS"]

/-- `IF NOT EXISTS`, if it is there. -/
def mayBeNew : Parser Unit := may ["IF", "NOT", "EXISTS"]

/-- Reads a dotted name. -/
def passName : Parser Unit := pass dottedName

/-- Reads an identifier. -/
def passIdent : Parser Unit := pass identifier

/-- Reads a dotted name as far as it goes: the token at which it breaks off is taken too. -/
def passLooseName : Parser Unit :=
  pass (phrases do
    let token ← peek
    drop 1
    match token with
    | some (.word _) | some (.literal .string _) => return ((), ← sign ".")
    | _ => return ((), false))

/-- Reads an identifier, or takes another token in its place. -/
def passLooseIdent : Parser Unit := drop 1

/-! ## Announced phrases -/

/-- Phrases, each with the keywords that announce it. -/
abbrev Choices := List (List String × Parser Unit)

/-- Reads the first phrase whose keywords come next; tells whether there was one. -/
def chosen (choices : Choices) : Parser Bool := do
  for (words, p) in choices do
    if ← accept words then
      p
      return true
  return false

/-- Reads the first phrase whose keywords come next; one must. -/
def choose (choices : Choices) : Parser Unit := do
  unless ← chosen choices do mismatch

/-- Reads the first phrase whose keywords come next, if there is one. -/
def mayChoose (choices : Choices) : Parser Unit := pass (chosen choices)

/-- Reads announced phrases as long as one comes. -/
def chooseAll (choices : Choices) : Parser Unit :=
  stepping (fun _ => do return if ← chosen choices then some () else none) ()

/-- Choices of words that announce nothing. -/
def wordings (all : List (List String)) : Choices := all.map fun words => (words, pure ())

/-- A behaviour of objects that depend on one that goes, if it is said. -/
def mayCascade : Parser Unit := mayBe ["CASCADE", "RESTRICT"]

/-- The group of machines that run the command, if it is said. -/
def mayRunOnCluster : Parser Unit := passBehind ["ON", "CLUSTER"] identifier

/-! ## Indexes -/

/-- The kind of an index, if it is said. -/
def mayUseIndex : Parser Unit := passBehind ["USING"] identifier

/-- A column of an index: a sort key, with the class of its comparisons before the options. -/
def indexColumn (r : Rules) : Parser Unit := do
  let _ ← r.anyExpr
  let ahead ← keywordAt 0
  unless ahead.any ["ASC", "DESC", "NULLS", "WITH"].contains do mayPass identifier
  pass (sortOptions r)

/-- The columns of an index in brackets. -/
def indexColumns (r : Rules) : Parser Unit := passListed (indexColumn r)

/-- The options of an index. -/
def indexOptions : Parser Unit :=
  chooseAll [(["USING"], passIdent), (["COMMENT"], pass stringText)]

/-- Whether rows without a value count as equal, if that is said. -/
def mayDistinguishNulls : Parser Unit :=
  passBehind ["NULLS"] do
    may ["NOT"]
    expect ["DISTINCT"]

/-! ## Columns -/

/-- The options of a column, without names. -/
def columnOptions (r : Rules) : Parser Unit :=
  stepping (fun _ => do return (← columnOption r).map fun _ => ()) ()

/-! ## Constraints -/

/-- A key over columns, behind its keywords. -/
def keyConstraint (r : Rules) : Parser Unit := do
  mayPass identifier
  mayUseIndex
  indexColumns r
  indexOptions
  pass enforcement

/-- A reference to another table, behind its keywords. -/
def referenceConstraint : Parser Unit := do
  mayPass identifier
  pass nameList
  expect ["REFERENCES"]
  pass reference

/-- A condition on rows, behind its keyword. -/
def checkConstraint (r : Rules) : Parser Unit := do
  passBracketed r.anyExpr
  mayChoose (wordings [["ENFORCED"], ["NOT", "ENFORCED"]])

/-- An index without a constraint, behind its keyword. -/
def plainIndex (r : Rules) : Parser Unit := do
  unless ← atKeyword "USING" do mayPass identifier
  mayUseIndex
  indexColumns r

/-- An index for texts or places, behind its keyword. -/
def specialIndex (r : Rules) : Parser Unit := do
  mayBe ["KEY", "INDEX"]
  mayPass identifier
  indexColumns r

/-- The constraints that may have a name. -/
def constraints (r : Rules) : Choices :=
  [(["UNIQUE"], do
      mayBe ["KEY", "INDEX"]
      mayDistinguishNulls
      keyConstraint r),
    (["PRIMARY"], do
      expect ["KEY"]
      keyConstraint r),
    (["FOREIGN"], do
      expect ["KEY"]
      referenceConstraint),
    (["CHECK"], checkConstraint r)]

/-- The indexes among the constraints, which have no name. -/
def indexes (r : Rules) : Choices :=
  [(["INDEX"], plainIndex r), (["KEY"], plainIndex r), (["FULLTEXT"], specialIndex r),
    (["SPATIAL"], specialIndex r)]

/-- Reads a constraint if one comes next; tells whether one did. -/
def tableConstraint (r : Rules) : Parser Bool := do
  if ← keyword "CONSTRAINT" then
    passIdent
    choose (constraints r)
    return true
  else chosen (constraints r ++ indexes r)

/-- A column or a constraint. -/
def tableElement (r : Rules) : Parser Unit := do
  unless ← tableConstraint r do
    match ← peek with
    | some (.word _) => pass (column r)
    | _ => mismatch

/-- The columns and constraints of a table in brackets, if there are brackets. -/
def tableElements (r : Rules) : Parser Unit := do
  if ← sign "(" then
    if ← sign ")" then return
    passList (tableElement r)
    expectSign ")"

end QueryScore.Sql.Command
