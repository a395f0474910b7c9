/-
# QueryScore.Sql.Command.Copy -- rows to files and back

COPY moves rows between a table and a file, a program or the text that follows the command. Options
stand in brackets, or without brackets in an older notation. UNLOAD writes the rows of a query.
-/

import QueryScore.Sql.Command.Phrase

namespace QueryScore.Sql.Command

open QueryScore.Sql.Parser

/-! ## Options in brackets -/

/-- A text of one ASCII character. -/
def singleCharacter : Parser Unit := do
  match ← stringText with
  | [c] => if c.toNat < 128 then pure () else mismatch
  | _ => mismatch

/-- Whether an option holds, if that is said. -/
def mayHold : Parser Unit := mayBe ["TRUE", "FALSE"]

/-- The options in brackets. -/
def copyOptions : Choices :=
  [(["FORMAT"], passIdent), (["FREEZE"], mayHold), (["DELIMITER"], singleCharacter),
    (["NULL"], pass stringText), (["HEADER"], mayHold), (["QUOTE"], singleCharacter),
    (["ESCAPE"], singleCharacter), (["FORCE_QUOTE"], pass nameList),
    (["FORCE_NOT_NULL"], pass nameList), (["FORCE_NULL"], pass nameList),
    (["ENCODING"], pass stringText)]

/-! ## Options without brackets -/

/-- A phrase behind AS, which may be missing. -/
def perhapsAs (p : Parser Unit) : Parser Unit := do
  may ["AS"]
  p

/-- A text in single quotes, if there is one. -/
def mayQuote : Parser Unit := mayPass quotedText

/-- An option of a table of text. -/
def textTableOption : Parser Unit :=
  choose [(["HEADER"], pure ()), (["QUOTE"], perhapsAs singleCharacter),
    (["ESCAPE"], perhapsAs singleCharacter), (["FORCE", "NOT", "NULL"], passList identifier),
    (["FORCE", "QUOTE"], passList identifier)]

/-- Whether an option is on, if that is said. -/
def maySwitch : Parser Unit := mayBe ["TRUE", "FALSE", "ON", "OFF"]

/-- Who reads or writes the files. -/
def roleOption : Parser Unit := do
  unless ← keyword "DEFAULT" do pass stringText

/-- How rows are spread over files. -/
def spreadOption : Parser Unit := do
  expect ["BY"]
  pass nameList
  may ["INCLUDE"]

/-- The options without brackets that have something behind them. -/
def valuedOptions : Choices :=
  [(["ACCEPTINVCHARS"], perhapsAs mayQuote), (["COMPUPDATE"], do
      may ["PRESET"]
      maySwitch),
    (["CSV"], stepping (fun _ => optional textTableOption) ()),
    (["DATEFORMAT"], perhapsAs mayQuote), (["DELIMITER"], perhapsAs singleCharacter),
    (["ENCRYPTED"], may ["AUTO"]), (["EXTENSION"], pass stringText),
    (["FIXEDWIDTH"], perhapsAs (pass stringText)), (["IAM_ROLE"], roleOption),
    (["IGNOREHEADER"], perhapsAs (pass natural)), (["MANIFEST"], may ["VERBOSE"]),
    (["MAXFILESIZE"], perhapsAs do
      pass numeral
      mayBe ["MB", "GB"]),
    (["NULL"], perhapsAs (pass stringText)), (["PARALLEL"], maySwitch),
    (["PARTITION"], spreadOption),
    (["ROWGROUPSIZE"], perhapsAs do
      pass numeral
      mayBe ["MB", "GB"]),
    (["STATUPDATE"], maySwitch), (["TIMEFORMAT"], perhapsAs mayQuote)]

/-- The options without brackets. -/
def bareOptions : Choices :=
  valuedOptions ++ wordings ([["ACCEPTANYDATE"], ["ADDQUOTES"], ["ALLOWOVERWRITE"], ["BINARY"],
    ["BLANKSASNULL"], ["BZIP2"], ["CLEANPATH"], ["EMPTYASNULL"], ["ESCAPE"], ["GZIP"], ["HEADER"],
    ["JSON"], ["PARQUET"], ["TRUNCATECOLUMNS"], ["ZSTD"]])

/-- One more option without brackets, if it comes next. -/
def bareOptionStep (_ : Unit) : Parser (Option Unit) := optional do
  passBehind ["FORMAT"] (may ["AS"])
  choose bareOptions

/-! ## COPY -/

/-- The rows that follow a command: everything up to a backslash and a period, or to the end. -/
def rowsInPlace : Parser Unit :=
  stepping (fun _ => do
    match ← peek with
    | none => return none
    | some token =>
      drop 1
      if token = .sign "\\" then
        if ← sign "." then return none
        drop 1
      return some ()) ()

/-- The rest of `COPY`. The rows of a query can only be written. -/
def copyRows (r : Rules) : Parser Unit := do
  let ofQuery ← sign "("
  if ofQuery then
    pass r.query
    expectSign ")"
  else
    passName
    pass nameListIfAny
  if (← expectOneOf ["FROM", "TO"]) = "FROM" && ofQuery then mismatch
  let inPlace ← keyword "STDIN"
  unless inPlace do
    unless ← keyword "STDOUT" do
      may ["PROGRAM"]
      pass stringText
  may ["WITH"]
  if ← atSign "(" then passListed (choose copyOptions)
  stepping bareOptionStep ()
  if inPlace then
    expectSign ";"
    rowsInPlace

/-! ## UNLOAD -/

/-- The rest of `UNLOAD`, in its written form up to the closing bracket. -/
def unload (r : Rules) : Parser (List Piece) := do
  let q ← inBrackets r.query
  expect ["TO"]
  passIdent
  pass (optionsBehind r "WITH")
  return [said "UNLOAD(", .query q, said ")"]

end QueryScore.Sql.Command
