/-
# QueryScore.Sql.Statement -- statements, of which only queries are of interest

A text is a list of statements between semicolons. Of a statement that is no query only the first
word of its written form is kept. For most commands that is the keyword they begin with; commands
on rows and a few others are written back first, and their first word is taken.
-/

import QueryScore.Language
import QueryScore.Sql.Command.Alter
import QueryScore.Sql.Command.Copy
import QueryScore.Sql.Command.Script
import QueryScore.Sql.Command.Session
import QueryScore.Sql.Command.Upkeep
import QueryScore.Sql.Grammar.Whole
import QueryScore.Text.Blank

namespace QueryScore.Sql

open QueryScore.Sql.Parser

/-- A statement. -/
inductive Statement where
  /-- A query. -/
  | query (q : Query)
  /-- Any other command; its first word. -/
  | command (head : List Char)

namespace Command

/-! ## Commands about statements -/

/-- The first words of commands that explain. -/
def explaining : List String := ["EXPLAIN", "DESCRIBE", "DESC"]

/-- The statement explains another or a table. -/
def explains : Statement → Bool
  | .query _ => false
  | .command head => explaining.any fun word => word.toList == head

/-- An option of an explanation in brackets. -/
def explainOption (r : Rules) : Parser Unit := do
  passIdent
  unless (← atSign ",") || (← atSign ")") do pass r.anyExpr

/-- The options of an explanation. -/
def explainOptions (r : Rules) (listed : Bool) : Parser Unit := do
  if listed && (← atSign "(") then passListed (explainOption r)
  else unless ← chosen (wordings [["QUERY", "PLAN"], ["ESTIMATE"]]) do
    may ["ANALYZE"]
    may ["VERBOSE"]
    passBehind ["FORMAT"] do
      maySign "="
      pass (expectOneOf ["TEXT", "GRAPHVIZ", "JSON", "TRADITIONAL", "TREE"])

/-- The rest of a command that explains: a statement that does not explain in its turn, or a
table. -/
def explain (r : Rules) (inner : Parser Statement) (listed : Bool) : Parser Unit := do
  explainOptions r listed
  match ← optional inner with
  | some found => if explains found then mismatch
  | none =>
    mayBe ["EXTENDED", "FORMATTED"]
    passName

/-! ## All commands -/

/-- The commands whose first word is the keyword they begin with, and what stands behind it. -/
def commands (r : Rules) (inner : Parser Statement) : List (String × Parser Unit) :=
  let dropped : Parser Unit := pass inner
  [("KILL", kill), ("FLUSH", flush), ("EXPLAIN", explain r inner true),
    ("DESCRIBE", explain r inner false), ("DESC", explain r inner false), ("ANALYZE", analyze r),
    ("CASE", caseScript r dropped), ("IF", ifScript r dropped), ("WHILE", whileScript r dropped),
    ("RAISE", raise r), ("TRUNCATE", truncate r), ("ATTACH", attach r), ("DETACH", detach),
    ("MSCK", repair), ("CREATE", create r (scriptBody dropped ["END"])), ("CACHE", keepTable r),
    ("DROP", dropThing r), ("DISCARD", discard), ("DECLARE", declareCursor r),
    ("FETCH", fetchRows), ("UNCACHE", releaseTable), ("ALTER", alter r), ("CALL", call r),
    ("COPY", copyRows r), ("OPEN", passIdent), ("CLOSE", closeCursor), ("SET", setVariable r),
    ("SHOW", showThing r), ("USE", passName), ("GRANT", grant r), ("DENY", deny r),
    ("REVOKE", revoke r), ("START", do
      expect ["TRANSACTION"]
      transactionModes),
    ("BEGIN", beginTransaction), ("END", endTransaction), ("SAVEPOINT", passIdent),
    ("RELEASE", release), ("COMMIT", endTransaction), ("ROLLBACK", rollback), ("ASSERT", assert r),
    ("DEALLOCATE", deallocate), ("EXECUTE", execute r), ("PREPARE", prepare r dropped),
    ("PRAGMA", pragma), ("RENAME", renameTables), ("INSTALL", passIdent), ("LOAD", passIdent),
    ("OPTIMIZE", optimize r), ("COMMENT", describe), ("PRINT", pass r.anyExpr),
    ("RETURN", mayPass r.anyExpr)]

/-- The commands that are written back, read behind the keyword they begin with. -/
def written (r : Rules) (word : String) : Option (Parser (List Piece)) :=
  match word with
  | "REPLACE" => some (insertion r word)
  | "UNLOAD" => some (unload r)
  | "RAISERROR" => some (raiseError r)
  | word => changeBehind r word

/-- The first word of a written form. -/
def headOf (parts : List Piece) : List Char :=
  (Text.words (Piece.renderAll parts)).headD []

/-- A command; gives its first word. Choices and loops keep the letters of their keyword, and a
short keyword is written out. -/
def command (r : Rules) (inner : Parser Statement) : Parser (List Char) := do
  let typed ← identifier
  let word := if typed.quote.isNone then String.ofList (Text.uppercase typed.text) else ""
  match written r word with
  | some p => return headOf (← p)
  | none =>
    let word := if word = "EXEC" then "EXECUTE" else word
    match (commands r inner).lookup word with
    | some p =>
      p
      return if word = "IF" || word = "WHILE" then typed.text else word.toList
    | none => mismatch

end Command

/-! ## Statements -/

/-- A statement; `r` reads what is inside it. -/
def statementOf (r : Rules) (inner : Parser Statement) : Parser Statement := do
  match ← keywordAt 0 with
  | some "SELECT" | some "WITH" | some "VALUES" | some "FROM" => return .query (← r.query)
  | some _ => return .command (← Command.command r inner)
  | none => if ← atSign "(" then return .query (← r.query) else mismatch

/-- A statement whose phrases nest at most so deeply. -/
def statement : Nat → Parser Statement
  | 0 => throw .tooDeep
  | depth + 1 => statementOf (rules depth) (statement depth)

/-- Takes semicolons; tells whether there were any. -/
def semicolons : Parser Bool := do
  let before := (← get).length
  modify (List.dropWhile fun token => token == .sign ";")
  return (← get).length != before

/-- One more statement, if the text does not end here. A statement must be followed by a semicolon,
by the end, or by the word END, where reading stops. -/
def statementStep (found : List Statement) : Parser (Option (List Statement)) := do
  let delimited ← semicolons
  if (← peek).isNone then return none
  if !delimited && !found.isEmpty then
    if ← atKeyword "END" then return none
    mismatch
  return some (found ++ [← statement maxDepth])

/-- The statements of a text; none if it is no list of statements. -/
def statements (source : List Char) : Option (List Statement) := do
  let tokens ← lex source
  match (stepping statementStep []).run tokens with
  | .ok (found, _) => some found
  | .error _ => none

/-! ## Queries of a text -/

/-- Some block of a body projects nothing; the blocks of common tables do not count. -/
def Body.projectsNothing : Body → Bool
  | .select block => block.projection.isEmpty
  | .query (.mk _ _ body _ _) => body.projectsNothing
  | .setOp _ left right => left.projectsNothing || right.projectsNothing
  | .form _ => false

/-- Some block at any depth of a query projects nothing. -/
def Query.projectsNothing (q : Query) : Bool :=
  (Mark.queries q.marks).any fun inner => inner.body.projectsNothing

/-- The query that a text is: exactly one statement, a query, each block of which projects
something. -/
def parse (source : List Char) : Except ParseFailure Query :=
  match statements source with
  | none => .error .rejected
  | some [] => .error .noStatement
  | some [.query q] => if q.projectsNothing then .error .noProjection else .ok q
  | some [.command head] => .error (.noQuery (String.ofList head))
  | some (_ :: _ :: _) => .error .severalStatements

end QueryScore.Sql
