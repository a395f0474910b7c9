/-
# QueryScore.Cypher.Parse -- the tree of a Cypher query

A text is tried only if it does not nest too deeply. The guard counts brackets outside quotes
and adds the number of words `CASE` anywhere in the text. The fuel of the interpreter grows
with the text: a bounded number of nested calls passes between two characters.
-/

import QueryScore.Cypher.Grammar
import QueryScore.Language
import QueryScore.Text.Pattern
import QueryScore.Text.Scan

namespace QueryScore.Cypher

/-- The nesting that the guard assumes. -/
def nesting (cs : List Char) : Nat :=
  Text.maxNestingDepth cs + Text.countWord "case".toList cs

/-- Nested calls between two characters, at most. -/
def callsPerCharacter : Nat := 1000

/-- The fuel for a text. -/
def fuelFor (cs : List Char) : Nat := callsPerCharacter * (cs.length + 10)

/-- The tree of a query; its root is the rule for whole queries. -/
def parse (cs : List Char) : Except ParseFailure (Tree Rule) :=
  if maxNesting < nesting cs then .error .tooDeep
  else
    match grammar.run (fuelFor cs) false (.rule .query) ⟨0, cs⟩ with
    | .matched _ (tree :: _) => .ok tree
    | _ => .error .rejected

end QueryScore.Cypher
