/-
# QueryScore.Text.Pattern -- words found by their boundaries

Two searches over raw text that know nothing of quotes: for a whole word, and for calls of
named functions. Case is folded as Unicode does, which makes the long s an `s`; a word begins
and ends where a word character meets another character or an end of the text.
-/

import QueryScore.Text.Alphabetic
import QueryScore.Text.Blank

namespace QueryScore.Text

/-- The character is a form of a lower-case ASCII letter. -/
def foldsTo (letter c : Char) : Bool := asciiLower c == letter || (letter == 's' && c == 'ſ')

/-- What follows a lower-case word at the front of the text, whatever the case there. -/
def stripFolded : List Char → List Char → Option (List Char)
  | [], cs => some cs
  | _ :: _, [] => none
  | w :: ws, c :: cs => if foldsTo w c then stripFolded ws cs else none

/-- No word character stands at this side of a place. -/
def isOpenSide : Option Char → Bool
  | none => true
  | some c => !isWordCharacter c

/-- The word stands at the front of the text as a whole word, after `before`. -/
def wordAt (word : List Char) (before : Option Char) (cs : List Char) : Bool :=
  isOpenSide before && (stripFolded word cs).any fun rest => isOpenSide rest.head?

/-- How often a lower-case word stands in a text that follows `before`. -/
def countWordFrom (word : List Char) (before : Option Char) : List Char → Nat
  | [] => 0
  | c :: cs =>
    (if wordAt word before (c :: cs) then 1 else 0) + countWordFrom word (some c) cs

/-- How often a lower-case word stands in a text. -/
def countWord (word : List Char) (cs : List Char) : Nat := countWordFrom word none cs

/-- The rest of the text begins with an opening parenthesis, after any blanks. -/
def opensCall (cs : List Char) : Bool := (trimStart cs).head? == some '('

/-- The name, as it is written, of a call at the front of a text that follows `before`. -/
def callAt (names : List String) (before : Option Char) (cs : List Char) : Option (List Char) :=
  if isOpenSide before then
    names.findSome? fun name =>
      ((stripFolded name.toList cs).filter opensCall).map fun rest =>
        cs.take (cs.length - rest.length)
  else none

/-- The names of the calls in a text that follows `before`. -/
def callsFrom (names : List String) (before : Option Char) : List Char → List (List Char)
  | [] => []
  | c :: cs =>
    match callAt names before (c :: cs) with
    | some name => name :: callsFrom names (some c) cs
    | none => callsFrom names (some c) cs

/-- The names, as they are written, of the calls of some lower-case function names. -/
def calls (names : List String) (cs : List Char) : List (List Char) := callsFrom names none cs

end QueryScore.Text
