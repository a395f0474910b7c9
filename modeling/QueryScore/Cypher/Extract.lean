/-
# QueryScore.Cypher.Extract -- the structure of a Cypher query

Entities, attributes, relations, filters and aggregate functions come from the walk through the
tree. Returned columns, sort keys and grouping keys are read off the text of the query: the clause
runs from the first top-level `RETURN` to the next of `ORDER BY`, `SKIP`, `LIMIT` and `UNION`,
its items are separated by top-level commas, and the last top-level `AS` of an item starts its
alias. A query that returns the result of an aggregate function groups by the other items.
-/

import QueryScore.Cypher.Parse
import QueryScore.Cypher.Walk
import QueryScore.Name
import QueryScore.Structure
import QueryScore.Text.Keyword
import QueryScore.Text.Pattern

namespace QueryScore.Cypher

open Text

/-! ## The clause -/

/-- The `RETURN` clause of a text. -/
structure Returns where
  /-- The list of what is returned. -/
  projection : List Char
  /-- The list of sort keys, if there is one. -/
  orderBy : Option (List Char)
  deriving DecidableEq, Repr

/-- A clause without blanks around it and without semicolons at its end. -/
def trimClause (cs : List Char) : List Char :=
  trimEnd (((trim cs).reverse.dropWhile (· == ';')).reverse)

/-- The text up to a hit, or all of it. -/
def upTo (hit : Option Hit) (cs : List Char) : List Char :=
  match hit with
  | some h => cs.take h.start
  | none => cs

/-- The list of sort keys that a hit begins, if it is an `ORDER BY`. -/
def orderByAt (hit : Option Hit) (cs : List Char) : Option (List Char) :=
  match hit with
  | some h =>
    if h.keyword = "ORDER BY" then
      let tail := cs.drop h.stop
      some (trimClause (upTo (findKeyword ["SKIP", "LIMIT", "UNION"] tail) tail))
    else none
  | none => none

/-- The first `RETURN` clause at the top level of a text. -/
def returns? (source : List Char) : Option Returns :=
  (findKeyword ["RETURN"] source).map fun found =>
    let rest := source.drop found.stop
    -- What ends the list is looked for behind the `RETURN` only.
    let boundary := findKeyword ["ORDER BY", "SKIP", "LIMIT", "UNION"] rest
    let projection := trimClause (upTo boundary rest)
    ⟨(stripKeywordPrefix "DISTINCT".toList projection).getD projection, orderByAt boundary rest⟩

/-! ## Items -/

/-- A returned item: its expression and its alias. -/
structure ReturnItem where
  /-- The text of the expression. -/
  expression : List Char
  /-- The text of the alias, if there is one. -/
  name : Option (List Char)
  deriving DecidableEq, Repr

/-- An item cut at its last top-level `AS`. -/
def splitAlias (item : List Char) : ReturnItem :=
  match (findKeywords ["AS"] item).getLast? with
  | some h => ⟨trim (item.take h.start), some (trim (item.drop h.stop))⟩
  | none => ⟨trim item, none⟩

/-- The items that a text returns. -/
def returnItems (source : List Char) : List ReturnItem :=
  match returns? source with
  | some clause => (splitTopLevel ',' clause.projection).map splitAlias
  | none => []

/-- The column that an item returns: its alias, else its expression. -/
def ReturnItem.column (item : ReturnItem) : List Char :=
  match item.name with
  | some name => Name.normalize name
  | none => Name.normalizeFragment item.expression

/-- The columns that a text returns; nameless ones are dropped. -/
def returnColumns (source : List Char) : List String :=
  (((returnItems source).map ReturnItem.column).filter fun column => !column.isEmpty).map
    String.ofList

/-! ## Sort keys -/

/-- The text before and after the last blank. -/
def splitLastBlank (cs : List Char) : Option (List Char × List Char) :=
  let last := cs.reverse.takeWhile fun c => !isBlank c
  match cs.reverse.dropWhile fun c => !isBlank c with
  | _ :: before => some (before.reverse, last.reverse)
  | [] => none

/-- The text is one of some words, in any case. -/
def isOneOf (choices : List String) (cs : List Char) : Bool :=
  choices.any fun choice => equalIgnoringCase choice.toList cs

/-- A sort key: the direction is the last word, if that is one. -/
def sortKey (item : List Char) : SortKey :=
  let key (column : List Char) (direction : Direction) : SortKey :=
    ⟨String.ofList (Name.normalizeFragment column), direction⟩
  match splitLastBlank item with
  | some (head, last) =>
    -- A last word that is no direction belongs to the column.
    if isOneOf ["DESC", "DESCENDING"] last then key head .descending
    else if isOneOf ["ASC", "ASCENDING"] last then key head .ascending
    else key item .ascending
  | none => key item .ascending

/-- The sort keys of a text. -/
def orderings (source : List Char) : List SortKey :=
  match (returns? source).bind Returns.orderBy with
  | some list => (splitTopLevel ',' list).map sortKey
  | none => []

/-! ## Aggregation -/

/-- The aggregate functions. -/
def aggregateNames : List String := ["count", "sum", "avg", "min", "max", "collect", "size"]

/-- The text calls an aggregate function. -/
def aggregates (cs : List Char) : Bool := !(calls aggregateNames cs).isEmpty

/-- The aggregate functions that some projections call, in upper case. -/
def aggregateFunctions (projections : List (List Char)) : SortedSet String :=
  .ofList ((projections.flatMap (calls aggregateNames)).map fun name =>
    String.ofList (uppercase name))

/-- The items that a text implicitly groups by: those that do not aggregate, if others do. -/
def groupingKeys (source : List Char) : List String :=
  let items := returnItems source
  if items.any fun item => aggregates item.expression then
    (items.filter fun item => !aggregates item.expression).map fun item =>
      String.ofList (Name.normalizeFragment item.expression)
  else []

/-! ## The structure -/

/-- The structure of a query with its tree. -/
def structureOf (source : List Char) (t : Tree Rule) : Structure :=
  let found := walkTree t
  { entities := found.entities
    attributes := found.attributes
    relations := found.relations
    filters := found.filters
    aggregation := ⟨aggregateFunctions found.projections, groupingKeys source, none⟩
    returnColumns := returnColumns source
    orderings := orderings source
    parsed := true }

/-- The structure of a text, if it parses. -/
def structure? (source : List Char) : Except ParseFailure Structure :=
  (parse source).map (structureOf source)

end QueryScore.Cypher
