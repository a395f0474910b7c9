/-
# QueryScore.Sql.Marks -- everything in a query, in the order of its text

The marks of a tree list the words it is written with and, among them, the beginnings of its
expressions, queries and table names, outermost first. The written form of a tree, the
expressions at any depth, the tables it reads and the queries it holds are all read off this one
list.
-/

import QueryScore.Sql.Tree

namespace QueryScore.Sql

/-- A mark: words, or the beginning of something. -/
inductive Mark where
  /-- Words as they are written back. -/
  | text (cs : List Char)
  /-- An expression begins. -/
  | expr (e : Expr)
  /-- A query begins. -/
  | query (q : Query)
  /-- A table is read. -/
  | table (name : List Ident)

/-- Words. -/
def words (s : String) : Mark := .text s.toList

/-- The words, with a separator between the parts. -/
def joinMarks (separator : String) : List (List Mark) → List Mark
  | [] => []
  | [a] => a
  | a :: b :: rest => a ++ words separator :: joinMarks separator (b :: rest)

/-- The name of a table or a subquery behind it. -/
def Alias.marks : Option Alias → List Mark
  | some ⟨name, columns⟩ => [words " AS ", .text name.render, .text columns]
  | none => []

/-- A connective with its blanks. -/
def Connective.words : Connective → String
  | .and => " AND "
  | .or => " OR "

mutual

/-- The marks of an expression. -/
def Expr.marks : Expr → List Mark
  | .column name => .expr (.column name) :: [.text name.render]
  | .path names => .expr (.path names) :: [.text (renderPath names)]
  | .nested e => .expr (.nested e) :: words "(" :: e.marks ++ [words ")"]
  | .connective op l r =>
    .expr (.connective op l r) :: l.marks ++ words op.words :: r.marks
  | .call name tail => .expr (.call name tail) :: .text (renderPath name) :: Piece.marksAll tail
  | .form parts => .expr (.form parts) :: Piece.marksAll parts

/-- The marks of a part. -/
def Piece.marks : Piece → List Mark
  | .text cs => [.text cs]
  | .expr e => e.marks
  | .query q => q.marks
  | .source s => s.marks

/-- The marks of several parts. -/
def Piece.marksAll : List Piece → List Mark
  | [] => []
  | p :: ps => p.marks ++ Piece.marksAll ps

/-- The marks of a query. -/
def Query.marks : Query → List Mark
  | .mk recursive ctes body orderBy tail =>
    .query (.mk recursive ctes body orderBy tail) ::
      (if ctes.isEmpty then []
        else words (if recursive then "WITH RECURSIVE " else "WITH ") ::
          joinMarks ", " (Cte.marksEach ctes) ++ [words " "]) ++
      body.marks ++
      (if orderBy.isEmpty then []
        else words " ORDER BY " :: joinMarks ", " (SortItem.marksEach orderBy)) ++
      Piece.marksAll tail

/-- The marks of a common table. -/
def Cte.marks : Cte → List Mark
  | .mk name q source =>
    .text name.name.render :: .text name.columns :: words " AS (" :: q.marks ++ words ")" ::
      match source with
      | some table => [words " FROM ", .text table.render]
      | none => []

/-- The marks of each common table. -/
def Cte.marksEach : List Cte → List (List Mark)
  | [] => []
  | c :: cs => c.marks :: Cte.marksEach cs

/-- The marks of a body. -/
def Body.marks : Body → List Mark
  | .select block => block.marks
  | .query q => words "(" :: q.marks ++ [words ")"]
  | .setOp op l r => l.marks ++ words (" " ++ op ++ " ") :: r.marks
  | .form parts => Piece.marksAll parts

/-- The marks of a block. -/
def Select.marks : Select → List Mark
  | .mk fromFirst head projection into sources between condition groupBy middle having tail =>
    let items :=
      if projection.isEmpty then [] else words " " :: joinMarks ", " (Item.marksEach projection)
    let reads :=
      if sources.isEmpty then [] else words "FROM " :: joinMarks ", " (Source.marksEach sources)
    (if fromFirst then reads ++ words " SELECT" :: Piece.marksAll head ++ items ++ [.text into]
      else words "SELECT" :: Piece.marksAll head ++ items ++ .text into ::
        (if sources.isEmpty then [] else words " " :: reads)) ++
      Piece.marksAll between ++
      (match condition with
        | some e => words " WHERE " :: e.marks
        | none => []) ++
      groupBy.marks ++ Piece.marksAll middle ++
      (match having with
        | some e => words " HAVING " :: e.marks
        | none => []) ++
      Piece.marksAll tail

/-- The marks of a projected item. -/
def Item.marks : Item → List Mark
  | .expr e => e.marks
  | .aliased e name => e.marks ++ [words " AS ", .text name.render]
  | .star parts => Piece.marksAll parts

/-- The marks of each projected item. -/
def Item.marksEach : List Item → List (List Mark)
  | [] => []
  | i :: is => i.marks :: Item.marksEach is

/-- The marks of a grouping. -/
def GroupBy.marks : GroupBy → List Mark
  | .keys exprs modifiers =>
    if exprs.isEmpty then []
    else words " GROUP BY " :: joinMarks ", " (Expr.marksEach exprs) ++ Piece.marksAll modifiers
  | .all modifiers => words " GROUP BY ALL" :: Piece.marksAll modifiers

/-- The marks of each expression. -/
def Expr.marksEach : List Expr → List (List Mark)
  | [] => []
  | e :: es => e.marks :: Expr.marksEach es

/-- The marks of a sort key. -/
def SortItem.marks : SortItem → List Mark
  | .mk e _ options => e.marks ++ Piece.marksAll options

/-- The marks of each sort key. -/
def SortItem.marksEach : List SortItem → List (List Mark)
  | [] => []
  | s :: ss => s.marks :: SortItem.marksEach ss

/-- The marks of a source. -/
def Source.marks : Source → List Mark
  | .mk table joins => table.marks ++ Join.marksAll joins

/-- The marks of each source. -/
def Source.marksEach : List Source → List (List Mark)
  | [] => []
  | s :: ss => s.marks :: Source.marksEach ss

/-- The marks of a table. -/
def Table.marks : Table → List Mark
  | .named name options alias? hints =>
    .table name :: .text (renderPath name) :: Piece.marksAll options ++ Alias.marks alias? ++
      Piece.marksAll hints
  | .derived lateral q alias? =>
    words (if lateral then "LATERAL (" else "(") :: q.marks ++ words ")" :: Alias.marks alias?
  | .joined inner alias? => words "(" :: inner.marks ++ words ")" :: Alias.marks alias?
  | .form parts alias? tail =>
    Piece.marksAll parts ++ Alias.marks alias? ++ Piece.marksAll tail

/-- The marks of a join. -/
def Join.marks : Join → List Mark
  | .mk everywhere kind table constraint =>
    words (if everywhere then " GLOBAL " else " ") ::
      (match constraint with
        | .natural => words "NATURAL "
        | _ => words "") ::
      words (kind.words ++ " ") :: table.marks ++ constraint.marks

/-- The marks of several joins. -/
def Join.marksAll : List Join → List Mark
  | [] => []
  | j :: js => j.marks ++ Join.marksAll js

/-- The marks of a join condition. -/
def Constraint.marks : Constraint → List Mark
  | .on e => words " ON " :: e.marks
  | .shared names =>
    [words " USING(", .text ([',', ' '].intercalate (names.map renderPath)), words ")"]
  | .natural | .unconditional => []
  | .closest e constraint =>
    words " MATCH_CONDITION (" :: e.marks ++ words ")" :: constraint.marks

end

/-! ## What is read off the marks -/

/-- The words of some marks. -/
def Mark.render (marks : List Mark) : List Char :=
  marks.flatMap fun
    | .text cs => cs
    | _ => []

/-- The expressions that begin at some marks. -/
def Mark.exprs (marks : List Mark) : List Expr :=
  marks.filterMap fun
    | .expr e => some e
    | _ => none

/-- The queries that begin at some marks. -/
def Mark.queries (marks : List Mark) : List Query :=
  marks.filterMap fun
    | .query q => some q
    | _ => none

/-- The tables that are read at some marks. -/
def Mark.tables (marks : List Mark) : List (List Ident) :=
  marks.filterMap fun
    | .table name => some name
    | _ => none

/-- The written form of an expression. -/
def Expr.render (e : Expr) : List Char := Mark.render e.marks

/-- An expression and those inside it, at any depth. -/
def Expr.subexprs (e : Expr) : List Expr := Mark.exprs e.marks

/-- The written form of some parts. -/
def Piece.renderAll (parts : List Piece) : List Char := Mark.render (Piece.marksAll parts)

/-- The written form of a query. -/
def Query.render (q : Query) : List Char := Mark.render q.marks

/-- The written form of a projected item. -/
def Item.render (i : Item) : List Char := Mark.render i.marks

end QueryScore.Sql
