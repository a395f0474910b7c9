/-
# QueryScore.Proofs.Sql.Projected -- every block of an accepted query projects something

A text is accepted if it is one statement, a query, and no block in it is without a projection. The
blocks are not looked up one by one for that: the queries at any depth are visited, and from each of
them the set operations and brackets of its body are gone through. So two recursions share the tree, and
a block counts only if one of them comes to it. Here the blocks are listed straight along the tree,
whatever clause or expression they stand in (`Query.blocksWithin`). A block stands only in a body and a
body only in a query, so none falls between the two (`Query.lacking_marks`, by induction on the tree), and
a text is accepted iff it is one query all of whose blocks project (`parse_eq_ok_iff`).
-/

import QueryScore.Proofs.Sql.Realiased
import QueryScore.Sql.Statement

namespace QueryScore.Sql

/-! ## The blocks of a query -/

mutual

/-- The blocks in an expression. -/
def Expr.blocksWithin : Expr → List Select
  | .column _ | .path _ => []
  | .nested inner => inner.blocksWithin
  | .connective _ left right => left.blocksWithin ++ right.blocksWithin
  | .call _ tail => Piece.blocksWithinAll tail
  | .form parts => Piece.blocksWithinAll parts

/-- The blocks in a part of a form. -/
def Piece.blocksWithin : Piece → List Select
  | .text _ => []
  | .expr e => e.blocksWithin
  | .query q => q.blocksWithin
  | .source s => s.blocksWithin

/-- The blocks in several parts. -/
def Piece.blocksWithinAll : List Piece → List Select
  | [] => []
  | p :: ps => p.blocksWithin ++ Piece.blocksWithinAll ps

/-- **`q.blocksWithin`** -- the blocks at any depth of a query: those of its common tables, of its body,
and of the subqueries in any clause and any expression. -/
def Query.blocksWithin : Query → List Select
  | .mk _ ctes body orderBy tail =>
    Cte.blocksWithinAll ctes ++ body.blocksWithin ++ SortItem.blocksWithinAll orderBy ++
      Piece.blocksWithinAll tail

/-- The blocks in some common tables. -/
def Cte.blocksWithinAll : List Cte → List Select
  | [] => []
  | .mk _ q _ :: cs => q.blocksWithin ++ Cte.blocksWithinAll cs

/-- The blocks of a body, each before those inside it. -/
def Body.blocksWithin : Body → List Select
  | .select block => block :: block.blocksInside
  | .query q => q.blocksWithin
  | .setOp _ left right => left.blocksWithin ++ right.blocksWithin
  | .form parts => Piece.blocksWithinAll parts

/-- The blocks in the clauses of a block. -/
def Select.blocksInside : Select → List Select
  | .mk _ head projection _ sources between condition groupBy middle having tail =>
    Piece.blocksWithinAll head ++ Item.blocksWithinAll projection ++ Source.blocksWithinAll sources ++
      Piece.blocksWithinAll between ++ Expr.blocksWithinOption condition ++ groupBy.blocksWithin ++
      Piece.blocksWithinAll middle ++ Expr.blocksWithinOption having ++ Piece.blocksWithinAll tail

/-- The blocks in a condition, if there is one. -/
def Expr.blocksWithinOption : Option Expr → List Select
  | some e => e.blocksWithin
  | none => []

/-- The blocks in a projected item. -/
def Item.blocksWithin : Item → List Select
  | .expr e | .aliased e _ => e.blocksWithin
  | .star parts => Piece.blocksWithinAll parts

/-- The blocks in some projected items. -/
def Item.blocksWithinAll : List Item → List Select
  | [] => []
  | i :: is => i.blocksWithin ++ Item.blocksWithinAll is

/-- The blocks in a grouping. A block without keys does not group, so nothing modifies its grouping. -/
def GroupBy.blocksWithin : GroupBy → List Select
  | .keys [] _ => []
  | .keys (e :: es) modifiers =>
    e.blocksWithin ++ Expr.blocksWithinAll es ++ Piece.blocksWithinAll modifiers
  | .all modifiers => Piece.blocksWithinAll modifiers

/-- The blocks in some expressions. -/
def Expr.blocksWithinAll : List Expr → List Select
  | [] => []
  | e :: es => e.blocksWithin ++ Expr.blocksWithinAll es

/-- The blocks in some sort keys. -/
def SortItem.blocksWithinAll : List SortItem → List Select
  | [] => []
  | .mk e _ options :: ss =>
    e.blocksWithin ++ Piece.blocksWithinAll options ++ SortItem.blocksWithinAll ss

/-- The blocks in an item of a FROM clause. -/
def Source.blocksWithin : Source → List Select
  | .mk table joins => table.blocksWithin ++ Join.blocksWithinAll joins

/-- The blocks in a FROM clause. -/
def Source.blocksWithinAll : List Source → List Select
  | [] => []
  | s :: ss => s.blocksWithin ++ Source.blocksWithinAll ss

/-- The blocks in a table: in the arguments of a named one, in a derived one, or in brackets. -/
def Table.blocksWithin : Table → List Select
  | .named _ options _ hints => Piece.blocksWithinAll options ++ Piece.blocksWithinAll hints
  | .derived _ q _ => q.blocksWithin
  | .joined inner _ => inner.blocksWithin
  | .form parts _ tail => Piece.blocksWithinAll parts ++ Piece.blocksWithinAll tail

/-- The blocks in some joins. -/
def Join.blocksWithinAll : List Join → List Select
  | [] => []
  | .mk _ _ table constraint :: js =>
    table.blocksWithin ++ constraint.blocksWithin ++ Join.blocksWithinAll js

/-- The blocks in the condition of a join. -/
def Constraint.blocksWithin : Constraint → List Select
  | .on e => e.blocksWithin
  | .shared _ | .natural | .unconditional => []
  | .closest e constraint => e.blocksWithin ++ constraint.blocksWithin

end

/-! ## What the check comes to -/

/-- The block projects nothing. -/
def Select.lacks (block : Select) : Bool := block.projection.isEmpty

/-- Some query that begins at one of the marks has a body with a block that projects nothing. -/
def Mark.lacking (marks : List Mark) : Bool :=
  (Mark.queries marks).any fun q => q.body.projectsNothing

section Lacking

variable (xs ys : List Mark)

@[simp] theorem lacking_nil : Mark.lacking [] = false := rfl

@[simp] theorem lacking_append : Mark.lacking (xs ++ ys) = (Mark.lacking xs || Mark.lacking ys) := by
  simp [Mark.lacking, Mark.queries]

@[simp] theorem lacking_text (cs : List Char) : Mark.lacking (.text cs :: xs) = Mark.lacking xs := rfl

@[simp] theorem lacking_words (s : String) : Mark.lacking (words s :: xs) = Mark.lacking xs := rfl

@[simp] theorem lacking_expr (e : Expr) : Mark.lacking (.expr e :: xs) = Mark.lacking xs := rfl

@[simp] theorem lacking_table (name : List Ident) : Mark.lacking (.table name :: xs) = Mark.lacking xs := rfl

@[simp] theorem lacking_query (q : Query) :
    Mark.lacking (.query q :: xs) = (q.body.projectsNothing || Mark.lacking xs) := rfl

@[simp] theorem lacking_alias (alias? : Option Alias) : Mark.lacking (Alias.marks alias?) = false := by
  cases alias? <;> rfl

/-- Words between the parts hide nothing. -/
theorem lacking_joinMarks (separator : String) : ∀ parts : List (List Mark),
    Mark.lacking (joinMarks separator parts) = parts.any Mark.lacking
  | [] => rfl
  | [a] => by simp [joinMarks]
  | a :: b :: rest => by
    rw [joinMarks, lacking_append, lacking_words, lacking_joinMarks separator (b :: rest)]
    rfl

/-- Words before a list that is not empty hide nothing either. -/
theorem lacking_joined {α : Type} (items : List α) (word separator : String) (parts : List (List Mark))
    (h : items = [] → parts = []) :
    Mark.lacking (if items.isEmpty then [] else words word :: joinMarks separator parts) =
      parts.any Mark.lacking := by
  cases items with
  | nil => rw [h rfl]; rfl
  | cons i is => exact lacking_joinMarks separator parts

end Lacking

/-- What the marks of a query come to: its own body, and what stands in its parts. -/
theorem Query.lacking_mk (recursive : Bool) (ctes : List Cte) (body : Body) (orderBy : List SortItem)
    (tail : List Piece) : Mark.lacking (Query.mk recursive ctes body orderBy tail).marks =
      (body.projectsNothing || ((Cte.marksEach ctes).any Mark.lacking || (Mark.lacking body.marks ||
        ((SortItem.marksEach orderBy).any Mark.lacking || Mark.lacking (Piece.marksAll tail))))) := by
  have horder := lacking_joined orderBy " ORDER BY " ", " (SortItem.marksEach orderBy) (by rintro rfl; rfl)
  rw [Query.marks]
  simp only [List.cons_append, lacking_query, lacking_append, horder, Query.body, Bool.or_assoc]
  cases ctes with
  | nil => rfl
  | cons cte rest => simp [lacking_joinMarks]

/-- What the marks of a block come to: what stands in its clauses. A block that begins with its FROM
clause has the same ones in another order. -/
theorem Select.lacking_mk (fromFirst : Bool) (head : List Piece) (projection : List Item) (into : List Char)
    (sources : List Source) (between : List Piece) (condition : Option Expr) (groupBy : GroupBy)
    (middle : List Piece) (having : Option Expr) (tail : List Piece) :
    Mark.lacking (Select.mk fromFirst head projection into sources between condition groupBy middle having
      tail).marks =
      (Mark.lacking (Piece.marksAll head) || ((Item.marksEach projection).any Mark.lacking ||
        ((Source.marksEach sources).any Mark.lacking || (Mark.lacking (Piece.marksAll between) ||
          (Mark.lacking (Expr.marksBehind " WHERE " condition) || (Mark.lacking groupBy.marks ||
            (Mark.lacking (Piece.marksAll middle) || (Mark.lacking (Expr.marksBehind " HAVING " having) ||
              Mark.lacking (Piece.marksAll tail))))))))) := by
  have hitems := lacking_joined projection " " ", " (Item.marksEach projection) (by rintro rfl; rfl)
  have hreads := lacking_joined sources "FROM " ", " (Source.marksEach sources) (by rintro rfl; rfl)
  have hspaced : Mark.lacking (if sources.isEmpty then [] else words " " ::
      (if sources.isEmpty then [] else words "FROM " :: joinMarks ", " (Source.marksEach sources))) =
      (Source.marksEach sources).any Mark.lacking := by
    cases sources with
    | nil => rfl
    | cons s ss => exact hreads
  rw [Select.marks_mk]
  cases fromFirst with
  | true =>
    simp only [if_true, List.cons_append, lacking_append, lacking_words, lacking_text, lacking_nil, hitems,
      hreads, Bool.or_false, Bool.or_assoc, Bool.or_left_comm]
  | false =>
    simp only [Bool.false_eq_true, if_false, List.cons_append, lacking_append, lacking_words, lacking_text,
      hitems, hspaced, Bool.or_assoc]

/-! ## No block falls between the queries -/

mutual

theorem Expr.lacking_marks : ∀ e : Expr, Mark.lacking e.marks = e.blocksWithin.any Select.lacks
  | .column _ | .path _ => rfl
  | .nested inner => by simp [Expr.marks, Expr.blocksWithin, inner.lacking_marks]
  | .connective _ left right => by
    simp [Expr.marks, Expr.blocksWithin, left.lacking_marks, right.lacking_marks]
  | .call _ tail => by simp [Expr.marks, Expr.blocksWithin, Piece.lacking_marksAll tail]
  | .form parts => by simp [Expr.marks, Expr.blocksWithin, Piece.lacking_marksAll parts]

theorem Piece.lacking_marks : ∀ p : Piece, Mark.lacking p.marks = p.blocksWithin.any Select.lacks
  | .text _ => rfl
  | .expr e => e.lacking_marks
  | .query q => q.lacking_marks
  | .source s => s.lacking_marks

theorem Piece.lacking_marksAll : ∀ ps : List Piece,
    Mark.lacking (Piece.marksAll ps) = (Piece.blocksWithinAll ps).any Select.lacks
  | [] => rfl
  | p :: ps => by simp [Piece.marksAll, Piece.blocksWithinAll, p.lacking_marks, Piece.lacking_marksAll ps]

/-- **The queries at any depth lack a projection iff a block at any depth does.** The body of the query
itself is gone through at its own mark, and its subqueries are visited behind it. -/
theorem Query.lacking_marks : ∀ q : Query, Mark.lacking q.marks = q.blocksWithin.any Select.lacks
  | .mk recursive ctes body orderBy tail => by
    rw [Query.lacking_mk, Cte.lacking_marksEach ctes, SortItem.lacking_marksEach orderBy,
      Piece.lacking_marksAll tail, Query.blocksWithin, List.any_append, List.any_append, List.any_append,
      ← body.lacking_marks]
    simp only [Bool.or_assoc, Bool.or_left_comm]

theorem Cte.lacking_marksEach : ∀ cs : List Cte,
    (Cte.marksEach cs).any Mark.lacking = (Cte.blocksWithinAll cs).any Select.lacks
  | [] => rfl
  | .mk name q source :: cs => by
    have hsource : Mark.lacking (Cte.mk name q source).marks = Mark.lacking q.marks := by
      rw [Cte.marks_mk]
      cases source <;> simp
    simp [Cte.marksEach, Cte.blocksWithinAll, hsource, q.lacking_marks, Cte.lacking_marksEach cs]

theorem Body.lacking_marks : ∀ b : Body,
    (b.projectsNothing || Mark.lacking b.marks) = b.blocksWithin.any Select.lacks
  | .select block => by
    simp [Body.marks, Body.blocksWithin, Body.projectsNothing, block.lacking_marks, Select.lacks]
  | .query (.mk recursive ctes body orderBy tail) => by
    -- The brackets lead to the body of the inner query, which its own visit comes to as well.
    have hinner := (Query.mk recursive ctes body orderBy tail).lacking_marks
    rw [Body.blocksWithin, ← hinner, Body.projectsNothing, Body.marks, List.cons_append, lacking_words,
      lacking_append, Query.lacking_mk, ← Bool.or_assoc, ← Bool.or_assoc, Bool.or_self]
    exact Bool.or_false _
  | .setOp _ left right => by
    rw [Body.blocksWithin, List.any_append, ← left.lacking_marks, ← right.lacking_marks]
    simp only [Body.marks, Body.projectsNothing, lacking_append, lacking_words]
    cases left.projectsNothing <;> cases right.projectsNothing <;> simp
  | .form parts => by simp [Body.marks, Body.blocksWithin, Body.projectsNothing, Piece.lacking_marksAll parts]

theorem Select.lacking_marks : ∀ block : Select,
    Mark.lacking block.marks = block.blocksInside.any Select.lacks
  | .mk fromFirst head projection into sources between condition groupBy middle having tail => by
    rw [Select.lacking_mk, Piece.lacking_marksAll head, Item.lacking_marksEach projection,
      Source.lacking_marksEach sources, Piece.lacking_marksAll between, Expr.lacking_marksBehind condition,
      groupBy.lacking_marks, Piece.lacking_marksAll middle, Expr.lacking_marksBehind having,
      Piece.lacking_marksAll tail, Select.blocksInside]
    simp only [List.any_append, Bool.or_assoc]

theorem Expr.lacking_marksBehind : ∀ (condition : Option Expr) (word : String),
    Mark.lacking (Expr.marksBehind word condition) = (Expr.blocksWithinOption condition).any Select.lacks
  | none, _ => rfl
  | some e, _ => e.lacking_marks

theorem Item.lacking_marks : ∀ i : Item, Mark.lacking i.marks = i.blocksWithin.any Select.lacks
  | .expr e => e.lacking_marks
  | .aliased e _ => by simp [Item.marks, Item.blocksWithin, e.lacking_marks]
  | .star parts => Piece.lacking_marksAll parts

theorem Item.lacking_marksEach : ∀ is : List Item,
    (Item.marksEach is).any Mark.lacking = (Item.blocksWithinAll is).any Select.lacks
  | [] => rfl
  | i :: is => by simp [Item.marksEach, Item.blocksWithinAll, i.lacking_marks, Item.lacking_marksEach is]

theorem GroupBy.lacking_marks : ∀ g : GroupBy, Mark.lacking g.marks = g.blocksWithin.any Select.lacks
  | .keys [] _ => rfl
  | .keys (e :: es) modifiers => by
    simp [GroupBy.marks, GroupBy.blocksWithin, lacking_joinMarks, Expr.marksEach, e.lacking_marks,
      Expr.lacking_marksEach es, Piece.lacking_marksAll modifiers, Bool.or_assoc]
  | .all modifiers => by simp [GroupBy.marks, GroupBy.blocksWithin, Piece.lacking_marksAll modifiers]

theorem Expr.lacking_marksEach : ∀ es : List Expr,
    (Expr.marksEach es).any Mark.lacking = (Expr.blocksWithinAll es).any Select.lacks
  | [] => rfl
  | e :: es => by simp [Expr.marksEach, Expr.blocksWithinAll, e.lacking_marks, Expr.lacking_marksEach es]

theorem SortItem.lacking_marksEach : ∀ ss : List SortItem,
    (SortItem.marksEach ss).any Mark.lacking = (SortItem.blocksWithinAll ss).any Select.lacks
  | [] => rfl
  | .mk e _ options :: ss => by
    simp [SortItem.marksEach, SortItem.marks, SortItem.blocksWithinAll, e.lacking_marks,
      Piece.lacking_marksAll options, SortItem.lacking_marksEach ss, Bool.or_assoc]

theorem Source.lacking_marks : ∀ s : Source, Mark.lacking s.marks = s.blocksWithin.any Select.lacks
  | .mk table joins => by
    simp [Source.marks, Source.blocksWithin, table.lacking_marks, Join.lacking_marksAll joins]

theorem Source.lacking_marksEach : ∀ ss : List Source,
    (Source.marksEach ss).any Mark.lacking = (Source.blocksWithinAll ss).any Select.lacks
  | [] => rfl
  | s :: ss => by
    simp [Source.marksEach, Source.blocksWithinAll, s.lacking_marks, Source.lacking_marksEach ss]

theorem Table.lacking_marks : ∀ t : Table, Mark.lacking t.marks = t.blocksWithin.any Select.lacks
  | .named _ options _ hints => by
    simp [Table.marks, Table.blocksWithin, Piece.lacking_marksAll options, Piece.lacking_marksAll hints]
  | .derived _ q _ => by simp [Table.marks, Table.blocksWithin, q.lacking_marks]
  | .joined inner _ => by simp [Table.marks, Table.blocksWithin, inner.lacking_marks]
  | .form parts _ tail => by
    simp [Table.marks, Table.blocksWithin, Piece.lacking_marksAll parts, Piece.lacking_marksAll tail]

theorem Join.lacking_marksAll : ∀ js : List Join,
    Mark.lacking (Join.marksAll js) = (Join.blocksWithinAll js).any Select.lacks
  | [] => rfl
  | .mk everywhere kind table constraint :: js => by
    have hnatural : Mark.lacking (Join.marks (.mk everywhere kind table constraint)) =
        (Mark.lacking table.marks || Mark.lacking constraint.marks) := by
      cases constraint <;> simp [Join.marks]
    simp [Join.marksAll, Join.blocksWithinAll, hnatural, table.lacking_marks, constraint.lacking_marks,
      Join.lacking_marksAll js, Bool.or_assoc]

theorem Constraint.lacking_marks : ∀ c : Constraint, Mark.lacking c.marks = c.blocksWithin.any Select.lacks
  | .on e => by simp [Constraint.marks, Constraint.blocksWithin, e.lacking_marks]
  | .shared _ | .natural | .unconditional => rfl
  | .closest e constraint => by
    simp [Constraint.marks, Constraint.blocksWithin, e.lacking_marks, constraint.lacking_marks]

end

/-! ## Accepted queries -/

theorem Query.projectsNothing_eq (q : Query) : q.projectsNothing = q.blocksWithin.any Select.lacks :=
  q.lacking_marks

theorem Query.projectsNothing_eq_false {q : Query} :
    q.projectsNothing = false ↔ ∀ block ∈ q.blocksWithin, block.projection ≠ [] := by
  simp [Query.projectsNothing_eq, Select.lacks]

/-- **A text is accepted iff it is exactly one statement, a query, each block of which projects something**,
at whatever depth the block stands. -/
theorem parse_eq_ok_iff {source : List Char} {q : Query} : parse source = .ok q ↔
    statements source = some [.query q] ∧ ∀ block ∈ q.blocksWithin, block.projection ≠ [] := by
  rw [← Query.projectsNothing_eq_false, parse]
  rcases statements source with _ | _ | ⟨found | head, _ | ⟨next, rest⟩⟩
  case some.cons.query.nil =>
    by_cases hlacks : found.projectsNothing = true
    · have hother (hfound : found = q) : q.projectsNothing = true := hfound ▸ hlacks
      simpa [hlacks] using hother
    · have hsame (hfound : found = q) : q.projectsNothing = false := by simpa [hfound] using hlacks
      simpa [hlacks] using hsame
  all_goals simp

/-- A subquery in a join condition is a query of the text too. -/
example : (parse "SELECT a FROM t JOIN u ON EXISTS (SELECT FROM v)".toList).isOk = false := by
  decide +kernel

end QueryScore.Sql
