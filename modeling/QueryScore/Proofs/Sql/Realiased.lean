/-
# QueryScore.Proofs.Sql.Realiased -- queries that differ in the aliases of their tables

The aliases of tables are renamed at any depth, and with them the qualifiers of columns
(`Query.isRealiased`). All that is written as marks stays the same but for words and qualifiers: two
such queries read the same tables and refer to the same columns at the same marks (`Query.follows`).
-/

import Mathlib.Data.List.Forall2
import QueryScore.Extraction

namespace QueryScore.Sql

/-! ## Queries that differ in aliases -/

section Renaming

variable (f : String → String)

/-- **`isRequalified f names names'`** -- the dotted name is the same, or its qualifier is renamed. -/
def isRequalified (names names' : List Ident) : Bool :=
  names' = names ||
    match names.reverse, names'.reverse with
    | column :: qualifier :: rest, column' :: qualifier' :: rest' =>
      column' = column && rest' = rest && qualifier'.normal = f qualifier.normal
    | _, _ => false

/-- The alias of a table is renamed, if it has one. -/
def Alias.isRenamed : Option Alias → Option Alias → Bool
  | none, none => true
  | some a, some b => b.columns = a.columns && b.name.normal = f a.name.normal
  | _, _ => false

mutual

/-- **`e.isRealiased f e'`** -- the expressions are the same, but the aliases of all tables in them are
renamed by `f`, and so are the qualifiers of some columns. Words are left open: the star of a table is
written with them. -/
def Expr.isRealiased : Expr → Expr → Bool
  | .column name, .column name' => name' = name
  | .path names, .path names' => isRequalified f names names'
  | .nested e, .nested e' => e.isRealiased e'
  | .connective op l r, .connective op' l' r' => op' = op && l.isRealiased l' && r.isRealiased r'
  | .call name tail, .call name' tail' => name' = name && Piece.isRealiasedAll tail tail'
  | .form parts, .form parts' => Piece.isRealiasedAll parts parts'
  | _, _ => false
  termination_by structural x => x

/-- The parts of a form are the same, but for aliases. -/
def Piece.isRealiased : Piece → Piece → Bool
  | .text _, .text _ => true
  | .expr e, .expr e' => e.isRealiased e'
  | .query q, .query q' => q.isRealiased q'
  | .source s, .source s' => s.isRealiased s'
  | _, _ => false
  termination_by structural x => x

/-- Several parts of a form are the same, but for aliases. -/
def Piece.isRealiasedAll : List Piece → List Piece → Bool
  | [], [] => true
  | p :: ps, p' :: ps' => p.isRealiased p' && Piece.isRealiasedAll ps ps'
  | _, _ => false
  termination_by structural x => x

/-- **`q.isRealiased f q'`** -- the queries are the same, but the aliases of all tables, at any depth,
are renamed by `f`, and so are the qualifiers of some columns. -/
def Query.isRealiased : Query → Query → Bool
  | .mk recursive ctes body orderBy tail, .mk recursive' ctes' body' orderBy' tail' =>
    recursive' = recursive && Cte.isRealiasedAll ctes ctes' && body.isRealiased body' &&
      SortItem.isRealiasedAll orderBy orderBy' && Piece.isRealiasedAll tail tail'
  termination_by structural x => x

/-- Common tables have the same names. -/
def Cte.isRealiased : Cte → Cte → Bool
  | .mk name q source, .mk name' q' source' => name' = name && source' = source && q.isRealiased q'
  termination_by structural x => x

/-- Several common tables are the same, but for aliases. -/
def Cte.isRealiasedAll : List Cte → List Cte → Bool
  | [], [] => true
  | c :: cs, c' :: cs' => c.isRealiased c' && Cte.isRealiasedAll cs cs'
  | _, _ => false
  termination_by structural x => x

/-- The bodies are the same, but for aliases. -/
def Body.isRealiased : Body → Body → Bool
  | .select block, .select block' => block.isRealiased block'
  | .query q, .query q' => q.isRealiased q'
  | .setOp op l r, .setOp op' l' r' => op' = op && l.isRealiased l' && r.isRealiased r'
  | .form parts, .form parts' => Piece.isRealiasedAll parts parts'
  | _, _ => false
  termination_by structural x => x

/-- The blocks are the same, but for aliases. -/
def Select.isRealiased : Select → Select → Bool
  | .mk fromFirst head projection into sources between condition groupBy middle having tail,
    .mk fromFirst' head' projection' into' sources' between' condition' groupBy' middle' having' tail' =>
    fromFirst' = fromFirst && into' = into && Piece.isRealiasedAll head head' &&
      Item.isRealiasedAll projection projection' && Source.isRealiasedAll sources sources' &&
      Piece.isRealiasedAll between between' && Expr.isRealiasedOption condition condition' &&
      groupBy.isRealiased groupBy' && Piece.isRealiasedAll middle middle' &&
      Expr.isRealiasedOption having having' && Piece.isRealiasedAll tail tail'
  termination_by structural x => x

/-- Projected items have the same names. -/
def Item.isRealiased : Item → Item → Bool
  | .expr e, .expr e' => e.isRealiased e'
  | .aliased e name, .aliased e' name' => name' = name && e.isRealiased e'
  | .star parts, .star parts' => Piece.isRealiasedAll parts parts'
  | _, _ => false
  termination_by structural x => x

/-- Several projected items are the same, but for aliases. -/
def Item.isRealiasedAll : List Item → List Item → Bool
  | [], [] => true
  | i :: is, i' :: is' => i.isRealiased i' && Item.isRealiasedAll is is'
  | _, _ => false
  termination_by structural x => x

/-- The groupings are the same, but for aliases. -/
def GroupBy.isRealiased : GroupBy → GroupBy → Bool
  | .keys exprs modifiers, .keys exprs' modifiers' =>
    Expr.isRealiasedAll exprs exprs' && Piece.isRealiasedAll modifiers modifiers'
  | .all modifiers, .all modifiers' => Piece.isRealiasedAll modifiers modifiers'
  | _, _ => false
  termination_by structural x => x

/-- Several expressions are the same, but for aliases. -/
def Expr.isRealiasedAll : List Expr → List Expr → Bool
  | [], [] => true
  | e :: es, e' :: es' => e.isRealiased e' && Expr.isRealiasedAll es es'
  | _, _ => false
  termination_by structural x => x

/-- Both have the same condition, but for aliases, or neither has one. -/
def Expr.isRealiasedOption : Option Expr → Option Expr → Bool
  | none, none => true
  | some e, some e' => e.isRealiased e'
  | _, _ => false
  termination_by structural x => x

/-- The sort keys are the same, but for aliases. -/
def SortItem.isRealiased : SortItem → SortItem → Bool
  | .mk e descending options, .mk e' descending' options' =>
    descending' = descending && e.isRealiased e' && Piece.isRealiasedAll options options'
  termination_by structural x => x

/-- Several sort keys are the same, but for aliases. -/
def SortItem.isRealiasedAll : List SortItem → List SortItem → Bool
  | [], [] => true
  | k :: ks, k' :: ks' => k.isRealiased k' && SortItem.isRealiasedAll ks ks'
  | _, _ => false
  termination_by structural x => x

/-- The sources are the same, but for aliases. -/
def Source.isRealiased : Source → Source → Bool
  | .mk table joins, .mk table' joins' => table.isRealiased table' && Join.isRealiasedAll joins joins'
  termination_by structural x => x

/-- Several sources are the same, but for aliases. -/
def Source.isRealiasedAll : List Source → List Source → Bool
  | [], [] => true
  | s :: ss, s' :: ss' => s.isRealiased s' && Source.isRealiasedAll ss ss'
  | _, _ => false
  termination_by structural x => x

/-- The table has a renamed alias; subqueries and other forms keep theirs. -/
def Table.isRealiased : Table → Table → Bool
  | .named name options alias? hints, .named name' options' alias?' hints' =>
    name' = name && Alias.isRenamed f alias? alias?' && Piece.isRealiasedAll options options' &&
      Piece.isRealiasedAll hints hints'
  | .derived lateral q alias?, .derived lateral' q' alias?' =>
    lateral' = lateral && alias?' = alias? && q.isRealiased q'
  | .joined inner alias?, .joined inner' alias?' => alias?' = alias? && inner.isRealiased inner'
  | .form parts alias? tail, .form parts' alias?' tail' =>
    alias?' = alias? && Piece.isRealiasedAll parts parts' && Piece.isRealiasedAll tail tail'
  | _, _ => false
  termination_by structural x => x

/-- The joins are the same, but for aliases. -/
def Join.isRealiased : Join → Join → Bool
  | .mk everywhere kind table constraint, .mk everywhere' kind' table' constraint' =>
    everywhere' = everywhere && kind' = kind && table.isRealiased table' &&
      constraint.isRealiased constraint'
  termination_by structural x => x

/-- Several joins are the same, but for aliases. -/
def Join.isRealiasedAll : List Join → List Join → Bool
  | [], [] => true
  | j :: js, j' :: js' => j.isRealiased j' && Join.isRealiasedAll js js'
  | _, _ => false
  termination_by structural x => x

/-- The conditions of joins are the same, but for aliases. -/
def Constraint.isRealiased : Constraint → Constraint → Bool
  | .on e, .on e' => e.isRealiased e'
  | .shared names, .shared names' => names' = names
  | .natural, .natural => true
  | .unconditional, .unconditional => true
  | .closest e constraint, .closest e' constraint' => e.isRealiased e' && constraint.isRealiased constraint'
  | _, _ => false
  termination_by structural x => x

end

end Renaming

/-! ## What stays the same at every mark -/

/-- The marks of a common table. -/
theorem Cte.marks_mk (name : Alias) (q : Query) (source : Option Ident) :
    (Cte.mk name q source).marks = .text name.name.render :: .text name.columns :: words " AS (" ::
      (q.marks ++ words ")" :: source.toList.flatMap fun table => [words " FROM ", .text table.render]) := by
  cases source <;> rfl

/-- The marks of an optional condition behind a word. -/
def Expr.marksBehind (word : String) : Option Expr → List Mark
  | some e => words word :: e.marks
  | none => []

/-- The marks of a block, clause by clause. -/
theorem Select.marks_mk (fromFirst : Bool) (head : List Piece) (projection : List Item) (into : List Char)
    (sources : List Source) (between : List Piece) (condition : Option Expr) (groupBy : GroupBy)
    (middle : List Piece) (having : Option Expr) (tail : List Piece) :
    (Select.mk fromFirst head projection into sources between condition groupBy middle having tail).marks =
      (let items :=
        if projection.isEmpty then [] else words " " :: joinMarks ", " (Item.marksEach projection)
      let reads :=
        if sources.isEmpty then [] else words "FROM " :: joinMarks ", " (Source.marksEach sources)
      if fromFirst then reads ++ words " SELECT" :: Piece.marksAll head ++ items ++ [.text into]
        else words "SELECT" :: Piece.marksAll head ++ items ++ .text into ::
          (if sources.isEmpty then [] else words " " :: reads)) ++
      Piece.marksAll between ++ Expr.marksBehind " WHERE " condition ++
      groupBy.marks ++ Piece.marksAll middle ++ Expr.marksBehind " HAVING " having ++
      Piece.marksAll tail := by
  cases condition <;> cases having <;> rfl

variable {f : String → String} {xs ys xs' ys' : List Mark}

/-- The columns that some marks refer to. -/
def Mark.columns (marks : List Mark) : List ColumnRef := (Mark.exprs marks).filterMap Expr.columnRef?

/-- **`ref.Follows f ref'`** -- the column is the same, or its qualifier is renamed. -/
def ColumnRef.Follows (f : String → String) (ref ref' : ColumnRef) : Prop :=
  ref' = ref ∨ ref' = { ref with qualifier := ref.qualifier.map f }

/-- **`Mark.Follows f xs ys`** -- the marks read the same tables and refer to the same columns, but for
renamed qualifiers. -/
structure Mark.Follows (f : String → String) (xs ys : List Mark) : Prop where
  tables : Mark.tables ys = Mark.tables xs
  columns : List.Forall₂ (ColumnRef.Follows f) (Mark.columns xs) (Mark.columns ys)

namespace Mark.Follows

theorem nil : Mark.Follows f [] [] := ⟨rfl, .nil⟩

theorem append (h : Mark.Follows f xs ys) (h' : Mark.Follows f xs' ys') :
    Mark.Follows f (xs ++ xs') (ys ++ ys') where
  tables := by
    rw [Mark.tables, Mark.tables, List.filterMap_append, List.filterMap_append]
    exact congrArg₂ _ h.tables h'.tables
  columns := by
    simp only [Mark.columns, Mark.exprs, List.filterMap_append]
    exact List.rel_append h.columns h'.columns

theorem text (cs ds : List Char) (h : Mark.Follows f xs ys) : Mark.Follows f (.text cs :: xs) (.text ds :: ys) :=
  ⟨h.tables, h.columns⟩

theorem query (q q' : Query) (h : Mark.Follows f xs ys) : Mark.Follows f (.query q :: xs) (.query q' :: ys) :=
  ⟨h.tables, h.columns⟩

theorem table (name : List Ident) (h : Mark.Follows f xs ys) :
    Mark.Follows f (.table name :: xs) (.table name :: ys) :=
  ⟨congrArg (name :: ·) h.tables, h.columns⟩

theorem expr {e e' : Expr} (he : Option.Rel (ColumnRef.Follows f) e.columnRef? e'.columnRef?) (h : Mark.Follows f xs ys) :
    Mark.Follows f (.expr e :: xs) (.expr e' :: ys) where
  tables := h.tables
  columns := by
    show List.Forall₂ _ ((e :: Mark.exprs xs).filterMap _) ((e' :: Mark.exprs ys).filterMap _)
    rw [List.filterMap_cons, List.filterMap_cons]
    generalize e.columnRef? = ref at he
    generalize e'.columnRef? = ref' at he
    cases he with
    | none => exact h.columns
    | some hone => exact .cons hone h.columns

theorem single (cs ds : List Char) : Mark.Follows f [.text cs] [.text ds] := nil.text cs ds

/-- Parts that correspond, with a separator between them. -/
theorem join {parts parts' : List (List Mark)} (h : List.Forall₂ (Mark.Follows f) parts parts')
    (separator : String) : Mark.Follows f (joinMarks separator parts) (joinMarks separator parts') := by
  induction h with
  | nil => exact nil
  | cons hone hmore ih =>
    cases hmore with
    | nil => exact hone
    | cons => exact hone.append (ih.text _ _)

/-- The word in front of a join. -/
theorem natural (h : Mark.Follows f xs ys) (c c' : Constraint) : Mark.Follows f
    ((match c with
      | .natural => words "NATURAL "
      | _ => words "") :: xs)
    ((match c' with
      | .natural => words "NATURAL "
      | _ => words "") :: ys) := by
  cases c <;> cases c' <;> exact h.text _ _

/-- A clause that both have or neither. -/
theorem clause {empty empty' : Bool} (hempty : empty' = empty) (h : Mark.Follows f xs ys) :
    Mark.Follows f (if empty then [] else xs) (if empty' then [] else ys) := by
  subst hempty
  cases empty' with
  | true => exact nil
  | false => exact h

end Mark.Follows

theorem columnRef?_path {names names' : List Ident} (h : isRequalified f names names' = true) :
    Option.Rel (ColumnRef.Follows f) (Expr.path names).columnRef? (Expr.path names').columnRef? := by
  rw [isRequalified, Bool.or_eq_true] at h
  rcases h with h | h
  · obtain rfl : names' = names := of_decide_eq_true h
    rw [Expr.columnRef?]
    cases names'.reverse with
    | nil => exact .none
    | cons => exact .some (.inl rfl)
  · rw [Expr.columnRef?, Expr.columnRef?]
    generalize names.reverse = xs at h
    generalize names'.reverse = ys at h
    split at h
    · simp only [Bool.and_eq_true, decide_eq_true_eq] at h
      obtain ⟨⟨rfl, rfl⟩, hqualifier⟩ := h
      exact .some (.inr (by simp [hqualifier]))
    · cases h

theorem columnRef?_realiased : ∀ e e' : Expr, e.isRealiased f e' = true →
    Option.Rel (ColumnRef.Follows f) e.columnRef? e'.columnRef?
  | .column name, e', h => by
    cases e' with
    | column name' =>
      obtain rfl : name' = name := by simpa [Expr.isRealiased] using h
      exact .some (.inl rfl)
    | _ => simp [Expr.isRealiased] at h
  | .path names, e', h => by
    cases e' with
    | path names' => exact columnRef?_path (by simpa [Expr.isRealiased] using h)
    | _ => simp [Expr.isRealiased] at h
  | .nested e, e', h => by
    cases e' with
    | nested e' => exact columnRef?_realiased e e' (by simpa [Expr.isRealiased] using h)
    | _ => simp [Expr.isRealiased] at h
  | .connective .., e', h => by
    cases e' with
    | connective => exact .none
    | _ => simp [Expr.isRealiased] at h
  | .call .., e', h => by
    cases e' with
    | call => exact .none
    | _ => simp [Expr.isRealiased] at h
  | .form .., e', h => by
    cases e' with
    | form => exact .none
    | _ => simp [Expr.isRealiased] at h

theorem isSome_of_isRenamed {alias? alias?' : Option Alias} (h : Alias.isRenamed f alias? alias?' = true) :
    alias?.isSome = alias?'.isSome := by
  cases alias? <;> cases alias?' <;> first | rfl | cases h

/-- The marks of an alias are words. -/
theorem follows_alias {alias? alias?' : Option Alias} (h : alias?.isSome = alias?'.isSome) :
    Mark.Follows f (Alias.marks alias?) (Alias.marks alias?') := by
  cases alias? <;> cases alias?' <;> simp at h
  · exact .nil
  · exact ((Mark.Follows.nil.text _ _).text _ _).text _ _

mutual

theorem Expr.follows : ∀ e e' : Expr, e.isRealiased f e' = true → Mark.Follows f e.marks e'.marks
  | .column name, e', h => by
    have hcolumn := columnRef?_realiased _ e' h
    cases e' with
    | column name' => exact .expr hcolumn (.single _ _)
    | _ => simp [Expr.isRealiased] at h
  | .path names, e', h => by
    have hcolumn := columnRef?_realiased _ e' h
    cases e' with
    | path names' => exact .expr hcolumn (.single _ _)
    | _ => simp [Expr.isRealiased] at h
  | .nested e, e', h => by
    have hcolumn := columnRef?_realiased _ e' h
    cases e' with
    | nested e' =>
      exact .expr hcolumn (((Expr.follows e e' (by simpa [Expr.isRealiased] using h)).append
        (.single _ _)).text _ _)
    | _ => simp [Expr.isRealiased] at h
  | .connective op l r, e', h => by
    cases e' with
    | connective op' l' r' =>
      simp only [Expr.isRealiased, Bool.and_eq_true, decide_eq_true_eq] at h
      obtain ⟨⟨rfl, hl⟩, hr⟩ := h
      exact .expr .none ((Expr.follows l l' hl).append ((Expr.follows r r' hr).text _ _))
    | _ => simp [Expr.isRealiased] at h
  | .call name tail, e', h => by
    cases e' with
    | call name' tail' =>
      simp only [Expr.isRealiased, Bool.and_eq_true, decide_eq_true_eq] at h
      exact .expr .none ((Piece.follows_all tail tail' h.2).text _ _)
    | _ => simp [Expr.isRealiased] at h
  | .form parts, e', h => by
    cases e' with
    | form parts' => exact .expr .none (Piece.follows_all parts parts' (by simpa [Expr.isRealiased] using h))
    | _ => simp [Expr.isRealiased] at h
  termination_by structural x => x

theorem Piece.follows : ∀ p p' : Piece, p.isRealiased f p' = true → Mark.Follows f p.marks p'.marks
  | .text cs, p', h => by
    cases p' with
    | text => exact .single _ _
    | _ => simp [Piece.isRealiased] at h
  | .expr e, p', h => by
    cases p' with
    | expr e' => exact Expr.follows e e' (by simpa [Piece.isRealiased] using h)
    | _ => simp [Piece.isRealiased] at h
  | .query q, p', h => by
    cases p' with
    | query q' => exact Query.follows q q' (by simpa [Piece.isRealiased] using h)
    | _ => simp [Piece.isRealiased] at h
  | .source s, p', h => by
    cases p' with
    | source s' => exact Source.follows s s' (by simpa [Piece.isRealiased] using h)
    | _ => simp [Piece.isRealiased] at h
  termination_by structural x => x

theorem Piece.follows_all : ∀ ps ps' : List Piece, Piece.isRealiasedAll f ps ps' = true →
    Mark.Follows f (Piece.marksAll ps) (Piece.marksAll ps')
  | [], ps', h => by
    cases ps' with
    | nil => exact .nil
    | cons => simp [Piece.isRealiasedAll] at h
  | p :: ps, ps', h => by
    cases ps' with
    | nil => simp [Piece.isRealiasedAll] at h
    | cons p' ps' =>
      simp only [Piece.isRealiasedAll, Bool.and_eq_true] at h
      exact (Piece.follows p p' h.1).append (Piece.follows_all ps ps' h.2)
  termination_by structural x => x

theorem Query.follows : ∀ q q' : Query, q.isRealiased f q' = true → Mark.Follows f q.marks q'.marks
  | .mk recursive ctes body orderBy tail, .mk recursive' ctes' body' orderBy' tail', h => by
    simp only [Query.isRealiased, Bool.and_eq_true, decide_eq_true_eq] at h
    obtain ⟨⟨⟨⟨rfl, hctes⟩, hbody⟩, horder⟩, htail⟩ := h
    obtain ⟨hempty, hctes⟩ := Cte.follows_each ctes ctes' hctes
    obtain ⟨hempty', horder⟩ := SortItem.follows_each orderBy orderBy' horder
    refine Mark.Follows.query _ _ (.append (.append (.append (.clause hempty ?_) ?_) (.clause hempty' ?_)) ?_)
    · exact ((Mark.Follows.join hctes ", ").append (.single _ _)).text _ _
    · exact Body.follows body body' hbody
    · exact (Mark.Follows.join horder ", ").text _ _
    · exact Piece.follows_all tail tail' htail
  termination_by structural x => x

theorem Cte.follows : ∀ c c' : Cte, c.isRealiased f c' = true → Mark.Follows f c.marks c'.marks
  | .mk name q source, .mk name' q' source', h => by
    simp only [Cte.isRealiased, Bool.and_eq_true, decide_eq_true_eq] at h
    obtain ⟨⟨rfl, rfl⟩, hq⟩ := h
    rw [Cte.marks_mk, Cte.marks_mk]
    refine .text _ _ (.text _ _ (.text _ _ (.append (Query.follows q q' hq) (.text _ _ ?_))))
    cases source' with
    | none => exact .nil
    | some table => exact (Mark.Follows.single _ _).text _ _
  termination_by structural x => x

theorem Cte.follows_each : ∀ cs cs' : List Cte, Cte.isRealiasedAll f cs cs' = true →
    cs'.isEmpty = cs.isEmpty ∧ List.Forall₂ (Mark.Follows f) (Cte.marksEach cs) (Cte.marksEach cs')
  | [], cs', h => by
    cases cs' with
    | nil => exact ⟨rfl, .nil⟩
    | cons => simp [Cte.isRealiasedAll] at h
  | c :: cs, cs', h => by
    cases cs' with
    | nil => simp [Cte.isRealiasedAll] at h
    | cons c' cs' =>
      simp only [Cte.isRealiasedAll, Bool.and_eq_true] at h
      exact ⟨rfl, .cons (Cte.follows c c' h.1) (Cte.follows_each cs cs' h.2).2⟩
  termination_by structural x => x

theorem Body.follows : ∀ b b' : Body, b.isRealiased f b' = true → Mark.Follows f b.marks b'.marks
  | .select block, b', h => by
    cases b' with
    | select block' => exact Select.follows block block' (by simpa [Body.isRealiased] using h)
    | _ => simp [Body.isRealiased] at h
  | .query q, b', h => by
    cases b' with
    | query q' =>
      exact ((Query.follows q q' (by simpa [Body.isRealiased] using h)).append (.single _ _)).text _ _
    | _ => simp [Body.isRealiased] at h
  | .setOp op l r, b', h => by
    cases b' with
    | setOp op' l' r' =>
      simp only [Body.isRealiased, Bool.and_eq_true, decide_eq_true_eq] at h
      exact (Body.follows l l' h.1.2).append ((Body.follows r r' h.2).text _ _)
    | _ => simp [Body.isRealiased] at h
  | .form parts, b', h => by
    cases b' with
    | form parts' => exact Piece.follows_all parts parts' (by simpa [Body.isRealiased] using h)
    | _ => simp [Body.isRealiased] at h
  termination_by structural x => x

theorem Select.follows : ∀ block block' : Select, block.isRealiased f block' = true →
    Mark.Follows f block.marks block'.marks
  | .mk fromFirst head projection into sources between condition groupBy middle having tail,
    .mk fromFirst' head' projection' into' sources' between' condition' groupBy' middle' having' tail',
    h => by
    simp only [Select.isRealiased, Bool.and_eq_true, decide_eq_true_eq] at h
    obtain ⟨⟨⟨⟨⟨⟨⟨⟨⟨⟨rfl, rfl⟩, hhead⟩, hprojection⟩, hsources⟩, hbetween⟩, hcondition⟩, hgroup⟩,
      hmiddle⟩, hhaving⟩, htail⟩ := h
    obtain ⟨hnoitems, hitems⟩ := Item.follows_each projection projection' hprojection
    obtain ⟨hnosources, hsources⟩ := Source.follows_each sources sources' hsources
    have hhead := Piece.follows_all head head' hhead
    have hitems := ((Mark.Follows.join hitems ", ").text " ".toList " ".toList).clause hnoitems
    have hreads := (Mark.Follows.join hsources ", ").text "FROM ".toList "FROM ".toList
    rw [Select.marks_mk, Select.marks_mk]
    refine .append (.append (.append (.append (.append (.append ?_ ?_) ?_) ?_) ?_) ?_) ?_
    · cases fromFirst' with
      | true =>
        exact (((hreads.clause hnosources).append (hhead.text _ _)).append hitems).append (.single _ _)
      | false =>
        exact ((hhead.text _ _).append hitems).append
          ((((hreads.clause hnosources).text _ _).clause hnosources).text _ _)
    · exact Piece.follows_all between between' hbetween
    · exact Expr.follows_option condition condition' hcondition " WHERE "
    · exact GroupBy.follows groupBy groupBy' hgroup
    · exact Piece.follows_all middle middle' hmiddle
    · exact Expr.follows_option having having' hhaving " HAVING "
    · exact Piece.follows_all tail tail' htail
  termination_by structural x => x

theorem Item.follows : ∀ i i' : Item, i.isRealiased f i' = true → Mark.Follows f i.marks i'.marks
  | .expr e, i', h => by
    cases i' with
    | expr e' => exact Expr.follows e e' (by simpa [Item.isRealiased] using h)
    | _ => simp [Item.isRealiased] at h
  | .aliased e name, i', h => by
    cases i' with
    | aliased e' name' =>
      simp only [Item.isRealiased, Bool.and_eq_true, decide_eq_true_eq] at h
      exact (Expr.follows e e' h.2).append ((Mark.Follows.single _ _).text _ _)
    | _ => simp [Item.isRealiased] at h
  | .star parts, i', h => by
    cases i' with
    | star parts' => exact Piece.follows_all parts parts' (by simpa [Item.isRealiased] using h)
    | _ => simp [Item.isRealiased] at h
  termination_by structural x => x

theorem Item.follows_each : ∀ items items' : List Item, Item.isRealiasedAll f items items' = true →
    items'.isEmpty = items.isEmpty ∧ List.Forall₂ (Mark.Follows f) (Item.marksEach items) (Item.marksEach items')
  | [], items', h => by
    cases items' with
    | nil => exact ⟨rfl, .nil⟩
    | cons => simp [Item.isRealiasedAll] at h
  | i :: items, items', h => by
    cases items' with
    | nil => simp [Item.isRealiasedAll] at h
    | cons i' items' =>
      simp only [Item.isRealiasedAll, Bool.and_eq_true] at h
      exact ⟨rfl, .cons (Item.follows i i' h.1) (Item.follows_each items items' h.2).2⟩
  termination_by structural x => x

theorem GroupBy.follows : ∀ g g' : GroupBy, g.isRealiased f g' = true → Mark.Follows f g.marks g'.marks
  | .keys exprs modifiers, g', h => by
    cases g' with
    | keys exprs' modifiers' =>
      simp only [GroupBy.isRealiased, Bool.and_eq_true] at h
      obtain ⟨hempty, hexprs⟩ := Expr.follows_each exprs exprs' h.1
      exact (((Mark.Follows.join hexprs ", ").append
        (Piece.follows_all modifiers modifiers' h.2)).text _ _).clause hempty
    | _ => simp [GroupBy.isRealiased] at h
  | .all modifiers, g', h => by
    cases g' with
    | all modifiers' =>
      exact (Piece.follows_all modifiers modifiers' (by simpa [GroupBy.isRealiased] using h)).text _ _
    | _ => simp [GroupBy.isRealiased] at h
  termination_by structural x => x

theorem Expr.follows_each : ∀ es es' : List Expr, Expr.isRealiasedAll f es es' = true →
    es'.isEmpty = es.isEmpty ∧ List.Forall₂ (Mark.Follows f) (Expr.marksEach es) (Expr.marksEach es')
  | [], es', h => by
    cases es' with
    | nil => exact ⟨rfl, .nil⟩
    | cons => simp [Expr.isRealiasedAll] at h
  | e :: es, es', h => by
    cases es' with
    | nil => simp [Expr.isRealiasedAll] at h
    | cons e' es' =>
      simp only [Expr.isRealiasedAll, Bool.and_eq_true] at h
      exact ⟨rfl, .cons (Expr.follows e e' h.1) (Expr.follows_each es es' h.2).2⟩
  termination_by structural x => x

theorem Expr.follows_option : ∀ c c' : Option Expr, Expr.isRealiasedOption f c c' = true → ∀ word : String,
    Mark.Follows f (Expr.marksBehind word c) (Expr.marksBehind word c')
  | none, c', h, _ => by
    cases c' with
    | none => exact .nil
    | some => simp [Expr.isRealiasedOption] at h
  | some e, c', h, _ => by
    cases c' with
    | none => simp [Expr.isRealiasedOption] at h
    | some e' => exact (Expr.follows e e' (by simpa [Expr.isRealiasedOption] using h)).text _ _
  termination_by structural x => x

theorem SortItem.follows : ∀ k k' : SortItem, k.isRealiased f k' = true → Mark.Follows f k.marks k'.marks
  | .mk e descending options, .mk e' descending' options', h => by
    simp only [SortItem.isRealiased, Bool.and_eq_true, decide_eq_true_eq] at h
    exact (Expr.follows e e' h.1.2).append (Piece.follows_all options options' h.2)
  termination_by structural x => x

theorem SortItem.follows_each : ∀ ks ks' : List SortItem, SortItem.isRealiasedAll f ks ks' = true →
    ks'.isEmpty = ks.isEmpty ∧ List.Forall₂ (Mark.Follows f) (SortItem.marksEach ks) (SortItem.marksEach ks')
  | [], ks', h => by
    cases ks' with
    | nil => exact ⟨rfl, .nil⟩
    | cons => simp [SortItem.isRealiasedAll] at h
  | k :: ks, ks', h => by
    cases ks' with
    | nil => simp [SortItem.isRealiasedAll] at h
    | cons k' ks' =>
      simp only [SortItem.isRealiasedAll, Bool.and_eq_true] at h
      exact ⟨rfl, .cons (SortItem.follows k k' h.1) (SortItem.follows_each ks ks' h.2).2⟩
  termination_by structural x => x

theorem Source.follows : ∀ s s' : Source, s.isRealiased f s' = true → Mark.Follows f s.marks s'.marks
  | .mk table joins, .mk table' joins', h => by
    simp only [Source.isRealiased, Bool.and_eq_true] at h
    exact (Table.follows table table' h.1).append (Join.follows_all joins joins' h.2)
  termination_by structural x => x

theorem Source.follows_each : ∀ ss ss' : List Source, Source.isRealiasedAll f ss ss' = true →
    ss'.isEmpty = ss.isEmpty ∧ List.Forall₂ (Mark.Follows f) (Source.marksEach ss) (Source.marksEach ss')
  | [], ss', h => by
    cases ss' with
    | nil => exact ⟨rfl, .nil⟩
    | cons => simp [Source.isRealiasedAll] at h
  | s :: ss, ss', h => by
    cases ss' with
    | nil => simp [Source.isRealiasedAll] at h
    | cons s' ss' =>
      simp only [Source.isRealiasedAll, Bool.and_eq_true] at h
      exact ⟨rfl, .cons (Source.follows s s' h.1) (Source.follows_each ss ss' h.2).2⟩
  termination_by structural x => x

theorem Table.follows : ∀ t t' : Table, t.isRealiased f t' = true → Mark.Follows f t.marks t'.marks
  | .named name options alias? hints, t', h => by
    cases t' with
    | named name' options' alias?' hints' =>
      simp only [Table.isRealiased, Bool.and_eq_true, decide_eq_true_eq] at h
      obtain ⟨⟨⟨rfl, halias⟩, hoptions⟩, hhints⟩ := h
      exact (((Piece.follows_all options options' hoptions).append (follows_alias (isSome_of_isRenamed halias))).append
        (Piece.follows_all hints hints' hhints) |>.text _ _).table _
    | _ => simp [Table.isRealiased] at h
  | .derived lateral q alias?, t', h => by
    cases t' with
    | derived lateral' q' alias?' =>
      simp only [Table.isRealiased, Bool.and_eq_true, decide_eq_true_eq] at h
      obtain ⟨⟨rfl, rfl⟩, hq⟩ := h
      exact ((Query.follows q q' hq).append ((follows_alias rfl).text _ _)).text _ _
    | _ => simp [Table.isRealiased] at h
  | .joined inner alias?, t', h => by
    cases t' with
    | joined inner' alias?' =>
      simp only [Table.isRealiased, Bool.and_eq_true, decide_eq_true_eq] at h
      obtain ⟨rfl, hinner⟩ := h
      exact ((Source.follows inner inner' hinner).append ((follows_alias rfl).text _ _)).text _ _
    | _ => simp [Table.isRealiased] at h
  | .form parts alias? tail, t', h => by
    cases t' with
    | form parts' alias?' tail' =>
      simp only [Table.isRealiased, Bool.and_eq_true, decide_eq_true_eq] at h
      obtain ⟨⟨rfl, hparts⟩, htail⟩ := h
      exact ((Piece.follows_all parts parts' hparts).append (follows_alias rfl)).append
        (Piece.follows_all tail tail' htail)
    | _ => simp [Table.isRealiased] at h
  termination_by structural x => x

theorem Join.follows : ∀ j j' : Join, j.isRealiased f j' = true → Mark.Follows f j.marks j'.marks
  | .mk everywhere kind table constraint, .mk everywhere' kind' table' constraint', h => by
    simp only [Join.isRealiased, Bool.and_eq_true, decide_eq_true_eq] at h
    obtain ⟨⟨⟨rfl, rfl⟩, htable⟩, hconstraint⟩ := h
    have hconstraint := Constraint.follows constraint constraint' hconstraint
    have hrest := ((Table.follows table table' htable).append hconstraint)
    exact ((hrest.text _ _).natural constraint constraint').text _ _
  termination_by structural x => x

theorem Join.follows_all : ∀ js js' : List Join, Join.isRealiasedAll f js js' = true →
    Mark.Follows f (Join.marksAll js) (Join.marksAll js')
  | [], js', h => by
    cases js' with
    | nil => exact .nil
    | cons => simp [Join.isRealiasedAll] at h
  | j :: js, js', h => by
    cases js' with
    | nil => simp [Join.isRealiasedAll] at h
    | cons j' js' =>
      simp only [Join.isRealiasedAll, Bool.and_eq_true] at h
      exact (Join.follows j j' h.1).append (Join.follows_all js js' h.2)
  termination_by structural x => x

theorem Constraint.follows : ∀ c c' : Constraint, c.isRealiased f c' = true →
    Mark.Follows f c.marks c'.marks
  | .on e, c', h => by
    cases c' with
    | on e' => exact (Expr.follows e e' (by simpa [Constraint.isRealiased] using h)).text _ _
    | _ => simp [Constraint.isRealiased] at h
  | .shared names, c', h => by
    cases c' with
    | shared names' => exact ((Mark.Follows.single _ _).text _ _).text _ _
    | _ => simp [Constraint.isRealiased] at h
  | .natural, c', h => by
    cases c' with
    | natural => exact .nil
    | _ => simp [Constraint.isRealiased] at h
  | .unconditional, c', h => by
    cases c' with
    | unconditional => exact .nil
    | _ => simp [Constraint.isRealiased] at h
  | .closest e constraint, c', h => by
    cases c' with
    | closest e' constraint' =>
      simp only [Constraint.isRealiased, Bool.and_eq_true] at h
      exact ((Expr.follows e e' h.1).append ((Constraint.follows constraint constraint' h.2).text _ _)).text _ _
    | _ => simp [Constraint.isRealiased] at h
  termination_by structural x => x

end

end QueryScore.Sql
