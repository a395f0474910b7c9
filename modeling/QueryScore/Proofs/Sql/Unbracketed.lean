/-
# QueryScore.Proofs.Sql.Unbracketed -- redundant brackets in FROM clauses

A source in brackets in front of joins reads the same rows without its brackets: the joins inside come
first and those behind follow. So every source has a form without such brackets at any depth
(`Source.unbracketed`), and two sources that differ in them alone have the same one
(`Source.unbracketed_brackets`). The form reads the same tables and refers to the same columns at its
marks (`Query.follows_unbracketed`): nothing but words is dropped, and joins only move.
-/

import QueryScore.Proofs.Sql.Realiased

namespace QueryScore.Sql

/-! ## The form without redundant brackets -/

/-- A table with joins behind it. Brackets around the table and the joins inside are dropped, unless the
brackets have a name. -/
def Source.ofTable : Table → List Join → Source
  | .joined (.mk table joins) none, more => .mk table (joins ++ more)
  | table, more => .mk table more

/-- A source in brackets as a table. Brackets without a name around a table alone are dropped. -/
def Table.ofSource : Source → Option Alias → Table
  | .mk table [], none => table
  | source, alias? => .joined source alias?

mutual

/-- **`e.unbracketed`** -- the expression without redundant brackets in the FROM clauses inside it. -/
def Expr.unbracketed : Expr → Expr
  | .column name => .column name
  | .path names => .path names
  | .nested e => .nested e.unbracketed
  | .connective op l r => .connective op l.unbracketed r.unbracketed
  | .call name tail => .call name (Piece.unbracketedAll tail)
  | .form parts => .form (Piece.unbracketedAll parts)
  termination_by structural x => x

/-- The part without redundant brackets. -/
def Piece.unbracketed : Piece → Piece
  | .text cs => .text cs
  | .expr e => .expr e.unbracketed
  | .query q => .query q.unbracketed
  | .source s => .source s.unbracketed
  termination_by structural x => x

/-- Several parts without redundant brackets. -/
def Piece.unbracketedAll : List Piece → List Piece
  | [] => []
  | p :: ps => p.unbracketed :: Piece.unbracketedAll ps
  termination_by structural x => x

/-- **`q.unbracketed`** -- the query without redundant brackets in its FROM clauses, at any depth. -/
def Query.unbracketed : Query → Query
  | .mk recursive ctes body orderBy tail =>
    .mk recursive (Cte.unbracketedAll ctes) body.unbracketed (SortItem.unbracketedAll orderBy)
      (Piece.unbracketedAll tail)
  termination_by structural x => x

/-- The common table without redundant brackets. -/
def Cte.unbracketed : Cte → Cte
  | .mk name q source => .mk name q.unbracketed source
  termination_by structural x => x

/-- Several common tables without redundant brackets. -/
def Cte.unbracketedAll : List Cte → List Cte
  | [] => []
  | c :: cs => c.unbracketed :: Cte.unbracketedAll cs
  termination_by structural x => x

/-- The body without redundant brackets. -/
def Body.unbracketed : Body → Body
  | .select block => .select block.unbracketed
  | .query q => .query q.unbracketed
  | .setOp op l r => .setOp op l.unbracketed r.unbracketed
  | .form parts => .form (Piece.unbracketedAll parts)
  termination_by structural x => x

/-- **`block.unbracketed`** -- the block without redundant brackets in its FROM clause and below. -/
def Select.unbracketed : Select → Select
  | .mk fromFirst head projection into sources between condition groupBy middle having tail =>
    .mk fromFirst (Piece.unbracketedAll head) (Item.unbracketedAll projection) into
      (Source.unbracketedAll sources) (Piece.unbracketedAll between) (Expr.unbracketedOption condition)
      groupBy.unbracketed (Piece.unbracketedAll middle) (Expr.unbracketedOption having)
      (Piece.unbracketedAll tail)
  termination_by structural x => x

/-- The projected item without redundant brackets. -/
def Item.unbracketed : Item → Item
  | .expr e => .expr e.unbracketed
  | .aliased e name => .aliased e.unbracketed name
  | .star parts => .star (Piece.unbracketedAll parts)
  termination_by structural x => x

/-- Several projected items without redundant brackets. -/
def Item.unbracketedAll : List Item → List Item
  | [] => []
  | i :: is => i.unbracketed :: Item.unbracketedAll is
  termination_by structural x => x

/-- The grouping without redundant brackets. -/
def GroupBy.unbracketed : GroupBy → GroupBy
  | .keys exprs modifiers => .keys (Expr.unbracketedAll exprs) (Piece.unbracketedAll modifiers)
  | .all modifiers => .all (Piece.unbracketedAll modifiers)
  termination_by structural x => x

/-- Several expressions without redundant brackets. -/
def Expr.unbracketedAll : List Expr → List Expr
  | [] => []
  | e :: es => e.unbracketed :: Expr.unbracketedAll es
  termination_by structural x => x

/-- The condition without redundant brackets, if there is one. -/
def Expr.unbracketedOption : Option Expr → Option Expr
  | none => none
  | some e => some e.unbracketed
  termination_by structural x => x

/-- The sort key without redundant brackets. -/
def SortItem.unbracketed : SortItem → SortItem
  | .mk e descending options => .mk e.unbracketed descending (Piece.unbracketedAll options)
  termination_by structural x => x

/-- Several sort keys without redundant brackets. -/
def SortItem.unbracketedAll : List SortItem → List SortItem
  | [] => []
  | k :: ks => k.unbracketed :: SortItem.unbracketedAll ks
  termination_by structural x => x

/-- **`s.unbracketed`** -- the source without redundant brackets. -/
def Source.unbracketed : Source → Source
  | .mk table joins => Source.ofTable table.unbracketed (Join.unbracketedAll joins)
  termination_by structural x => x

/-- Several sources without redundant brackets. -/
def Source.unbracketedAll : List Source → List Source
  | [] => []
  | s :: ss => s.unbracketed :: Source.unbracketedAll ss
  termination_by structural x => x

/-- The table without redundant brackets around it or inside. -/
def Table.unbracketed : Table → Table
  | .named name options alias? hints =>
    .named name (Piece.unbracketedAll options) alias? (Piece.unbracketedAll hints)
  | .derived lateral q alias? => .derived lateral q.unbracketed alias?
  | .joined inner alias? => Table.ofSource inner.unbracketed alias?
  | .form parts alias? tail => .form (Piece.unbracketedAll parts) alias? (Piece.unbracketedAll tail)
  termination_by structural x => x

/-- The join without redundant brackets around its table or inside. -/
def Join.unbracketed : Join → Join
  | .mk everywhere kind table constraint =>
    .mk everywhere kind table.unbracketed constraint.unbracketed
  termination_by structural x => x

/-- Several joins without redundant brackets. -/
def Join.unbracketedAll : List Join → List Join
  | [] => []
  | j :: js => j.unbracketed :: Join.unbracketedAll js
  termination_by structural x => x

/-- The condition of a join without redundant brackets. -/
def Constraint.unbracketed : Constraint → Constraint
  | .on e => .on e.unbracketed
  | .shared names => .shared names
  | .natural => .natural
  | .unconditional => .unconditional
  | .closest e constraint => .closest e.unbracketed constraint.unbracketed
  termination_by structural x => x

end

/-! Lists lose their brackets element by element. -/

theorem Expr.unbracketedAll_eq_map (es : List Expr) : Expr.unbracketedAll es = es.map Expr.unbracketed := by
  induction es with
  | nil => rfl
  | cons e es ih => rw [Expr.unbracketedAll, ih, List.map_cons]

theorem Item.unbracketedAll_eq_map (is : List Item) : Item.unbracketedAll is = is.map Item.unbracketed := by
  induction is with
  | nil => rfl
  | cons i is ih => rw [Item.unbracketedAll, ih, List.map_cons]

theorem Source.unbracketedAll_eq_map (ss : List Source) : Source.unbracketedAll ss = ss.map Source.unbracketed := by
  induction ss with
  | nil => rfl
  | cons s ss ih => rw [Source.unbracketedAll, ih, List.map_cons]

theorem Join.unbracketedAll_eq_map (js : List Join) : Join.unbracketedAll js = js.map Join.unbracketed := by
  induction js with
  | nil => rfl
  | cons j js ih => rw [Join.unbracketedAll, ih, List.map_cons]

/-! ## Brackets that are dropped -/

/-- **`t.IsBare`** -- the table is no source in brackets without a name. -/
def Table.IsBare (t : Table) : Prop := ∀ s, t ≠ .joined s none

theorem Source.ofTable_of_isBare {t : Table} (h : t.IsBare) (more : List Join) :
    Source.ofTable t more = .mk t more := by
  unfold Source.ofTable
  split
  · exact absurd rfl (h _)
  · rfl

/-- A source in brackets with joins behind is the source with the joins behind its own. -/
theorem Source.ofTable_ofSource {t : Table} (h : t.IsBare) (joins more : List Join) :
    Source.ofTable (Table.ofSource (.mk t joins) none) more = .mk t (joins ++ more) := by
  cases joins with
  | nil => exact Source.ofTable_of_isBare h more
  | cons => rfl

mutual

/-- A table that keeps its brackets has joins inside, and no brackets in front of them. -/
theorem Table.unbracketed_joined : ∀ (t t' : Table) (joins : List Join),
    t.unbracketed = .joined (.mk t' joins) none → joins ≠ [] ∧ t'.IsBare
  | .named .., _, _, h | .derived .., _, _, h | .form .., _, _, h => nomatch h
  | .joined inner alias?, t', joins, h => by
    have hbare := Source.isBare_unbracketed inner
    unfold Table.unbracketed Table.ofSource at h
    split at h
    · rename_i table hinner
      rw [hinner] at hbare
      exact absurd h (hbare _)
    · rename_i hrest
      injection h with hsource halias
      rw [hsource] at hbare
      refine ⟨?_, hbare⟩
      rintro rfl
      exact hrest t' hsource halias
  termination_by structural x => x

theorem Source.isBare_unbracketed : ∀ s : Source, s.unbracketed.table.IsBare
  | .mk table joins => by
    have hinner := Table.unbracketed_joined table
    unfold Source.unbracketed Source.ofTable
    split
    · rename_i heq
      exact (hinner _ _ heq).2
    · rename_i hrest
      rintro ⟨t', joins'⟩ heq
      exact hrest t' joins' heq
  termination_by structural x => x

end

/-- Joins that are behind the brackets may as well follow those inside. -/
theorem Source.ofTable_append (t : Table) (joins more : List Join) :
    Source.ofTable (Table.ofSource (Source.ofTable t.unbracketed joins) none) more =
      Source.ofTable t.unbracketed (joins ++ more) := by
  by_cases hbare : t.unbracketed.IsBare
  · rw [Source.ofTable_of_isBare hbare, Source.ofTable_of_isBare hbare, Source.ofTable_ofSource hbare]
  · obtain ⟨s, hs⟩ := Classical.not_forall_not.mp hbare
    obtain ⟨t', inside⟩ := s
    have hbare' := (Table.unbracketed_joined t t' inside hs).2
    rw [hs]
    show Source.ofTable (Table.ofSource (.mk t' (inside ++ joins)) none) more = .mk t' (inside ++ (joins ++ more))
    rw [Source.ofTable_ofSource hbare', List.append_assoc]

/-- **Brackets around a table and its joins are redundant** in front of a FROM item. -/
theorem Source.unbracketed_brackets (t : Table) (joins more : List Join) :
    (Source.mk (.joined (.mk t joins) none) more).unbracketed = (Source.mk t (joins ++ more)).unbracketed := by
  show Source.ofTable (Table.ofSource (Source.ofTable t.unbracketed (Join.unbracketedAll joins)) none)
    (Join.unbracketedAll more) = Source.ofTable t.unbracketed (Join.unbracketedAll (joins ++ more))
  rw [Source.ofTable_append]
  simp only [Join.unbracketedAll_eq_map, List.map_append]

/-! ## What stays the same at every mark -/

variable {xs ys zs : List Mark}

theorem ColumnRef.follows_id_iff (ref ref' : ColumnRef) : ref.Follows id ref' ↔ ref = ref' := by
  unfold ColumnRef.Follows
  rw [Option.map_id_fun]
  show ref' = ref ∨ ref' = ref ↔ ref = ref'
  rw [or_self]
  exact eq_comm

/-- Nothing is renamed: the marks read the same tables and refer to the same columns. -/
theorem Mark.follows_id_iff :
    Mark.Follows id xs ys ↔ Mark.tables ys = Mark.tables xs ∧ Mark.columns ys = Mark.columns xs := by
  have hrel : ColumnRef.Follows id = Eq := by
    funext ref ref'
    exact propext (ColumnRef.follows_id_iff ref ref')
  constructor
  · rintro ⟨htables, hcolumns⟩
    rw [hrel, List.forall₂_eq_eq_eq] at hcolumns
    exact ⟨htables, hcolumns.symm⟩
  · rintro ⟨htables, hcolumns⟩
    refine ⟨htables, ?_⟩
    rw [hrel, List.forall₂_eq_eq_eq]
    exact hcolumns.symm

namespace Mark.Follows

theorem refl (xs : List Mark) : Mark.Follows id xs xs := Mark.follows_id_iff.mpr ⟨rfl, rfl⟩

theorem trans (h : Mark.Follows id xs ys) (h' : Mark.Follows id ys zs) : Mark.Follows id xs zs := by
  obtain ⟨htables, hcolumns⟩ := Mark.follows_id_iff.mp h
  obtain ⟨htables', hcolumns'⟩ := Mark.follows_id_iff.mp h'
  exact Mark.follows_id_iff.mpr ⟨htables'.trans htables, hcolumns'.trans hcolumns⟩

/-- Words may be left out. -/
theorem dropText {f : String → String} (cs : List Char) (h : Mark.Follows f xs ys) :
    Mark.Follows f (.text cs :: xs) ys :=
  ⟨h.tables, h.columns⟩

theorem dropTextBehind {f : String → String} (cs : List Char) (h : Mark.Follows f xs ys) :
    Mark.Follows f (xs ++ [.text cs]) ys := by
  have hbehind := h.append (Mark.Follows.nil.dropText cs)
  rwa [List.append_nil] at hbehind

end Mark.Follows

theorem Join.marksAll_append (js ks : List Join) :
    Join.marksAll (js ++ ks) = Join.marksAll js ++ Join.marksAll ks := by
  induction js with
  | nil => rfl
  | cons j js ih =>
    rw [List.cons_append, Join.marksAll, Join.marksAll, ih, List.append_assoc]

theorem Source.follows_ofTable : ∀ (t : Table) (more : List Join),
    Mark.Follows id (t.marks ++ Join.marksAll more) (Source.ofTable t more).marks
  | .joined (.mk table joins) none, more => by
    show Mark.Follows id (words "(" :: (table.marks ++ Join.marksAll joins) ++ [words ")"] ++ Join.marksAll more)
      (table.marks ++ Join.marksAll (joins ++ more))
    rw [Join.marksAll_append, ← List.append_assoc]
    exact ((Mark.Follows.refl _).dropTextBehind ")".toList |>.dropText _).append (.refl _)
  | .joined (.mk _ _) (some _), _ | .named .., _ | .derived .., _ | .form .., _ => .refl _

theorem Table.follows_ofSource : ∀ (s : Source) (alias? : Option Alias),
    Mark.Follows id (words "(" :: s.marks ++ words ")" :: Alias.marks alias?) (Table.ofSource s alias?).marks
  | .mk table [], none => by
    show Mark.Follows id (words "(" :: (table.marks ++ []) ++ [words ")"]) table.marks
    rw [List.append_nil]
    exact (Mark.Follows.refl _).dropTextBehind ")".toList |>.dropText _
  | .mk _ [], some _ | .mk _ (_ :: _), _ => .refl _

theorem columnRef?_unbracketed : ∀ e : Expr, e.unbracketed.columnRef? = e.columnRef?
  | .column _ | .path _ | .connective .. | .call .. | .form _ => rfl
  | .nested e => columnRef?_unbracketed e

/-- An expression refers to the same column without the brackets inside it. -/
theorem Mark.Follows.unbracketed (e : Expr) (h : Mark.Follows id xs ys) :
    Mark.Follows id (.expr e :: xs) (.expr e.unbracketed :: ys) := by
  refine .expr ?_ h
  rw [columnRef?_unbracketed]
  cases e.columnRef? with
  | none => exact .none
  | some ref => exact .some (.inl rfl)

mutual

theorem Expr.follows_unbracketed : ∀ e : Expr, Mark.Follows id e.marks e.unbracketed.marks
  | .column _ => .refl _
  | .path _ => .refl _
  | .nested e => .unbracketed (.nested e) (((Expr.follows_unbracketed e).append (.single _ _)).text _ _)
  | .connective op l r =>
    .unbracketed (.connective op l r)
      ((Expr.follows_unbracketed l).append ((Expr.follows_unbracketed r).text _ _))
  | .call name tail => .unbracketed (.call name tail) ((Piece.follows_unbracketedAll tail).text _ _)
  | .form parts => .unbracketed (.form parts) (Piece.follows_unbracketedAll parts)
  termination_by structural x => x

theorem Piece.follows_unbracketed : ∀ p : Piece, Mark.Follows id p.marks p.unbracketed.marks
  | .text _ => .refl _
  | .expr e => Expr.follows_unbracketed e
  | .query q => Query.follows_unbracketed q
  | .source s => Source.follows_unbracketed s
  termination_by structural x => x

theorem Piece.follows_unbracketedAll : ∀ ps : List Piece,
    Mark.Follows id (Piece.marksAll ps) (Piece.marksAll (Piece.unbracketedAll ps))
  | [] => .nil
  | p :: ps => (Piece.follows_unbracketed p).append (Piece.follows_unbracketedAll ps)
  termination_by structural x => x

theorem Query.follows_unbracketed : ∀ q : Query, Mark.Follows id q.marks q.unbracketed.marks
  | .mk recursive ctes body orderBy tail => by
    obtain ⟨hempty, hctes⟩ := Cte.follows_unbracketedEach ctes
    obtain ⟨hempty', horder⟩ := SortItem.follows_unbracketedEach orderBy
    refine Mark.Follows.query _ _ (.append (.append (.append (.clause hempty ?_) ?_) (.clause hempty' ?_)) ?_)
    · exact ((Mark.Follows.join hctes ", ").append (.single _ _)).text _ _
    · exact Body.follows_unbracketed body
    · exact (Mark.Follows.join horder ", ").text _ _
    · exact Piece.follows_unbracketedAll tail
  termination_by structural x => x

theorem Cte.follows_unbracketed : ∀ c : Cte, Mark.Follows id c.marks c.unbracketed.marks
  | .mk name q source => by
    show Mark.Follows id (Cte.mk name q source).marks (Cte.mk name q.unbracketed source).marks
    rw [Cte.marks_mk, Cte.marks_mk]
    exact .text _ _ (.text _ _ (.text _ _ ((Query.follows_unbracketed q).append (.refl _))))
  termination_by structural x => x

theorem Cte.follows_unbracketedEach : ∀ cs : List Cte, (Cte.unbracketedAll cs).isEmpty = cs.isEmpty ∧
    List.Forall₂ (Mark.Follows id) (Cte.marksEach cs) (Cte.marksEach (Cte.unbracketedAll cs))
  | [] => ⟨rfl, .nil⟩
  | c :: cs => ⟨rfl, .cons (Cte.follows_unbracketed c) (Cte.follows_unbracketedEach cs).2⟩
  termination_by structural x => x

theorem Body.follows_unbracketed : ∀ b : Body, Mark.Follows id b.marks b.unbracketed.marks
  | .select block => Select.follows_unbracketed block
  | .query q => ((Query.follows_unbracketed q).append (.single _ _)).text _ _
  | .setOp _ l r => (Body.follows_unbracketed l).append ((Body.follows_unbracketed r).text _ _)
  | .form parts => Piece.follows_unbracketedAll parts
  termination_by structural x => x

theorem Select.follows_unbracketed : ∀ block : Select, Mark.Follows id block.marks block.unbracketed.marks
  | .mk fromFirst head projection into sources between condition groupBy middle having tail => by
    obtain ⟨hnoitems, hitems⟩ := Item.follows_unbracketedEach projection
    obtain ⟨hnosources, hsources⟩ := Source.follows_unbracketedEach sources
    have hhead := Piece.follows_unbracketedAll head
    have hitems := ((Mark.Follows.join hitems ", ").text " ".toList " ".toList).clause hnoitems
    have hreads := (Mark.Follows.join hsources ", ").text "FROM ".toList "FROM ".toList
    unfold Select.unbracketed
    rw [Select.marks_mk, Select.marks_mk]
    refine .append (.append (.append (.append (.append (.append ?_ ?_) ?_) ?_) ?_) ?_) ?_
    · cases fromFirst with
      | true =>
        exact (((hreads.clause hnosources).append (hhead.text _ _)).append hitems).append (.single _ _)
      | false =>
        exact ((hhead.text _ _).append hitems).append
          ((((hreads.clause hnosources).text _ _).clause hnosources).text _ _)
    · exact Piece.follows_unbracketedAll between
    · exact Expr.follows_unbracketedOption condition " WHERE "
    · exact GroupBy.follows_unbracketed groupBy
    · exact Piece.follows_unbracketedAll middle
    · exact Expr.follows_unbracketedOption having " HAVING "
    · exact Piece.follows_unbracketedAll tail
  termination_by structural x => x

theorem Item.follows_unbracketed : ∀ i : Item, Mark.Follows id i.marks i.unbracketed.marks
  | .expr e => Expr.follows_unbracketed e
  | .aliased e _ => (Expr.follows_unbracketed e).append (.refl _)
  | .star parts => Piece.follows_unbracketedAll parts
  termination_by structural x => x

theorem Item.follows_unbracketedEach : ∀ items : List Item,
    (Item.unbracketedAll items).isEmpty = items.isEmpty ∧
      List.Forall₂ (Mark.Follows id) (Item.marksEach items) (Item.marksEach (Item.unbracketedAll items))
  | [] => ⟨rfl, .nil⟩
  | i :: is => ⟨rfl, .cons (Item.follows_unbracketed i) (Item.follows_unbracketedEach is).2⟩
  termination_by structural x => x

theorem GroupBy.follows_unbracketed : ∀ g : GroupBy, Mark.Follows id g.marks g.unbracketed.marks
  | .keys exprs modifiers => by
    obtain ⟨hempty, hexprs⟩ := Expr.follows_unbracketedEach exprs
    exact (((Mark.Follows.join hexprs ", ").append (Piece.follows_unbracketedAll modifiers)).text _ _).clause hempty
  | .all modifiers => (Piece.follows_unbracketedAll modifiers).text _ _
  termination_by structural x => x

theorem Expr.follows_unbracketedEach : ∀ es : List Expr, (Expr.unbracketedAll es).isEmpty = es.isEmpty ∧
    List.Forall₂ (Mark.Follows id) (Expr.marksEach es) (Expr.marksEach (Expr.unbracketedAll es))
  | [] => ⟨rfl, .nil⟩
  | e :: es => ⟨rfl, .cons (Expr.follows_unbracketed e) (Expr.follows_unbracketedEach es).2⟩
  termination_by structural x => x

theorem Expr.follows_unbracketedOption : ∀ (c : Option Expr) (word : String),
    Mark.Follows id (Expr.marksBehind word c) (Expr.marksBehind word (Expr.unbracketedOption c))
  | none, _ => .nil
  | some e, _ => (Expr.follows_unbracketed e).text _ _
  termination_by structural x => x

theorem SortItem.follows_unbracketed : ∀ k : SortItem, Mark.Follows id k.marks k.unbracketed.marks
  | .mk e _ options => (Expr.follows_unbracketed e).append (Piece.follows_unbracketedAll options)
  termination_by structural x => x

theorem SortItem.follows_unbracketedEach : ∀ ks : List SortItem,
    (SortItem.unbracketedAll ks).isEmpty = ks.isEmpty ∧
      List.Forall₂ (Mark.Follows id) (SortItem.marksEach ks) (SortItem.marksEach (SortItem.unbracketedAll ks))
  | [] => ⟨rfl, .nil⟩
  | k :: ks => ⟨rfl, .cons (SortItem.follows_unbracketed k) (SortItem.follows_unbracketedEach ks).2⟩
  termination_by structural x => x

theorem Source.follows_unbracketed : ∀ s : Source, Mark.Follows id s.marks s.unbracketed.marks
  | .mk table joins =>
    ((Table.follows_unbracketed table).append (Join.follows_unbracketedAll joins)).trans
      (Source.follows_ofTable _ _)
  termination_by structural x => x

theorem Source.follows_unbracketedEach : ∀ ss : List Source,
    (Source.unbracketedAll ss).isEmpty = ss.isEmpty ∧
      List.Forall₂ (Mark.Follows id) (Source.marksEach ss) (Source.marksEach (Source.unbracketedAll ss))
  | [] => ⟨rfl, .nil⟩
  | s :: ss => ⟨rfl, .cons (Source.follows_unbracketed s) (Source.follows_unbracketedEach ss).2⟩
  termination_by structural x => x

theorem Table.follows_unbracketed : ∀ t : Table, Mark.Follows id t.marks t.unbracketed.marks
  | .named _ options _ hints =>
    (((Piece.follows_unbracketedAll options).append (.refl _)).append
      (Piece.follows_unbracketedAll hints) |>.text _ _).table _
  | .derived _ q _ => ((Query.follows_unbracketed q).append (.refl _)).text _ _
  | .joined inner alias? =>
    (((Source.follows_unbracketed inner).append (.refl _)).text _ _).trans (Table.follows_ofSource _ alias?)
  | .form parts _ tail =>
    ((Piece.follows_unbracketedAll parts).append (.refl _)).append (Piece.follows_unbracketedAll tail)
  termination_by structural x => x

theorem Join.follows_unbracketed : ∀ j : Join, Mark.Follows id j.marks j.unbracketed.marks
  | .mk _ _ table constraint =>
    ((((Table.follows_unbracketed table).append (Constraint.follows_unbracketed constraint)).text _ _).natural
      constraint constraint.unbracketed).text _ _
  termination_by structural x => x

theorem Join.follows_unbracketedAll : ∀ js : List Join,
    Mark.Follows id (Join.marksAll js) (Join.marksAll (Join.unbracketedAll js))
  | [] => .nil
  | j :: js => (Join.follows_unbracketed j).append (Join.follows_unbracketedAll js)
  termination_by structural x => x

theorem Constraint.follows_unbracketed : ∀ c : Constraint, Mark.Follows id c.marks c.unbracketed.marks
  | .on e => (Expr.follows_unbracketed e).text _ _
  | .shared _ => .refl _
  | .natural => .nil
  | .unconditional => .nil
  | .closest e constraint =>
    ((Expr.follows_unbracketed e).append ((Constraint.follows_unbracketed constraint).text _ _)).text _ _
  termination_by structural x => x

end

end QueryScore.Sql
