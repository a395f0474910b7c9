/-
# QueryScore.Proofs.Sql.Reconditioned -- what a WHERE condition has a part in

A block of a query gets another WHERE condition, one it did not have, or none. Everything but the
filters is read off the other clauses of the blocks, or off the sort keys, and stays as it is. Only
the entities are searched for everywhere in the tree, the conditions included: there the tables of
a condition count, and a condition without a subquery reads none (`tables_of_not_hasSubquery`).
So the structure changes in its filters and in nothing else (`extract_setCondition`).
-/

import QueryScore.Proofs.Sql.Aliases

namespace QueryScore.Sql

/-! ## Blocks in their places -/

/-- **`block.setCondition c`** -- the block with another WHERE condition, or none. -/
def Select.setCondition (c : Option Expr) : Select → Select
  | .mk fromFirst head projection into sources between _ groupBy middle having tail =>
    .mk fromFirst head projection into sources between c groupBy middle having tail

section Map

variable (f : Nat → Select → Select)

/-- The body with each of its blocks changed, the blocks numbered from a start. -/
def Body.mapBlocks : Nat → Body → Body
  | start, .select block => .select (f start block)
  | start, .query (.mk recursive ctes body orderBy tail) =>
    .query (.mk recursive ctes (body.mapBlocks start) orderBy tail)
  | start, .setOp op left right =>
    .setOp op (left.mapBlocks start) (right.mapBlocks (start + left.blocks.length))
  | _, .form parts => .form parts

/-- The common tables with each of their blocks changed. -/
def Cte.mapBlocks : Nat → List Cte → List Cte
  | _, [] => []
  | start, .mk name (.mk recursive ctes body orderBy tail) source :: rest =>
    .mk name (.mk recursive ctes (body.mapBlocks f start) orderBy tail) source ::
      Cte.mapBlocks (start + body.blocks.length) rest

/-- The blocks of some common tables. -/
def Cte.blocks (ctes : List Cte) : List Select := ctes.flatMap fun cte => cte.query.body.blocks

/-- The query with each of its blocks changed, those of its common tables first. -/
def Query.mapBlocks : Query → Query
  | .mk recursive ctes body orderBy tail =>
    .mk recursive (Cte.mapBlocks f 0 ctes) (body.mapBlocks f (Cte.blocks ctes).length) orderBy tail

end Map

/-- **`q.setCondition i c`** -- the query with another WHERE condition in its block number `i`. -/
def Query.setCondition (i : Nat) (c : Option Expr) (q : Query) : Query :=
  q.mapBlocks fun j block => if j = i then block.setCondition c else block

section Blocks

variable (f : Nat → Select → Select)

theorem Body.blocks_mapBlocks : ∀ (start : Nat) (b : Body),
    (b.mapBlocks f start).blocks = b.blocks.mapIdx fun j => f (start + j)
  | _, .select _ => rfl
  | start, .query (.mk _ _ body _ _) => body.blocks_mapBlocks start
  | start, .setOp _ left right => by
    rw [mapBlocks, blocks, blocks, List.mapIdx_append, left.blocks_mapBlocks start,
      right.blocks_mapBlocks (start + left.blocks.length)]
    simp only [Nat.add_comm, Nat.add_left_comm]
  | _, .form _ => rfl

theorem Cte.blocks_mapBlocks (start : Nat) (ctes : List Cte) :
    Cte.blocks (Cte.mapBlocks f start ctes) = (Cte.blocks ctes).mapIdx fun j => f (start + j) := by
  induction ctes generalizing start with
  | nil => rfl
  | cons cte rest ih =>
    obtain ⟨name, ⟨recursive, ctes, body, orderBy, tail⟩, source⟩ := cte
    show (body.mapBlocks f start).blocks ++ Cte.blocks (Cte.mapBlocks f (start + body.blocks.length) rest) =
      (body.blocks ++ Cte.blocks rest).mapIdx fun j => f (start + j)
    rw [List.mapIdx_append, body.blocks_mapBlocks f start, ih]
    simp only [Nat.add_comm, Nat.add_left_comm]

/-- The blocks are changed each in its place. -/
theorem Query.blocks_mapBlocks (q : Query) : (q.mapBlocks f).blocks = q.blocks.mapIdx f := by
  obtain ⟨recursive, ctes, body, orderBy, tail⟩ := q
  show Cte.blocks (Cte.mapBlocks f 0 ctes) ++ (body.mapBlocks f (Cte.blocks ctes).length).blocks =
    (Cte.blocks ctes ++ body.blocks).mapIdx f
  rw [List.mapIdx_append, Cte.blocks_mapBlocks, body.blocks_mapBlocks f]
  simp only [Nat.zero_add]
  simp only [Nat.add_comm]

end Blocks

/-! ## Tables in conditions -/

mutual

/-- **`e.hasSubquery`** -- a query stands in the expression, at any depth. A source of rows stands in an
expression only as part of one. -/
def Expr.hasSubquery : Expr → Bool
  | .column _ | .path _ => false
  | .nested inner => inner.hasSubquery
  | .connective _ left right => left.hasSubquery || right.hasSubquery
  | .call _ tail => Piece.hasSubqueryAny tail
  | .form parts => Piece.hasSubqueryAny parts

/-- A part is a query or holds one. -/
def Piece.hasSubquery : Piece → Bool
  | .text _ => false
  | .expr e => e.hasSubquery
  | .query _ | .source _ => true

/-- A query stands in one of the parts. -/
def Piece.hasSubqueryAny : List Piece → Bool
  | [] => false
  | p :: ps => p.hasSubquery || Piece.hasSubqueryAny ps

end

@[simp] theorem tables_nil : Mark.tables [] = [] := rfl

@[simp] theorem tables_append (xs ys : List Mark) :
    Mark.tables (xs ++ ys) = Mark.tables xs ++ Mark.tables ys :=
  List.filterMap_append

@[simp] theorem tables_text (cs : List Char) (xs : List Mark) :
    Mark.tables (.text cs :: xs) = Mark.tables xs := rfl

@[simp] theorem tables_words (s : String) (xs : List Mark) :
    Mark.tables (words s :: xs) = Mark.tables xs := rfl

@[simp] theorem tables_expr (e : Expr) (xs : List Mark) : Mark.tables (.expr e :: xs) = Mark.tables xs := rfl

@[simp] theorem tables_query (q : Query) (xs : List Mark) : Mark.tables (.query q :: xs) = Mark.tables xs := rfl

mutual

/-- An expression without a subquery reads no table. -/
theorem Expr.tables_of_not_hasSubquery : ∀ e : Expr, e.hasSubquery = false → Mark.tables e.marks = []
  | .column _, _ | .path _, _ => rfl
  | .nested inner, h => by
    rw [Expr.marks, List.cons_append, List.cons_append, tables_expr, tables_words, tables_append,
      inner.tables_of_not_hasSubquery h]
    rfl
  | .connective _ left right, h => by
    obtain ⟨hleft, hright⟩ := Bool.or_eq_false_iff.mp h
    rw [Expr.marks, List.cons_append, tables_expr, tables_append, tables_words,
      left.tables_of_not_hasSubquery hleft, right.tables_of_not_hasSubquery hright]
    rfl
  | .call _ tail, h => by
    rw [Expr.marks, tables_expr, tables_text]
    exact Piece.tables_of_not_hasSubqueryAny tail h
  | .form parts, h => by
    rw [Expr.marks, tables_expr]
    exact Piece.tables_of_not_hasSubqueryAny parts h

theorem Piece.tables_of_not_hasSubquery : ∀ p : Piece, p.hasSubquery = false → Mark.tables p.marks = []
  | .text _, _ => rfl
  | .expr e, h => e.tables_of_not_hasSubquery h

theorem Piece.tables_of_not_hasSubqueryAny : ∀ ps : List Piece, Piece.hasSubqueryAny ps = false →
    Mark.tables (Piece.marksAll ps) = []
  | [], _ => rfl
  | p :: ps, h => by
    obtain ⟨hp, hps⟩ := Bool.or_eq_false_iff.mp h
    rw [Piece.marksAll, tables_append, p.tables_of_not_hasSubquery hp, Piece.tables_of_not_hasSubqueryAny ps hps]
    rfl

end

/-- A condition without a subquery reads no table, and no condition none either. -/
theorem tables_marksBehind {c : Option Expr} (h : ∀ e ∈ c, e.hasSubquery = false) (word : String) :
    Mark.tables (Expr.marksBehind word c) = [] := by
  cases c with
  | none => rfl
  | some e => exact e.tables_of_not_hasSubquery (h e rfl)

/-- A block reads the same tables under another condition, where neither has a subquery. -/
theorem Select.tables_setCondition {block : Select} {c : Option Expr}
    (hold : ∀ e ∈ block.condition, e.hasSubquery = false) (hnew : ∀ e ∈ c, e.hasSubquery = false) :
    Mark.tables (block.setCondition c).marks = Mark.tables block.marks := by
  cases block with
  | mk fromFirst head projection into sources between condition groupBy middle having tail =>
    have hcondition : ∀ e ∈ condition, e.hasSubquery = false := hold
    rw [setCondition, marks_mk, marks_mk]
    simp only [tables_append, tables_marksBehind hcondition, tables_marksBehind hnew]

/-- The tables between separators are those of the parts. -/
theorem tables_joinMarks (separator : String) : ∀ parts : List (List Mark),
    Mark.tables (joinMarks separator parts) = (parts.map Mark.tables).flatten
  | [] => rfl
  | [a] => (List.append_nil _).symm
  | a :: b :: rest => by
    rw [joinMarks, tables_append, tables_words, tables_joinMarks separator (b :: rest)]
    rfl

/-- The tables of a query: those of its common tables, of its body, and of what follows. -/
theorem Query.tables_mk (recursive : Bool) (ctes : List Cte) (body : Body) (orderBy : List SortItem)
    (tail : List Piece) : Mark.tables (Query.mk recursive ctes body orderBy tail).marks =
      ((Cte.marksEach ctes).map Mark.tables).flatten ++ (Mark.tables body.marks ++
        (Mark.tables (if orderBy.isEmpty then [] else words " ORDER BY " :: joinMarks ", " (SortItem.marksEach orderBy)) ++
          Mark.tables (Piece.marksAll tail))) := by
  rw [Query.marks]
  cases ctes with
  | nil => simp [Cte.marksEach]
  | cons cte rest => simp [tables_joinMarks]

section Tables

variable {f : Nat → Select → Select} {start : Nat} {blocks blocks' : List Select}

/-- **`KeepsTables f start blocks`** -- each of the blocks, numbered from the start, reads the same tables
when it is changed. -/
def KeepsTables (f : Nat → Select → Select) (start : Nat) (blocks : List Select) : Prop :=
  ∀ j block, blocks[j]? = some block → Mark.tables (f (start + j) block).marks = Mark.tables block.marks

theorem KeepsTables.left (h : KeepsTables f start (blocks ++ blocks')) : KeepsTables f start blocks := by
  intro j block hj
  refine h j block (Eq.trans ?_ hj)
  exact List.getElem?_append_left (List.getElem?_eq_some_iff.mp hj).1

theorem KeepsTables.right (h : KeepsTables f start (blocks ++ blocks')) :
    KeepsTables f (start + blocks.length) blocks' := by
  intro j block hj
  rw [Nat.add_assoc]
  refine h (blocks.length + j) block (Eq.trans ?_ hj)
  rw [List.getElem?_append_right (Nat.le_add_right _ _), Nat.add_sub_cancel_left]

theorem Body.tables_mapBlocks : ∀ (start : Nat) (b : Body), KeepsTables f start b.blocks →
    Mark.tables (b.mapBlocks f start).marks = Mark.tables b.marks
  | start, .select block, h => h 0 block rfl
  | start, .query (.mk recursive ctes body orderBy tail), h => by
    rw [mapBlocks, marks, marks, List.cons_append, List.cons_append, tables_words, tables_words, tables_append,
      tables_append, Query.tables_mk, Query.tables_mk, body.tables_mapBlocks start h]
  | start, .setOp op left right, h => by
    have hleft := left.tables_mapBlocks start (KeepsTables.left h)
    have hright := right.tables_mapBlocks (start + left.blocks.length) (KeepsTables.right h)
    rw [mapBlocks, marks, marks, tables_append, tables_append, tables_words, tables_words, hleft, hright]
  | _, .form _, _ => rfl

theorem Cte.tables_mapBlocks (ctes : List Cte) (h : KeepsTables f start (Cte.blocks ctes)) :
    (Cte.marksEach (Cte.mapBlocks f start ctes)).map Mark.tables = (Cte.marksEach ctes).map Mark.tables := by
  induction ctes generalizing start with
  | nil => rfl
  | cons cte rest ih =>
    obtain ⟨name, ⟨recursive, ctes, body, orderBy, tail⟩, source⟩ := cte
    have hblocks : KeepsTables f start (body.blocks ++ Cte.blocks rest) := h
    have hbody := body.tables_mapBlocks start hblocks.left
    rw [Cte.mapBlocks, Cte.marksEach, Cte.marksEach, List.map_cons, List.map_cons, ih hblocks.right,
      Cte.marks_mk, Cte.marks_mk]
    simp only [tables_append, tables_text, tables_words, Query.tables_mk, hbody]

/-- A query reads the tables that it read before, if each of its blocks does. -/
theorem Query.tables_mapBlocks (q : Query) (h : KeepsTables f 0 q.blocks) :
    Mark.tables (q.mapBlocks f).marks = Mark.tables q.marks := by
  obtain ⟨recursive, ctes, body, orderBy, tail⟩ := q
  have hblocks : KeepsTables f 0 (Cte.blocks ctes ++ body.blocks) := h
  have hctes := Cte.tables_mapBlocks ctes hblocks.left
  have hbody := body.tables_mapBlocks _ hblocks.right
  rw [Nat.zero_add] at hbody
  rw [Query.mapBlocks, Query.tables_mk, Query.tables_mk, hctes]
  exact congrArg _ (congrArg (· ++ _) hbody)

end Tables

/-! ## The other clauses -/

/-- **`SameClauses blocks blocks'`** -- the blocks agree but for their conditions. -/
def SameClauses (blocks blocks' : List Select) : Prop :=
  blocks.map (Select.setCondition none) = blocks'.map (Select.setCondition none)

section Clauses

variable {blocks blocks' : List Select}

/-- What is taken from the other clauses of each block is the same for both. -/
theorem SameClauses.flatMap_eq {α : Type} {g : Select → List α} (h : SameClauses blocks blocks')
    (hg : ∀ block, g (block.setCondition none) = g block) : blocks.flatMap g = blocks'.flatMap g := by
  have herased (bs : List Select) : (bs.map (Select.setCondition none)).flatMap g = bs.flatMap g := by
    rw [List.flatMap_map]
    exact List.flatMap_congr fun block _ => hg block
  rw [← herased blocks, h, herased]

/-- So is what is found in the first block that has it. -/
theorem SameClauses.findSome?_eq {α : Type} {g : Select → Option α} (h : SameClauses blocks blocks')
    (hg : ∀ block, g (block.setCondition none) = g block) : blocks.findSome? g = blocks'.findSome? g := by
  have herased (bs : List Select) : (bs.map (Select.setCondition none)).findSome? g = bs.findSome? g := by
    rw [List.findSome?_map]
    exact congrArg (bs.findSome? ·) (funext hg)
  rw [← herased blocks, h, herased]

theorem sameClauses_mapIdx {f : Nat → Select → Select}
    (hf : ∀ j block, (f j block).setCondition none = block.setCondition none) :
    SameClauses (blocks.mapIdx f) blocks := by
  refine List.ext_getElem? fun j => ?_
  rw [List.getElem?_map, List.getElem?_map, List.getElem?_mapIdx, Option.map_map]
  exact congrArg (Option.map · _) (funext (hf j))

/-- The first blocks project the same items. -/
theorem SameClauses.projection_eq {other other' : Select} (h : SameClauses (other :: blocks) (other' :: blocks')) :
    other.projection = other'.projection := by
  have hhead := congrArg Select.projection (List.cons.inj h).1
  cases other
  cases other'
  exact hhead

end Clauses

section Replaced

variable {q : Query} {i : Nat} {c : Option Expr} {block : Select}

/-- The block is the one that is replaced. -/
theorem Query.blocks_setCondition (hblock : q.blocks[i]? = some block) :
    (q.setCondition i c).blocks = q.blocks.set i (block.setCondition c) := by
  rw [setCondition, blocks_mapBlocks]
  refine List.ext_getElem? fun j => ?_
  rw [List.getElem?_mapIdx, List.getElem?_set]
  by_cases hj : i = j
  · subst hj
    obtain ⟨hlt, -⟩ := List.getElem?_eq_some_iff.mp hblock
    rw [hblock, if_pos rfl, if_pos hlt]
    exact congrArg some (if_pos rfl)
  · rw [if_neg hj]
    cases q.blocks[j]? with
    | none => rfl
    | some other => exact congrArg some (if_neg (Ne.symm hj))

theorem setCondition_if (j : Nat) (block : Select) :
    (if j = i then block.setCondition c else block).setCondition none = block.setCondition none := by
  split
  · cases block
    rfl
  · rfl

theorem Query.sameClauses_setCondition (i : Nat) (c : Option Expr) (q : Query) :
    SameClauses (q.setCondition i c).blocks q.blocks := by
  rw [setCondition, blocks_mapBlocks]
  exact sameClauses_mapIdx setCondition_if

theorem Query.sameClauses_body_setCondition (i : Nat) (c : Option Expr) (q : Query) :
    SameClauses (q.setCondition i c).body.blocks q.body.blocks := by
  obtain ⟨recursive, ctes, body, orderBy, tail⟩ := q
  rw [setCondition, mapBlocks, Query.body, Query.body, body.blocks_mapBlocks]
  exact sameClauses_mapIdx fun j => setCondition_if _

theorem Query.orderBy_setCondition (i : Nat) (c : Option Expr) (q : Query) :
    (q.setCondition i c).orderBy = q.orderBy := by
  cases q
  rfl

theorem Query.entities_setCondition (hblock : q.blocks[i]? = some block)
    (hold : ∀ e ∈ block.condition, e.hasSubquery = false) (hnew : ∀ e ∈ c, e.hasSubquery = false) :
    (q.setCondition i c).entities = q.entities := by
  have htables : Mark.tables (q.setCondition i c).marks = Mark.tables q.marks := by
    refine q.tables_mapBlocks fun j other hj => ?_
    rw [Nat.zero_add]
    split
    case isTrue hji =>
      subst hji
      obtain rfl : block = other := Option.some.inj (hblock.symm.trans hj)
      exact Select.tables_setCondition hold hnew
    case isFalse => rfl
  rw [entities, entities, htables]

theorem Query.attributes_setCondition (i : Nat) (c : Option Expr) (q : Query) :
    (q.setCondition i c).attributes = q.attributes := by
  have h := q.sameClauses_setCondition i c
  rw [attributes, attributes, h.flatMap_eq fun block => by cases block; rfl,
    h.flatMap_eq fun block => by cases block; rfl, h.flatMap_eq fun block => by cases block; rfl,
    q.orderBy_setCondition i c]

theorem Query.relations_setCondition (i : Nat) (c : Option Expr) (q : Query) :
    (q.setCondition i c).relations = q.relations :=
  (q.sameClauses_setCondition i c).flatMap_eq fun block => by cases block; rfl

theorem Query.aggregation_setCondition (i : Nat) (c : Option Expr) (q : Query) :
    (q.setCondition i c).aggregation = q.aggregation := by
  have h := q.sameClauses_setCondition i c
  rw [aggregation, aggregation, h.flatMap_eq fun block => by cases block; rfl,
    h.flatMap_eq fun block => by cases block; rfl, h.findSome?_eq fun block => by cases block; rfl]

theorem Query.returnColumns_setCondition (i : Nat) (c : Option Expr) (q : Query) :
    (q.setCondition i c).returnColumns = q.returnColumns := by
  have h := q.sameClauses_body_setCondition i c
  unfold returnColumns
  generalize (q.setCondition i c).body.blocks = blocks' at h ⊢
  generalize q.body.blocks = blocks at h ⊢
  match blocks', blocks, h with
  | [], [], _ => rfl
  | [], _ :: _, h => cases h
  | _ :: _, [], h => cases h
  | _ :: _, _ :: _, h => exact congrArg (List.map Item.column) h.projection_eq

theorem Query.sortKeys_setCondition (i : Nat) (c : Option Expr) (q : Query) :
    (q.setCondition i c).sortKeys = q.sortKeys := by
  rw [sortKeys, sortKeys, q.orderBy_setCondition i c]

/-- The structure differs in its filters only. -/
theorem Query.toStructure_setCondition (hblock : q.blocks[i]? = some block)
    (hold : ∀ e ∈ block.condition, e.hasSubquery = false) (hnew : ∀ e ∈ c, e.hasSubquery = false) :
    (q.setCondition i c).toStructure = { q.toStructure with filters := (q.setCondition i c).filters } := by
  rw [toStructure, toStructure, q.entities_setCondition hblock hold hnew, q.attributes_setCondition i c,
    q.relations_setCondition i c, q.aggregation_setCondition i c, q.returnColumns_setCondition i c,
    q.sortKeys_setCondition i c]

/-- **A WHERE condition shows in the filters and nowhere else.** The two texts differ in the condition of
one block, of the body or of a common table; either may have none there. If neither condition has a
subquery, the two structures differ in their filters only. -/
theorem extract_setCondition {text text' : String} (hq : parse text.toList = .ok q)
    (hq' : parse text'.toList = .ok (q.setCondition i c)) (hblock : q.blocks[i]? = some block)
    (hold : ∀ e ∈ block.condition, e.hasSubquery = false) (hnew : ∀ e ∈ c, e.hasSubquery = false) :
    (q.setCondition i c).blocks = q.blocks.set i (block.setCondition c) ∧
      extract .sql text' = { extract .sql text with filters := (extract .sql text').filters } := by
  have hstructure := Query.toStructure_setCondition hblock hold hnew
  rw [extract_of_parse hq, extract_of_parse hq']
  exact ⟨Query.blocks_setCondition hblock, hstructure⟩

end Replaced

/-- The names in a query, and the condition. -/
abbrev Named := List Ident × Option Expr

/-- The names and the condition in a query of the form `WITH w AS (SELECT a FROM t WHERE c) SELECT a FROM w`. -/
def commonForm? : Query → Option Named
  | .mk false
      [.mk ⟨w, []⟩ (.mk false [] (.select (.mk false [] [.expr (.column a)] []
        [.mk (.named [t] [] none []) []] [] c (.keys [] []) [] none [])) [] []) none]
      (.select (.mk false [] [.expr (.column a')] [] [.mk (.named [w'] [] none []) []] [] none
        (.keys [] []) [] none [])) [] [] => some ([w, a, t, a', w'], c)
  | _ => none

/-- Such queries with the same names differ in that condition only. -/
theorem eq_setCondition_of_commonForm? {q q' : Query} {names : List Ident} {c c' : Option Expr}
    (h : commonForm? q = some (names, c)) (h' : commonForm? q' = some (names, c')) :
    q' = q.setCondition 0 c' ∧ ∃ block, q.blocks[0]? = some block ∧ block.condition = c := by
  unfold commonForm? at h h'
  split at h
  · split at h'
    · cases h
      cases h'
      exact ⟨rfl, _, rfl, rfl⟩
    · cases h'
  · cases h

/-- A query whose common table has a condition. -/
def narrowQuery : String := "WITH w AS (SELECT a FROM t WHERE b) SELECT a FROM w"

/-- The same query with another condition there. -/
def wideQuery : String := "WITH w AS (SELECT a FROM t WHERE b OR d) SELECT a FROM w"

theorem extract_wideQuery : ∃ q block c, parse narrowQuery.toList = .ok q ∧
    parse wideQuery.toList = .ok (q.setCondition 0 c) ∧ q.blocks[0]? = some block ∧
    (∀ e ∈ block.condition, e.hasSubquery = false) ∧ (∀ e ∈ c, e.hasSubquery = false) ∧
    extract .sql wideQuery = { extract .sql narrowQuery with filters := .ofList ["b", "d"] } ∧
    (extract .sql narrowQuery).filters = .ofList ["b"] := by
  obtain ⟨q, hq, hboth⟩ := exists_query_of_any narrowQuery
    (fun q => (commonForm? q).any fun (p : Named) => decide (∀ e ∈ p.2, e.hasSubquery = false) &&
      (parse wideQuery.toList).toOption.any fun q' =>
        (commonForm? q').any fun (p' : Named) => decide (p'.1 = p.1 ∧ ∀ e ∈ p'.2, e.hasSubquery = false))
    (by decide +kernel)
  obtain ⟨⟨names, c⟩, hform, hchecked⟩ := (Option.any_eq_true _ _).mp hboth
  obtain ⟨hold, hwide⟩ := Bool.and_eq_true_iff.mp hchecked
  obtain ⟨q', hq', hsame⟩ := exists_query_of_any wideQuery _ hwide
  obtain ⟨⟨names', c'⟩, hform', hchecked'⟩ := (Option.any_eq_true _ _).mp hsame
  obtain ⟨rfl, hnew⟩ := of_decide_eq_true hchecked'
  obtain ⟨rfl, block, hblock, rfl⟩ := eq_setCondition_of_commonForm? hform hform'
  have hplain : ∀ e ∈ block.condition, e.hasSubquery = false := of_decide_eq_true hold
  obtain ⟨-, hstructure⟩ := extract_setCondition hq hq' hblock hplain hnew
  have hfilters : (extract .sql wideQuery).filters = .ofList ["b", "d"] := by decide +kernel
  rw [hfilters] at hstructure
  exact ⟨q, block, c', hq, hq', hblock, hplain, hnew, hstructure, by decide +kernel⟩

end QueryScore.Sql
