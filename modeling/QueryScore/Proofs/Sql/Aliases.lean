/-
# QueryScore.Proofs.Sql.Aliases -- what is found under other aliases

A query keeps its meaning when its tables get other aliases and the columns are qualified with these.
Entities and relations never depend on the aliases of tables. Attributes do not as long as each
qualifier is renamed exactly if it is an alias that a FROM clause of a block declares, since those are
the aliases by which columns find their tables (`extract_realiased`). Aliases of subqueries are none of
them (`attributes_realiased_ne`).
-/

import Mathlib.Data.Set.Function
import QueryScore.Proofs.Sql.Realiased

namespace QueryScore.Sql

variable {f : String → String}

/-! ## Blocks and their parts -/

/-- Lists whose elements are compared one by one. -/
theorem forall₂_of_all {α : Type} {one : α → α → Bool} {all : List α → List α → Bool}
    (hcons : ∀ x xs y ys, all (x :: xs) (y :: ys) = (one x y && all xs ys))
    (hleft : ∀ x xs, all (x :: xs) [] = false) (hright : ∀ y ys, all [] (y :: ys) = false) :
    ∀ xs ys : List α, all xs ys = true → List.Forall₂ (fun x y => one x y = true) xs ys
  | [], [], _ => .nil
  | x :: xs, [], h => by simp [hleft] at h
  | [], y :: ys, h => by simp [hright] at h
  | x :: xs, y :: ys, h => by
    rw [hcons, Bool.and_eq_true] at h
    exact .cons h.1 (forall₂_of_all hcons hleft hright xs ys h.2)

theorem Body.blocks_realiased : ∀ b b' : Body, b.isRealiased f b' = true →
    List.Forall₂ (fun s s' => Select.isRealiased f s s' = true) b.blocks b'.blocks
  | .select block, b', h => by
    cases b' with
    | select block' => exact .cons (by simpa [Body.isRealiased] using h) .nil
    | _ => simp [Body.isRealiased] at h
  | .query (.mk _ _ body _ _), b', h => by
    cases b' with
    | query q' =>
      obtain ⟨_, _, body', _, _⟩ := q'
      simp only [Body.isRealiased, Query.isRealiased, Bool.and_eq_true] at h
      exact Body.blocks_realiased body body' h.1.1.2
    | _ => simp [Body.isRealiased] at h
  | .setOp op l r, b', h => by
    cases b' with
    | setOp op' l' r' =>
      simp only [Body.isRealiased, Bool.and_eq_true] at h
      exact List.rel_append (Body.blocks_realiased l l' h.1.2) (Body.blocks_realiased r r' h.2)
    | _ => simp [Body.isRealiased] at h
  | .form parts, b', h => by
    cases b' with
    | form => exact .nil
    | _ => simp [Body.isRealiased] at h
  termination_by structural x => x

variable {q q' : Query}

theorem Query.blocks_realiased (h : q.isRealiased f q' = true) :
    List.Forall₂ (fun s s' => Select.isRealiased f s s' = true) q.blocks q'.blocks := by
  obtain ⟨recursive, ctes, body, orderBy, tail⟩ := q
  obtain ⟨recursive', ctes', body', orderBy', tail'⟩ := q'
  simp only [Query.isRealiased, Bool.and_eq_true] at h
  have hctes := forall₂_of_all (fun _ _ _ _ => rfl) (fun _ _ => rfl) (fun _ _ => rfl) _ _ h.1.1.1.2
  refine List.rel_append (List.rel_flatMap hctes fun c c' hone => ?_) (Body.blocks_realiased body body' h.1.1.2)
  obtain ⟨name, ⟨_, _, inner, _, _⟩, source⟩ := c
  obtain ⟨name', ⟨_, _, inner', _, _⟩, source'⟩ := c'
  simp only [Cte.isRealiased, Query.isRealiased, Bool.and_eq_true] at hone
  exact Body.blocks_realiased inner inner' hone.2.1.1.2

/-! ## Names for tables -/

mutual

/-- The aliases of the tables of a source. -/
def Table.aliases : Table → List String
  | .named _ _ alias? _ => alias?.toList.map fun a => a.name.normal
  | .joined inner _ => inner.aliases
  | _ => []

/-- The aliases of the tables of a source. -/
def Source.aliases : Source → List String
  | .mk table joins => table.aliases ++ Join.aliasesAll joins

/-- The aliases of the tables of some joins. -/
def Join.aliasesAll : List Join → List String
  | [] => []
  | .mk _ _ table _ :: joins => table.aliases ++ Join.aliasesAll joins

end

/-- The aliases that the FROM clauses of the blocks declare for tables. -/
def Query.aliases (q : Query) : List String :=
  q.blocks.flatMap fun block => block.sources.flatMap Source.aliases

mutual

theorem Table.exists_owner : ∀ (t : Table) (a : String), a ∈ t.aliases → ∃ table, (a, table) ∈ t.owners
  | .named name options alias? hints, a, h => by
    obtain ⟨b, hb, rfl⟩ := List.mem_map.mp h
    exact ⟨normalName name, List.mem_append_left _ (List.mem_map.mpr ⟨b, hb, rfl⟩)⟩
  | .joined inner _, a, h => Source.exists_owner inner a h
  | .derived .., _, h | .form .., _, h => nomatch h
  termination_by structural x => x

theorem Source.exists_owner : ∀ (s : Source) (a : String), a ∈ s.aliases → ∃ table, (a, table) ∈ s.owners
  | .mk table joins, a, h => by
    rcases List.mem_append.mp h with h | h
    · exact (Table.exists_owner table a h).imp fun _ => List.mem_append_left _
    · exact (Join.exists_owner joins a h).imp fun _ => List.mem_append_right _
  termination_by structural x => x

theorem Join.exists_owner : ∀ (js : List Join) (a : String), a ∈ Join.aliasesAll js →
    ∃ table, (a, table) ∈ Join.ownersAll js
  | [], _, h => nomatch h
  | .mk _ _ table _ :: js, a, h => by
    rcases List.mem_append.mp h with h | h
    · exact (Table.exists_owner table a h).imp fun _ => List.mem_append_left _
    · exact (Join.exists_owner js a h).imp fun _ => List.mem_append_right _
  termination_by structural x => x

end

/-- Each name that refers to a table of a block, with the table; later ones overrule. -/
def Query.owners (q : Query) : List (String × String) :=
  q.blocks.flatMap fun block => block.sources.flatMap Source.owners

/-- The names that the blocks give to projected items. -/
def Query.named (q : Query) : List String :=
  q.blocks.flatMap fun block => block.projection.filterMap Item.alias?

/-- The columns that attributes are taken from. -/
def Query.columns (q : Query) : List ColumnRef :=
  let searched := q.blocks.flatMap Select.attributeSources ++ q.orderBy.map fun (.mk e _ _) => e
  (searched.flatMap Expr.subexprs).filterMap Expr.columnRef?

/-- An alias refers to its table. -/
theorem exists_owner_of_mem_aliases {a : String} (ha : a ∈ q.aliases) : ∃ table, (a, table) ∈ q.owners := by
  obtain ⟨block, hblock, ha⟩ := List.mem_flatMap.mp ha
  obtain ⟨s, hs, ha⟩ := List.mem_flatMap.mp ha
  obtain ⟨table, hmem⟩ := Source.exists_owner s a ha
  exact ⟨table, List.mem_flatMap.mpr ⟨block, hblock, List.mem_flatMap.mpr ⟨s, hs, hmem⟩⟩⟩

theorem Query.attributes_eq (q : Query) :
    q.attributes = .ofList (q.columns.filterMap (attribute? q.owners q.named)) := by
  rw [Query.attributes, Query.columns, List.filterMap_filterMap]
  rfl

/-- **`OwnerFollows f aliases p p'`** -- both names refer to the same table: the second is the renamed
first one, an alias, or both are the name of the table. -/
def OwnerFollows (f : String → String) (aliases : List String) (p p' : String × String) : Prop :=
  p'.2 = p.2 ∧ (p.1 ∈ aliases ∧ p'.1 = f p.1 ∨ p'.1 = p.1 ∧ p.1 = p.2)

theorem OwnerFollows.mono {as bs : List String} {p p' : String × String} (hsub : as ⊆ bs)
    (h : OwnerFollows f as p p') : OwnerFollows f bs p p' :=
  ⟨h.1, h.2.imp_left (And.imp_left (hsub ·))⟩

theorem forall₂_mono_owners {as bs : List String} {ps ps' : List (String × String)} (hsub : as ⊆ bs)
    (h : List.Forall₂ (OwnerFollows f as) ps ps') : List.Forall₂ (OwnerFollows f bs) ps ps' :=
  h.imp fun _ _ => OwnerFollows.mono hsub

mutual

theorem Table.owners_realiased : ∀ t t' : Table, t.isRealiased f t' = true →
    List.Forall₂ (OwnerFollows f t.aliases) t.owners t'.owners
  | .named name options alias? hints, t', h => by
    cases t' with
    | named name' options' alias?' hints' =>
      simp only [Table.isRealiased, Bool.and_eq_true, decide_eq_true_eq] at h
      obtain ⟨⟨⟨rfl, halias⟩, -⟩, -⟩ := h
      refine List.rel_append ?_ (.cons ⟨rfl, .inr ⟨rfl, rfl⟩⟩ .nil)
      cases alias? <;> cases alias?' <;> simp [Alias.isRenamed] at halias
      · exact .nil
      · exact .cons ⟨rfl, .inl ⟨by simp [Table.aliases], halias.2⟩⟩ .nil
    | _ => simp [Table.isRealiased] at h
  | .derived .., t', h => by
    cases t' with
    | derived => exact .nil
    | _ => simp [Table.isRealiased] at h
  | .joined inner alias?, t', h => by
    cases t' with
    | joined inner' alias?' =>
      simp only [Table.isRealiased, Bool.and_eq_true] at h
      exact Source.owners_realiased inner inner' h.2
    | _ => simp [Table.isRealiased] at h
  | .form .., t', h => by
    cases t' with
    | form => exact .nil
    | _ => simp [Table.isRealiased] at h
  termination_by structural x => x

theorem Source.owners_realiased : ∀ s s' : Source, s.isRealiased f s' = true →
    List.Forall₂ (OwnerFollows f s.aliases) s.owners s'.owners
  | .mk table joins, .mk table' joins', h => by
    simp only [Source.isRealiased, Bool.and_eq_true] at h
    exact List.rel_append
      (forall₂_mono_owners (List.subset_append_left _ _) (Table.owners_realiased table table' h.1))
      (forall₂_mono_owners (List.subset_append_right _ _) (Join.owners_realiased joins joins' h.2))
  termination_by structural x => x

theorem Join.owners_realiased : ∀ js js' : List Join, Join.isRealiasedAll f js js' = true →
    List.Forall₂ (OwnerFollows f (Join.aliasesAll js)) (Join.ownersAll js) (Join.ownersAll js')
  | [], js', h => by
    cases js' with
    | nil => exact .nil
    | cons => simp [Join.isRealiasedAll] at h
  | .mk _ _ table _ :: js, js', h => by
    cases js' with
    | nil => simp [Join.isRealiasedAll] at h
    | cons j' js' =>
      obtain ⟨_, _, table', _⟩ := j'
      simp only [Join.isRealiasedAll, Join.isRealiased, Bool.and_eq_true] at h
      exact List.rel_append
        (forall₂_mono_owners (List.subset_append_left _ _) (Table.owners_realiased table table' h.1.1.2))
        (forall₂_mono_owners (List.subset_append_right _ _) (Join.owners_realiased js js' h.2))
  termination_by structural x => x

end

/-! ## Parts of blocks -/

/-- The clauses of a block are the same, but for aliases. -/
theorem Select.clauses_realiased {block block' : Select} (h : block.isRealiased f block' = true) :
    List.Forall₂ (fun i i' => Item.isRealiased f i i' = true) block.projection block'.projection ∧
      List.Forall₂ (fun s s' => Source.isRealiased f s s' = true) block.sources block'.sources ∧
      block.groupBy.isRealiased f block'.groupBy = true ∧
      Expr.isRealiasedOption f block.having block'.having = true := by
  obtain ⟨_, _, projection, _, sources, _, _, groupBy, _, having, _⟩ := block
  obtain ⟨_, _, projection', _, sources', _, _, groupBy', _, having', _⟩ := block'
  simp only [Select.isRealiased, Bool.and_eq_true] at h
  obtain ⟨⟨⟨⟨⟨⟨⟨⟨-, hprojection⟩, hsources⟩, -⟩, -⟩, hgroup⟩, -⟩, hhaving⟩, -⟩ := h
  exact ⟨forall₂_of_all (fun _ _ _ _ => rfl) (fun _ _ => rfl) (fun _ _ => rfl) _ _ hprojection,
    forall₂_of_all (fun _ _ _ _ => rfl) (fun _ _ => rfl) (fun _ _ => rfl) _ _ hsources, hgroup, hhaving⟩

theorem Source.joins_realiased {s s' : Source} (h : s.isRealiased f s' = true) :
    s.table.isRealiased f s'.table = true ∧
      List.Forall₂ (fun j j' => Join.isRealiased f j j' = true) s.joins s'.joins := by
  obtain ⟨table, joins⟩ := s
  obtain ⟨table', joins'⟩ := s'
  simp only [Source.isRealiased, Bool.and_eq_true] at h
  exact ⟨h.1, forall₂_of_all (fun _ _ _ _ => rfl) (fun _ _ => rfl) (fun _ _ => rfl) _ _ h.2⟩

theorem Query.owners_realiased (h : q.isRealiased f q' = true) :
    List.Forall₂ (OwnerFollows f q.aliases) q.owners q'.owners := by
  have hblocks := (List.forall₂_and_left _ _).mpr
    ⟨fun block (hblock : block ∈ q.blocks) => hblock, Query.blocks_realiased h⟩
  refine List.rel_flatMap hblocks fun block block' ⟨hblock, hone⟩ => ?_
  have hsources := (List.forall₂_and_left _ _).mpr
    ⟨fun s (hs : s ∈ block.sources) => hs, (Select.clauses_realiased hone).2.1⟩
  refine List.rel_flatMap hsources fun s s' ⟨hs, hsame⟩ => ?_
  refine forall₂_mono_owners (fun a ha => ?_) (Source.owners_realiased s s' hsame)
  exact List.mem_flatMap.mpr ⟨block, hblock, List.mem_flatMap.mpr ⟨s, hs, ha⟩⟩

theorem Item.alias?_realiased {i i' : Item} (h : i.isRealiased f i' = true) :
    Option.Rel Eq i.alias? i'.alias? := by
  cases i <;> cases i' <;> simp [Item.isRealiased] at h
  · exact .none
  · exact .some (congrArg _ h.1.symm)
  · exact .none

theorem Query.named_realiased (h : q.isRealiased f q' = true) : q'.named = q.named := by
  have hnamed : List.Forall₂ Eq q.named q'.named :=
    List.rel_flatMap (Query.blocks_realiased h) fun _ _ hone =>
      List.rel_filterMap (fun _ _ hitem => Item.alias?_realiased hitem) (Select.clauses_realiased hone).1
  rw [List.forall₂_eq_eq_eq] at hnamed
  exact hnamed.symm

theorem Item.expr?_realiased {i i' : Item} (h : i.isRealiased f i' = true) :
    Option.Rel (fun e e' => Expr.isRealiased f e e' = true) i.expr? i'.expr? := by
  cases i <;> cases i' <;> simp [Item.isRealiased] at h
  · exact .some h
  · exact .some h.2
  · exact .none

theorem Join.constraint_realiased {j j' : Join} (h : j.isRealiased f j' = true) :
    Option.Rel (fun e e' => Expr.isRealiased f e e' = true) j.shownConstraint.expr? j'.shownConstraint.expr? := by
  obtain ⟨_, kind, _, constraint⟩ := j
  obtain ⟨_, kind', _, constraint'⟩ := j'
  simp only [Join.isRealiased, Bool.and_eq_true, decide_eq_true_eq] at h
  obtain ⟨⟨⟨-, rfl⟩, -⟩, hconstraint⟩ := h
  show Option.Rel _ (if kind'.showsConstraint = true then constraint else .unconditional).expr?
    (if kind'.showsConstraint = true then constraint' else .unconditional).expr?
  by_cases hshown : kind'.showsConstraint = true
  · rw [if_pos hshown, if_pos hshown]
    cases constraint <;> cases constraint' <;> simp [Constraint.isRealiased] at hconstraint
    · exact .some hconstraint
    all_goals exact .none
  · rw [if_neg hshown, if_neg hshown]
    exact .none

theorem GroupBy.exprs_realiased {g g' : GroupBy} (h : g.isRealiased f g' = true) :
    List.Forall₂ (fun e e' => Expr.isRealiased f e e' = true) g.exprs g'.exprs := by
  cases g <;> cases g' <;> simp [GroupBy.isRealiased] at h
  · exact forall₂_of_all (fun _ _ _ _ => rfl) (fun _ _ => rfl) (fun _ _ => rfl) _ _ h.1
  · exact .nil

theorem Expr.toList_realiased {c c' : Option Expr} (h : Expr.isRealiasedOption f c c' = true) :
    List.Forall₂ (fun e e' => Expr.isRealiased f e e' = true) c.toList c'.toList := by
  cases c <;> cases c' <;> simp [Expr.isRealiasedOption] at h
  · exact .nil
  · exact .cons h .nil

/-- **The expressions that attributes are taken from correspond.** -/
theorem Select.attributeSources_realiased {block block' : Select} (h : block.isRealiased f block' = true) :
    List.Forall₂ (fun e e' => Expr.isRealiased f e e' = true) block.attributeSources
      block'.attributeSources := by
  obtain ⟨hprojection, hsources, hgroup, hhaving⟩ := Select.clauses_realiased h
  refine List.rel_append (List.rel_append (List.rel_append ?_ ?_) ?_) ?_
  · exact List.rel_filterMap (fun _ _ hitem => Item.expr?_realiased hitem) hprojection
  · exact List.rel_flatMap hsources fun _ _ hsource =>
      List.rel_filterMap (fun _ _ hjoin => Join.constraint_realiased hjoin) (Source.joins_realiased hsource).2
  · exact GroupBy.exprs_realiased hgroup
  · exact Expr.toList_realiased hhaving

/-- **Columns are the same, but for qualifiers.** -/
theorem Query.columns_realiased (h : q.isRealiased f q' = true) :
    List.Forall₂ (ColumnRef.Follows f) q.columns q'.columns := by
  have hblocks := List.rel_flatMap (Query.blocks_realiased h) fun _ _ hone => Select.attributeSources_realiased hone
  have hkeys : List.Forall₂ (fun e e' => Expr.isRealiased f e e' = true)
      (q.orderBy.map fun (.mk e _ _) => e) (q'.orderBy.map fun (.mk e _ _) => e) := by
    obtain ⟨_, _, _, orderBy, _⟩ := q
    obtain ⟨_, _, _, orderBy', _⟩ := q'
    simp only [Query.isRealiased, Bool.and_eq_true] at h
    refine List.rel_map (fun k k' hone => ?_)
      (forall₂_of_all (fun _ _ _ _ => rfl) (fun _ _ => rfl) (fun _ _ => rfl) orderBy orderBy' h.1.2)
    obtain ⟨e, _, _⟩ := k
    obtain ⟨e', _, _⟩ := k'
    simp only [SortItem.isRealiased, Bool.and_eq_true] at hone
    exact hone.1.2
  rw [Query.columns, Query.columns, List.filterMap_flatMap, List.filterMap_flatMap]
  exact List.rel_flatMap (List.rel_append hblocks hkeys) fun e e' hone => (Expr.follows e e' hone).columns

theorem Table.relationName_realiased : ∀ t t' : Table, t.isRealiased f t' = true →
    t'.relationName = t.relationName
  | .named .., t', h => by
    cases t' <;> simp [Table.isRealiased] at h
    simp [Table.relationName, h]
  | .derived .., t', h => by
    cases t' with
    | derived _ _ alias? =>
      simp only [Table.isRealiased, Bool.and_eq_true, decide_eq_true_eq] at h
      obtain ⟨⟨-, rfl⟩, -⟩ := h
      cases alias? <;> rfl
    | _ => simp [Table.isRealiased] at h
  | .joined (.mk table _) _, t', h => by
    cases t' with
    | joined inner' =>
      obtain ⟨table', _⟩ := inner'
      simp only [Table.isRealiased, Source.isRealiased, Bool.and_eq_true] at h
      exact Table.relationName_realiased table table' h.2.1
    | _ => simp [Table.isRealiased] at h
  | .form .., t', h => by
    cases t' <;> simp [Table.isRealiased] at h
    rfl
  termination_by structural x => x

/-- **Relations do not depend on aliases of tables.** -/
theorem Query.relations_realiased (h : q.isRealiased f q' = true) :
    q'.relations.map Relation.toRelationKey = q.relations.map Relation.toRelationKey := by
  have hkeys : List.Forall₂ (fun r r' => r'.toRelationKey = r.toRelationKey) q.relations q'.relations := by
    refine List.rel_flatMap (Query.blocks_realiased h) fun _ _ hone =>
      List.rel_flatMap (Select.clauses_realiased hone).2.1 fun s s' hsource => ?_
    obtain ⟨htable, hjoins⟩ := Source.joins_realiased hsource
    refine List.rel_map (fun j j' hjoin => ?_) hjoins
    obtain ⟨_, kind, table, _⟩ := j
    obtain ⟨_, kind', table', _⟩ := j'
    simp only [Join.isRealiased, Bool.and_eq_true, decide_eq_true_eq] at hjoin
    obtain ⟨⟨⟨-, rfl⟩, hright⟩, -⟩ := hjoin
    simp only [Join.kind, Join.table, Table.relationName_realiased _ _ htable,
      Table.relationName_realiased _ _ hright]
  generalize q.relations = rs at hkeys
  generalize q'.relations = rs' at hkeys
  induction hkeys with
  | nil => rfl
  | cons hone _ ih => rw [List.map_cons, List.map_cons, hone, ih]

/-- **Entities do not depend on aliases of tables.** -/
theorem Query.entities_realiased (h : q.isRealiased f q' = true) : q'.entities = q.entities := by
  rw [Query.entities, Query.entities, (Query.follows q q' h).tables]

/-! ## What is found -/

/-- **`q.KeepsOwners f q'`** -- columns find their tables under the new aliases. -/
structure Query.KeepsOwners (f : String → String) (q q' : Query) : Prop where
  /-- No two aliases become one. -/
  injective : Set.InjOn f {a | a ∈ q.aliases}
  /-- No alias is the name of a table, neither the old one nor the new one. -/
  apart : ∀ a ∈ q.aliases, ∀ p ∈ q.owners, p.2 ≠ a ∧ p.2 ≠ f a
  /-- A new alias is no other qualifier. -/
  fresh : ∀ a ∈ q.aliases, ∀ ref ∈ q.columns, ref.qualifier = some (f a) → f a ∈ q.aliases
  /-- A qualifier is renamed exactly if it is an alias that a block declares. -/
  followed : ∀ pair ∈ q.columns.zip q'.columns, pair.2.qualifier =
    pair.1.qualifier.map fun name => if name ∈ q.aliases then f name else name

/-- What corresponds in two lists stands for the same. -/
theorem filterMap_eq_of_forall₂ {α β γ : Type} {R : α → β → Prop} {g : α → Option γ} {g' : β → Option γ}
    {as : List α} {bs : List β} (h : List.Forall₂ R as bs)
    (hg : ∀ a b, (a, b) ∈ as.zip bs → R a b → g' b = g a) : bs.filterMap g' = as.filterMap g := by
  induction h with
  | nil => rfl
  | @cons a b as bs hone _ ih =>
    rw [List.filterMap_cons, List.filterMap_cons, hg a b (by simp) hone,
      ih fun a b hab => hg a b (by simp [hab])]

/-- Names that stand at the same places of two lists refer to the same tables. -/
theorem lookup_eq {ps ps' : List (String × String)} {name name' : String}
    (h : List.Forall₂ (fun p p' => p'.2 = p.2 ∧ (p.1 = name ↔ p'.1 = name')) ps ps') :
    ps'.lookup name' = ps.lookup name := by
  induction h with
  | nil => rfl
  | @cons p p' _ _ hone _ ih =>
    obtain ⟨key, table⟩ := p
    obtain ⟨key', table'⟩ := p'
    obtain ⟨rfl, hkeys⟩ := hone
    rw [List.lookup_cons, List.lookup_cons, ih]
    by_cases hkey : key = name
    · rw [beq_iff_eq.mpr hkey.symm, beq_iff_eq.mpr (hkeys.mp hkey).symm]
    · rw [beq_eq_false_iff_ne.mpr (Ne.symm hkey), beq_eq_false_iff_ne.mpr (Ne.symm (hkeys.not.mp hkey))]

/-- **A column finds its table under the new alias.** -/
theorem ownerOf_realiased (h : q.isRealiased f q' = true) (hkeeps : q.KeepsOwners f q') {name : String}
    (hfresh : ∀ a ∈ q.aliases, name = f a → name ∈ q.aliases) :
    ownerOf q'.owners (if name ∈ q.aliases then f name else name) = ownerOf q.owners name := by
  have howners := (List.forall₂_and_left _ _).mpr
    ⟨fun p (hp : p ∈ q.owners) => hp, Query.owners_realiased h⟩
  have hsame (name' : String)
      (hkeys : ∀ p ∈ q.owners, ∀ p', OwnerFollows f q.aliases p p' → (p.1 = name ↔ p'.1 = name')) :
      q'.owners.reverse.lookup name' = q.owners.reverse.lookup name :=
    lookup_eq (List.rel_reverse (howners.imp fun p p' hp => ⟨hp.2.1, hkeys p hp.1 p' hp.2⟩))
  rw [ownerOf, ownerOf]
  split
  · rename_i hname
    -- The alias is declared, so its table is found.
    obtain ⟨table, hmem⟩ := exists_owner_of_mem_aliases hname
    have hfound : (q.owners.reverse.lookup name).isSome = true := by
      rw [List.lookup_isSome_iff]
      exact ⟨(name, table), List.mem_reverse.mpr hmem, beq_self_eq_true _⟩
    rw [hsame (f name) fun p hp p' hfollows => ?_]
    · obtain ⟨found, hfound⟩ := Option.isSome_iff_exists.mp hfound
      rw [hfound]
      rfl
    · obtain ⟨hapart, hapart'⟩ := hkeeps.apart name hname p hp
      rcases hfollows.2 with ⟨halias, hkey⟩ | ⟨hkey, htable⟩
      · rw [hkey]
        exact ⟨congrArg f, fun hkeys => hkeeps.injective halias hname hkeys⟩
      · rw [hkey, htable]
        exact ⟨fun heq => absurd heq hapart, fun heq => absurd heq hapart'⟩
  · rename_i hname
    rw [hsame name fun p hp p' hfollows => ?_]
    rcases hfollows.2 with ⟨halias, hkey⟩ | ⟨hkey, -⟩
    · rw [hkey]
      exact ⟨fun heq => absurd (heq ▸ halias) hname, fun heq => absurd (hfresh _ halias heq.symm) hname⟩
    · rw [hkey]

/-- **Columns stand for the same attributes** if they find their tables. -/
theorem Query.attributes_realiased (h : q.isRealiased f q' = true) (hkeeps : q.KeepsOwners f q') :
    q'.attributes = q.attributes := by
  rw [Query.attributes_eq, Query.attributes_eq, Query.named_realiased h]
  refine congrArg _ (filterMap_eq_of_forall₂ (Query.columns_realiased h) fun ref ref' hzip hfollows => ?_)
  have hname : ref'.qualifier = ref.qualifier.map _ := hkeeps.followed _ hzip
  have hcolumn : ref'.column = ref.column := by
    rcases hfollows with rfl | rfl <;> rfl
  cases hqualifier : ref.qualifier with
  | none =>
    rw [hqualifier, Option.map_none] at hname
    rw [attribute?, attribute?, hqualifier, hname, hcolumn]
  | some name =>
    rw [hqualifier, Option.map_some] at hname
    have hfresh : ∀ a ∈ q.aliases, name = f a → name ∈ q.aliases := by
      rintro a ha rfl
      exact hkeeps.fresh a ha ref (List.of_mem_zip hzip).1 hqualifier
    have howner := ownerOf_realiased h hkeeps hfresh
    simp only [attribute?, hname, hqualifier, hcolumn, howner]

/-- **What is found does not depend on how tables are aliased.** Entities and relations are the same
under any other aliases, and attributes are if columns find their tables under them. -/
theorem extract_realiased {text text' : String} (hq : parse text.toList = .ok q)
    (hq' : parse text'.toList = .ok q') (h : q.isRealiased f q' = true) :
    (extract .sql text').entities = (extract .sql text).entities ∧
      (extract .sql text').relations.map Relation.toRelationKey =
        (extract .sql text).relations.map Relation.toRelationKey ∧
      (q.KeepsOwners f q' → (extract .sql text').attributes = (extract .sql text).attributes) := by
  rw [extract_of_parse hq, extract_of_parse hq']
  exact ⟨Query.entities_realiased h, Query.relations_realiased h, Query.attributes_realiased h⟩

/-- A query that is accepted has a tree, and a check of the tree is a check of the query. -/
theorem exists_query_of_any (text : String) (p : Query → Bool)
    (h : (parse text.toList).toOption.any p = true) : ∃ q, parse text.toList = .ok q ∧ p q = true := by
  cases hparse : parse text.toList with
  | ok q =>
    rw [hparse] at h
    exact ⟨q, rfl, h⟩
  | error failure =>
    rw [hparse] at h
    cases h

/-- A query with aliases in its FROM clause and in a subquery of its condition. -/
def joinedQuery : String :=
  "SELECT a.x FROM t a JOIN u c ON a.id = c.id WHERE a.x IN (SELECT b.y FROM v b) ORDER BY c.z"

/-- The same query under other aliases. -/
def realiasedQuery : String :=
  "SELECT n_a.x FROM t n_a JOIN u n_c ON n_a.id = n_c.id WHERE n_a.x IN (SELECT n_b.y FROM v n_b) ORDER BY n_c.z"

theorem extract_realiasedQuery : ∃ q q', parse joinedQuery.toList = .ok q ∧
    parse realiasedQuery.toList = .ok q' ∧ q.isRealiased ("n_" ++ ·) q' = true ∧
    q.KeepsOwners ("n_" ++ ·) q' ∧
    (extract .sql realiasedQuery).entities = (extract .sql joinedQuery).entities ∧
    (extract .sql realiasedQuery).relations.map Relation.toRelationKey =
      (extract .sql joinedQuery).relations.map Relation.toRelationKey ∧
    (extract .sql realiasedQuery).attributes = (extract .sql joinedQuery).attributes := by
  obtain ⟨q, hq, hboth⟩ := exists_query_of_any joinedQuery
    (fun q => (parse realiasedQuery.toList).toOption.any fun q' =>
      decide (q.isRealiased ("n_" ++ ·) q' = true ∧
        (∀ a ∈ q.aliases, ∀ p ∈ q.owners, p.2 ≠ a ∧ p.2 ≠ "n_" ++ a) ∧
        (∀ a ∈ q.aliases, ∀ ref ∈ q.columns, ref.qualifier = some ("n_" ++ a) → "n_" ++ a ∈ q.aliases) ∧
        ∀ pair ∈ q.columns.zip q'.columns, pair.2.qualifier =
          pair.1.qualifier.map fun name => if name ∈ q.aliases then "n_" ++ name else name))
    (by decide +kernel)
  obtain ⟨q', hq', hall⟩ := exists_query_of_any realiasedQuery _ hboth
  obtain ⟨hrealiased, hapart, hfresh, hfollowed⟩ := of_decide_eq_true hall
  have hkeeps : q.KeepsOwners ("n_" ++ ·) q' :=
    ⟨fun _ _ _ _ hsame => (String.append_right_inj _).mp hsame, hapart, hfresh, hfollowed⟩
  obtain ⟨hentities, hrelations, hattributes⟩ := extract_realiased hq hq' hrealiased
  exact ⟨q, q', hq, hq', hrealiased, hkeeps, hentities, hrelations, hattributes hkeeps⟩

/-- **An alias that only a subquery declares does not lead to its table**, although the columns of the
subquery are among those that attributes are taken from. -/
theorem attributes_realiased_ne : ∃ q q', parse "SELECT (SELECT u.x FROM users u) FROM t".toList = .ok q ∧
    parse "SELECT (SELECT v.x FROM users v) FROM t".toList = .ok q' ∧
    q.isRealiased (fun a => if a = "u" then "v" else a) q' = true ∧
    (extract .sql "SELECT (SELECT v.x FROM users v) FROM t").attributes ≠
      (extract .sql "SELECT (SELECT u.x FROM users u) FROM t").attributes := by
  obtain ⟨q, hq, hboth⟩ := exists_query_of_any "SELECT (SELECT u.x FROM users u) FROM t"
    (fun q => (parse "SELECT (SELECT v.x FROM users v) FROM t".toList).toOption.any fun q' =>
      q.isRealiased (fun a => if a = "u" then "v" else a) q')
    (by decide +kernel)
  obtain ⟨q', hq', hrealiased⟩ := exists_query_of_any _ _ hboth
  exact ⟨q, q', hq, hq', hrealiased, by decide +kernel⟩

end QueryScore.Sql
