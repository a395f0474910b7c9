/-
# QueryScore.Proofs.Peg.Node -- the nodes of a tree, each read at its place

What passes from a tree to its parts holds of all its nodes (`Tree.of_mem_nodes`). A reading leaves nodes,
and each node of the tree was read by its rule where it stands in the text (`Grows`), so what holds of
every reading of a rule holds of every node. Where a rule leaves a node
with one part only, its text is that of the part with filler around it (`exists_holds`); which rules
can, is read off their bodies (`isLone`).
-/

import QueryScore.Proofs.Peg.Reading

namespace QueryScore

open Peg

/-! ## The nodes of a tree -/

namespace Tree

variable {ρ : Type} {t u n : Tree ρ} {ts : List (Tree ρ)}

/-- The nodes of a tree in pre-order. -/
def nodes (t : Tree ρ) : List (Tree ρ) := (t.preorder 0).map Prod.snd

mutual

theorem preorder_depth (depth depth' : Nat) : ∀ t : Tree ρ,
    (t.preorder depth).map Prod.snd = (t.preorder depth').map Prod.snd
  | .node r i cs ts => by
    rw [preorder, preorder, List.map_cons, List.map_cons, preorderAll_depth (depth + 1) (depth' + 1) ts]

theorem preorderAll_depth (depth depth' : Nat) : ∀ ts : List (Tree ρ),
    (preorderAll depth ts).map Prod.snd = (preorderAll depth' ts).map Prod.snd
  | [] => rfl
  | t :: ts => by
    rw [preorderAll, preorderAll, List.map_append, List.map_append, preorder_depth depth depth' t,
      preorderAll_depth depth depth' ts]

end

theorem nodesAll_eq (depth : Nat) (ts : List (Tree ρ)) :
    (preorderAll depth ts).map Prod.snd = ts.flatMap nodes := by
  induction ts with
  | nil => rfl
  | cons t ts ih => rw [preorderAll, List.map_append, ih, preorder_depth depth 0 t, List.flatMap_cons, nodes]

/-- The nodes of a tree are itself and those of its parts. -/
theorem nodes_eq (t : Tree ρ) : t.nodes = t :: t.children.flatMap nodes := by
  obtain ⟨r, i, cs, ts⟩ := t
  rw [nodes, preorder, List.map_cons, nodesAll_eq, children]

theorem mem_nodes : n ∈ t.nodes ↔ n = t ∨ ∃ u ∈ t.children, n ∈ u.nodes := by
  rw [nodes_eq, List.mem_cons, List.mem_flatMap]

theorem self_mem_nodes (t : Tree ρ) : t ∈ t.nodes := mem_nodes.mpr (.inl rfl)

mutual

/-- Induction on the parts of a tree. -/
@[elab_as_elim]
theorem partsInduction {motive : Tree ρ → Prop} (h : ∀ t, (∀ u ∈ t.children, motive u) → motive t) :
    ∀ t, motive t
  | .node _ _ _ ts => h _ (partsInductionAll h ts)

theorem partsInductionAll {motive : Tree ρ → Prop} (h : ∀ t, (∀ u ∈ t.children, motive u) → motive t) :
    ∀ ts : List (Tree ρ), ∀ u ∈ ts, motive u
  | [] => fun _ hu => nomatch hu
  | t :: ts => List.forall_mem_cons.mpr ⟨partsInduction h t, partsInductionAll h ts⟩

end

/-- What passes to parts holds of every node. -/
theorem of_mem_nodes {P : Tree ρ → Prop} (hparts : ∀ t, P t → ∀ u ∈ t.children, P u) (h : P t)
    (hn : n ∈ t.nodes) : P n := by
  induction t using partsInduction with
  | h t ih =>
    rcases mem_nodes.mp hn with rfl | ⟨u, hu, hn⟩
    · exact h
    · exact ih u hu (hparts t h u hu) hn

/-- The parts of a node are nodes. -/
theorem mem_nodes_of_child (hn : n ∈ t.nodes) (hu : u ∈ n.children) : u ∈ t.nodes := by
  induction t using partsInduction with
  | h t ih =>
    rcases mem_nodes.mp hn with rfl | ⟨v, hv, hn⟩
    · exact mem_nodes.mpr (.inr ⟨u, hu, self_mem_nodes u⟩)
    · exact mem_nodes.mpr (.inr ⟨v, hv, ih v hv hn⟩)

/-- Every node but the first is a part of a node. -/
theorem exists_parent (hn : n ∈ t.nodes) : n = t ∨ ∃ p ∈ t.nodes, n ∈ p.children := by
  induction t using partsInduction with
  | h t ih =>
    rcases mem_nodes.mp hn with rfl | ⟨u, hu, hn⟩
    · exact .inl rfl
    · refine .inr ?_
      rcases ih u hu hn with rfl | ⟨p, hp, hchild⟩
      · exact ⟨t, self_mem_nodes t, hu⟩
      · exact ⟨p, mem_nodes.mpr (.inr ⟨u, hu, hp⟩), hchild⟩

end Tree

namespace Grammar

variable {ρ : Type} {g : Grammar ρ} {a b e : Peg ρ} {before cs after source : List Char}
  {nodes : List (Tree ρ)}

/-! ## Every node is read -/

/-- **`g.Grows source t`** -- each node of the tree is read by its rule at its place in the text. -/
inductive Grows (g : Grammar ρ) (source : List Char) : Tree ρ → Prop
  | node {r before cs after ts} : source = before ++ (cs ++ after) →
      g.Reads false (.once (.rule r)) before cs after [.node r before.length cs ts] →
      (∀ t ∈ ts, Grows g source t) → Grows g source (.node r before.length cs ts)

private theorem Reads.grows_part {part : Peg.Part ρ} {atomic : Bool}
    (h : g.Reads atomic part before cs after nodes) (hsource : source = before ++ (cs ++ after)) :
    ∀ n ∈ nodes, g.Grows source n := by
  induction h with
  | bare _ _ ih | left _ ih | right _ _ ih | given _ ih => exact ih hsource
  | node hkind hbody ih =>
    intro n hn
    obtain rfl := List.mem_singleton.mp hn
    exact .node hsource (.node hkind hbody) (ih hsource)
  | tight _ _ iha ihb | often _ _ iha ihb | moreTight _ _ iha ihb =>
    intro n hn
    rcases List.mem_append.mp hn with hn | hn
    · exact iha (by simpa using hsource) n hn
    · exact ihb (by simpa using hsource) n hn
  | loose _ _ _ iha _ ihb =>
    intro n hn
    rcases List.mem_append.mp hn with hn | hn
    · exact iha (by simpa using hsource) n hn
    · exact ihb (by simpa using hsource) n hn
  | moreLoose _ _ _ _ iha ihb =>
    intro n hn
    rcases List.mem_append.mp hn with hn | hn
    · exact iha (by simpa using hsource) n hn
    · exact ihb (by simpa using hsource) n hn
  | _ => simp

/-- **The nodes that a reading leaves are read, and so are those inside them.** -/
theorem Reads.grows (h : g.Reads false (.once e) before cs after nodes)
    (hsource : source = before ++ (cs ++ after)) : ∀ n ∈ nodes, g.Grows source n :=
  h.grows_part hsource

theorem Grows.parts {t : Tree ρ} (h : g.Grows source t) : ∀ child ∈ t.children, g.Grows source child := by
  cases h with
  | node _ _ hparts => exact hparts

/-- A node of an atomic rule has no parts. -/
theorem Grows.children_of_atomic {t : Tree ρ} (h : g.Grows source t) (hkind : g.kind t.rule = .atomic) :
    t.children = [] := by
  cases h with
  | node _ hread =>
    have hnode := (hread.of_atomic hkind).1
    simpa [Tree.rule, Tree.children] using hnode

/-- The text of a node of an atomic rule was read by the body of the rule. -/
theorem Grows.exists_reading {t : Tree ρ} (h : g.Grows source t) (hkind : g.kind t.rule = .atomic) :
    ∃ before after, g.Reads true (.once (g.body t.rule)) before t.text after [] := by
  cases h with
  | node _ hread => exact ⟨_, _, (hread.of_atomic hkind).2⟩

/-- **Every node of a tree that was read was read**, however deep it stands. -/
theorem Grows.of_mem_nodes {t n : Tree ρ} (h : g.Grows source t) (hn : n ∈ t.nodes) : g.Grows source n :=
  Tree.of_mem_nodes (P := g.Grows source) (fun _ ht => ht.parts) h hn

/-! ## Filler -/

/-- **`g.Fills before fs after`** -- nothing, or filler. -/
def Fills (g : Grammar ρ) (before fs after : List Char) : Prop :=
  fs = [] ∨ ∃ skipped, g.Reads true (.once g.filler) before fs after skipped

/-- A sequence that ends in a repetition: its first part with filler, or with rounds behind it. -/
theorem Reads.of_seq_many (h : g.Reads false (.once (.seq a (.many b))) before cs after nodes) :
    ∃ xs ys ns ms, cs = xs ++ ys ∧ nodes = ns ++ ms ∧
      g.Reads false (.once a) before xs (ys ++ after) ns ∧
      (ms = [] ∧ g.Fills (before ++ xs) ys after ∨
        g.Reads false (.again b) (before ++ xs) ys after ms) := by
  obtain ⟨xs, fs, ys, ns, skipped, ms, rfl, rfl, hfirst, hfill, hmore⟩ := h.of_loose_seq
  cases hmore with
  | never =>
    exact ⟨xs, fs, ns, [], by simp, by simp, hfirst, .inl ⟨rfl, .inr ⟨_, hfill⟩⟩⟩
  | often hone hagain =>
    refine ⟨xs, fs ++ (_ ++ _), ns, _, rfl, rfl, by simpa using hfirst, .inr ?_⟩
    exact .moreLoose (by simpa using hfill) hone hagain

/-- What is only looked at is not read. -/
theorem Reads.of_present {atomic : Bool}
    (h : g.Reads atomic (.once (.present a)) before cs after nodes) : cs = [] := by
  cases h
  rfl

theorem Reads.nodes_of_present {atomic : Bool}
    (h : g.Reads atomic (.once (.present a)) before cs after nodes) : nodes = [] := by
  cases h
  rfl

/-! ## Rules with one part -/

section Lone

variable (g)

/-- The expression leaves at least one node. -/
def leaves : Peg ρ → Bool
  | .rule r => g.kind r != .silent
  | .seq a b => leaves a || leaves b
  | .alt a b => leaves a && leaves b
  | _ => false

/-- The expression reads nothing if it leaves no node. -/
def isVoid : Peg ρ → Bool
  | .many a | .opt a => g.leaves a
  | _ => false

/-- The expression leaves one node, which spans what it reads. -/
def isOne : Peg ρ → Bool
  | .rule r => g.kind r != .silent
  | .alt a b => isOne a && isOne b
  | _ => false

/-- The expression leaves a node, and if no other then that one spans all but filler. -/
def isLone : Peg ρ → Bool
  | .seq a b => g.isOne a && g.isVoid b || g.isVoid a && g.isOne b
  | e => g.isOne e

/-- The rules that such a node can have. -/
def loneRules : Peg ρ → List ρ
  | .seq a b => if g.isVoid b then tops a else tops b
  | e => tops e

variable {g}

theorem exists_node {r : ρ} (hkind : g.kind r ≠ .silent)
    (h : g.Reads false (.once (.rule r)) before cs after nodes) :
    ∃ parts, nodes = [.node r before.length cs parts] := by
  cases h with
  | bare hr => exact absurd (hr.resolve_right (by simp)) hkind
  | node => exact ⟨_, rfl⟩

theorem ne_nil_of_leaves (he : g.leaves e = true) (h : g.Reads false (.once e) before cs after nodes) :
    nodes ≠ [] := by
  induction e generalizing before cs after nodes with
  | rule r =>
    obtain ⟨parts, rfl⟩ := exists_node (by simpa [leaves] using he) h
    simp
  | seq a b iha ihb =>
    obtain ⟨_, _, _, _, _, _, rfl, rfl, ha, -, hb⟩ := h.of_loose_seq
    rcases (Bool.or_eq_true _ _).mp he with he | he
    · exact List.append_ne_nil_of_left_ne_nil (iha he ha) _
    · exact List.append_ne_nil_of_right_ne_nil _ (ihb he hb)
  | alt a b iha ihb =>
    obtain ⟨hea, heb⟩ := Bool.and_eq_true_iff.mp he
    rcases h.of_alt with h | ⟨-, h⟩
    · exact iha hea h
    · exact ihb heb h
  | _ => cases he

theorem eq_nil_of_isVoid (he : g.isVoid e = true) (h : g.Reads false (.once e) before cs after []) :
    cs = [] := by
  cases e with
  | many a =>
    generalize hnodes : ([] : List (Tree ρ)) = nodes at h
    cases h with
    | never => rfl
    | often hone => exact absurd (List.append_eq_nil_iff.mp hnodes.symm).1 (ne_nil_of_leaves he hone)
  | opt a =>
    rcases h.of_opt with h | ⟨rfl, -⟩
    · exact absurd rfl (ne_nil_of_leaves he h)
    · rfl
  | _ => cases he

theorem exists_node_of_isOne (he : g.isOne e = true)
    (h : g.Reads false (.once e) before cs after nodes) :
    ∃ r ∈ tops e, ∃ parts, nodes = [.node r before.length cs parts] := by
  induction e generalizing before cs after nodes with
  | rule r => exact ⟨r, by simp [tops], exists_node (by simpa [isOne] using he) h⟩
  | alt a b iha ihb =>
    obtain ⟨hea, heb⟩ := Bool.and_eq_true_iff.mp he
    rcases h.of_alt with h | ⟨-, h⟩
    · obtain ⟨r, hr, hnode⟩ := iha hea h
      exact ⟨r, List.mem_append_left _ hr, hnode⟩
    · obtain ⟨r, hr, hnode⟩ := ihb heb h
      exact ⟨r, List.mem_append_right _ hr, hnode⟩
  | _ => cases he

theorem not_isVoid_of_isOne (he : g.isOne e = true) : g.isVoid e = false := by
  cases e <;> first | rfl | cases he

/-- **`g.Holds before cs after n`** -- the node spans the stretch, but for filler around it. -/
structure Holds (g : Grammar ρ) (before cs after fs gs : List Char) (n : Tree ρ) : Prop where
  split : cs = fs ++ (n.text ++ gs)
  front : g.Fills before fs (n.text ++ (gs ++ after))
  back : g.Fills (before ++ fs ++ n.text) gs after

/-- **The one part of a rule spans its text, but for filler.** -/
theorem exists_holds {n : Tree ρ} (he : g.isLone e = true)
    (h : g.Reads false (.once e) before cs after [n]) :
    n.rule ∈ g.loneRules e ∧ ∃ fs gs, g.Holds before cs after fs gs n := by
  have hone (he : g.isOne e = true) : n.rule ∈ tops e ∧ ∃ fs gs, g.Holds before cs after fs gs n := by
    obtain ⟨r, hr, parts, hn⟩ := exists_node_of_isOne he h
    obtain rfl := (List.cons.inj hn).1
    exact ⟨hr, [], [], by simp [Tree.text], .inl rfl, .inl rfl⟩
  cases e with
  | seq a b =>
    obtain ⟨xs, fs, ys, ns, skipped, ms, rfl, hn, ha, hfill, hb⟩ := h.of_loose_seq
    -- The node is left by the first part or by the second; the other one leaves none.
    rcases (Bool.or_eq_true _ _).mp he with he | he
    · obtain ⟨hea, heb⟩ := Bool.and_eq_true_iff.mp he
      obtain ⟨r, hr, parts, rfl⟩ := exists_node_of_isOne hea ha
      obtain ⟨rfl, rfl⟩ := List.cons.inj hn
      obtain rfl := eq_nil_of_isVoid heb hb
      refine ⟨by rw [loneRules, if_pos heb]; exact hr, [], fs, by simp [Tree.text], .inl rfl, ?_⟩
      exact .inr ⟨skipped, by simpa [Tree.text] using hfill⟩
    · obtain ⟨hea, heb⟩ := Bool.and_eq_true_iff.mp he
      obtain ⟨r, hr, parts, rfl⟩ := exists_node_of_isOne heb hb
      obtain ⟨rfl, hlast⟩ : ns = [] ∧ n = .node r (before ++ xs ++ fs).length ys parts := by
        cases ns with
        | nil => exact ⟨rfl, (List.cons.inj hn).1⟩
        | cons m ns => simp at hn
      subst hlast
      obtain rfl := eq_nil_of_isVoid hea ha
      refine ⟨by rw [loneRules, not_isVoid_of_isOne heb]; exact hr, fs, [], by simp [Tree.text], ?_, .inl rfl⟩
      exact .inr ⟨skipped, by simpa [Tree.text] using hfill⟩
  | rule r => exact hone he
  | alt a b => exact hone he
  | _ => cases he

end Lone

end Grammar

end QueryScore
