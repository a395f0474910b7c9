/-
# QueryScore.Proofs.Cypher.CaseBlind -- the case of letters does not change the tree

Keywords are words, names consist of letters of either case, and no sign of the grammar is a letter
(`isCaseBlind_body`). So a query and the query in lower case are parsed in the same way, and two
queries that differ in the case of ASCII letters only have trees of the same outline
(`parse_sameOutline`).
-/

import QueryScore.Cypher.Parse
import QueryScore.Proofs.Peg.Changed

namespace QueryScore.Cypher

open Text Peg

variable {cs ds : List Char}

/-! ## The grammar -/

theorem isCaseBlind_body (r : Rule) : (grammar.body r).every Peg.isCaseBlind (fun _ => true) = true := by
  cases r with
  | keyword w => rfl
  | _ => decide

theorem unnoticed_lower : grammar.Unnoticed (.lower Rule) Peg.isCaseBlind fun _ => true :=
  unnoticed_folded (fun r _ => isCaseBlind_body r) (by decide)

theorem nesting_folded (cs : List Char) : nesting (folded cs) = nesting cs := by
  rw [nesting, nesting, maxNestingDepth_folded, countWord_folded]

theorem fuelFor_folded (cs : List Char) : fuelFor (folded cs) = fuelFor cs := by
  rw [fuelFor, fuelFor, length_folded]

/-- **The query in lower case** is refused for the same reason, or has the tree of the query in
lower case. -/
theorem parse_folded (cs : List Char) : parse (folded cs) = (parse cs).map Tree.folded := by
  have hrun : grammar.run (fuelFor cs) false (.rule .query) ⟨0, folded cs⟩ =
      (grammar.run (fuelFor cs) false (.rule .query) ⟨0, cs⟩).changed (.lower Rule) :=
    Grammar.run_changed false ⟨0, cs⟩ unnoticed_lower rfl
  rw [parse, parse, nesting_folded, fuelFor_folded, hrun]
  split
  · rfl
  · cases grammar.run (fuelFor cs) false (.rule .query) ⟨0, cs⟩ with
    | matched c nodes => cases nodes <;> rfl
    | failed => rfl
    | exhausted => rfl

/-! ## Outlines -/

/-- **`outline source t`** -- the nodes of a tree in pre-order: the depth of each, its rule, and the
byte offsets where its text begins and ends. -/
def outline (source : List Char) (t : Tree Rule) : List (Nat × Rule × Nat × Nat) :=
  (t.preorder 0).map fun (depth, n) =>
    (depth, n.rule, byteOffset source n.start, byteOffset source (n.start + n.text.length))

mutual

theorem preorder_folded (depth : Nat) : ∀ t : Tree Rule,
    t.folded.preorder depth = (t.preorder depth).map fun (depth, n) => (depth, n.folded)
  | .node r i cs ts => by
    rw [Tree.folded, Tree.preorder, Tree.preorder, List.map_cons, preorderAll_folded (depth + 1) ts]
    rfl

theorem preorderAll_folded (depth : Nat) : ∀ ts : List (Tree Rule),
    Tree.preorderAll depth (Tree.foldedAll ts) =
      (Tree.preorderAll depth ts).map fun (depth, n) => (depth, n.folded)
  | [] => rfl
  | t :: ts => by
    rw [Tree.foldedAll, Tree.preorderAll, Tree.preorderAll, List.map_append, preorder_folded depth t,
      preorderAll_folded depth ts]

end

/-- The outline does not depend on the case of letters. -/
theorem outline_folded (source : List Char) (t : Tree Rule) :
    outline (folded source) t.folded = outline source t := by
  rw [outline, outline, preorder_folded, List.map_map]
  refine List.map_congr_left fun ⟨depth, n⟩ _ => ?_
  obtain ⟨r, i, cs, ts⟩ := n
  simp only [Function.comp, Tree.folded, Tree.rule, Tree.start, Tree.text, byteOffset_folded, length_folded]

/-- **Of two texts that differ in the case of ASCII letters only, both nest too deeply, or both are
rejected, or both have trees with the same rules at the same depths over the same bytes.** -/
theorem parse_sameOutline (h : equalIgnoringCase cs ds = true) :
    nesting cs = nesting ds ∧ (parse cs).map (outline cs) = (parse ds).map (outline ds) := by
  have hfolded : folded cs = folded ds := beq_iff_eq.mp h
  have hall (cs : List Char) : (parse cs).map (outline cs) = (parse (folded cs)).map (outline (folded cs)) := by
    rw [parse_folded]
    cases parse cs with
    | ok t => exact congrArg Except.ok (outline_folded cs t).symm
    | error failure => rfl
  exact ⟨by rw [← nesting_folded, hfolded, nesting_folded], by rw [hall cs, hall ds, hfolded]⟩

/-- A query in lower case. -/
def quietQuery : List Char :=
  "match (n:`köln`)-[r*..2]->(`b c`) where n.x >= 1e5 return case when n.y then count(n) end as k".toList

/-- The same query in upper case. -/
def loudQuery : List Char :=
  "MATCH (N:`KöLN`)-[R*..2]->(`B C`) WHERE N.X >= 1E5 RETURN CASE WHEN N.Y THEN COUNT(N) END AS K".toList

theorem outline_loudQuery : equalIgnoringCase quietQuery loudQuery = true ∧
    (parse quietQuery).toOption.isSome = true ∧ nesting quietQuery = nesting loudQuery ∧
    (parse quietQuery).map (outline quietQuery) = (parse loudQuery).map (outline loudQuery) := by
  have hsame : equalIgnoringCase quietQuery loudQuery = true := by decide +kernel
  exact ⟨hsame, by decide +kernel, parse_sameOutline hsame⟩

end QueryScore.Cypher
