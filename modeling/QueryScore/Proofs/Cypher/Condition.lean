/-
# QueryScore.Proofs.Cypher.Condition -- the atoms of a WHERE clause

The tree has a condition under each WHERE clause that the walk visits (`conditionsOf`). Below it the
rules for OR and AND join the atoms, and the rules in between stand for their part where they have
only one, parentheses included (`leavesOf`). An atom has its brackets in pairs and is not wrapped
(`spelled_of_atom`), whatever its rule. Where the conditions can be told from their texts
(`ShowsConditions`), the text of a condition spells it (`spelled_of_grows`, by induction on the
tree), and the filters of a query, split as texts, are the atoms of its conditions
(`normalize_filters`).
-/

import QueryScore.Cypher.Walk
import QueryScore.Proofs.Cypher.Balance
import QueryScore.Proofs.Cypher.Guard

namespace QueryScore.Cypher

open Text Grammar Peg QueryScore.Filter Name

/-! ## What the tree says -/

mutual

/-- **`conditionsOf t`** -- the conditions of the WHERE clauses, in the order of the walk, which does
not enter the patterns of nodes and relationships. -/
def conditionsOf : Tree Rule → List (Tree Rule)
  | .node r i cs ts =>
    match r with
    | .nodePattern | .relationshipPattern => []
    | .whereClause => (childOf? .expression (.node r i cs ts)).toList ++ conditionsOfAll ts
    | _ => conditionsOfAll ts

/-- The conditions of several trees. -/
def conditionsOfAll : List (Tree Rule) → List (Tree Rule)
  | [] => []
  | t :: ts => conditionsOf t ++ conditionsOfAll ts

end

/-- The rules between a condition and its innermost expressions. -/
def Rule.isLayer : Rule → Bool
  | .expression | .orExpression | .xorExpression | .andExpression | .notExpression
  | .comparisonExpression | .predicateExpression | .additiveExpression | .multiplicativeExpression
  | .powerExpression | .unaryExpression | .postfixExpression | .atom | .parenthesizedExpression => true
  | _ => false

/-- The rules that join conditions by a connective. -/
def Rule.joins : Rule → Bool
  | .orExpression | .andExpression => true
  | _ => false

/-- **`Rule.isForm`** -- what an expression can be: one of these rules, or of those innermost. -/
def Rule.isForm (r : Rule) : Bool :=
  r.isLayer || [.countStar, .caseExpression, .nullLiteral, .booleanLiteral, .numberLiteral,
    .stringLiteral, .parameter, .listLiteral, .mapLiteral, .patternPredicate, .functionInvocation,
    .variable].contains r

/-- A node that stands for its parts: those that a connective joins, or its only one. -/
def standsForParts (r : Rule) (parts : List (Tree Rule)) : Bool :=
  r.isLayer && (r.joins || parts.length == 1)

mutual

/-- **`leavesOf t`** -- the atoms of a condition and the connectives between them. -/
def leavesOf : Tree Rule → List (Tree Rule)
  | .node r i cs ts => if standsForParts r ts then leavesOfAll ts else [.node r i cs ts]

/-- The atoms and connectives of several trees. -/
def leavesOfAll : List (Tree Rule) → List (Tree Rule)
  | [] => []
  | t :: ts => leavesOf t ++ leavesOfAll ts

end

/-- The rule is one for a keyword. -/
def Rule.isKeyword : Rule → Bool
  | .keyword _ => true
  | _ => false

/-- The node of a keyword. -/
def isKeyword (t : Tree Rule) : Bool := t.rule.isKeyword

/-- **`atomsOf t`** -- the atoms of a condition. -/
def atomsOf (t : Tree Rule) : List (Tree Rule) := (leavesOf t).filter fun leaf => !isKeyword leaf

/-- The connectives of a condition. -/
def connectivesOf (t : Tree Rule) : List (Tree Rule) := (leavesOf t).filter isKeyword

/-- A condition with its atoms. -/
def predicateOf (t : Tree Rule) : Predicate := ⟨t.text, (atomsOf t).map Tree.text⟩

/-- The predicates of a tree. -/
def predicates (tree : Tree Rule) : List Predicate := (conditionsOf tree).map predicateOf

/-- A blank or a bracket stands on either side of a keyword. -/
def standsApart (source : List Char) (keyword : Tree Rule) : Bool :=
  ((source.take keyword.start).getLast?.any fun c => isBlank c || isClosing c) &&
    (source.drop (keyword.start + keyword.text.length)).head?.any fun c => isBlank c || isOpening c

/-- **`ShowsConditions source tree`** -- the conditions can be told from their texts. -/
structure ShowsConditions (source : List Char) (tree : Tree Rule) : Prop where
  /-- They hold no comments. -/
  bare : ∀ t ∈ conditionsOf tree, commentCharacters t.text = []
  /-- Their connectives stand apart. -/
  apart : ∀ t ∈ conditionsOf tree, ∀ k ∈ connectivesOf t, standsApart source k = true
  /-- Outside brackets and quotes an atom holds no keyword but each `BETWEEN` with its `AND`. -/
  uncut : ∀ t ∈ conditionsOf tree, ∀ a ∈ atomsOf t,
    closesBetween false (findKeywords keywords (normalizeFragment a.text)) = true

instance (source : List Char) (tree : Tree Rule) : Decidable (ShowsConditions source tree) :=
  decidable_of_iff ((∀ t ∈ conditionsOf tree, commentCharacters t.text = []) ∧
      (∀ t ∈ conditionsOf tree, ∀ k ∈ connectivesOf t, standsApart source k = true) ∧
      ∀ t ∈ conditionsOf tree, ∀ a ∈ atomsOf t,
        closesBetween false (findKeywords keywords (normalizeFragment a.text)) = true)
    ⟨fun ⟨hbare, hapart, huncut⟩ => ⟨hbare, hapart, huncut⟩, fun h => ⟨h.bare, h.apart, h.uncut⟩⟩

variable {source before cs ds after fs : List Char}
  {nodes ts : List (Tree Rule)} {t : Tree Rule}

theorem leavesOfAll_eq (ts : List (Tree Rule)) : leavesOfAll ts = ts.flatMap leavesOf := by
  induction ts with
  | nil => rfl
  | cons t ts ih => rw [leavesOfAll, ih, List.flatMap_cons]

theorem leavesOf_of_parts {r : Rule} {i : Nat} (h : standsForParts r ts = true) :
    leavesOf (.node r i cs ts) = ts.flatMap leavesOf := by
  rw [leavesOf, if_pos h, leavesOfAll_eq]

/-! ## One node at a time -/

/-- **`SpellsOut cs as`** -- the text spells a condition with these atoms, and each stands for
itself. -/
structure SpellsOut (cs : List Char) (as : List (Tree Rule)) : Prop where
  spells : Spells (trim cs) (as.map fun a => trim a.text)
  solitary : ∀ a ∈ as, Solitary a.text

variable {as as' : List (Tree Rule)}

theorem SpellsOut.of_trim (h : SpellsOut cs as) (htrim : trim ds = trim cs) : SpellsOut ds as :=
  ⟨htrim ▸ h.spells, h.solitary⟩

theorem SpellsOut.ne_nil (h : SpellsOut cs as) : cs ≠ [] := by
  rintro rfl
  exact h.spells.inked.ne_nil rfl

theorem SpellsOut.wrap (h : SpellsOut cs as) : SpellsOut ('(' :: (cs ++ [')'])) as where
  spells := by
    rw [(inked_wrap cs).trim]
    exact h.spells.wrap
  solitary := h.solitary

/-- **`Spelled source t`** -- the text of the node spells the condition. -/
def Spelled (source : List Char) (t : Tree Rule) : Prop :=
  Bare t.text → (∀ k ∈ connectivesOf t, standsApart source k = true) → SpellsOut t.text (atomsOf t)

theorem atomsOf_of_parts {r : Rule} (i : Nat) (cs : List Char) (h : standsForParts r ts = true) :
    atomsOf (.node r i cs ts) = ts.flatMap atomsOf ∧
      connectivesOf (.node r i cs ts) = ts.flatMap connectivesOf := by
  constructor
  · rw [atomsOf, leavesOf_of_parts h, List.filter_flatMap]
    rfl
  · rw [connectivesOf, leavesOf_of_parts h, List.filter_flatMap]
    rfl

/-- A keyword is a connective and no atom. -/
theorem atomsOf_keyword (w : String) (i : Nat) (cs : List Char) (ts : List (Tree Rule)) :
    atomsOf (.node (.keyword w) i cs ts) = [] ∧
      connectivesOf (.node (.keyword w) i cs ts) = [.node (.keyword w) i cs ts] := by
  constructor <;> rfl

/-! ### Atoms -/

/-- What the rules between a condition and its innermost expressions are made of, where nothing is
joined. -/
theorem isLone_of_isLayer {r : Rule} (h : r.isLayer = true) (hjoins : r.joins = false)
    (hparens : r ≠ .parenthesizedExpression) :
    (grammar.isLone r.body = true ∧ splitsParts r.body = true) ∧
      ∀ p ∈ grammar.loneRules r.body, p.isForm = true := by
  cases r with
  | keyword w => cases h
  | _ =>
    first
    | exact absurd h (by decide)
    | exact absurd hjoins (by decide)
    | exact absurd rfl hparens
    | decide

/-- The parts of an expression in parentheses. -/
theorem exists_inside
    (h : grammar.Reads false (.once (Rule.body .parenthesizedExpression)) before cs after ts) :
    ∃ fs gs n, ts = [n] ∧ n.rule = .expression ∧ cs = '(' :: ((fs ++ (n.text ++ gs)) ++ [')']) ∧
      grammar.Fills (before ++ ['(']) fs (n.text ++ (gs ++ (')' :: after))) ∧
        grammar.Fills (before ++ ['('] ++ fs ++ n.text) gs (')' :: after) := by
  obtain ⟨xs, fs, zs, _, _, _, rfl, rfl, hopen, hfs, hrest⟩ := h.of_loose_seq
  obtain ⟨ys, gs, ends, _, _, _, rfl, rfl, hinner, hgs, hclose⟩ := hrest.of_loose_seq
  obtain ⟨rfl, rfl⟩ := hopen.of_text
  obtain ⟨rfl, rfl⟩ := hclose.of_text
  obtain ⟨parts, rfl, -⟩ := hinner.of_normal rfl
  exact ⟨fs, gs, _, rfl, rfl, by simp [Tree.text], .inr ⟨_, by simpa [Tree.text] using hfs⟩,
    .inr ⟨_, by simpa [Tree.text] using hgs⟩⟩

/-- A rule of an expression that does not stand for its parts is not wrapped by parentheses. -/
theorem unwrap?_of_form {r : Rule} (hform : r.isForm = true) (hstands : standsForParts r ts = false)
    (h : grammar.Reads false (.once (.rule r)) before cs after [.node r before.length cs ts])
    (hbare : Bare cs) : unwrap? (trim cs) = none := by
  by_cases hlayer : r.isLayer = true
  · have hkind : r.kind = .normal := by cases r <;> first | rfl | cases hlayer
    obtain ⟨ns, hnode, hbody⟩ := h.of_normal hkind
    obtain rfl : ts = ns := by simpa using hnode
    simp only [standsForParts, hlayer, Bool.true_and, Bool.or_eq_false_iff] at hstands
    obtain ⟨hjoins, hlength⟩ := hstands
    by_cases hparens : r = .parenthesizedExpression
    · subst hparens
      obtain ⟨_, _, n, rfl, -⟩ := exists_inside hbody
      cases hlength
    · obtain ⟨hlone, hsplits⟩ := (isLone_of_isLayer hlayer hjoins hparens).1
      exact unwrap?_of_isLone hlone hsplits hbody hbare (by simpa using hlength)
  · have halone : standsAlone (.rule r) = true ∨ r.kind = .normal ∧ standsAlone r.body = true := by
      cases r with
      | keyword w => cases hform
      | _ =>
        first
        | exact absurd hform (by decide)
        | exact absurd rfl hlayer
        | decide
    rcases halone with halone | ⟨hkind, halone⟩
    · exact unwrap?_of_standsAlone halone h hbare
    · obtain ⟨ns, -, hbody⟩ := h.of_normal hkind
      exact unwrap?_of_standsAlone halone hbody hbare

theorem isInner_of_isForm {r : Rule} (h : r.isForm = true) :
    r.isInner = true ∧ r.isKeyword = false := by
  cases r <;> first | exact absurd h (by decide) | decide | cases h

/-- An atom stands for itself. -/
theorem spelled_of_atom {r : Rule} (hform : r.isForm = true) (hstands : standsForParts r ts = false)
    (h : grammar.Reads false (.once (.rule r)) before cs after [.node r before.length cs ts]) :
    Spelled source (.node r before.length cs ts) := by
  intro hbare _
  obtain ⟨hinner, hkey⟩ := isInner_of_isForm hform
  have hatoms : atomsOf (.node r before.length cs ts) = [.node r before.length cs ts] := by
    rw [atomsOf, leavesOf, if_neg (by simp [hstands])]
    simp [isKeyword, Tree.rule, hkey]
  have hbalances := balances_of_reads (pass_rule hinner) h hbare
  have hink := hbalances.ink (by simp)
  rw [hatoms]
  refine ⟨.of_ink hink, fun a ha => ?_⟩
  obtain rfl := List.mem_singleton.mp ha
  exact ⟨hink, hbalances.paired, unwrap?_of_form hform hstands h hbare⟩

/-! ### One part -/

/-- Filler around a node. -/
theorem Spelled.around {gs : List Char} {n : Tree Rule} (h : Spelled source n) (hcloses : Closes n.text)
    (hbare : Bare (fs ++ (n.text ++ gs))) (hfs : grammar.Fills before fs (n.text ++ (gs ++ after)))
    (hgs : grammar.Fills (before ++ fs ++ n.text) gs after)
    (hapart : ∀ k ∈ connectivesOf n, standsApart source k = true) :
    SpellsOut (fs ++ (n.text ++ gs)) (atomsOf n) := by
  have hblank := blank_of_fills hbare.left hfs
  have hrest : Bare (n.text ++ gs) := hbare.right (modeAfter_of_blank hblank)
  have hblank' := blank_of_fills (hrest.right (hcloses hrest.left)) hgs
  exact (h hrest.left hapart).of_trim (trim_append hblank hblank' n.text)

/-- A rule with one part. -/
theorem Spelled.of_holds {r : Rule} {i : Nat} {gs : List Char} {n : Tree Rule}
    (h : Spelled source n) (hcloses : Closes n.text) (hstands : standsForParts r [n] = true)
    (hholds : grammar.Holds before cs after fs gs n) : Spelled source (.node r i cs [n]) := by
  obtain ⟨rfl, hfs, hgs⟩ := hholds
  intro hbare hapart
  obtain ⟨hatoms, hconnectives⟩ := atomsOf_of_parts i (fs ++ (n.text ++ gs)) hstands
  rw [List.flatMap_singleton] at hatoms hconnectives
  rw [hconnectives] at hapart
  rw [hatoms]
  exact h.around hcloses hbare hfs hgs hapart

/-- A condition in parentheses. -/
theorem Spelled.of_inside {i : Nat} {gs : List Char} {n : Tree Rule} (h : Spelled source n)
    (hcloses : Closes n.text) (hfs : grammar.Fills before fs (n.text ++ (gs ++ after)))
    (hgs : grammar.Fills (before ++ fs ++ n.text) gs after) :
    Spelled source (.node .parenthesizedExpression i ('(' :: ((fs ++ (n.text ++ gs)) ++ [')'])) [n]) := by
  intro hbare hapart
  have hstands : standsForParts .parenthesizedExpression [n] = true := rfl
  obtain ⟨hatoms, hconnectives⟩ :=
    atomsOf_of_parts i ('(' :: ((fs ++ (n.text ++ gs)) ++ [')'])) hstands
  rw [List.flatMap_singleton] at hatoms hconnectives
  rw [hconnectives] at hapart
  rw [hatoms]
  have hinside : Bare (fs ++ (n.text ++ gs)) :=
    ((show Bare (['('] ++ ((fs ++ (n.text ++ gs)) ++ [')'])) from hbare).right rfl).left
  exact (h.around hcloses hinside hfs hgs hapart).wrap

/-! ### Connectives -/

/-- A connective between two conditions. -/
theorem SpellsOut.connect {w : String} {front l ws r rest : List Char} (hl : SpellsOut l as)
    (hword : IsConnective ws) (hr : SpellsOut r as')
    (hsource : source = front ++ (l ++ (ws ++ (r ++ rest))))
    (hapart : standsApart source (.node (.keyword w) (front ++ l).length ws []) = true) :
    SpellsOut (l ++ (ws ++ r)) (as ++ as') where
  spells := by
    have htake : source.take (front ++ l).length = front ++ l := by
      rw [hsource, ← List.append_assoc, List.take_left]
    have hdrop : source.drop ((front ++ l).length + ws.length) = r ++ rest := by
      rw [hsource, ← List.append_assoc, ← List.append_assoc, ← List.length_append, List.drop_left]
    simp only [standsApart, Tree.start, Tree.text, htake, hdrop, Bool.and_eq_true, Option.any_eq_true,
      Bool.or_eq_true] at hapart
    obtain ⟨⟨c, hc, hleft⟩, d, hd, hright⟩ := hapart
    rw [List.map_append]
    refine hl.spells.connect hword hr.spells ⟨c, ?_, hleft⟩ ⟨d, ?_, hright⟩
    · rwa [List.getLast?_append, List.getLast?_eq_some_getLast hl.ne_nil, Option.some_or,
        ← List.getLast?_eq_some_getLast] at hc
    · obtain ⟨e, more, hcons⟩ := List.exists_cons_of_ne_nil hr.ne_nil
      rw [hcons] at hd ⊢
      exact hd
  solitary a ha := (List.mem_append.mp ha).elim (hl.solitary a) (hr.solitary a)

/-- A connective and a further operand. -/
def furtherOperand (w : String) (r : Rule) : Peg Rule := .seq (wholeWord w) (.rule r)

section Joined

variable {w : String} {r : Rule} (hw : w ∈ ["AND", "OR"]) (hform : r.isForm = true)
  (hkind : r.kind = .normal)
include hw hform

theorem closes_of_round (h : grammar.Reads false (.once (furtherOperand w r)) before cs after nodes) :
    Closes cs := by
  have hword : (Rule.keyword w).isInner = true := by
    simp only [List.mem_cons, List.not_mem_nil, or_false] at hw
    rcases hw with rfl | rfl <;> decide
  have hpass : openedFlow.pass (furtherOperand w r) {} = some ⟨0, 0, true⟩ := by
    simp [furtherOperand, wholeWord, Flow.pass, openedFlow, Opened.cross, hword,
      (isInner_of_isForm hform).1]
  exact closes_of_reads hpass h

include hkind

omit hform in
/-- A connective and a further operand behind a condition. -/
theorem SpellsOut.round {front l : List Char} (hl : SpellsOut l as)
    (h : grammar.Reads false (.once (furtherOperand w r)) before cs after nodes)
    (hbefore : before = front ++ l) (hsource : source = before ++ (cs ++ after)) (hbare : Bare cs)
    (hnodes : ∀ n ∈ nodes, n.rule = r → Spelled source n)
    (hapart : ∀ k ∈ nodes.flatMap connectivesOf, standsApart source k = true) :
    SpellsOut (l ++ cs) (as ++ nodes.flatMap atomsOf) := by
  obtain ⟨ws, gs, ys, _, _, _, rfl, rfl, hword, hgap, hoperand⟩ := h.of_loose_seq
  obtain ⟨rfl, hkeyword⟩ := hword.of_atomic rfl
  obtain ⟨parts, rfl, -⟩ := hoperand.of_normal hkind
  have hconnective : IsConnective ws := ⟨w, hw, (reads_keyword hkeyword).1⟩
  have hws : modeAfter .outside ws = .outside :=
    modeAfter_of_noQuote fun c hc => (not_mark_of_isAlpha (hconnective.letters c hc)).1
  have hrest := hbare.right hws
  have hgs := blank_of_filler hrest.left hgap
  simp only [List.flatMap_append, List.flatMap_singleton, (atomsOf_keyword w _ ws []).1,
    (atomsOf_keyword w _ ws []).2, List.nil_append, List.mem_append] at hapart ⊢
  have hys := hnodes (.node r (before ++ ws ++ gs).length ys parts) (by simp) rfl
    (hrest.right (modeAfter_of_blank hgs)) fun k hk => hapart k (.inr hk)
  have hright : SpellsOut (gs ++ ys) (atomsOf (.node r (before ++ ws ++ gs).length ys parts)) := by
    refine hys.of_trim ?_
    have htrim := trim_append hgs .nil ys
    rwa [List.append_nil] at htrim
  have hstands : standsApart source (.node (.keyword w) (front ++ l).length ws []) = true := by
    rw [← hbefore]
    exact hapart _ (.inl (by simp))
  have hplace : source = front ++ (l ++ (ws ++ ((gs ++ ys) ++ after))) := by
    simpa [hbefore] using hsource
  exact hl.connect hconnective hright hplace hstands

/-- Each further operand adds its atoms. -/
theorem SpellsOut.again {part : Peg.Part Rule} {atomic : Bool}
    (h : grammar.Reads atomic part before ds after nodes) (hagain : part = .again (furtherOperand w r))
    (hatomic : atomic = false) {front l : List Char} (hl : SpellsOut l as)
    (hbefore : before = front ++ l) (hsource : source = before ++ (ds ++ after)) (hcloses : Closes l)
    (hbare : Bare (l ++ ds)) (hnodes : ∀ n ∈ nodes, n.rule = r → Spelled source n)
    (hapart : ∀ k ∈ nodes.flatMap connectivesOf, standsApart source k = true) :
    SpellsOut (l ++ ds) (as ++ nodes.flatMap atomsOf) := by
  induction h generalizing l as with
  | enough => simpa using hl
  | @moreLoose a before fs xs ds after skipped ns ms hfill hone _ _ _ ih =>
    cases hagain
    subst hbefore
    simp only [List.flatMap_append, List.mem_append] at hapart
    have hrest : Bare (fs ++ (xs ++ ds)) := hbare.right (hcloses hbare.left)
    have hfs := blank_of_filler hrest.left hfill
    have hround := hrest.right (modeAfter_of_blank hfs)
    -- The filler before the connective goes to the left operand, that behind it to the right one.
    have hgap : SpellsOut (l ++ fs) as := hl.of_trim (trim_append_blank hfs l)
    have hjoined := hgap.round hw hkind hone (List.append_assoc front l fs)
      (by simpa using hsource) hround.left (fun n hn => hnodes n (List.mem_append_left _ hn))
      fun k hk => hapart k (.inl hk)
    have hcloses' : Closes (l ++ fs ++ xs) :=
      (hcloses.append (closes_of_filler hfill)).append (closes_of_round hw hform hone)
    have hall := ih rfl rfl hjoined (by simp) (by simpa using hsource) hcloses' (by simpa using hbare)
      (fun n hn => hnodes n (List.mem_append_right _ hn)) fun k hk => hapart k (.inr hk)
    simpa using hall
  | moreTight => cases hatomic
  | _ => cases hagain

/-- Conditions that a connective joins. -/
theorem Spelled.of_joined {owner : Rule} (howner : standsForParts owner ts = true)
    (h : grammar.Reads false (.once (chained (.rule r) (wholeWord w))) before cs after ts)
    (hsource : source = before ++ (cs ++ after))
    (hparts : ∀ n ∈ ts, n.rule = r → Spelled source n) :
    Spelled source (.node owner before.length cs ts) := by
  intro hbare hapart
  obtain ⟨hatoms, hconnectives⟩ := atomsOf_of_parts before.length cs howner
  rw [hconnectives] at hapart
  rw [hatoms]
  rw [Tree.text] at hbare ⊢
  obtain ⟨xs, ys, _, ms, rfl, rfl, hfirst, hmore⟩ := h.of_seq_many
  have hcloses := closes_of_reads (pass_rule (isInner_of_isForm hform).1) hfirst
  obtain ⟨parts, rfl, -⟩ := hfirst.of_normal hkind
  simp only [List.flatMap_append, List.flatMap_singleton, List.mem_append] at hapart ⊢
  have hxs : SpellsOut xs _ := hparts (.node r before.length xs parts) (by simp) rfl hbare.left
    fun k hk => hapart k (.inl hk)
  rcases hmore with ⟨rfl, hfill⟩ | hagain
  -- Behind a single operand there may be filler.
  · have hys := blank_of_fills (hbare.right (hcloses hbare.left)) hfill
    rw [List.flatMap_nil, List.append_nil]
    exact hxs.of_trim (trim_append_blank hys xs)
  · exact hxs.again hw hform hkind hagain rfl rfl (rfl : before ++ xs = before ++ xs)
      (by simpa using hsource) hcloses hbare (fun n hn => hparts n (by simp [hn]))
      fun k hk => hapart k (.inr hk)

end Joined

/-- **The text of a node spells its condition.** -/
theorem spelled_of_grows (h : grammar.Grows source t) (hform : t.rule.isForm = true) :
    Spelled source t := by
  induction h with
  | @node r before cs after ts hsource hread hparts ih =>
    have hcloses {n : Tree Rule} (hn : n ∈ ts) (hform : n.rule.isForm = true) : Closes n.text := by
      cases hparts n hn with
      | node _ hread _ => exact closes_of_reads (pass_rule (isInner_of_isForm hform).1) hread
    by_cases hstands : standsForParts r ts = true
    · obtain ⟨hlayer, hshape⟩ := Bool.and_eq_true_iff.mp hstands
      have hkind : r.kind = .normal := by cases r <;> first | rfl | cases hlayer
      obtain ⟨ns, hnode, hbody⟩ := hread.of_normal hkind
      obtain rfl : ts = ns := by simpa using hnode
      -- The operands of a rule that joins are cut apart; any other rule stands for its only part.
      cases hjoins : r.joins with
      | true =>
        cases r with
        | orExpression =>
          exact .of_joined (w := "OR") (by simp) rfl rfl hstands hbody hsource fun n hn hrule =>
            ih n hn (by rw [hrule]; rfl)
        | andExpression =>
          exact .of_joined (w := "AND") (by simp) rfl rfl hstands hbody hsource fun n hn hrule =>
            ih n hn (by rw [hrule]; rfl)
        | _ => cases hjoins
      | false =>
        by_cases hparens : r = .parenthesizedExpression
        · subst hparens
          obtain ⟨fs, gs, n, rfl, hrule, rfl, hfs, hgs⟩ := exists_inside hbody
          have hn : n.rule.isForm = true := by
            rw [hrule]
            rfl
          exact (ih n (by simp) hn).of_inside (hcloses (by simp) hn) hfs hgs
        · obtain ⟨⟨hlone, -⟩, hrules⟩ := isLone_of_isLayer hlayer hjoins hparens
          rw [hjoins, Bool.false_or, beq_iff_eq] at hshape
          obtain ⟨n, rfl⟩ := List.length_eq_one_iff.mp hshape
          obtain ⟨hrule, fs, gs, hholds⟩ := exists_holds hlone hbody
          have hn := hrules _ hrule
          exact (ih n (by simp) hn).of_holds (hcloses (by simp) hn) hstands hholds
    · exact spelled_of_atom hform (by simpa using hstands) hread

/-! ## The walk -/

section Walk

variable {w : Walk}

@[simp] theorem Walk.filters_startPath : w.startPath.filters = w.filters := rfl

@[simp] theorem Walk.filters_addKeys (owner : String) (keys : List String) :
    (w.addKeys owner keys).filters = w.filters := rfl

@[simp] theorem Walk.filters_bind (variableName : Option String) (label : String) :
    (w.bind variableName label).filters = w.filters := by
  cases variableName <;> rfl

@[simp] theorem Walk.filters_bindNode : (w.bindNode t).filters = w.filters := by
  rw [bindNode]
  split
  · exact filters_bind ..
  · rfl

@[simp] theorem Walk.filters_reachNode (label : String) : (w.reachNode label).filters = w.filters := by
  rw [reachNode]
  split <;> rfl

@[simp] theorem Walk.filters_visitNode : (w.visitNode t).filters = w.filters := by
  simp [visitNode]

@[simp] theorem Walk.filters_visitRelationship : (w.visitRelationship t).filters = w.filters := by
  rw [visitRelationship]
  split
  · rfl
  · simp only [filters_addKeys]
    split
    · rfl
    · exact filters_bind ..

@[simp] theorem Walk.filters_visitLookup : (w.visitLookup t).filters = w.filters := by
  rw [visitLookup]
  split
  · split
    · split
      · split <;> rfl
      · rfl
    · rfl
  · rfl

@[simp] theorem Walk.filters_visitProjection : (w.visitProjection t).filters = w.filters := rfl

/-- The filter of a condition. -/
def filterOf (t : Tree Rule) : String := String.ofList (normalizeFragment t.text)

theorem Walk.mem_visitCondition {f : String} : f ∈ (w.visitCondition t).filters ↔
    f ∈ w.filters ∨ ∃ e ∈ childOf? .expression t, f = filterOf e := by
  rw [visitCondition]
  cases childOf? .expression t with
  | none => simp
  | some e => simp [SortedSet.mem_insert, filterOf, or_comm]

end Walk

mutual

/-- What the walk through a tree adds to the filters. -/
theorem mem_walk (inExpression : Bool) (f : String) : ∀ (t : Tree Rule) (w : Walk),
    f ∈ (walk inExpression t w).filters ↔ f ∈ w.filters ∨ ∃ e ∈ conditionsOf t, f = filterOf e
  | .node r i cs ts, w => by
    have hall (inExpression : Bool) (w : Walk) := mem_walkAll inExpression f ts w
    cases r with
    | whereClause =>
      simp only [walk, conditionsOf, hall, Walk.mem_visitCondition, List.mem_append, Option.mem_toList,
        Option.mem_def, or_and_right, exists_or, or_assoc]
    | nodePattern | relationshipPattern => simp [walk, conditionsOf]
    | postfixExpression => cases inExpression <;> simp [walk, conditionsOf, hall]
    | _ => simp [walk, conditionsOf, hall]

/-- What the walk through several trees adds. -/
theorem mem_walkAll (inExpression : Bool) (f : String) : ∀ (ts : List (Tree Rule)) (w : Walk),
    f ∈ (walkAll inExpression ts w).filters ↔
      f ∈ w.filters ∨ ∃ e ∈ conditionsOfAll ts, f = filterOf e
  | [], w => by simp [walkAll, conditionsOfAll]
  | t :: ts, w => by
    rw [walkAll, mem_walkAll inExpression f ts, mem_walk inExpression f t]
    simp only [conditionsOfAll, List.mem_append, or_and_right, exists_or, or_assoc]

end

mutual

/-- Each condition is an expression that is read at its place. -/
theorem grows_of_mem_conditionsOf {e : Tree Rule} : ∀ t : Tree Rule, grammar.Grows source t →
    e ∈ conditionsOf t → grammar.Grows source e ∧ e.rule.isForm = true
  | .node r i cs ts, h, he => by
    have hall := grows_of_mem_conditionsOfAll (e := e) ts h.parts
    cases r with
    | whereClause =>
      rcases List.mem_append.mp he with he | he
      · have hfound := Option.mem_toList.mp he
        have hrule : e.rule = .expression := by simpa [childOf?] using List.find?_some hfound
        exact ⟨h.parts e (List.mem_of_find?_eq_some hfound), by rw [hrule]; rfl⟩
      · exact hall he
    | nodePattern | relationshipPattern => cases he
    | _ => exact hall he

theorem grows_of_mem_conditionsOfAll {e : Tree Rule} : ∀ ts : List (Tree Rule),
    (∀ t ∈ ts, grammar.Grows source t) → e ∈ conditionsOfAll ts →
      grammar.Grows source e ∧ e.rule.isForm = true
  | t :: ts, h, he => by
    rcases List.mem_append.mp he with he | he
    · exact grows_of_mem_conditionsOf t (h t (by simp)) he
    · exact grows_of_mem_conditionsOfAll ts (fun u hu => h u (by simp [hu])) he

end

/-! ## The filters of a query -/

theorem grows_of_parse {tree : Tree Rule} (h : parse source = .ok tree) : grammar.Grows source tree := by
  obtain ⟨-, parts, rfl, hread⟩ := reads_of_parse h
  have hrule : grammar.Reads false (.once (Peg.rule Rule.query)) [] source []
      [.node .query 0 source parts] := .node (r := Rule.query) (by decide) hread
  exact hrule.grows (by simp) _ (by simp)

theorem bare_of_commentless (h : commentCharacters cs = []) : Bare cs :=
  ⟨[], by simpa using uncommented_of_commentless h⟩

theorem shown_predicates {tree : Tree Rule} (h : parse source = .ok tree)
    (hshow : ShowsConditions source tree) : ∀ p ∈ predicates tree, p.Shown := by
  intro p hp
  obtain ⟨e, he, rfl⟩ := List.mem_map.mp hp
  obtain ⟨hgrows, hform⟩ := grows_of_mem_conditionsOf tree (grows_of_parse h) he
  obtain ⟨hspells, hsolitary⟩ :=
    spelled_of_grows hgrows hform (bare_of_commentless (hshow.bare e he)) (hshow.apart e he)
  refine ⟨by simpa [predicateOf, List.map_map, Function.comp_def] using hspells, fun cs hcs => ?_⟩
  obtain ⟨a, ha, rfl⟩ := List.mem_map.mp hcs
  exact (hsolitary a ha).whole (hshow.uncut e he a ha)

/-- **The filters of a query, split as texts, are the atoms of its conditions**, as long as the text
shows the conditions. -/
theorem normalize_filters {tree : Tree Rule} (h : parse source = .ok tree)
    (hshow : ShowsConditions source tree) : normalize (walkTree tree).filters.toList =
      .ofList (((predicates tree).flatMap Predicate.forms).map String.ofList) := by
  refine normalize_of_shown (fun f => ?_) (shown_predicates h hshow)
  have hfound : f ∈ (walkTree tree).filters ↔ ∃ e ∈ conditionsOf tree, f = filterOf e := by
    simpa [walkTree] using mem_walk false f tree {}
  rw [hfound]
  constructor
  · rintro ⟨e, he, rfl⟩
    exact ⟨_, List.mem_map_of_mem he, rfl⟩
  · rintro ⟨p, hp, rfl⟩
    obtain ⟨e, he, rfl⟩ := List.mem_map.mp hp
    exact ⟨e, he, rfl⟩

end QueryScore.Cypher
