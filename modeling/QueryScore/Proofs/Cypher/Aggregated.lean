/-
# QueryScore.Proofs.Cypher.Aggregated -- the aggregate functions that a query calls

The tree knows calls as nodes: counts of all, and calls with the name of a function. The search for calls
finds all of these in the lists of items that a query projects, and more: a token can look like a call, as a
string with a call in it does, or a dotted name whose last part is an aggregate function (`straysOf`). In
lists without comments there is nothing else to find (`functions_of_tree`).
-/

import QueryScore.Proofs.Cypher.Called
import QueryScore.Proofs.Cypher.ClearedText

namespace QueryScore.Cypher

open Text Grammar Peg

variable {source before cs after : List Char} {nodes : List (Tree Rule)} {t k : Tree Rule}

/-! ## The names of functions -/

theorem isAlpha_of_isAggregate (h : isAggregate cs = true) : ∀ c ∈ cs, c.isAlpha = true := by
  obtain ⟨name, hname, hspell⟩ := List.mem_map.mp (List.contains_iff_mem.mp h)
  have hword := callable_aggregates name hname
  exact isAlpha_of_mem (by rw [← hspell, hword.2.1]) hword.1.alpha

/-- The last part of a dotted name. -/
def lastPart (cs : List Char) : List Char := (cs.reverse.takeWhile fun c => c != '.').reverse

theorem lastPart_append {front part : List Char} (hfront : ∀ c ∈ front.getLast?, c = '.')
    (hpart : '.' ∉ part) : lastPart (front ++ part) = part := by
  have hkeep : ∀ c ∈ part.reverse, (c != '.') = true := by
    intro c hc
    rw [bne_iff_ne]
    rintro rfl
    exact hpart (List.mem_reverse.mp hc)
  have hstop : front.reverse.takeWhile (fun c => c != '.') = [] := by
    cases hlast : front.reverse with
    | nil => rfl
    | cons c rest =>
      obtain rfl := hfront c (by rw [← List.head?_reverse, hlast]; rfl)
      rfl
  rw [lastPart, List.reverse_append, List.takeWhile_append_of_pos hkeep, hstop, List.append_nil,
    List.reverse_reverse]

theorem lastPart_of_undotted (h : '.' ∉ cs) : lastPart cs = cs := by
  have hfront : ∀ c ∈ ([] : List Char).getLast?, c = '.' := by simp
  exact lastPart_append hfront h

theorem mem_lastPart_concat {c : Char} (hc : c ≠ '.') (front : List Char) : c ∈ lastPart (front ++ [c]) := by
  rw [lastPart, List.reverse_append, List.reverse_singleton, List.singleton_append, List.mem_reverse,
    List.takeWhile_cons, if_pos (bne_iff_ne.mpr hc)]
  exact List.mem_cons_self

/-- Behind a dot each further part of a name is plain or in back quotes. -/
theorem exists_part_of_dotted (h : grammar.Rounds (.seq (sign ".") symbolicName) before cs after) :
    cs = [] ∨ ∃ front part, cs = front ++ part ∧ front.getLast? = some '.' ∧
      (PlainName part ∨ QuotedName part) := by
  induction h with
  | done => exact .inl rfl
  | more hone _ ih =>
    refine .inr ?_
    obtain ⟨xs, ys, _, _, rfl, -, hdot, hname⟩ := hone.of_tight_seq
    obtain ⟨rfl, -⟩ := hdot.of_text
    rcases ih with rfl | ⟨front, part, rfl, hfront, hpart⟩
    · refine ⟨['.'], ys, by simp, rfl, ?_⟩
      exact (reads_symbolicName hname).imp_left And.left
    · exact ⟨_ ++ front, part, (List.append_assoc _ _ _).symm, getLast?_append_of_mem _ hfront, hpart⟩

/-- The name of a function ends with a part that is plain or in back quotes. -/
theorem exists_part_of_functionName
    (h : grammar.Reads true (.once (Rule.body .functionName)) before cs after nodes) :
    ∃ front part, cs = front ++ part ∧ (∀ c ∈ front.getLast?, c = '.') ∧
      (PlainName part ∨ QuotedName part) := by
  obtain ⟨xs, ys, _, _, rfl, -, hfree, h⟩ := h.of_tight_seq
  obtain ⟨rfl, -, -⟩ := hfree.of_absent
  obtain ⟨first, more, _, _, rfl, -, hname, hmore⟩ := h.of_tight_seq
  rw [List.nil_append]
  rcases exists_part_of_dotted hmore.rounds with rfl | ⟨front, part, rfl, hfront, hpart⟩
  · exact ⟨[], first, List.append_nil _, by simp, (reads_symbolicName hname).imp_left And.left⟩
  · refine ⟨first ++ front, part, (List.append_assoc _ _ _).symm, fun c hc => ?_, hpart⟩
    exact Option.mem_unique hc (getLast?_append_of_mem first hfront)

/-- **A function name with its parenthesis shows one call more**: that of its last part, if this is the name
of an aggregate function. -/
theorem mem_calls_of_functionName {name : List Char}
    (h : grammar.Reads true (.once (Rule.body .functionName)) before cs after nodes) :
    name ∈ calls aggregateNames (cs ++ ['(']) ↔
      name ∈ calls aggregateNames cs ∨ name = lastPart cs ∧ isAggregate (lastPart cs) = true := by
  obtain ⟨front, part, rfl, hfront, hpart⟩ := exists_part_of_functionName h
  have hparen : Halts ['('] := .cons (by decide) []
  -- What stands before the last part ends with a dot, so its calls do not depend on what follows.
  have hsame (tail tail' : List Char) : callsWithin aggregateNames none front tail =
      callsWithin aggregateNames none front tail' := by
    cases hlast : front.getLast? with
    | none =>
      obtain rfl := List.getLast?_eq_none_iff.mp hlast
      rfl
    | some c =>
      obtain rfl := hfront c hlast
      obtain ⟨more, rfl⟩ := List.getLast?_eq_some_iff.mp hlast
      exact callsWithin_concat callable_aggregates (by decide) (by decide) (by decide) _ _ _
  have hopen : isOpenSide (front.getLast?.or none) = true := by
    cases hlast : front.getLast? with
    | none => rfl
    | some c =>
      obtain rfl := hfront c hlast
      rfl
  rw [calls_append_paren, calls_eq_callsWithin, callsWithin_append, callsWithin_append,
    hsame (part ++ ['(']) (part ++ []), List.mem_append, List.mem_append]
  rcases hpart with hplain | hquoted
  · have hdotless : '.' ∉ part := fun hdot => by
      have hname := hplain.chars _ hdot
      cases hname
    rw [lastPart_append hfront hdotless, callsWithin_word callable_aggregates hplain.wordy hparen,
      callsWithin_word callable_aggregates hplain.wordy .nil, hopen, isAggregate, List.contains_iff_mem]
    have hno : opensCall [] = false := rfl
    have hyes : opensCall ['('] = true := by decide
    rw [hno, hyes]
    by_cases hmem : part.map asciiLower ∈ aggregateNames.map String.toList
    · simp [hmem]
    · simp [hmem]
  · obtain ⟨body, rfl, -⟩ := hquoted
    have hno : isAggregate (lastPart (front ++ '`' :: (body ++ ['`']))) = false := by
      rw [Bool.eq_false_iff]
      intro haggregate
      have hmark : '`' ∈ lastPart (front ++ '`' :: (body ++ ['`'])) := by
        rw [← List.cons_append, ← List.append_assoc]
        exact mem_lastPart_concat (by decide) _
      have halpha := isAlpha_of_isAggregate haggregate _ hmark
      cases halpha
    have hbehind : callsWithin aggregateNames (front.getLast?.or none) ('`' :: body ++ ['`']) ['('] =
        callsWithin aggregateNames (front.getLast?.or none) ('`' :: body ++ ['`']) [] :=
      callsWithin_concat callable_aggregates (by decide) (by decide) (by decide) _ _ _
    rw [hno, ← List.cons_append, hbehind]
    simp

/-! ## The calls of a list -/

/-- The names of the aggregate functions that a node of the tree calls. -/
def aggregatesOf (n : Tree Rule) : List (List Char) :=
  match n.rule with
  | .countStar => ["COUNT".toList]
  | .functionInvocation => ((childrenOf .functionName n).map Tree.text).filter isAggregate
  | _ => []

/-- **`aggregatesIn t`** -- the names of the aggregate functions that are called in a tree. -/
def aggregatesIn (t : Tree Rule) : List (List Char) := t.nodes.flatMap aggregatesOf

/-- What looks like a call in a token: in its text, or the last part of a dotted name. -/
def straysOf (k : Tree Rule) : List (List Char) :=
  calls aggregateNames k.text ++
    if k.rule = .functionName ∧ '.' ∈ k.text ∧ isAggregate (lastPart k.text) = true then [lastPart k.text]
    else []

/-- **`straysIn t`** -- what looks like a call of an aggregate function in a token of a tree. -/
def straysIn (t : Tree Rule) : List (List Char) := (tokensOf t).flatMap straysOf

/-- The parts of a node are read by parts of its rule. -/
theorem rule_of_part {n : Tree Rule} (h : grammar.Grows source n) (hkind : n.rule.kind ≠ .silent)
    (hk : k ∈ n.children) : n.rule.kind = .normal ∧ k.rule ∈ tops n.rule.body ∧ k.rule.kind ≠ .silent := by
  have hnormal : n.rule.kind = .normal := by
    cases hn : n.rule.kind with
    | normal => rfl
    | silent => exact absurd hn hkind
    | atomic =>
      rw [h.children_of_atomic hn] at hk
      cases hk
  obtain ⟨r, i, cs, ts⟩ := n
  exact ⟨hnormal, rule_mem_of_grows h hkind k hk⟩

theorem kind_of_mem_nodes {n : Tree Rule} (h : grammar.Grows source t) (hkind : t.rule.kind ≠ .silent)
    (hn : n ∈ t.nodes) : n.rule.kind ≠ .silent := by
  have hboth : grammar.Grows source n ∧ n.rule.kind ≠ .silent :=
    Tree.of_mem_nodes (P := fun t => grammar.Grows source t ∧ t.rule.kind ≠ .silent)
      (fun t ht u hu => ⟨ht.1.parts u hu, (rule_of_part ht.1 ht.2 hu).2.2⟩) ⟨h, hkind⟩ hn
  exact hboth.2

theorem count_of_grows (h : grammar.Grows source k) (hrule : k.rule = .keyword "COUNT") :
    k.text.map asciiLower = "count".toList := by
  obtain ⟨before, after, hread⟩ := h.exists_reading (by rw [hrule]; rfl)
  rw [hrule] at hread
  exact (reads_keyword hread).1

/-- What a token shows: the calls in its text, the call that its name begins, or the count that it begins. -/
theorem mem_callsOfToken (h : grammar.Grows source k) (hatomic : k.rule.kind = .atomic) {name : List Char} :
    name ∈ callsOfToken k ↔ name ∈ calls aggregateNames k.text ∨
      (k.rule = .functionName ∧ name = lastPart k.text ∧ isAggregate (lastPart k.text) = true) ∨
      (k.rule = .keyword "COUNT" ∧ name = k.text) := by
  obtain ⟨before, after, hread⟩ := h.exists_reading hatomic
  by_cases hname : k.rule = .functionName
  · rw [hname] at hread
    rw [callsOfToken, hname]
    simpa [Rule.isCallee] using mem_calls_of_functionName hread
  by_cases hcount : k.rule = .keyword "COUNT"
  · have hspell := count_of_grows h hcount
    have hwordy : Wordy k.text := by
      refine PlainName.wordy ⟨?_, fun c hc => isNameChar_of_isAlpha ?_⟩
      · intro hnil
        rw [hnil] at hspell
        cases hspell
      · have hfolded : "count".toList.map asciiLower = "count".toList := by decide
        have halpha : ("count".toList.all fun c => c.isAlpha) = true := by decide
        exact isAlpha_of_mem (hspell.trans hfolded.symm) (List.all_eq_true.mp halpha) c hc
    have hparen : Halts ['('] := .cons (by decide) []
    have hmem : k.text.map asciiLower ∈ aggregateNames.map String.toList := by
      rw [hspell]
      decide
    have hopens : opensCall ['('] = true := by decide
    rw [callsOfToken, hcount, if_pos (by decide), calls_append_paren, calls_eq_callsWithin,
      callsWithin_word callable_aggregates hwordy hparen, callsWithin_word callable_aggregates hwordy .nil,
      if_pos ⟨rfl, hopens, hmem⟩, if_neg fun hno => absurd hno.2.1 (by decide)]
    simp
  · rw [callsOfToken, if_neg (by simp [Rule.isCallee, hname, hcount])]
    simp [hname, hcount]

/-- Only calls hold the name of a function, and only counts of all the keyword. -/
theorem rule_of_callee {r q : Rule} (hkind : r.kind = .normal) (hq : q ∈ tops r.body) :
    (q = .functionName → r = .functionInvocation) ∧ (q = .keyword "COUNT" → r = .countStar) := by
  have hall : (normalRules.all fun r => (tops r.body).all fun q =>
      (q != .functionName || r == .functionInvocation) && (q != .keyword "COUNT" || r == .countStar)) =
        true := by decide
  have hone := List.all_eq_true.mp (of_normalRules hall hkind) q hq
  simp only [Bool.and_eq_true, Bool.or_eq_true, bne_iff_ne, beq_iff_eq] at hone
  exact ⟨fun h => hone.1.resolve_left (not_not_intro h), fun h => hone.2.resolve_left (not_not_intro h)⟩

theorem exists_count {n : Tree Rule} (h : grammar.Grows source n) (hrule : n.rule = .countStar) :
    ∃ k ∈ n.children, k.rule = .keyword "COUNT" := by
  cases h with
  | @node r before cs after ts _ hread =>
    obtain rfl : r = .countStar := hrule
    obtain ⟨ns, hnode, hbody⟩ := hread.of_normal rfl
    obtain rfl : ts = ns := by simpa using hnode
    obtain ⟨xs, fs, ys, ks, _, ms, rfl, rfl, hword, -, -⟩ := hbody.of_loose_seq
    obtain ⟨rfl, -⟩ := hword.of_atomic rfl
    exact ⟨_, List.mem_cons_self, rfl⟩

theorem uppercase_count (h : grammar.Grows source k) (hrule : k.rule = .keyword "COUNT") :
    uppercase k.text = uppercase "COUNT".toList := by
  have hlower : "count".toList = folded "COUNT".toList := by decide
  have hspell : folded k.text = "count".toList := count_of_grows h hrule
  rw [← uppercase_folded k.text, hspell, hlower, uppercase_folded]

/-- What a token shows is a call of the node around it, or a stray. -/
theorem exists_of_mem_callsOfToken {n : Tree Rule} {name : List Char} (h : grammar.Grows source n)
    (hkind : n.rule.kind ≠ .silent) (hk : k ∈ n.children) (hatomic : k.rule.kind = .atomic)
    (hname : name ∈ callsOfToken k) :
    ∃ found ∈ aggregatesOf n ++ straysOf k, uppercase found = uppercase name := by
  have hgrows := h.parts k hk
  obtain ⟨hnormal, htop, -⟩ := rule_of_part h hkind hk
  have hrules := rule_of_callee hnormal htop
  rcases (mem_callsOfToken hgrows hatomic).mp hname with hname | ⟨hfunction, rfl, haggregate⟩ | ⟨hcount, rfl⟩
  · exact ⟨name, List.mem_append_right _ (List.mem_append_left _ hname), rfl⟩
  · refine ⟨lastPart k.text, List.mem_append.mpr ?_, rfl⟩
    by_cases hdot : '.' ∈ k.text
    · refine .inr (List.mem_append_right _ ?_)
      rw [if_pos ⟨hfunction, hdot, haggregate⟩]
      exact List.mem_singleton_self _
    · rw [lastPart_of_undotted hdot] at haggregate ⊢
      rw [aggregatesOf, hrules.1 hfunction]
      refine .inl (List.mem_filter.mpr ⟨List.mem_map_of_mem (List.mem_filter.mpr ⟨hk, ?_⟩), haggregate⟩)
      exact decide_eq_true hfunction
  · refine ⟨"COUNT".toList, List.mem_append_left _ ?_, (uppercase_count hgrows hcount).symm⟩
    rw [aggregatesOf, hrules.2 hcount]
    exact List.mem_singleton_self _

/-- A call of a node is shown by one of its tokens. -/
theorem exists_of_mem_aggregatesOf {n : Tree Rule} {name : List Char} (h : grammar.Grows source n)
    (hname : name ∈ aggregatesOf n) : ∃ k ∈ n.children, k.rule.kind = .atomic ∧
      ∃ shown ∈ callsOfToken k, uppercase shown = uppercase name := by
  rw [aggregatesOf] at hname
  split at hname
  · rename_i hcount
    obtain rfl := List.mem_singleton.mp hname
    obtain ⟨k, hk, hrule⟩ := exists_count h hcount
    have hatomic : k.rule.kind = .atomic := by rw [hrule]; rfl
    have hshown := (mem_callsOfToken (h.parts k hk) hatomic).mpr (.inr (.inr ⟨hrule, rfl⟩))
    exact ⟨k, hk, hatomic, k.text, hshown, uppercase_count (h.parts k hk) hrule⟩
  · obtain ⟨hname, haggregate⟩ := List.mem_filter.mp hname
    obtain ⟨k, hk, rfl⟩ := List.mem_map.mp hname
    obtain ⟨hk, hfunction⟩ := List.mem_filter.mp hk
    have hrule : k.rule = .functionName := of_decide_eq_true hfunction
    have hatomic : k.rule.kind = .atomic := by rw [hrule]; rfl
    -- The name of an aggregate function has no dot, so it is its own last part.
    have hdotless : '.' ∉ k.text := fun hdot => by
      have halpha := isAlpha_of_isAggregate haggregate _ hdot
      cases halpha
    have hlast := lastPart_of_undotted hdotless
    refine ⟨k, hk, hatomic, k.text, (mem_callsOfToken (h.parts k hk) hatomic).mpr (.inr (.inl ?_)), rfl⟩
    rw [hlast]
    exact ⟨hrule, rfl, haggregate⟩
  · cases hname

theorem mem_callsOfToken_of_stray {name : List Char} (h : grammar.Grows source k)
    (hatomic : k.rule.kind = .atomic) (hname : name ∈ straysOf k) : name ∈ callsOfToken k := by
  refine (mem_callsOfToken h hatomic).mpr ?_
  rcases List.mem_append.mp hname with hname | hname
  · exact .inl hname
  · split at hname
    · rename_i hlast
      exact .inr (.inl ⟨hlast.1, List.mem_singleton.mp hname, hlast.2.2⟩)
    · cases hname

/-- **The calls that the text of a list shows are those of its nodes and the strays.** -/
theorem calls_of_list {list : Tree Rule} (h : grammar.Grows source list)
    (hrule : list.rule = .projectionItems) (hbare : Bare list.text) {f : List Char} :
    (∃ name ∈ calls aggregateNames list.text, uppercase name = f) ↔
      ∃ name ∈ aggregatesIn list ++ straysIn list, uppercase name = f := by
  have hkind : list.rule.kind = .normal := by rw [hrule]; rfl
  rw [calls_of_tokens h (by rw [hrule]; rfl) hkind hbare]
  constructor
  · rintro ⟨name, hname, rfl⟩
    obtain ⟨k, hk, hname⟩ := List.mem_flatMap.mp hname
    obtain ⟨hnode, hatomic⟩ := (mem_tokensOf h).mp hk
    have hne : k ≠ list := by
      rintro rfl
      rw [hkind] at hatomic
      cases hatomic
    obtain ⟨n, hn, hchild⟩ := (Tree.exists_parent hnode).resolve_left hne
    have hsilent := kind_of_mem_nodes h (by rw [hkind]; decide) hn
    obtain ⟨found, hfound, hsame⟩ :=
      exists_of_mem_callsOfToken (h.of_mem_nodes hn) hsilent hchild hatomic hname
    refine ⟨found, List.mem_append.mpr ?_, hsame⟩
    rcases List.mem_append.mp hfound with hcall | hstray
    · exact .inl (List.mem_flatMap.mpr ⟨n, hn, hcall⟩)
    · exact .inr (List.mem_flatMap.mpr ⟨k, hk, hstray⟩)
  · rintro ⟨name, hname, rfl⟩
    rcases List.mem_append.mp hname with hname | hname
    · obtain ⟨n, hn, hname⟩ := List.mem_flatMap.mp hname
      obtain ⟨k, hk, hatomic, shown, hshown, hsame⟩ := exists_of_mem_aggregatesOf (h.of_mem_nodes hn) hname
      have htoken := (mem_tokensOf h).mpr ⟨Tree.mem_nodes_of_child hn hk, hatomic⟩
      exact ⟨shown, List.mem_flatMap.mpr ⟨k, htoken, hshown⟩, hsame⟩
    · obtain ⟨k, hk, hname⟩ := List.mem_flatMap.mp hname
      obtain ⟨hnode, hatomic⟩ := (mem_tokensOf h).mp hk
      have hshown := mem_callsOfToken_of_stray (h.of_mem_nodes hnode) hatomic hname
      exact ⟨name, List.mem_flatMap.mpr ⟨k, hk, hshown⟩, rfl⟩

/-! ## The aggregate functions of a query -/

/-- The rule stands below every list of items. -/
def Rule.isBelowLists (r : Rule) : Bool :=
  !([.query, .singleQuery, .withClause, .returnClause, .projectionBody, .projectionItems].contains r)

theorem isBelowLists_of_mem_tops {r q : Rule} (hkind : r.kind = .normal) (hr : r.isBelowLists = true)
    (hq : q ∈ tops r.body) : q.isBelowLists = true := by
  have hall : (normalRules.all fun r =>
      !r.isBelowLists || (tops r.body).all Rule.isBelowLists) = true := by decide
  have hone := of_normalRules hall hkind
  rw [hr, Bool.not_true, Bool.false_or] at hone
  exact List.all_eq_true.mp hone q hq

/-- Below the clauses there are no lists of items. -/
theorem isBelowLists_of_mem {n : Tree Rule} (h : grammar.Grows source t) (hkind : t.rule.kind ≠ .silent)
    (ht : t.rule.isBelowLists = true) (hn : n ∈ t.nodes) : n.rule.isBelowLists = true := by
  have hall : grammar.Grows source n ∧ n.rule.kind ≠ .silent ∧ n.rule.isBelowLists = true :=
    Tree.of_mem_nodes
      (P := fun t => grammar.Grows source t ∧ t.rule.kind ≠ .silent ∧ t.rule.isBelowLists = true)
      (fun t ⟨h, hkind, ht⟩ u hu => by
        obtain ⟨hnormal, htop, hpart⟩ := rule_of_part h hkind hu
        exact ⟨h.parts u hu, hpart, isBelowLists_of_mem_tops hnormal ht htop⟩) ⟨h, hkind, ht⟩ hn
  exact hall.2.2

theorem mem_projectionsOfAll {n : Tree Rule} {ts : List (Tree Rule)} :
    n ∈ projectionsOfAll ts ↔ ∃ t ∈ ts, n ∈ projectionsOf t := by
  induction ts with
  | nil => simp [projectionsOfAll]
  | cons t ts ih => rw [projectionsOfAll, List.mem_append, ih, List.exists_mem_cons_iff]

/-- **The walk comes to every list of items.** -/
theorem mem_projectionsOf {n : Tree Rule} (h : grammar.Grows source t) (hkind : t.rule.kind ≠ .silent) :
    n ∈ projectionsOf t ↔ n ∈ t.nodes ∧ n.rule = .projectionItems := by
  induction t using Tree.partsInduction with
  | h t ih =>
    have hparts : n ∈ projectionsOfAll t.children ↔
        (∃ u ∈ t.children, n ∈ u.nodes) ∧ n.rule = .projectionItems := by
      rw [mem_projectionsOfAll]
      constructor
      · rintro ⟨u, hu, hn⟩
        obtain ⟨hnode, hrule⟩ := (ih u hu (h.parts u hu) (rule_of_part h hkind hu).2.2).mp hn
        exact ⟨⟨u, hu, hnode⟩, hrule⟩
      · rintro ⟨⟨u, hu, hnode⟩, hrule⟩
        exact ⟨u, hu, (ih u hu (h.parts u hu) (rule_of_part h hkind hu).2.2).mpr ⟨hnode, hrule⟩⟩
    have hpattern (ht : t.rule.isBelowLists = true) : ¬ (n ∈ t.nodes ∧ n.rule = .projectionItems) := by
      rintro ⟨hn, hrule⟩
      have hbelow := isBelowLists_of_mem h hkind ht hn
      rw [hrule] at hbelow
      cases hbelow
    have hother (ht : t.rule ≠ .projectionItems) :
        n ∈ projectionsOfAll t.children ↔ n ∈ t.nodes ∧ n.rule = .projectionItems := by
      rw [hparts, Tree.mem_nodes]
      refine ⟨fun hn => ⟨.inr hn.1, hn.2⟩, fun hn => ⟨hn.1.resolve_left ?_, hn.2⟩⟩
      rintro rfl
      exact ht hn.2
    obtain ⟨r, i, cs, ts⟩ := t
    cases r with
    | nodePattern | relationshipPattern =>
      exact iff_of_false List.not_mem_nil (hpattern rfl)
    | projectionItems =>
      rw [projectionsOf, List.mem_cons, Tree.mem_nodes, or_and_right]
      refine or_congr ⟨?_, And.left⟩ hparts
      rintro rfl
      exact ⟨rfl, rfl⟩
    | _ => exact hother (by simp [Tree.rule])

/-- **The aggregate functions of a query are those that its lists of items call, and the strays.** The search
for calls finds each call of the tree, in upper case; what else it finds stands in a token, as a string or a
name in back quotes can hold a call, or ends a dotted name. -/
theorem functions_of_tree {text : String} {tree : Tree Rule} (h : parse text.toList = .ok tree)
    (hbare : ProjectionsBare tree) {f : String} :
    f ∈ (extract .cypher text).aggregation.functions ↔
      ∃ list ∈ tree.nodes, list.rule = .projectionItems ∧
        ∃ name ∈ aggregatesIn list ++ straysIn list, String.ofList (uppercase name) = f := by
  have hgrows := grows_of_parse h
  have hkind : tree.rule.kind ≠ .silent := by
    obtain ⟨-, parts, rfl, -⟩ := reads_of_parse h
    show Rule.query.kind ≠ .silent
    decide
  have hfound : f ∈ (extract .cypher text).aggregation.functions ↔
      ∃ list ∈ projectionsOf tree, ∃ name ∈ calls aggregateNames list.text,
        String.ofList (uppercase name) = f := by
    have hlists : (walkTree tree).projections = (projectionsOf tree).map Tree.text :=
      projections_walk false tree {}
    simp only [extract, structureOf?, structure?, h, Except.map, structureOf, aggregateFunctions,
      SortedSet.mem_ofList, hlists, List.flatMap_map, List.mem_map, List.mem_flatMap]
    constructor
    · rintro ⟨name, ⟨list, hlist, hname⟩, heq⟩
      exact ⟨list, hlist, name, hname, heq⟩
    · rintro ⟨list, hlist, name, hname, heq⟩
      exact ⟨name, ⟨list, hlist, hname⟩, heq⟩
  rw [hfound]
  have hlist (list : Tree Rule) (hmem : list ∈ projectionsOf tree) :
      (∃ name ∈ calls aggregateNames list.text, String.ofList (uppercase name) = f) ↔
        ∃ name ∈ aggregatesIn list ++ straysIn list, String.ofList (uppercase name) = f := by
    obtain ⟨hnode, hrule⟩ := (mem_projectionsOf hgrows hkind).mp hmem
    have hcalls := calls_of_list (f := f.toList) (hgrows.of_mem_nodes hnode) hrule
      (bare_of_commentless (hbare list hmem))
    simpa [String.ext_iff] using hcalls
  constructor
  · rintro ⟨list, hmem, hname⟩
    obtain ⟨hnode, hrule⟩ := (mem_projectionsOf hgrows hkind).mp hmem
    exact ⟨list, hnode, hrule, (hlist list hmem).mp hname⟩
  · rintro ⟨list, hnode, hrule, hname⟩
    have hmem := (mem_projectionsOf hgrows hkind).mpr ⟨hnode, hrule⟩
    exact ⟨list, hmem, (hlist list hmem).mpr hname⟩

/-- A query with one call and three strays: a dotted name, a string and a key in back quotes. -/
def strayQuery : String :=
  "MATCH (n:P) WITH n, count(*) AS c RETURN apoc.coll.sum(n.x), 'min(y)', n.`max(z)`"

theorem functions_strayQuery : ∃ tree, parse strayQuery.toList = .ok tree ∧ ProjectionsBare tree ∧
    ∀ f ∈ ["COUNT", "MAX", "MIN", "SUM"], f ∈ (extract .cypher strayQuery).aggregation.functions := by
  obtain ⟨tree, hparse, hread⟩ := exists_tree_of_any strayQuery.toList (fun tree =>
    decide (ProjectionsBare tree ∧ ∀ f ∈ ["COUNT", "MAX", "MIN", "SUM"],
      ∃ list ∈ tree.nodes, list.rule = .projectionItems ∧
        ∃ name ∈ aggregatesIn list ++ straysIn list, String.ofList (uppercase name) = f)) (by decide +kernel)
  obtain ⟨hbare, hshown⟩ := of_decide_eq_true hread
  exact ⟨tree, hparse, hbare, fun f hf => (functions_of_tree hparse hbare).mpr (hshown f hf)⟩

/-- A call in a string counts, though the tree has no call. -/
theorem functions_quotedCall : ∃ tree, parse "MATCH (n:P) RETURN 'count(x)'".toList = .ok tree ∧
    (∀ n ∈ tree.nodes, n.rule ≠ .countStar ∧ n.rule ≠ .functionInvocation) ∧
    "COUNT" ∈ (extract .cypher "MATCH (n:P) RETURN 'count(x)'").aggregation.functions := by
  obtain ⟨tree, hparse, hread⟩ := exists_tree_of_any "MATCH (n:P) RETURN 'count(x)'".toList (fun tree =>
    decide (∀ n ∈ tree.nodes, n.rule ≠ .countStar ∧ n.rule ≠ .functionInvocation))
    (by decide +kernel)
  exact ⟨tree, hparse, of_decide_eq_true hread, by decide +kernel⟩

end QueryScore.Cypher
