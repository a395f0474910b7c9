/-
# QueryScore.Proofs.Cypher.Union -- the tree of two queries with a union between them

A text with one query consists of filler, the query, filler and the end (`Alone`). With a union and a
second such text behind it the first query is read as before (`inStep`), and the second one as at its
own place, further to the right (`unnoticed_moved`). So the tree of both has the parts of the two
trees one behind the other, and the word between them (`parse_union`).
-/

import QueryScore.Proofs.Cypher.CaseBlind
import QueryScore.Proofs.Cypher.Event
import QueryScore.Proofs.Cypher.Followed
import QueryScore.Proofs.Peg.Changed

namespace QueryScore.Cypher

open Text Grammar Peg

variable {cs ds fs xs gs tail after more : List Char} {i k : Nat} {t e tree : Tree Rule}
  {c later : Cursor} {nodes : List (Tree Rule)} {atomic : Bool} {a : Peg Rule}

/-! ## Places and stretches -/

/-- What is skipped is filler, and what is left is settled. -/
theorem filled_of_skipped (h : grammar.Skipped false ⟨i, cs⟩ c) : ∃ fs after, cs = fs ++ after ∧
    c = ⟨i + fs.length, after⟩ ∧ Filled fs after ∧ Settled after := by
  obtain ⟨fuel, skipped, hskip⟩ := h
  have hindex : (List.replicate i ' ').length = i := List.length_replicate
  rw [← hindex] at hskip
  obtain ⟨fs, after, rfl, rfl, hread⟩ := (grammar.runsRead fuel).skip hskip
  obtain ⟨hfilled, hsettled⟩ := filled_of_reads hread
  exact ⟨fs, after, rfl, by rw [List.length_append, hindex], hfilled, hsettled⟩

/-- What is matched is the front of the text. -/
theorem split_of_matches (h : grammar.Matches atomic a ⟨i, cs⟩ later nodes) : ∃ xs after,
    cs = xs ++ after ∧ later = ⟨i + xs.length, after⟩ ∧
      grammar.Reads atomic (.once a) (List.replicate i ' ') xs after nodes := by
  obtain ⟨fuel, hrun⟩ := h
  have hindex : (List.replicate i ' ').length = i := List.length_replicate
  rw [← hindex] at hrun
  have hgives : grammar.Gives atomic (.once a) _ cs later nodes := (grammar.runsRead fuel).run hrun
  obtain ⟨xs, after, rfl, rfl, hread⟩ := hgives
  exact ⟨xs, after, rfl, by rw [List.length_append, hindex], hread⟩

/-- The rules that do not ask for the start of the text. -/
def isInside (r : Rule) : Bool := r != .query

theorem isPlaceless_body (r : Rule) (hr : isInside r = true) :
    (grammar.body r).every Peg.isPlaceless isInside = true := by
  cases r with
  | keyword w => rfl
  | query => cases hr
  | _ => decide

theorem Matches.moved (ha : a.every Peg.isPlaceless isInside = true)
    {j : Nat} (h : grammar.Matches atomic a ⟨i, cs⟩ ⟨j, ds⟩ nodes) (k : Nat) :
    grammar.Matches atomic a ⟨k + i, cs⟩ ⟨k + j, ds⟩ (nodes.map (Tree.moved k)) := by
  obtain ⟨fuel, hrun⟩ := h
  refine ⟨fuel, ?_⟩
  have hunnoticed := unnoticed_moved isPlaceless_body (by decide) k
  have hmoved := (Grammar.follows hunnoticed fuel).run atomic ⟨i, cs⟩ ha
  rw [hrun] at hmoved
  exact hmoved

theorem Yields.failed_moved (ha : a.every Peg.isPlaceless isInside = true)
    (h : grammar.Yields atomic a ⟨i, cs⟩ .failed) (k : Nat) :
    grammar.Yields atomic a ⟨k + i, cs⟩ .failed := by
  intro fuel
  have hunnoticed := unnoticed_moved isPlaceless_body (by decide) k
  have hmoved := (Grammar.follows hunnoticed fuel).run atomic ⟨i, cs⟩ ha
  rcases h fuel with hrun | hrun
  · rw [hrun] at hmoved
    exact .inl hmoved
  · rw [← hrun] at hmoved
    exact .inr hmoved.symm

/-! ## A text with one query -/

/-- A union and the query behind it. -/
def unionRound : Peg Rule := .seq (.rule .union) (.rule .singleQuery)

/-- The end of a text. -/
def queryEnd : Peg Rule := .seq (.opt (sign ";")) (.rule .endOfText)

/-- **`Alone cs fs xs gs tail t`** -- the text is filler, one query with the tree `t`, filler, and an
end. -/
structure Alone (cs fs xs gs tail : List Char) (t : Tree Rule) : Prop where
  split : cs = fs ++ (xs ++ (gs ++ tail))
  front : Filled fs (xs ++ (gs ++ tail))
  begins : Settled (xs ++ (gs ++ tail))
  query : grammar.Matches false (.rule .singleQuery) ⟨fs.length, xs ++ (gs ++ tail)⟩
    ⟨fs.length + xs.length, gs ++ tail⟩ [t]
  back : Filled gs tail
  settled : Settled tail
  single : grammar.Yields false unionRound ⟨fs.length + xs.length + gs.length, tail⟩ .failed
  ends : grammar.Matches false queryEnd ⟨fs.length + xs.length + gs.length, tail⟩ ⟨cs.length, []⟩
    [.node .endOfText cs.length [] []]

/-- A query leaves one node, and so does each part of a union. -/
theorem nodes_of_normal {r : Rule} (hr : r.kind = .normal)
    (h : grammar.Matches false (.rule r) c later nodes) : ∃ t, nodes = [t] ∧ t.rule = r := by
  obtain ⟨ns, -, rfl⟩ := h.of_rule
  have hkind : grammar.kind r = .normal := hr
  exact ⟨_, by rw [leaveNode, hkind]; rfl, rfl⟩

/-- What the end of a text consists of. -/
theorem matches_queryEnd (h : grammar.Matches false queryEnd ⟨i, tail⟩ later nodes) :
    later = ⟨i + tail.length, []⟩ ∧ nodes = [.node .endOfText (i + tail.length) [] []] ∧
      ∃ ss hs, tail = ss ++ hs ∧ (ss = [] ∨ ss = [';']) ∧ Filled hs [] := by
  obtain ⟨c₁, ns, c₂, ms, hopt, hskip, hend, rfl⟩ := h.of_seq
  obtain ⟨ss, rest, rfl, rfl, hread⟩ := split_of_matches hopt
  obtain ⟨hs, rest, rfl, rfl, hfilled, -⟩ := filled_of_skipped hskip
  obtain ⟨hsign, rfl⟩ : (ss = [] ∨ ss = [';']) ∧ ns = [] := by
    rcases hread.of_opt with hsign | ⟨rfl, hnone, -⟩
    · exact ⟨.inr hsign.of_text.1, hsign.of_text.2⟩
    · exact ⟨.inl rfl, hnone⟩
  obtain ⟨es, ⟨fuel, hstop⟩, rfl⟩ := hend.of_rule
  cases fuel with
  | zero => cases hstop
  | succ fuel =>
    have hstop : (if rest.isEmpty then Outcome.matched ⟨i + ss.length + hs.length, rest⟩ [] else .failed) =
        Outcome.matched later es := hstop
    split at hstop
    · rename_i hempty
      obtain rfl := List.isEmpty_iff.mp hempty
      obtain ⟨rfl, rfl⟩ := Outcome.matched.inj hstop
      exact ⟨by simp [Nat.add_assoc], by simp [Nat.add_assoc, leaveNode, grammar, Rule.kind, Cursor.textTo],
        ss, hs, by simp, hsign, hfilled⟩
    · cases hstop

theorem matches_of_parse (h : parse cs = .ok tree) :
    ∃ later, grammar.Matches false (.rule .query) ⟨0, cs⟩ later [tree] := by
  rw [parse] at h
  split at h
  · cases h
  cases hrun : grammar.run (fuelFor cs) false (.rule .query) ⟨0, cs⟩ with
  | failed | exhausted =>
    rw [hrun] at h
    cases h
  | matched later nodes =>
    obtain ⟨t, rfl, -⟩ := nodes_of_normal (r := .query) rfl ⟨fuelFor cs, hrun⟩
    rw [hrun] at h
    obtain rfl := Except.ok.inj h
    exact ⟨later, fuelFor cs, hrun⟩

theorem parse_of_yields (hdepth : nesting cs ≤ maxNesting)
    (h : grammar.Yields false (.rule .query) ⟨0, cs⟩ (.matched later [tree])) : parse cs = .ok tree := by
  have hanswers := run_fuelFor_answers cs
  rw [parse, if_neg (Nat.not_lt.mpr hdepth)]
  rcases h (fuelFor cs) with hrun | hrun
  · rw [hrun] at hanswers
    exact hanswers.elim
  · rw [← hrun]

/-- **An accepted text without a union has one query.** -/
theorem exists_alone (h : parse cs = .ok tree) (hsingle : childrenOf .union tree = []) :
    ∃ fs xs gs tail t, Alone cs fs xs gs tail t ∧
      tree = .node .query 0 cs [t, .node .endOfText cs.length [] []] := by
  obtain ⟨later, hquery⟩ := matches_of_parse h
  obtain ⟨parts, hbody, hnode⟩ := hquery.of_rule
  have hbody : grammar.Matches false (.seq .start (.seq (.rule .singleQuery)
      (.seq (.many unionRound) queryEnd))) ⟨0, cs⟩ later parts := hbody
  obtain ⟨c₁, ns, c₂, ms, hstart, hskip, hrest, rfl⟩ := hbody.of_seq
  obtain ⟨rfl, rfl⟩ : c₁ = ⟨0, cs⟩ ∧ ns = [] := by
    obtain ⟨fuel, hrun⟩ := hstart
    cases fuel with
    | zero => cases hrun
    | succ fuel =>
      cases hrun
      exact ⟨rfl, rfl⟩
  obtain ⟨fs, rest, rfl, rfl, hfront, hbegins⟩ := filled_of_skipped hskip
  obtain ⟨c₃, ns, c₄, ms, hone, hskip, hrest, rfl⟩ := hrest.of_seq
  obtain ⟨t, rfl, -⟩ := nodes_of_normal (r := .singleQuery) rfl hone
  obtain ⟨xs, rest, rfl, rfl, -⟩ := split_of_matches hone
  obtain ⟨gs, tail, rfl, rfl, hback, hsettled⟩ := filled_of_skipped hskip
  obtain ⟨c₅, ns, c₆, ms, hmany, hskip, hend, rfl⟩ := hrest.of_seq
  -- A round would leave the node of a union.
  obtain ⟨rfl, rfl, hnone⟩ : c₅ = ⟨0 + fs.length + xs.length + gs.length, tail⟩ ∧ ns = [] ∧
      grammar.Yields false unionRound ⟨0 + fs.length + xs.length + gs.length, tail⟩ .failed := by
    rcases hmany.of_many with hnone | ⟨c₇, us, vs, hround, rfl⟩
    · exact hnone
    · obtain ⟨_, us, _, ws, hunion, -, -, rfl⟩ := hround.of_seq
      obtain ⟨u, rfl, hu⟩ := nodes_of_normal (r := .union) rfl hunion
      have htree : tree = .node .query 0 _ _ := List.cons.inj hnode |>.1
      have hmem : u ∈ childrenOf .union tree := by
        rw [htree]
        exact List.mem_filter.mpr ⟨by simp [Tree.children], by simpa using hu⟩
      rw [hsingle] at hmem
      cases hmem
  obtain ⟨hs, rest, hsplit, rfl, hfilled, -⟩ := filled_of_skipped hskip
  -- Filler is skipped once more, but the text is settled.
  obtain rfl := hfilled.eq_nil (hsplit ▸ hsettled)
  obtain rfl : tail = rest := hsplit
  obtain ⟨rfl, rfl, -⟩ := matches_queryEnd hend
  simp only [Nat.zero_add, List.length_nil, Nat.add_zero] at *
  have hlength : fs.length + xs.length + gs.length + tail.length =
      (fs ++ (xs ++ (gs ++ tail))).length := by
    simp [Nat.add_assoc]
  rw [hlength] at hend hnode
  refine ⟨fs, xs, gs, tail, t, ⟨rfl, hfront, hbegins, hone, hback, hsettled, hnone, hend⟩, ?_⟩
  have htext (es : List Char) : (Cursor.mk 0 es).textTo ⟨es.length, []⟩ = es := by simp [Cursor.textTo]
  exact (List.cons.inj hnode).1.trans (by rw [htext]; rfl)

/-! ## A text that can be followed by a union -/

theorem bare_of_isCommentless (h : isCommentless .outside cs = true) : Bare cs :=
  ⟨[], by rw [List.append_nil]; exact uncommentFrom_of_commentless h⟩

/-- Filler without comments is blanks. -/
theorem blanks_of_filled (h : Filled fs after) (hbare : isCommentless .outside (fs ++ after) = true) :
    ∀ c ∈ fs, isFillerBlank c = true := by
  induction h with
  | nil => simp
  | @blank c fs after hc _ ih =>
    have hmode : modeAfter .outside [c] = .outside := closed_of_blanks (by simpa using hc)
    have hrest : isCommentless .outside ([c] ++ (fs ++ after)) = true := hbare
    simpa [hc] using ih (commentless_of_append hrest hmode)
  | @comment k fs after hne hsize _ _ =>
    have hnone := commentSize_of_not_opensComment (not_opensComment_of_commentless hbare (.inl rfl))
    rw [List.append_assoc, hsize] at hnone
    exact absurd (List.length_eq_zero_iff.mp hnone) hne

theorem lastInk_of_fillerBlanks (h : ∀ c ∈ fs, isFillerBlank c = true) : lastInk fs = none :=
  lastInk_of_blank fun c hc => (isBlank_of_isFillerBlank (h c hc)).1

/-- **A text with one query and nothing behind it is sealed** from the query on, if it has no
comments. -/
theorem Alone.sealed (h : Alone cs fs xs gs tail t) (hbare : isCommentless .outside cs = true)
    (hend : lastInk cs ≠ some ';') : tail = [] ∧ (∀ c ∈ gs, isFillerBlank c = true) ∧
      xs ≠ [] ∧ Sealed (xs ++ gs) := by
  obtain rfl := h.split
  have hfs := blanks_of_filled h.front hbare
  have hquery := commentless_of_append hbare (closed_of_blanks hfs)
  obtain ⟨xs', after, hsplit, hlater, hread⟩ := split_of_matches h.query
  obtain ⟨rfl, rfl⟩ : xs' = xs ∧ after = gs ++ tail := by
    obtain ⟨hindex, hrest⟩ := Cursor.mk.inj hlater
    have hlength : xs.length = xs'.length := by omega
    obtain ⟨hxs, hafter⟩ := List.append_inj hsplit hlength
    exact ⟨hxs.symm, hafter.symm⟩
  have hbarequery : Bare xs' := (bare_of_isCommentless hquery).left
  have hbalances := balances_of_reads (pass_rule (r := .singleQuery) rfl) hread hbarequery
  obtain ⟨last, hlast, hfinished⟩ := lastInk_of_singleQuery hbarequery hread
  have hback := commentless_of_append hquery hbalances.closed
  have hgs := blanks_of_filled h.back hback
  have htail := commentless_of_append hback (closed_of_blanks hgs)
  obtain ⟨-, -, ss, hs, rfl, hsign, hfilled⟩ := matches_queryEnd h.ends
  obtain rfl : ss = [] := by
    rcases hsign with hsign | rfl
    · exact hsign
    · have hrest := commentless_of_append htail (rfl : modeAfter .outside [';'] = .outside)
      rw [← List.append_nil hs] at hrest
      have hnone := lastInk_of_fillerBlanks (blanks_of_filled hfilled hrest)
      refine absurd ?_ hend
      simp only [lastInk_append, hnone]
      rfl
  obtain rfl := hfilled.eq_nil (by simpa using h.settled)
  have hblank : Blank gs := fun c hc => (isBlank_of_isFillerBlank (hgs c hc)).1
  have hnone := lastInk_of_blank hblank
  have hpaired := hbalances.parens 0 gs
  rw [(paired_of_blank hblank).parens] at hpaired
  refine ⟨rfl, hgs, fun hnil => ?_, ⟨0, ?_, ?_, hpaired⟩, fun c hc => ?_⟩
  · rw [hnil] at hlast
    cases hlast
  · rw [modeAfter_append, hbalances.closed]
    exact closed_of_blanks hgs
  · simpa using hquery
  · rw [lastInk_append, hnone, Option.none_or, hlast] at hc
    rwa [← Option.some.inj hc]

/-- **The first query is read as before** with a union behind it, and filler leads to the union. -/
theorem Alone.followed (h : Alone cs fs xs gs [] t) (hgs : ∀ c ∈ gs, isFillerBlank c = true)
    (hne : xs ≠ []) (hsealed : Sealed (xs ++ gs)) (more : List Char) : ∃ d t', Similar Widened t t' ∧
      grammar.Matches false (.rule .singleQuery) ⟨fs.length, xs ++ gs ++ unionBehind more⟩ d [t'] ∧
      grammar.Skips false d ⟨cs.length + 1, unionWord ++ more⟩ := by
  obtain rfl := h.split
  have hquery := h.query
  have hbegins := h.begins
  rw [List.append_nil] at hquery hbegins
  -- With enough fuel the run on the longer text answers, and the run on the query alone does as well.
  obtain ⟨fuel, hfirst⟩ := hquery
  obtain ⟨fuel', hanswers⟩ : ∃ fuel', ∀ fuel ≥ fuel', (grammar.run fuel false (.rule .singleQuery)
      ⟨fs.length, xs ++ gs ++ unionBehind more⟩).Answers :=
    ⟨_, fun fuel hfuel => Ranking.run_answers ranking_bounds rfl hfuel⟩
  have hanswers := hanswers (max fuel fuel') (Nat.le_max_right _ _)
  have hyields : grammar.Yields false (.rule .singleQuery) _ _ := yields_of_run hfirst (by simp)
  have hsound : isSound false (.rule .singleQuery) = true := by decide
  have halike := (inStep more (max fuel fuel')).run (i := fs.length) hsound hsealed
    fun _ => ⟨List.append_ne_nil_of_left_ne_nil hne _, hbegins⟩
  have hleft : grammar.run (max fuel fuel') false (.rule .singleQuery) ⟨fs.length, xs ++ gs⟩ =
      .matched ⟨fs.length + xs.length, gs⟩ [t] := by
    rcases grammar.run_settles (Nat.le_max_left fuel fuel') false (.rule .singleQuery)
      ⟨fs.length, xs ++ gs⟩ with hrun | hrun
    · rw [hfirst] at hrun
      cases hrun
    · rw [hrun, hfirst]
  rw [hleft] at halike
  cases hrun : grammar.run (max fuel fuel') false (.rule .singleQuery)
      ⟨fs.length, xs ++ gs ++ unionBehind more⟩ with
  | exhausted =>
    rw [hrun] at hanswers
    exact hanswers.elim
  | failed =>
    rw [hrun] at halike
    exact halike.elim
  | matched d ms =>
    rw [hrun] at halike
    obtain ⟨hreaches, hnodes⟩ := halike
    obtain ⟨t', rfl, -⟩ := nodes_of_normal (r := .singleQuery) rfl ⟨_, hrun⟩
    have hsimilar : Similar Widened t t' := by
      cases hnodes with
      | cons hone _ => exact hone
    refine ⟨d, t', hsimilar, ⟨_, hrun⟩, ?_⟩
    have hend : (fs ++ (xs ++ (gs ++ []))).length = fs.length + xs.length + gs.length := by
      simp [Nat.add_assoc]
    rw [hend]
    generalize hplace : Cursor.mk (fs.length + xs.length) gs = place at hreaches
    cases hreaches with
    | apart hsplit _ =>
      obtain ⟨hindex, rfl⟩ := Cursor.mk.inj hplace
      rw [← hindex]
      have hblanks : ∀ c ∈ gs ++ [' '], isFillerBlank c = true := fun c hc => by
        rcases List.mem_append.mp hc with hc | hc
        · exact hgs c hc
        · rw [List.mem_singleton.mp hc]
          rfl
      have hskip := skips_of_filled (filled_of_blanks hblanks) (settled_union more) (fs.length + xs.length)
      rw [List.length_append, ← Nat.add_assoc] at hskip
      simpa [unionBehind] using hskip
    | slid _ =>
      obtain ⟨hindex, rfl⟩ := Cursor.mk.inj hplace
      have hskip := skips_of_settled (settled_union more) (fs.length + xs.length + 1) false
      simpa [hindex] using hskip

/-! ## The union -/

/-- A keyword in front of a blank is read. -/
theorem yields_keyword (w : String) (i : Nat) (rest : List Char) :
    grammar.Yields false (.rule (.keyword w)) ⟨i, w.toList ++ ' ' :: rest⟩
      (.matched ⟨i + w.toList.length, ' ' :: rest⟩ [.node (.keyword w) i w.toList []]) := by
  have hword : grammar.Yields true (.word w.toList) ⟨i, w.toList ++ ' ' :: rest⟩
      (.matched ⟨i + w.toList.length, ' ' :: rest⟩ []) := by
    refine yields_of_succ fun fuel => .inr ?_
    rw [Grammar.run, stripWord_eq_some.mpr ⟨w.toList, rfl, rfl⟩]
    rfl
  have hends : grammar.Yields true identChar ⟨i + w.toList.length, ' ' :: rest⟩ .failed := by
    refine Yields.right ?_ (Yields.right ?_ ?_) <;> exact yields_of_succ fun _ => .refl _
  have hbody : grammar.Yields true (grammar.body (.keyword w)) ⟨i, w.toList ++ ' ' :: rest⟩ _ :=
    hword.seq (skips_atomic _) hends.absent
  have hrule : grammar.Yields false (.rule (.keyword w)) _ _ := Yields.rule hbody
  have hnode : leaveNode (grammar.kind (Rule.keyword w)) false (Rule.keyword w) ⟨i, w.toList ++ ' ' :: rest⟩
      ⟨i + w.toList.length, ' ' :: rest⟩ [] = [.node (Rule.keyword w) i w.toList []] := by
    simp [leaveNode, grammar, Rule.kind, Cursor.textTo]
  simp only [Outcome.andThen, List.append_nil, hnode] at hrule
  exact hrule

/-- The rules that begin with a letter other than that of `ALL`. -/
def isClause : Rule → Bool
  | .singleQuery | .matchClause | .unwindClause | .withClause | .returnClause => true
  | .keyword w => !w.toList.isEmpty && clashes sameIgnoringCase ['a'] w.toList
  | _ => false

theorem knows_letterA : grammar.Knows ['a'] isClause where
  still hcs atomic i := by
    obtain ⟨rest, rfl⟩ := hcs.begins
    exact skips_of_settled ⟨by simp [isFillerBlank], rfl⟩ i atomic
  rule r hr := by
    refine .inl ?_
    cases r with
    | keyword w =>
      obtain ⟨hne, hfirst⟩ := (Bool.and_eq_true _ _).mp hr
      have hword : (Peg.word w.toList).verdict ['a'] isClause = some false := by
        rw [Peg.verdict, if_neg (by simpa using hne), if_pos hfirst]
      show (Peg.seq (.word w.toList) (.absent identChar)).verdict ['a'] isClause = some false
      rw [Peg.verdict, hword]
      rfl
    | _ => first | decide | cases hr

/-- **No query begins with `ALL`.** -/
theorem yields_all_failed {rest : List Char}
    (h : grammar.Matches false (.rule .singleQuery) ⟨i, rest⟩ later nodes) (j : Nat) :
    grammar.Yields false (.rule (.keyword "ALL")) ⟨j, rest⟩ .failed := by
  have hfirst : ∀ x ∈ rest.head?, asciiLower x ≠ 'a' := by
    intro x hx hlower
    refine h.not_failed fun fuel => ?_
    obtain ⟨tail, rfl⟩ : ∃ tail, rest = x :: tail := List.head?_eq_some_iff.mp hx
    have hfront : Fronts ['a'] (folded (x :: tail)) :=
      ⟨⟨folded tail, by simp [folded, hlower]⟩, by simp⟩
    have hverdict : (Peg.rule Rule.singleQuery).verdict ['a'] isClause = some false := by decide
    have hfails := knows_letterA.yields hfront hverdict false i
    have hsame : grammar.run fuel false (.rule .singleQuery) ⟨i, folded (x :: tail)⟩ =
        (grammar.run fuel false (.rule .singleQuery) ⟨i, x :: tail⟩).changed (.lower Rule) :=
      Grammar.run_changed false ⟨i, x :: tail⟩ unnoticed_lower rfl
    have hfails := hfails fuel
    rw [hsame] at hfails
    cases hrun : grammar.run fuel false (.rule .singleQuery) ⟨i, x :: tail⟩ with
    | exhausted => exact .inl rfl
    | failed => exact .refl _
    | matched c ns =>
      rw [hrun] at hfails
      rcases hfails with hfails | hfails <;> cases hfails
  have hword : stripWord "ALL".toList rest = none := by
    cases rest with
    | nil => rfl
    | cons x tail =>
      have hx : sameIgnoringCase 'A' x = false := by
        exact beq_eq_false_iff_ne.mpr (Ne.symm (hfirst x rfl))
      show stripWord ['A', 'L', 'L'] (x :: tail) = none
      rw [stripWord, hx]
      rfl
  have hnone : grammar.Yields true (.word "ALL".toList) ⟨j, rest⟩ .failed :=
    yields_of_succ fun fuel => .inr (by rw [Grammar.run, hword]; rfl)
  have hbody : grammar.Yields true (grammar.body (.keyword "ALL")) ⟨j, rest⟩ .failed := hnone.seq_failed
  have hrule : grammar.Yields false (.rule (.keyword "ALL")) ⟨j, rest⟩ _ := Yields.rule hbody
  exact hrule

/-- How two queries are joined. -/
inductive UnionWord where
  /-- By `UNION`. -/
  | distinct
  /-- By `UNION ALL`. -/
  | all

/-- The text between two queries, with a blank on either side. -/
def UnionWord.text : UnionWord → List Char
  | .distinct => " UNION ".toList
  | .all => " UNION ALL ".toList

/-- What stands behind the first word. -/
def UnionWord.behind : UnionWord → List Char
  | .distinct => []
  | .all => "ALL ".toList

theorem UnionWord.text_append (w : UnionWord) (ds : List Char) :
    w.text ++ ds = unionBehind (w.behind ++ ds) := by
  cases w <;> rfl

theorem UnionWord.length_text (w : UnionWord) : w.text.length = w.behind.length + 7 := by
  cases w <;> rfl

/-- The node says nothing about what a query asks for. -/
def IsSilent (u : Tree Rule) : Prop := eventsOf false u = [] ∧ conditionsOf u = []

/-- **The word of a union is read**, and filler leads to the query behind it. -/
theorem yields_union (w : UnionWord) (hfs : Filled fs after) (hafter : Settled after)
    (hall : ∀ j, grammar.Yields false (.rule (.keyword "ALL")) ⟨j, after⟩ .failed) (i : Nat) :
    ∃ c u, grammar.Yields false (.rule .union) ⟨i, unionWord ++ (w.behind ++ (fs ++ after))⟩ (.matched c [u]) ∧
      grammar.Skips false c ⟨i + 6 + w.behind.length + fs.length, after⟩ ∧ IsSilent u := by
  have hfirst : grammar.Yields false (.rule (.keyword "UNION"))
      ⟨i, unionWord ++ (w.behind ++ (fs ++ after))⟩ _ := yields_keyword "UNION" i (w.behind ++ (fs ++ after))
  have hblank : Filled (' ' :: fs) after := .blank rfl hfs
  cases w with
  | distinct =>
    have hskip := skips_of_filled hblank hafter (i + 5)
    have hopt : grammar.Yields false (.opt (.rule (.keyword "ALL"))) ⟨i + 5 + (' ' :: fs).length, after⟩
        (.matched ⟨i + 5 + (' ' :: fs).length, after⟩ []) :=
      yields_of_succ fun fuel => by
        rw [Grammar.run]
        exact (hall _ fuel).else_failed (.refl _)
    have hbody : grammar.Yields false (grammar.body .union) _ _ := hfirst.seq hskip hopt
    have hrule : grammar.Yields false (.rule .union) _ _ := Yields.rule hbody
    refine ⟨_, _, hrule, ?_, rfl, rfl⟩
    have hplace : i + 5 + (' ' :: fs).length = i + 6 + UnionWord.distinct.behind.length + fs.length := by
      simp only [UnionWord.behind, List.length_cons, List.length_nil]
      omega
    rw [← hplace]
    exact skips_of_settled hafter _ false
  | all =>
    have hsettled : Settled ("ALL".toList ++ ' ' :: (fs ++ after)) := ⟨by simp [isFillerBlank], rfl⟩
    have hspace : Filled [' '] ("ALL".toList ++ ' ' :: (fs ++ after)) := .blank rfl .nil
    have hskip := skips_of_filled hspace hsettled (i + 5)
    have hword := yields_keyword "ALL" (i + 6) (fs ++ after)
    have hopt : grammar.Yields false (.opt (.rule (.keyword "ALL"))) ⟨i + 6, "ALL".toList ++ ' ' :: (fs ++ after)⟩ _ :=
      yields_of_succ fun fuel => by
        rw [Grammar.run]
        exact (hword fuel).else_matched
    have hbody : grammar.Yields false (grammar.body .union) _ _ := hfirst.seq hskip hopt
    have hrule : grammar.Yields false (.rule .union) _ _ := Yields.rule hbody
    refine ⟨_, _, hrule, ?_, rfl, rfl⟩
    have hplace : i + 9 + (' ' :: fs).length = i + 6 + UnionWord.all.behind.length + fs.length := by
      have hlength : UnionWord.all.behind.length = 4 := rfl
      rw [List.length_cons, hlength]
      omega
    rw [← hplace]
    exact skips_of_filled hblank hafter (i + 9)

/-- **The tree of two queries with a union between them** has the first query, but for a blank at the
ends of its last nodes, the union, and the second query, further to the right. -/
theorem parse_union {ta tb : Tree Rule} (ha : parse cs = .ok ta) (hb : parse ds = .ok tb)
    (hsinglea : childrenOf .union ta = []) (hsingleb : childrenOf .union tb = [])
    (hbare : isCommentless .outside cs = true) (hend : lastInk cs ≠ some ';') (w : UnionWord)
    (hdepth : nesting (cs ++ (w.text ++ ds)) ≤ maxNesting) : ∃ t s u t' e k,
      ta = .node .query 0 cs [t, .node .endOfText cs.length [] []] ∧
      tb = .node .query 0 ds [s, .node .endOfText ds.length [] []] ∧
      parse (cs ++ (w.text ++ ds)) = .ok (.node .query 0 (cs ++ (w.text ++ ds)) [t', u, s.moved k, e]) ∧
      Similar Widened t t' ∧ IsSilent u ∧ IsSilent e := by
  obtain ⟨fs, xs, gs, tail, t, hfirst, rfl⟩ := exists_alone ha hsinglea
  obtain ⟨fs', xs', gs', tail', s, hsecond, rfl⟩ := exists_alone hb hsingleb
  obtain ⟨rfl, hgs, hne, hsealed⟩ := hfirst.sealed hbare hend
  obtain ⟨d, t', hsimilar, hquery, hskip⟩ := hfirst.followed hgs hne hsealed (w.behind ++ ds)
  have hsplit : cs ++ (w.text ++ ds) = fs ++ (xs ++ gs ++ unionBehind (w.behind ++ ds)) := by
    rw [w.text_append]
    conv_lhs => rw [hfirst.split]
    simp
  -- The first query begins where it did.
  have hbegins : Settled (xs ++ gs ++ unionBehind (w.behind ++ ds)) := by
    have hsettled := hfirst.begins
    rw [List.append_nil] at hsettled
    exact settled_behind hsealed hsettled (List.append_ne_nil_of_left_ne_nil hne _) _
  have hfs : Filled fs (xs ++ gs ++ unionBehind (w.behind ++ ds)) := by
    have hblanks := hbare
    rw [hfirst.split] at hblanks
    exact filled_of_blanks (blanks_of_filled hfirst.front hblanks)
  have hstart := skips_of_filled hfs hbegins 0
  rw [Nat.zero_add] at hstart
  -- The second one stands further to the right.
  obtain ⟨k, hk⟩ : ∃ k, k = cs.length + 1 + 6 + w.behind.length := ⟨_, rfl⟩
  have hmoved := Matches.moved (a := .rule .singleQuery) (by decide) hsecond.query k
  obtain ⟨c, u, hunion, hnext, hsilent⟩ := yields_union w hsecond.front hsecond.begins
    (yields_all_failed hsecond.query) (cs.length + 1)
  rw [← hsecond.split] at hunion
  rw [← hk] at hnext
  have hround : grammar.Yields false unionRound ⟨cs.length + 1, unionWord ++ (w.behind ++ ds)⟩
      (.matched ⟨k + (fs'.length + xs'.length), gs' ++ tail'⟩ [u, s.moved k]) :=
    hunion.seq hnext hmoved.yields
  have hback := skips_of_filled hsecond.back hsecond.settled (k + (fs'.length + xs'.length))
  rw [Nat.add_assoc] at hback
  have hnone := Yields.failed_moved (a := unionRound) (by decide) hsecond.single k
  have hrounds : grammar.Yields false (.many unionRound) ⟨cs.length + 1, unionWord ++ (w.behind ++ ds)⟩
      (.matched ⟨k + (fs'.length + xs'.length), gs' ++ tail'⟩ [u, s.moved k]) :=
    Walks.yields_many hround (.done hback hnone)
  have hends := Matches.moved (a := queryEnd) (by decide) hsecond.ends k
  let e : Tree Rule := (Tree.node .endOfText ds.length [] []).moved k
  have hrest : grammar.Yields false (.seq (.many unionRound) queryEnd)
      ⟨cs.length + 1, unionWord ++ (w.behind ++ ds)⟩ (.matched ⟨k + ds.length, []⟩ [u, s.moved k, e]) :=
    hrounds.seq hback hends.yields
  have hqueries : grammar.Yields false (.seq (.rule .singleQuery) (.seq (.many unionRound) queryEnd))
      ⟨fs.length, xs ++ gs ++ unionBehind (w.behind ++ ds)⟩
      (.matched ⟨k + ds.length, []⟩ [t', u, s.moved k, e]) := hquery.yields.seq hskip hrest
  have hopens : grammar.Yields false .start ⟨0, cs ++ (w.text ++ ds)⟩ (.matched ⟨0, cs ++ (w.text ++ ds)⟩ []) :=
    yields_of_succ fun _ => .refl _
  rw [← hsplit] at hstart
  have hbody : grammar.Yields false (grammar.body .query) ⟨0, cs ++ (w.text ++ ds)⟩
      (.matched ⟨k + ds.length, []⟩ [t', u, s.moved k, e]) := hopens.seq hstart hqueries
  have hrule : grammar.Yields false (.rule .query) ⟨0, cs ++ (w.text ++ ds)⟩ _ := Yields.rule hbody
  have htext : Cursor.textTo ⟨0, cs ++ (w.text ++ ds)⟩ ⟨k + ds.length, []⟩ = cs ++ (w.text ++ ds) := by
    rw [Cursor.textTo]
    refine List.take_of_length_le ?_
    rw [List.length_append, List.length_append, w.length_text]
    simp only
    omega
  have hnode : leaveNode (grammar.kind .query) false .query ⟨0, cs ++ (w.text ++ ds)⟩ ⟨k + ds.length, []⟩
      [t', u, s.moved k, e] = [.node .query 0 (cs ++ (w.text ++ ds)) [t', u, s.moved k, e]] :=
    congrArg (fun text => [Tree.node Rule.query 0 text [t', u, s.moved k, e]]) htext
  simp only [Outcome.andThen, hnode] at hrule
  exact ⟨t, s, u, t', e, k, rfl, rfl, parse_of_yields hdepth hrule, hsimilar, hsilent, rfl, rfl⟩

end QueryScore.Cypher
