/-
# QueryScore.Proofs.Cypher.ReturnClause -- the first `RETURN`, in the text and in the tree

Columns and grouping keys are read off the text of the first `RETURN`, which a search for
keywords isolates. Here the clause of the tree is found in the text (`exists_clause`): what stands
before it, its list, and what ends the list, which is the end of the text, a semicolon, or one of
the keywords the search looks for (`Closing`). Where no label, type or key and no digit misleads
the search, the returned items of the text are those of the tree (`returnItems_eq`).
-/

import QueryScore.Proofs.Cypher.Guard
import QueryScore.Proofs.Cypher.ReturnItem

namespace QueryScore.Cypher

open Text Grammar Peg

/-! ## What the tree says -/

/-- The `RETURN` clause of the first single query. -/
def returnClause? (tree : Tree Rule) : Option (Tree Rule) :=
  (childOf? .singleQuery tree).bind (childOf? .returnClause)

/-- The clauses before it. -/
def clausesBefore (tree : Tree Rule) : List (Tree Rule) :=
  match childOf? .singleQuery tree with
  | some q => q.children.filter fun child => child.rule ≠ .returnClause
  | none => []

/-- The list of what it returns. -/
def returnedList? (tree : Tree Rule) : Option (Tree Rule) :=
  ((returnClause? tree).bind (childOf? .projectionBody)).bind (childOf? .projectionItems)

/-- The items of that list. -/
def returnedTrees (tree : Tree Rule) : List (Tree Rule) :=
  match returnedList? tree with
  | some list => list.children
  | none => []

/-- The clause with the sort keys of that `RETURN`. -/
def orderClause? (tree : Tree Rule) : Option (Tree Rule) :=
  ((returnClause? tree).bind (childOf? .projectionBody)).bind (childOf? .orderClause)

/-- The index behind a node. -/
def stopOf (t : Tree Rule) : Nat := t.start + t.text.length

/-- **`ShowsClause source tree`** -- the searches for the clause and for the end of its list are not
led astray. -/
structure ShowsClause (source : List Char) (tree : Tree Rule) : Prop where
  /-- No label, type or key before the clause is taken for its `RETURN`. -/
  clauses : ∀ t ∈ clausesBefore tree, isCalm returnSearch.keywords source t = true
  /-- Its `RETURN` does not follow a digit directly. -/
  apart : ∀ clause ∈ returnClause? tree, digitBefore source clause.start = false
  /-- No label, type or key of an item is taken for the end of the list. -/
  list : ∀ t ∈ returnedTrees tree, isCalm boundarySearch.keywords source t = true
  /-- No letter follows a digit at the end of the list directly. -/
  stop : ∀ list ∈ returnedList? tree, digitBefore source (stopOf list) = true →
    (source.drop (stopOf list)).head?.any Char.isAlpha = false

instance (source : List Char) (tree : Tree Rule) : Decidable (ShowsClause source tree) :=
  decidable_of_iff ((∀ t ∈ clausesBefore tree, isCalm returnSearch.keywords source t = true) ∧
      (∀ clause ∈ returnClause? tree, digitBefore source clause.start = false) ∧
      (∀ t ∈ returnedTrees tree, isCalm boundarySearch.keywords source t = true) ∧
      ∀ list ∈ returnedList? tree, digitBefore source (stopOf list) = true →
        (source.drop (stopOf list)).head?.any Char.isAlpha = false)
    ⟨fun ⟨h₁, h₂, h₃, h₄⟩ => ⟨h₁, h₂, h₃, h₄⟩, fun h => ⟨h.clauses, h.apart, h.list, h.stop⟩⟩

/-- **`ShowsReturn source tree`** -- the searches that isolate the returned list are not led
astray. -/
structure ShowsReturn (source : List Char) (tree : Tree Rule) : Prop where
  /-- No label, type or key before the clause is taken for its `RETURN`. -/
  clauses : ∀ t ∈ clausesBefore tree, isCalm returnSearch.keywords source t = true
  /-- Its `RETURN` does not follow a digit directly. -/
  apart : ∀ clause ∈ returnClause? tree, digitBefore source clause.start = false
  /-- No label, type or key of an item is taken for the end of the list. -/
  list : ∀ t ∈ returnedTrees tree, isCalm boundarySearch.keywords source t = true
  /-- No letter follows a digit at the end of the list directly. -/
  stop : ∀ list ∈ returnedList? tree, digitBefore source (stopOf list) = true →
    (source.drop (stopOf list)).head?.any Char.isAlpha = false
  /-- No label, type or key of an item and no digit hides an `AS`. -/
  items : ∀ t ∈ returnedTrees tree, ShowsAlias source t

instance (source : List Char) (tree : Tree Rule) : Decidable (ShowsReturn source tree) :=
  decidable_of_iff ((∀ t ∈ clausesBefore tree, isCalm returnSearch.keywords source t = true) ∧
      (∀ clause ∈ returnClause? tree, digitBefore source clause.start = false) ∧
      (∀ t ∈ returnedTrees tree, isCalm boundarySearch.keywords source t = true) ∧
      (∀ list ∈ returnedList? tree, digitBefore source (stopOf list) = true →
        (source.drop (stopOf list)).head?.any Char.isAlpha = false) ∧
      ∀ t ∈ returnedTrees tree, ShowsAlias source t)
    ⟨fun ⟨h₁, h₂, h₃, h₄, h₅⟩ => ⟨h₁, h₂, h₃, h₄, h₅⟩,
      fun h => ⟨h.clauses, h.apart, h.list, h.stop, h.items⟩⟩

theorem ShowsReturn.clause {source : List Char} {tree : Tree Rule} (h : ShowsReturn source tree) :
    ShowsClause source tree :=
  ⟨h.clauses, h.apart, h.list, h.stop⟩

/-! ## What ends a list -/

/-- **`Closing keywords after`** -- the end of a text, blanks and a semicolon aside, or one of the
keywords, behind blanks. -/
def Closing (keywords : List String) (after : List Char) : Prop :=
  ∃ bs rest, after = bs ++ rest ∧ Blank bs ∧
    (rest = [] ∨ (∃ bs', rest = ';' :: bs' ∧ Blank bs') ∨
      ∃ keyword ∈ keywords, ∃ later,
        stripKeyword keyword.toList rest = some later ∧ ∃ c ∈ rest.head?, c.isAlpha = true)

variable {keywords : List String} {before cs ds after bs : List Char} {nodes : List (Tree Rule)}

theorem Closing.blank (hbs : Blank bs) (h : Closing keywords after) :
    Closing keywords (bs ++ after) := by
  obtain ⟨bs', rest, rfl, hbs', hrest⟩ := h
  exact ⟨bs ++ bs', rest, (List.append_assoc _ _ _).symm, hbs.append hbs', hrest⟩

theorem Closing.nil : Closing keywords [] := ⟨[], [], rfl, .nil, .inl rfl⟩

theorem Closing.semicolon (hbs : Blank bs) : Closing keywords (';' :: bs) :=
  ⟨[], ';' :: bs, rfl, .nil, .inr (.inl ⟨bs, rfl, hbs⟩)⟩

/-- Behind a list stands no letter, or one of the keywords, behind blanks. -/
theorem Closing.cases (h : Closing keywords after) : (∀ c ∈ after, c.isAlpha = false) ∨
    ∃ bs rest, after = bs ++ rest ∧ Blank bs ∧ ∃ keyword ∈ keywords, ∃ later,
      stripKeyword keyword.toList rest = some later ∧ ∃ c ∈ rest.head?, c.isAlpha = true := by
  obtain ⟨bs, rest, rfl, hbs, rfl | ⟨bs', rfl, hbs'⟩ | hfound⟩ := h
  · exact .inl (by simpa using fun c hc => not_isAlpha_of_isBlank (hbs c hc))
  · refine .inl fun c hc => ?_
    rcases List.mem_append.mp hc with hc | hc
    · exact not_isAlpha_of_isBlank (hbs c hc)
    rcases List.mem_cons.mp hc with rfl | hc
    · decide
    · exact not_isAlpha_of_isBlank (hbs' c hc)
  · exact .inr ⟨bs, rest, rfl, hbs, hfound⟩

theorem Closing.mono {more : List String} (hsub : keywords ⊆ more) (h : Closing keywords after) :
    Closing more after := by
  obtain ⟨bs, rest, hsplit, hbs, hrest⟩ := h
  refine ⟨bs, rest, hsplit, hbs, hrest.imp_right (.imp_right ?_)⟩
  rintro ⟨keyword, hkeyword, hfound⟩
  exact ⟨keyword, hsub hkeyword, hfound⟩

/-- **`BeginsAscii cs`** -- a text that begins with a character of ASCII, if with any. -/
def BeginsAscii (cs : List Char) : Prop := ∀ c ∈ cs.head?, isAscii c = true

theorem startsInsideWord_of_beginsAscii (hascii : BeginsAscii after)
    (hname : ∀ c ∈ after.head?, isNameChar c = false) : startsInsideWord after = false := by
  cases after with
  | nil => rfl
  | cons c rest => exact not_isIdentifierChar_of_head hascii hname c rfl

/-- A stretch that the grammar can be followed along begins with a character of ASCII. -/
theorem beginsAscii_of_reads {e : Peg Rule} (h : grammar.Reads false (.once e) before cs after nodes)
    (hpass : (stanceFlow.pass e { owner := .endOfText, apart := true, settled := true }).isSome) :
    BeginsAscii cs := by
  obtain ⟨t, ht⟩ := Option.isSome_iff_exists.mp hpass
  exact (Flow.relates follows_respects h ht).led

theorem closing_of_keyword {w : String} (hw : SingleWord w) (hmem : w ∈ keywords)
    (h : grammar.Reads true (.once (Rule.body (.keyword w))) before cs after nodes)
    (hascii : BeginsAscii after) : Closing keywords (cs ++ after) := by
  obtain ⟨hcs, hname⟩ := reads_keyword h
  have hstrip : stripKeyword w.toList (cs ++ after) = some after :=
    hw.strip.mpr ⟨cs, rfl, hcs, startsInsideWord_of_beginsAscii hascii hname⟩
  refine ⟨[], cs ++ after, rfl, .nil, .inr (.inr ⟨w, hmem, after, hstrip, ?_⟩)⟩
  obtain ⟨c, cs, rfl⟩ := List.exists_cons_of_ne_nil (hw.ne_nil hcs)
  exact ⟨c, rfl, isAlpha_of_mem hcs hw.alpha c (by simp)⟩

/-- A clause that a keyword begins. -/
theorem closing_of_clause {w : String} {e : Peg Rule} (hw : SingleWord w)
    (hmem : w ∈ keywords)
    (h : grammar.Reads false (.once (.seq (wholeWord w) e)) before cs after nodes)
    (hpass : (stanceFlow.pass e { owner := .endOfText, apart := true, settled := true }).isSome)
    (hascii : BeginsAscii after) : Closing keywords (cs ++ after) := by
  obtain ⟨ws, fs, ys, _, _, _, rfl, rfl, hword, hgap, hrest⟩ := h.of_loose_seq
  obtain ⟨rfl, hkeyword⟩ := hword.of_atomic rfl
  rw [List.append_assoc, List.append_assoc]
  exact closing_of_keyword hw hmem hkeyword
    (led_append (led_of_filler hgap) (led_append (beginsAscii_of_reads hrest hpass) hascii))

/-- The last letter of a word is no digit. -/
theorem not_isDigit_of_letters {ws : List Char} (h : cs.map asciiLower = ws.map asciiLower)
    (hws : ∀ c ∈ ws, c.isAlpha = true) : ∀ c ∈ cs.getLast?, c.isDigit = false := by
  intro c hc
  rw [Bool.eq_false_iff]
  intro hdigit
  have hletter := isAlpha_of_mem h hws c (List.mem_of_getLast? hc)
  rw [not_isAlpha_of_isDigit hdigit] at hletter
  cases hletter

/-- The two words with blanks between them are found as one keyword. -/
theorem stripKeyword_orderBy {ws fs vs rest : List Char}
    (hfirst : ws.map asciiLower = "ORDER".toList.map asciiLower) (hblank : Blank fs) (hne : fs ≠ [])
    (hsecond : vs.map asciiLower = "BY".toList.map asciiLower)
    (hstop : startsInsideWord rest = false) :
    stripKeyword "ORDER BY".toList (ws ++ (fs ++ (vs ++ rest))) = some rest := by
  have hwords : words "ORDER BY".toList = ["ORDER".toList, "BY".toList] := by decide
  have htrim : trimStart (fs ++ (vs ++ rest)) = vs ++ rest := by
    rw [trimStart_blank hblank]
    cases vs with
    | nil => cases hsecond
    | cons v vs =>
      refine trimStart_of_head fun c hc => ?_
      obtain rfl := Option.some.inj hc
      have hletter := isAlpha_of_mem hsecond (List.all_eq_true.mp (by decide)) v (by simp)
      exact (isIdentifierChar_of_isNameChar (isNameChar_of_isAlpha hletter)).2
  have hspaced : stripSpacedWords ["BY".toList] (fs ++ (vs ++ rest)) = some rest := by
    obtain ⟨f, fs, rfl⟩ := List.exists_cons_of_ne_nil hne
    rw [List.cons_append, stripSpacedWords, if_pos (hblank f (by simp)), ← List.cons_append, htrim]
    exact Option.bind_eq_some_iff.mpr ⟨_, stripWord_eq_some.mpr ⟨vs, rfl, hsecond⟩, rfl⟩
  rw [stripKeyword, hwords]
  exact Option.filter_eq_some_iff.mpr ⟨Option.bind_eq_some_iff.mpr
    ⟨_, stripWord_eq_some.mpr ⟨ws, rfl, hfirst⟩, hspaced⟩, by simp [hstop]⟩

/-- **`OrderBy before cs after front gap keys nodes`** -- the two words before sort keys, and the
list of keys behind them, which leaves the nodes. -/
structure OrderBy (before cs after front gap keys : List Char) (nodes : List (Tree Rule)) : Prop where
  text : cs = front ++ (gap ++ keys)
  /-- A search for the two words finds them. -/
  strips : stripKeyword "ORDER BY".toList (cs ++ after) = some (gap ++ (keys ++ after))
  letter : ∃ c ∈ cs.head?, c.isAlpha = true
  place : At 0 {} (before ++ front) (gap ++ (keys ++ after))
  digit : ∀ c ∈ (before ++ front).getLast?, c.isDigit = false
  /-- No name goes on behind the words. -/
  stops : ∀ c ∈ (gap ++ (keys ++ after)).head?, isNameChar c = false
  reads_gap : ∃ ns, grammar.Reads true (.once grammar.filler) (before ++ front) gap (keys ++ after) ns
  reads_keys : grammar.Reads false (.once (listed (.rule .sortItem))) (before ++ front ++ gap) keys
    after nodes

theorem exists_orderBy (h : grammar.Reads false (.once (Rule.body .orderClause)) before cs after
      nodes) (hat : At 0 {} before (cs ++ after)) (hascii : BeginsAscii after) :
    ∃ front gap keys, OrderBy before cs after front gap keys
      (nodes.filter fun n => n.rule = .sortItem) := by
  obtain ⟨ws, fs, ys, _, _, _, rfl, rfl, horder, hgap, hrest⟩ := h.of_loose_seq
  obtain ⟨vs, gs, zs, _, _, ns, rfl, rfl, hby, hspace, hkeys⟩ := hrest.of_loose_seq
  obtain ⟨rfl, hfirst⟩ := horder.of_atomic rfl
  obtain ⟨rfl, hsecond⟩ := hby.of_atomic rfl
  simp only [List.append_assoc] at hat hgap hfirst
  have hws := hat.token (r := .keyword "ORDER") (by decide) rfl hfirst
  obtain ⟨hfs, hblank⟩ := hws.filler hgap
  have hvs := hfs.token (r := .keyword "BY") (by decide) rfl hsecond
  obtain ⟨hspell, hend⟩ := reads_keyword hfirst
  obtain ⟨hspell', hstop⟩ := reads_keyword hsecond
  have hstop' : startsInsideWord (gs ++ (zs ++ after)) = false := by
    refine startsInsideWord_of_beginsAscii
      (led_append (led_of_filler hspace) (led_append ?_ hascii)) hstop
    exact beginsAscii_of_reads hkeys (by decide)
  have hvsne : vs ≠ [] := by
    rintro rfl
    cases hspell'
  -- the two words do not touch, because the first ends where no name goes on
  have hfsne : fs ≠ [] := by
    rintro rfl
    obtain ⟨v, vs, rfl⟩ := List.exists_cons_of_ne_nil hvsne
    have hletter := isAlpha_of_mem hspell' (List.all_eq_true.mp (by decide)) v (by simp)
    have hno := hend v rfl
    rw [isNameChar_of_isAlpha hletter] at hno
    cases hno
  have hkeyNodes : ns.filter (fun n => n.rule = .sortItem) = ns := by
    refine List.filter_eq_self.mpr fun n hn => ?_
    have hrule : n.rule ∈ [Rule.sortItem, .sortItem] := hkeys.rule_mem (by decide) n hn
    simpa using hrule
  refine ⟨ws ++ (fs ++ vs), gs, zs, by simp,
    by simpa using stripKeyword_orderBy hspell hblank hfsne hspell' hstop', ?_, by simpa using hvs, ?_,
    hstop, ⟨_, by simpa using hspace⟩, ?_⟩
  · cases ws with
    | nil => cases hspell
    | cons w ws => exact ⟨w, rfl, isAlpha_of_mem hspell (List.all_eq_true.mp (by decide)) w (by simp)⟩
  · have hlast : (before ++ (ws ++ (fs ++ vs))).getLast? = vs.getLast? := by
      rw [← List.append_assoc, ← List.append_assoc, List.getLast?_append,
        List.getLast?_eq_some_getLast hvsne, Option.some_or]
    rw [hlast]
    exact not_isDigit_of_letters hspell' (List.all_eq_true.mp (by decide))
  · rw [List.filter_append, List.filter_append, hkeyNodes]
    simpa [Tree.rule, seqs] using hkeys

theorem closing_of_order (hmem : "ORDER BY" ∈ keywords)
    (h : grammar.Reads false (.once (Rule.body .orderClause)) before cs after nodes)
    (hat : At 0 {} before (cs ++ after)) (hascii : BeginsAscii after) :
    Closing keywords (cs ++ after) := by
  obtain ⟨front, gap, keys, horder⟩ := exists_orderBy h hat hascii
  obtain ⟨c, hc, hletter⟩ := horder.letter
  have hhead : c ∈ (cs ++ after).head? := by
    rw [List.head?_append, Option.mem_def.mp hc]
    rfl
  exact ⟨[], _, rfl, .nil, .inr (.inr ⟨"ORDER BY", hmem, _, horder.strips, c, hhead, hletter⟩)⟩

theorem singleWord_skip : SingleWord "SKIP" := ⟨by decide, List.all_eq_true.mp (by decide)⟩

theorem singleWord_limit : SingleWord "LIMIT" := ⟨by decide, List.all_eq_true.mp (by decide)⟩

theorem singleWord_union : SingleWord "UNION" := ⟨by decide, List.all_eq_true.mp (by decide)⟩

/-- What may follow the sort keys inside a projection, and what follows the projection. -/
theorem closing_of_limits
    (h : grammar.Reads false (.once (seqs [.opt (.rule .skipClause), .opt (.rule .limitClause)]))
      before cs after nodes) (hat : At 0 {} before (cs ++ after)) (hascii : BeginsAscii after)
    (hafter : At 0 {} (before ++ cs) after → Closing sortSearch.keywords after) :
    Closing sortSearch.keywords (cs ++ after) := by
  obtain ⟨ss, gs, ls, _, _, _, rfl, rfl, hskip, hspace, hlimit⟩ := h.of_loose_seq
  have hlimitAscii : BeginsAscii ls := beginsAscii_of_reads hlimit (by decide)
  simp only [List.append_assoc] at hat hafter ⊢
  rcases hskip.of_opt with hgiven | ⟨rfl, rfl, -⟩
  · obtain ⟨ns, -, hbody⟩ := hgiven.of_normal rfl
    exact closing_of_clause singleWord_skip (by simp [sortSearch]) hbody (by decide)
      (led_append (led_of_filler hspace) (led_append hlimitAscii hascii))
  simp only [List.append_nil, List.nil_append] at hat hspace hlimit hafter ⊢
  obtain ⟨hgs, hblank⟩ := hat.filler hspace
  refine .blank hblank ?_
  rcases hlimit.of_opt with hgiven | ⟨rfl, rfl, -⟩
  · obtain ⟨ns, -, hbody⟩ := hgiven.of_normal rfl
    exact closing_of_clause singleWord_limit (by simp [sortSearch]) hbody (by decide)
      hascii
  · simp only [List.append_nil, List.nil_append] at hgs hafter ⊢
    exact hafter hgs

/-- **`Sorting order? before after`** -- behind the list of a `RETURN` stands the clause with its sort
keys, or what ends the list where there are none. -/
inductive Sorting : Option (Tree Rule) → List Char → List Char → Prop
  /-- There are no sort keys. -/
  | unsorted {before after : List Char} : Closing sortSearch.keywords after → Sorting none before after
  /-- Filler, the clause, and what ends its list. -/
  | sorted {before gap cs after : List Char} {skipped ns : List (Tree Rule)} :
      grammar.Reads true (.once grammar.filler) before gap (cs ++ after) skipped →
      grammar.Reads false (.once (Rule.body .orderClause)) (before ++ gap) cs after ns →
      Closing sortSearch.keywords after → BeginsAscii after →
      Sorting (some (.node .orderClause (before ++ gap).length cs ns)) before (gap ++ (cs ++ after))

theorem Sorting.closing {order? : Option (Tree Rule)} (h : Sorting order? before after)
    (hat : At 0 {} before after) : Closing boundarySearch.keywords after := by
  cases h with
  | unsorted h => exact h.mono (by simp [sortSearch, boundarySearch])
  | sorted hgap horder _ hascii =>
    obtain ⟨hfs, hblank⟩ := hat.filler hgap
    exact .blank hblank (closing_of_order (by simp [boundarySearch]) horder hfs hascii)

theorem At.order (h : grammar.Reads false (.once (Rule.body .orderClause)) before cs after nodes)
    (hat : At 0 {} before (cs ++ after)) : At 0 {} (before ++ cs) after := by
  have hseeks := seeks_of_reads (q := returnSearch) (s := {}) (t := ⟨0, false, true⟩)
    returnSearch_closed h (by decide)
  exact (hseeks.leads hat).top

/-- What follows the list inside its projection, and what follows the projection. -/
theorem sorting_of_projection {gap : List Char} {skipped : List (Tree Rule)}
    (hgap : grammar.Reads true (.once grammar.filler) before gap (cs ++ after) skipped)
    (h : grammar.Reads false (.once (seqs [.opt (.rule .orderClause), .opt (.rule .skipClause),
      .opt (.rule .limitClause)])) (before ++ gap) cs after nodes)
    (hat : At 0 {} before (gap ++ (cs ++ after))) (hascii : BeginsAscii after)
    (hafter : At 0 {} (before ++ gap ++ cs) after → Closing sortSearch.keywords after) :
    Sorting (nodes.find? fun n => n.rule = .orderClause) before (gap ++ (cs ++ after)) := by
  obtain ⟨hfs, hblank⟩ := hat.filler hgap
  obtain ⟨os, gs, ys, _, _, ns, rfl, rfl, horder, hspace, hrest⟩ := h.of_loose_seq
  have hrestAscii : BeginsAscii ys := beginsAscii_of_reads hrest (by decide)
  have hnone : ns.find? (fun n => n.rule = .orderClause) = none := by
    refine List.find?_eq_none.mpr fun n hn => ?_
    have hrule : n.rule ∈ [Rule.skipClause, .limitClause] := hrest.rule_mem (by decide) n hn
    rcases List.mem_cons.mp hrule with hrule | hrule
    · simp [hrule]
    · simp [List.mem_singleton.mp hrule]
  simp only [List.append_assoc] at hgap hfs hafter ⊢
  rcases horder.of_opt with hgiven | ⟨rfl, rfl, -⟩
  · obtain ⟨parts, rfl, hbody⟩ := hgiven.of_normal rfl
    have hos := hfs.order hbody
    obtain ⟨hgs, hblank'⟩ := hos.filler hspace
    refine .sorted hgap hbody (.blank hblank' (closing_of_limits hrest hgs hascii fun hends => ?_))
      (led_append (led_of_filler hspace) (led_append hrestAscii hascii))
    exact hafter (by simpa using hends)
  · simp only [List.append_nil, List.nil_append] at hfs hspace hrest hafter ⊢
    obtain ⟨hgs, hblank'⟩ := hfs.filler hspace
    rw [hnone]
    refine .unsorted (.blank hblank (.blank hblank' (closing_of_limits hrest hgs hascii fun hends => ?_)))
    exact hafter (by simpa using hends)

/-- A single query is not empty: it returns. -/
theorem ne_nil_of_singleQuery
    (h : grammar.Reads false (.once (.rule .singleQuery)) before cs after nodes) : cs ≠ [] := by
  obtain ⟨_, -, hbody⟩ := h.of_normal rfl
  obtain ⟨ms, fs, rs, _, _, _, rfl, -, -, -, hreturn⟩ := hbody.of_loose_seq
  obtain ⟨_, -, hbody⟩ := hreturn.of_normal rfl
  obtain ⟨ws, gs, ys, _, _, _, rfl, -, hword, -, -⟩ := hbody.of_loose_seq
  obtain ⟨-, hkeyword⟩ := hword.of_atomic rfl
  obtain ⟨hspell, -⟩ := reads_keyword hkeyword
  rintro hnil
  obtain ⟨rfl, -⟩ := List.append_eq_nil_iff.mp
    (List.append_eq_nil_iff.mp (List.append_eq_nil_iff.mp hnil).2).2
  cases hspell

/-- What follows the first single query. -/
theorem closing_of_query
    (h : grammar.Reads false (.once (seqs [.many (.seq (.rule .union) (.rule .singleQuery)),
      .opt (sign ";"), .rule .endOfText])) before cs [] nodes) (hat : At 0 {} before cs) :
    Closing sortSearch.keywords cs := by
  obtain ⟨us, fs, ys, _, _, _, rfl, rfl, hunions, hgap, hrest⟩ := h.of_loose_seq
  obtain ⟨semi, gs, es, _, _, _, rfl, rfl, hsemi, hspace, hend⟩ := hrest.of_loose_seq
  obtain ⟨_, -, hstop⟩ := hend.of_normal rfl
  obtain rfl : es = [] := by
    cases hstop
    rfl
  simp only [List.append_nil] at hat hgap hspace hunions ⊢
  -- Behind the first single query stands the end of the text, with or without a semicolon, or a
  -- `UNION`.
  cases hunions with
  | never =>
    rw [List.append_nil] at hgap
    rw [List.nil_append] at hat ⊢
    obtain ⟨hfs, hblank⟩ := hat.filler hgap
    refine .blank hblank ?_
    rcases hsemi.of_opt with hgiven | ⟨rfl, rfl, -⟩
    · obtain ⟨rfl, -⟩ := hgiven.of_text
      have hsign : At 0 {} (before ++ fs ++ [';']) gs :=
        ((Seeks.sign (q := returnSearch) (s := {}) (t := ⟨0, false, true⟩)
          (by decide)).leads hfs).top
      rw [← List.append_nil gs] at hsign
      exact .semicolon (hsign.filler (by simpa [sign] using hspace)).2
    · have hgs : At 0 {} (before ++ fs) (gs ++ []) := by simpa using hfs
      have hblank' := (hgs.filler (by simpa using hspace)).2
      rw [List.nil_append, ← List.append_nil gs]
      exact .blank hblank' .nil
  | @often _ _ _ rs ds _ ns ms hround hmore =>
    obtain ⟨vs, ks, qs, _, _, _, rfl, rfl, hunion, hinner, hquery⟩ := hround.of_loose_seq
    simp only [List.append_assoc] at hat hunion hinner hquery ⊢
    obtain ⟨_, -, hbody⟩ := hunion.of_normal rfl
    refine closing_of_clause singleWord_union (by simp [sortSearch]) hbody (by decide)
      (led_append (led_of_filler hinner) fun c hc => ?_)
    have hqs : BeginsAscii qs := beginsAscii_of_reads hquery (by decide)
    obtain ⟨d, rest, rfl⟩ := List.exists_cons_of_ne_nil (ne_nil_of_singleQuery hquery)
    exact hqs c hc

/-! ## The clause in the text -/

/-- **`Projection node before distinct space list ends after`** -- the stretches of a projection. -/
structure Projection (node : Tree Rule) (before distinct space list ends after : List Char) :
    Prop where
  reads_distinct : ∃ ns, grammar.Reads false (.once (.opt (wholeWord "DISTINCT"))) before distinct
    (space ++ (list ++ (ends ++ after))) ns
  reads_space : ∃ ns, grammar.Reads true (.once grammar.filler) (before ++ distinct) space
    (list ++ (ends ++ after)) ns
  /-- The list is read as that of the tree. -/
  reads_list : ∃ ns, childOf? .projectionItems node =
      some (.node .projectionItems (before ++ distinct ++ space).length list ns) ∧
    grammar.Reads false (.once (.rule .projectionItems)) (before ++ distinct ++ space) list
      (ends ++ after) [.node .projectionItems (before ++ distinct ++ space).length list ns]
  /-- What follows the projection decides what ends the list, unless the projection does. -/
  sorting : BeginsAscii after → (At 0 {} (before ++ distinct ++ space ++ list ++ ends) after →
    Closing sortSearch.keywords after) → At 0 {} (before ++ distinct ++ space ++ list) (ends ++ after) →
      Sorting (childOf? .orderClause node) (before ++ distinct ++ space ++ list) (ends ++ after)
  ascii : BeginsAscii after → BeginsAscii (ends ++ after)

/-- The node of a word that may be left out is not that of another rule. -/
theorem find?_of_optWord {w : String} {r : Rule} (hr : r ≠ .keyword w) (more : List (Tree Rule))
    (h : grammar.Reads false (.once (.opt (wholeWord w))) before cs after nodes) :
    (nodes ++ more).find? (fun child => child.rule = r) = more.find? fun child => child.rule = r := by
  rw [List.find?_append, List.find?_eq_none.mpr fun n hn => ?_, Option.none_or]
  have hkind : ∀ part ∈ tops (wholeWord w).opt, grammar.kind part ≠ .silent := by
    intro part hpart
    obtain rfl := List.mem_singleton.mp hpart
    rintro ⟨⟩
  have hrule := List.mem_singleton.mp (h.rule_mem hkind n hn)
  simpa [hrule] using hr.symm

theorem exists_projection {node : Tree Rule}
    (h : grammar.Reads false (.once (.rule .projectionBody)) before cs after [node]) :
    ∃ distinct space list ends, cs = distinct ++ (space ++ (list ++ ends)) ∧
      Projection node before distinct space list ends after := by
  obtain ⟨_, hnode, hbody⟩ := h.of_normal rfl
  obtain ⟨rfl, -⟩ := List.cons.inj hnode
  obtain ⟨distinct, space, list, distinctNodes, _, _, rfl, rfl, hdistinct, hspace, hlist⟩ :=
    hbody.of_loose_seq
  obtain ⟨items, fs, ends, _, _, nodes, rfl, rfl, hitems, hgap, hends⟩ := hlist.of_loose_seq
  obtain ⟨ns, rfl, -⟩ := hitems.of_normal rfl
  refine ⟨distinct, space, items, fs ++ ends, rfl, ?_⟩
  have hfirst := find?_of_optWord (r := .projectionItems) (by simp)
    ([Tree.node .projectionItems (before ++ distinct ++ space).length items ns] ++ nodes) hdistinct
  have horder := (find?_of_optWord (r := .orderClause) (by simp)
    ([Tree.node .projectionItems (before ++ distinct ++ space).length items ns] ++ nodes)
    hdistinct).trans (List.find?_cons_of_neg (by simp [Tree.rule]))
  refine ⟨⟨_, by simpa using hdistinct⟩, ⟨_, by simpa using hspace⟩, ⟨ns, hfirst, by simpa using hitems⟩,
    fun hascii hafter hat => ?_, fun hascii => ?_⟩
  · rw [List.append_assoc fs ends after] at hat ⊢
    rw [childOf?, Tree.children, horder]
    exact sorting_of_projection hgap hends hat hascii fun hends => hafter (by simpa using hends)
  · rw [List.append_assoc fs ends after]
    exact led_append (led_of_filler hgap)
      (led_append (beginsAscii_of_reads hends (by decide)) hascii)

/-- **`Clause source tree lead word gap distinct space list after`** -- the stretches of a query
around the list that it returns. -/
structure Clause (source : List Char) (tree : Tree Rule)
    (lead word gap distinct space list after : List Char) : Prop where
  text : source = lead ++ (word ++ (gap ++ (distinct ++ (space ++ (list ++ after)))))
  /-- The search for `RETURN` passes what stands before the clause. -/
  passes : Seeks returnSearch {} {} [] lead
    (word ++ (gap ++ (distinct ++ (space ++ (list ++ after))))) (clausesBefore tree)
  /-- The node of the clause starts behind it. -/
  starts : ∃ clause, returnClause? tree = some clause ∧ clause.start = lead.length
  reads_word : grammar.Reads true (.once (Rule.body (.keyword "RETURN"))) lead word
    (gap ++ (distinct ++ (space ++ (list ++ after)))) []
  reads_gap : ∃ ns, grammar.Reads true (.once grammar.filler) (lead ++ word) gap
    (distinct ++ (space ++ (list ++ after))) ns
  reads_distinct : ∃ ns, grammar.Reads false (.once (.opt (wholeWord "DISTINCT")))
    (lead ++ word ++ gap) distinct (space ++ (list ++ after)) ns
  reads_space : ∃ ns, grammar.Reads true (.once grammar.filler) (lead ++ word ++ gap ++ distinct)
    space (list ++ after) ns
  /-- The list is read as that of the tree. -/
  reads_list : ∃ ns, returnedList? tree =
      some (.node .projectionItems (lead ++ word ++ gap ++ distinct ++ space).length list ns) ∧
    grammar.Reads false (.once (.rule .projectionItems)) (lead ++ word ++ gap ++ distinct ++ space)
      list after [.node .projectionItems (lead ++ word ++ gap ++ distinct ++ space).length list ns]
  /-- Behind it stand the sort keys of the tree, or what ends it. -/
  sorting : At 0 {} (lead ++ word ++ gap ++ distinct ++ space ++ list) after →
    Sorting (orderClause? tree) (lead ++ word ++ gap ++ distinct ++ space ++ list) after
  ascii : BeginsAscii after

/-- The clauses before a `RETURN` are none themselves. -/
theorem rule_ne_returnClause
    (h : grammar.Reads false (.once (.many (alts [.rule .matchClause, .rule .unwindClause,
      .rule .withClause]))) before cs after nodes) : ∀ n ∈ nodes, n.rule ≠ .returnClause := by
  intro n hn hrule
  have hmem := h.rule_mem (by decide) n hn
  rw [hrule] at hmem
  exact absurd hmem (by decide)

/-- The parts of a single query are its clauses and the clause that returns. -/
theorem parts_of_singleQuery {clauses more : List (Tree Rule)} {node : Tree Rule} {i j : Nat}
    {cs₀ cs : List Char} (hclauses : ∀ n ∈ clauses, n.rule ≠ .returnClause)
    (hnode : node.rule = .returnClause) :
    let tree : Tree Rule :=
      .node .query i cs₀ ([] ++ ([.node .singleQuery j cs (clauses ++ [node])] ++ more))
    returnClause? tree = some node ∧ clausesBefore tree = clauses := by
  constructor
  · show (clauses ++ [node]).find? (fun child => child.rule = .returnClause) = some node
    rw [List.find?_append, List.find?_eq_none.mpr fun n hn => by simpa using hclauses n hn]
    simp [hnode]
  · show (clauses ++ [node]).filter (fun child => child.rule ≠ .returnClause) = clauses
    rw [List.filter_append, List.filter_eq_self.mpr fun n hn => by simpa using hclauses n hn]
    simp [hnode]

/-- The projection of a clause stands behind its word. -/
theorem childOf?_projectionBody {i j : Nat} {word : List Char} {node : Tree Rule}
    (hnode : node.rule = .projectionBody) :
    childOf? .projectionBody (.node .returnClause i cs ([.node (.keyword "RETURN") j word []] ++ [node])) =
      some node := by
  rw [childOf?, Tree.children, List.singleton_append, List.find?_cons_of_neg (by simp [Tree.rule]),
    List.find?_cons_of_pos (by simp [hnode])]

/-- The search for `RETURN` passes the clauses before it, and the filler around them. -/
theorem seeks_clauses {gap clauses gap' rest : List Char} {skipped skipped' : List (Tree Rule)}
    (hgap : grammar.Reads true (.once grammar.filler) [] gap (clauses ++ (gap' ++ rest)) skipped)
    (hclauses : grammar.Reads false (.once (.many (alts [.rule .matchClause, .rule .unwindClause,
      .rule .withClause]))) gap clauses (gap' ++ rest) nodes)
    (hgap' : grammar.Reads true (.once grammar.filler) (gap ++ clauses) gap' rest skipped') :
    Seeks returnSearch {} {} [] (gap ++ (clauses ++ gap')) rest nodes := by
  have hbefore : Seeks returnSearch {} {} (gap ++ clauses) gap' rest [] := .filler hgap'
  have hpassed : Seeks returnSearch {} {} gap clauses (gap' ++ rest) nodes :=
    seeks_of_reads returnSearch_closed hclauses (by decide)
  have hfront : Seeks returnSearch {} {} [] gap ((clauses ++ gap') ++ rest) [] :=
    .filler (by simpa using hgap)
  have hall := hfront.append (hpassed.append hbefore)
  rwa [List.nil_append, List.append_nil] at hall

/-- **The first `RETURN` of an accepted text and of its tree.** -/
theorem exists_clause {source : List Char} {tree : Tree Rule} (h : parse source = .ok tree) :
    ∃ lead word gap distinct space list after,
      Clause source tree lead word gap distinct space list after := by
  obtain ⟨-, parts, rfl, hread⟩ := reads_of_parse h
  obtain ⟨start, f₀, body, _, _, _, rfl, rfl, hstart, hfirst, hread⟩ := hread.of_loose_seq
  obtain ⟨query, f₁, rest, _, _, _, rfl, rfl, hquery, hthen, hrest⟩ := hread.of_loose_seq
  obtain ⟨_, rfl, hsingle⟩ := hquery.of_normal rfl
  obtain ⟨clauses, f₂, ret, clauseNodes, _, _, rfl, rfl, hclauses, hbefore, hreturn⟩ :=
    hsingle.of_loose_seq
  obtain ⟨_, rfl, hclause⟩ := hreturn.of_normal rfl
  obtain ⟨word, gap, projection, _, _, _, rfl, rfl, hword, hgap, hprojection⟩ := hclause.of_loose_seq
  obtain ⟨rfl, hkeyword⟩ := hword.of_atomic rfl
  rw [show grammar.body (.keyword "RETURN") = Rule.body (.keyword "RETURN") from rfl] at hkeyword
  obtain ⟨_, rfl, -⟩ := hprojection.of_normal rfl
  obtain ⟨distinct, space, list, ends, rfl, hparts⟩ := exists_projection hprojection
  cases hstart
  refine ⟨f₀ ++ (clauses ++ f₂), word, gap, distinct, space, list, ends ++ (f₁ ++ rest), ?_⟩
  have hnone := rule_ne_returnClause hclauses
  obtain ⟨_, hdistinct⟩ := hparts.reads_distinct
  obtain ⟨_, hspace⟩ := hparts.reads_space
  obtain ⟨ns, hitems, hlist⟩ := hparts.reads_list
  have hrestAscii : BeginsAscii rest := beginsAscii_of_reads hrest (by decide)
  have hascii : BeginsAscii (f₁ ++ rest) := led_append (led_of_filler hthen) hrestAscii
  refine ⟨by simp, ?_, ⟨_, (parts_of_singleQuery hnone rfl).1, by simp [Tree.start]⟩,
    by simpa using hkeyword, ⟨_, by simpa using hgap⟩, ⟨_, by simpa using hdistinct⟩,
    ⟨_, by simpa using hspace⟩, ⟨ns, ?_, ?_⟩, fun hat => ?_,
    by simpa using hparts.ascii (by simpa using hascii)⟩
  · rw [(parts_of_singleQuery hnone rfl).2]
    exact seeks_clauses (by simpa using hfirst) (by simpa using hclauses) (by simpa using hbefore)
  · rw [returnedList?, (parts_of_singleQuery hnone rfl).1, Option.bind_some,
      childOf?_projectionBody rfl, Option.bind_some]
    simpa using hitems
  · simpa using hlist
  · have hsorting := hparts.sorting (by simpa using hascii) (fun hends => ?_) (by simpa using hat)
    · rw [orderClause?, (parts_of_singleQuery hnone rfl).1, Option.bind_some,
        childOf?_projectionBody rfl, Option.bind_some]
      simpa using hsorting
    have hends' : At 0 {} ([] ++ [] ++ f₀ ++
        (clauses ++ (f₂ ++ (word ++ (gap ++ (distinct ++ (space ++ (list ++ ends)))))))) (f₁ ++ rest) := by
      simpa using hends
    obtain ⟨hrest', hblank⟩ := hends'.filler (by simpa using hthen)
    rw [List.append_nil]
    exact .blank hblank (closing_of_query hrest hrest')

end QueryScore.Cypher
