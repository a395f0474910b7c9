/-
# QueryScore.Proofs.Cypher.Returned -- what a text returns is what its tree returns

The returned columns and the grouping keys of a query are read off its text, by a search for
`RETURN`, for the end of its list, for `DISTINCT` and for `AS`. In a text without comments whose
searches are not led astray (`ShowsReturn`) the list that the searches isolate is the list of the
tree (`Clause.projection`), its pieces are the items of the tree (`returnItems_eq`), and the columns
and keys follow.
-/

import QueryScore.Cypher.Extract
import QueryScore.Proofs.Cypher.ReturnClause

namespace QueryScore.Cypher

open Text Grammar Peg

variable {source before cs ds after bs bs' word rest : List Char} {tree : Tree Rule}
  {nodes : List (Tree Rule)}

/-! ## The end of the clause -/

theorem dropWhile_semicolon (h : ∀ c ∈ cs.getLast?, c ≠ ';') :
    (cs.reverse.dropWhile (· == ';')).reverse = cs := by
  have hrev : cs.reverse.dropWhile (· == ';') = cs.reverse := by
    cases hcs : cs.reverse with
    | nil => rfl
    | cons c rest =>
      have hc : c ≠ ';' := h c (by rw [← List.head?_reverse, hcs]; rfl)
      rw [List.dropWhile_cons, if_neg (by simp [hc])]
  rw [hrev, List.reverse_reverse]

theorem ne_of_getLast_trim (h : ∀ c ∈ (trimEnd cs).getLast?, c ≠ ';') :
    ∀ c ∈ (trim cs).getLast?, c ≠ ';' := by
  intro c hc
  obtain ⟨bs, -, hsplit⟩ := exists_trimStart cs
  have hne : trimEnd (trimStart cs) ≠ [] := by
    intro hnil
    rw [trim, hnil] at hc
    cases hc
  have hend : trimEnd cs = bs ++ trim cs := by
    rw [hsplit, trimEnd_append_of_ne_nil hne, ← trim, ← hsplit]
  refine h c ?_
  rw [hend, List.getLast?_append, Option.mem_def.mp hc]
  rfl

/-- Blanks behind a list that no semicolon ends. -/
theorem trimClause_blank (hbs : Blank bs) (hlast : ∀ c ∈ (trimEnd cs).getLast?, c ≠ ';') :
    trimClause (cs ++ bs) = trim cs := by
  rw [trimClause, trim_append_blank hbs, dropWhile_semicolon (ne_of_getLast_trim hlast),
    trimEnd_trim]

/-- A semicolon behind it, blanks around the semicolon. -/
theorem trimClause_semicolon (hbs : Blank bs) (hbs' : Blank bs') (hink : ∃ c ∈ cs, isBlank c = false)
    (hlast : ∀ c ∈ (trimEnd cs).getLast?, c ≠ ';') :
    trimClause (cs ++ (bs ++ ';' :: bs')) = trim cs := by
  have htrim : trim (cs ++ (bs ++ ';' :: bs')) = trimStart cs ++ bs ++ [';'] := by
    rw [show cs ++ (bs ++ ';' :: bs') = (cs ++ (bs ++ [';'])) ++ bs' by simp, trim_append_blank hbs',
      trim, trimStart_append_of_ink hink, ← List.append_assoc, trimEnd_of_getLast]
    intro c hc
    rw [List.getLast?_concat] at hc
    obtain rfl := Option.some.inj hc
    decide
  have hfront : ∀ c ∈ (trimStart cs ++ bs).getLast?, c ≠ ';' := by
    refine forall_getLast?_append ?_ ?_
    · -- A semicolon at the end of the list would not be trimmed off.
      rintro c hc rfl
      have hsame : trim cs = trimStart cs :=
        trimEnd_of_getLast fun d hd => by
          obtain rfl := Option.mem_unique hc hd
          decide
      exact ne_of_getLast_trim hlast ';' (by rw [hsame]; exact hc) rfl
    · rintro c hc rfl
      exact absurd (hbs _ (List.mem_of_getLast? hc)) (by decide)
  have hdrop : ((trimStart cs ++ bs ++ [';']).reverse.dropWhile (· == ';')).reverse =
      trimStart cs ++ bs := by
    rw [List.reverse_append, List.reverse_singleton, List.singleton_append, List.dropWhile_cons,
      if_pos (by decide), dropWhile_semicolon hfront]
  rw [trimClause, htrim, hdrop, trimEnd_blank hbs, trim]

/-- Behind a level stretch without keywords, none is found where no letter follows. -/
theorem findKeyword_of_not_isAlpha {keywords : List String} (hlevel : Level cs)
    (hquiet : Quiet keywords {} none cs after) (hletters : ∀ c ∈ after, c.isAlpha = false) :
    findKeyword keywords (cs ++ after) = none := by
  have hall : Quiet keywords {} none (cs ++ after) [] := by
    refine quiet_append.mpr ⟨by rwa [List.append_nil], ?_⟩
    rw [hlevel]
    exact (startless_of_not_isAlpha hletters).quiet 0
  rw [findKeyword, findKeywords_of_quiet hall]
  rfl

/-- Behind such a stretch and blanks, what is found is the keyword that stands there. -/
theorem findKeyword_of_strip {keywords : List String} {keyword : String} {later : List Char}
    (hlevel : Level cs) (hquiet : Quiet keywords {} none cs (bs ++ rest)) (hbs : Blank bs)
    (hkeyword : keyword ∈ keywords) (hstrip : stripKeyword keyword.toList rest = some later)
    (halpha : ∃ c ∈ rest.head?, c.isAlpha = true)
    (hstop : ∀ c ∈ (bs ++ rest).head?, c.isAlpha = true → ∀ b ∈ cs.getLast?, isSticky b = false) :
    ∃ found size, firstKeyword keywords rest = some (found, size) ∧
      findKeyword keywords (cs ++ (bs ++ rest)) =
        some ⟨(cs ++ bs).length, (cs ++ bs).length + size, found⟩ := by
  have hlevel' : Level (cs ++ bs) := hlevel.append hbs.level
  have hfront : Quiet keywords {} none (cs ++ bs) rest :=
    quiet_append.mpr ⟨hquiet, by rw [hlevel]; exact hbs.quiet 0⟩
  have hbefore : ∀ b ∈ (cs ++ bs).getLast?, isSticky b = false := by
    cases bs with
    | nil =>
      obtain ⟨c, hc, hletter⟩ := halpha
      rw [List.append_nil]
      exact hstop c hc hletter
    | cons b bs =>
      intro d hd
      rw [List.getLast?_append, List.getLast?_eq_some_getLast (by simp), Option.some_or] at hd
      obtain rfl := Option.some.inj hd
      exact not_isSticky_of_isBlank (hbs _ (List.getLast_mem (by simp)))
  have hhit : isHit keywords (Scanner.run {} (cs ++ bs)) (cs ++ bs).getLast? rest = true := by
    rw [hlevel']
    exact isHit_of_strip hkeyword hstrip halpha hbefore
  rw [← List.append_assoc]
  exact findKeyword_of_quiet hfront hhit

/-- **The text up to what ends a list is the list.** -/
theorem trimClause_upTo {keywords : List String} (hlevel : Level cs) (hink : ∃ c ∈ cs, isBlank c = false)
    (hlast : ∀ c ∈ (trimEnd cs).getLast?, c ≠ ';')
    (hquiet : Quiet keywords {} none cs after) (hclosing : Closing keywords after)
    (hstop : ∀ c ∈ after.head?, c.isAlpha = true → ∀ b ∈ cs.getLast?, isSticky b = false) :
    trimClause (upTo (findKeyword keywords (cs ++ after)) (cs ++ after)) =
      trim cs := by
  obtain ⟨bs, rest, rfl, hbs, hrest⟩ := hclosing
  rcases hrest with rfl | ⟨bs', rfl, hbs'⟩ | ⟨keyword, hkeyword, later, hstrip, halpha⟩
  · rw [findKeyword_of_not_isAlpha hlevel hquiet, upTo, List.append_nil]
    · exact trimClause_blank hbs hlast
    · simpa using fun c hc => not_isAlpha_of_isBlank (hbs c hc)
  · rw [findKeyword_of_not_isAlpha hlevel hquiet, upTo]
    · exact trimClause_semicolon hbs hbs' hink hlast
    · intro c hc
      rcases List.mem_append.mp hc with hc | hc
      · exact not_isAlpha_of_isBlank (hbs c hc)
      rcases List.mem_cons.mp hc with rfl | hc
      · decide
      · exact not_isAlpha_of_isBlank (hbs' c hc)
  · obtain ⟨found, size, -, hfound⟩ :=
      findKeyword_of_strip hlevel hquiet hbs hkeyword hstrip halpha hstop
    rw [hfound, upTo, ← List.append_assoc, List.take_left]
    exact trimClause_blank hbs hlast

/-! ## The word before the list -/

/-- A word before the list is taken off it. -/
theorem stripKeywordPrefix_of_given {keyword : String} (hkeyword : SingleWord keyword)
    (hword : word.map asciiLower = keyword.toList.map asciiLower)
    (hstop : ∀ c ∈ cs.head?, isIdentifierChar c = false) (hink : ∃ c ∈ cs, isBlank c = false) :
    stripKeywordPrefix keyword.toList (trim (word ++ cs)) = some (trim cs) := by
  have hne := trimEnd_ne_nil hink
  have hhead : ∀ c ∈ (word ++ cs).head?, isBlank c = false := by
    intro c hc
    obtain ⟨w, word, rfl⟩ := List.exists_cons_of_ne_nil (hkeyword.ne_nil hword)
    obtain rfl := Option.some.inj hc
    exact not_isBlank_of_isAlpha (isAlpha_of_mem hword hkeyword.alpha w (by simp))
  have hstop' : startsInsideWord (trimEnd cs) = false := by
    obtain ⟨bs, -, hsplit⟩ := exists_trimEnd cs
    cases hend : trimEnd cs with
    | nil => rfl
    | cons d rest =>
      refine hstop d ?_
      rw [hsplit, hend]
      rfl
  have hstrip : stripKeyword keyword.toList (word ++ trimEnd cs) = some (trimEnd cs) :=
    hkeyword.strip.mpr ⟨word, rfl, hword, hstop'⟩
  have htrim : trim (word ++ cs) = word ++ trimEnd cs := by
    rw [trim, trimStart_of_head hhead, trimEnd_append_of_ne_nil hne]
  rw [stripKeywordPrefix, trimStart_trim, htrim, hstrip, Option.map_some, trimStart_trimEnd]

/-- Where a keyword is refused, a name goes on behind its letters. -/
theorem exists_of_refuses_keyword {w : String} {atomic : Bool}
    (h : grammar.Refuses atomic (wholeWord w) before (word ++ rest))
    (hword : word.map asciiLower = w.toList.map asciiLower) :
    ∃ c ∈ rest.head?, isNameChar c = true := by
  have hbody : grammar.Refuses true (.seq (.word w.toList) (.absent identChar)) before
      (word ++ rest) := by
    have hrule := Refuses.rule h
    rwa [show (atomic || decide (grammar.kind (.keyword w) = .atomic)) = true from
      Bool.or_true atomic] at hrule
  rcases hbody.seq with hno | ⟨xs, ys, _, hsplit, hxs, hno⟩
  · exact absurd ⟨rest, rfl⟩ (hno.word hword)
  · obtain ⟨hspell, -⟩ := hxs.of_word
    have hlength : word.length = xs.length := by
      simpa using congrArg List.length (hword.trans hspell.symm)
    obtain ⟨rfl, rfl⟩ := List.append_inj hsplit hlength
    obtain ⟨zs, later, _, rfl, hchar⟩ := hno.absent
    obtain ⟨c, rfl, hc⟩ := reads_identChar hchar
    exact ⟨c, rfl, hc⟩

/-- A list that no such word stands before is left alone. -/
theorem stripKeywordPrefix_of_omitted {w : String} {atomic : Bool} (hkeyword : SingleWord w)
    (h : grammar.Refuses atomic (wholeWord w) before (cs ++ after))
    (hhead : ∀ c ∈ cs.head?, isBlank c = false)
    (hends : ∀ c ∈ cs.getLast?, c.isAlpha = true → ∀ d ∈ after.head?, isNameChar d = false) :
    stripKeywordPrefix w.toList (trim cs) = none := by
  rw [stripKeywordPrefix, trimStart_trim, Option.map_eq_none_iff]
  cases hstrip : stripKeyword w.toList (trim cs) with
  | none => rfl
  | some rest =>
    obtain ⟨word, hsplit, hword, hstop⟩ := hkeyword.strip.mp hstrip
    obtain ⟨bs, hbs, hend⟩ := exists_trimEnd cs
    have htrim : trim cs = trimEnd cs := by rw [trim, trimStart_of_head hhead]
    rw [htrim] at hsplit
    have hall : cs ++ after = word ++ (rest ++ (bs ++ after)) := by
      rw [← List.append_assoc word, ← hsplit, ← List.append_assoc, ← hend]
    rw [hall] at h
    obtain ⟨c, hc, hname⟩ := exists_of_refuses_keyword h hword
    -- The word would end inside the list, in the blanks behind it, or with the list.
    cases rest with
    | cons d rest =>
      obtain rfl := Option.some.inj hc
      rw [startsInsideWord, (isIdentifierChar_of_isNameChar hname).1] at hstop
      cases hstop
    | nil =>
      cases bs with
      | cons b bs =>
        obtain rfl := Option.some.inj hc
        have hblank := hbs b (by simp)
        rw [(isIdentifierChar_of_isNameChar hname).2] at hblank
        cases hblank
      | nil =>
        -- The list is the word, and after its last letter no name goes on.
        rw [List.append_nil] at hsplit
        rw [List.append_nil, hsplit] at hend
        subst hend
        have hlast := List.getLast?_eq_some_getLast (hkeyword.ne_nil hword)
        have hletter := isAlpha_of_mem hword hkeyword.alpha _ (List.mem_of_getLast? hlast)
        have hno := hends _ hlast hletter c hc
        rw [hname] at hno
        cases hno

/-! ## The list in the text -/

variable {lead gap distinct space list : List Char}

theorem areCalm_of_optWord {keywords : List String} {w : String}
    (h : grammar.Reads false (.once (.opt (wholeWord w))) before cs after nodes) :
    areCalm keywords source nodes = true := by
  rcases h.of_opt with h | ⟨-, rfl, -⟩
  · obtain ⟨rfl, -⟩ := h.of_atomic rfl
    simp [areCalm, isCalm, Rule.isLoose]
  · rfl

/-- Where no letter follows a digit at the end of a stretch, one that does follow follows none. -/
theorem not_isDigit_of_stop {d : Char} (hletter : d.isAlpha = true)
    (h : digitBefore (cs ++ d :: rest) cs.length = true →
      ((cs ++ d :: rest).drop cs.length).head?.any Char.isAlpha = false) :
    ∀ b ∈ cs.getLast?, b.isDigit = false := by
  intro b hb
  rw [List.drop_left, digitBefore, List.take_left, Option.mem_def.mp hb] at h
  rw [Bool.eq_false_iff]
  intro hdigit
  have hno := h (by simpa using hdigit)
  rw [List.head?_cons, Option.any_some, hletter] at hno
  cases hno

section Clause

variable (h : Clause source tree lead word gap distinct space list after)
include h

/-- From behind the word of the clause to the end of its list. -/
theorem Clause.seeks : ∃ nodes,
    Seeks boundarySearch {} ⟨0, false, true⟩ (lead ++ word) (gap ++ (distinct ++ (space ++ list)))
      after nodes ∧
    ((∀ t ∈ returnedTrees tree, isCalm boundarySearch.keywords source t = true) →
      areCalm boundarySearch.keywords source nodes = true) := by
  obtain ⟨_, hgap⟩ := h.reads_gap
  obtain ⟨ms, hdistinct⟩ := h.reads_distinct
  obtain ⟨_, hspace⟩ := h.reads_space
  obtain ⟨ns, htree, hlist⟩ := h.reads_list
  have hgap' : Seeks boundarySearch {} {} (lead ++ word) gap
      ((distinct ++ (space ++ list)) ++ after) [] := Seeks.filler (by simpa using hgap)
  have hdistinct' : Seeks boundarySearch {} {} (lead ++ word ++ gap) distinct
      ((space ++ list) ++ after) ms :=
    seeks_of_reads boundarySearch_closed (by simpa using hdistinct) (by decide)
  have hspace' : Seeks boundarySearch {} {} (lead ++ word ++ gap ++ distinct) space
      (list ++ after) [] := Seeks.filler hspace
  have hlist' := seeks_of_reads (s := {}) (t := ⟨0, false, true⟩) boundarySearch_closed hlist
    (by decide)
  refine ⟨_, hgap'.append (hdistinct'.append (hspace'.append hlist')), fun hcalm => ?_⟩
  have hnodes : returnedTrees tree = ns := by rw [returnedTrees, htree]; rfl
  rw [List.nil_append, List.nil_append, areCalm_append, areCalm_of_optWord hdistinct, Bool.true_and,
    areCalm, areCalm, isCalm, Rule.isLoose, Bool.and_true]
  rw [hnodes] at hcalm
  simpa using areCalm_iff.mpr hcalm

theorem Clause.seeks_list : ∃ ns,
    Seeks boundarySearch {} ⟨0, false, true⟩ (lead ++ word ++ gap ++ distinct ++ space) list after ns := by
  obtain ⟨ns, -, hlist⟩ := h.reads_list
  exact ⟨_, seeks_of_reads boundarySearch_closed hlist (by decide)⟩

variable (hbare : uncommented source = source)
include hbare

theorem Clause.at_lead :
    At 0 {} lead (word ++ (gap ++ (distinct ++ (space ++ (list ++ after))))) := by
  have hstart : At 0 {} [] source := ⟨rfl, hbare, fun _ _ c hc => by cases hc⟩
  rw [h.text] at hstart
  exact h.passes.leads hstart

theorem Clause.at_word :
    At 0 {} (lead ++ word) (gap ++ (distinct ++ (space ++ (list ++ after)))) :=
  (h.at_lead hbare).token (r := .keyword "RETURN") (by decide) rfl h.reads_word

theorem Clause.at_gap : At 0 {} (lead ++ word ++ gap) (distinct ++ (space ++ (list ++ after))) ∧
    Blank gap := by
  obtain ⟨_, hgap⟩ := h.reads_gap
  exact (h.at_word hbare).filler hgap

theorem Clause.at_distinct :
    At 0 {} (lead ++ word ++ gap ++ distinct) (space ++ (list ++ after)) := by
  obtain ⟨_, hdistinct⟩ := h.reads_distinct
  have hseeks := seeks_of_reads (q := boundarySearch) (s := {}) (t := {}) boundarySearch_closed
    hdistinct (by decide)
  exact hseeks.leads (h.at_gap hbare).1

theorem Clause.at_space :
    At 0 {} (lead ++ word ++ gap ++ distinct ++ space) (list ++ after) ∧ Blank space := by
  obtain ⟨_, hspace⟩ := h.reads_space
  exact (h.at_distinct hbare).filler hspace

theorem Clause.at_list : At 0 {} (lead ++ word ++ gap ++ distinct ++ space ++ list) after := by
  obtain ⟨_, hseeks⟩ := h.seeks_list
  exact (hseeks.leads (h.at_space hbare).1).top

/-- The list begins with no blank. -/
theorem Clause.ink : ∃ c ∈ list.head?, isBlank c = false := by
  obtain ⟨_, hspace⟩ := h.reads_space
  obtain ⟨_, hseeks⟩ := h.seeks_list
  exact (hseeks.ink (h.at_space hbare).1 rfl (not_isFillerBlank_of_filler hspace)).resolve_left
    fun hno => by cases hno.2

/-- **The search for `RETURN` finds the clause of the tree.** -/
theorem Clause.findReturn (hshow : ShowsClause source tree) : findKeyword ["RETURN"] source =
    some ⟨lead.length, lead.length + word.length, "RETURN"⟩ := by
  obtain ⟨clause, hclause, hstart⟩ := h.starts
  have hlead := h.at_lead hbare
  obtain ⟨hspell, hend⟩ := reads_keyword h.reads_word
  have hword : SingleWord "RETURN" := ⟨by decide, List.all_eq_true.mp (by decide)⟩
  obtain ⟨w, more, rfl⟩ : ∃ w more, word = w :: more := by
    cases word with
    | nil => cases hspell
    | cons w more => exact ⟨w, more, rfl⟩
  have hw : w.isAlpha = true := isAlpha_of_mem hspell hword.alpha w (by simp)
  have hquiet : Quiet ["RETURN"] {} none lead
      (w :: more ++ (gap ++ (distinct ++ (space ++ (list ++ after))))) := by
    have hstart : At 0 {} [] source := ⟨rfl, hbare, fun _ _ c hc => by cases hc⟩
    rw [h.text] at hstart
    refine h.passes.quiet hstart ?_
    rw [← h.text]
    exact areCalm_iff.mpr hshow.clauses
  -- A digit is the one character at which a keyword of the tree may touch what stands before it.
  have hdigit : ∀ b ∈ lead.getLast?, b.isDigit = false := by
    intro b hb
    have hno := hshow.apart clause hclause
    rw [digitBefore, hstart, h.text, List.take_left, Option.mem_def.mp hb] at hno
    simpa using hno
  have hstop : startsInsideWord (gap ++ (distinct ++ (space ++ (list ++ after)))) = false := by
    obtain ⟨_, hgap⟩ := h.reads_gap
    obtain ⟨_, hdistinct⟩ := h.reads_distinct
    obtain ⟨_, hspace⟩ := h.reads_space
    obtain ⟨_, -, hlist⟩ := h.reads_list
    refine startsInsideWord_of_beginsAscii (led_append (led_of_filler hgap) ?_) hend
    exact led_append (beginsAscii_of_reads hdistinct (by decide))
      (led_append (led_of_filler hspace)
        (led_append (beginsAscii_of_reads hlist (by decide)) h.ascii))
  have hhit : isHit ["RETURN"] (Scanner.run {} lead) lead.getLast?
      (w :: more ++ (gap ++ (distinct ++ (space ++ (list ++ after))))) = true := by
    rw [hlead.run]
    exact isHit_of_strip (by simp) (hword.strip.mpr ⟨w :: more, rfl, hspell, hstop⟩) ⟨w, rfl, hw⟩
      ((hlead.ends rfl rfl).not_isSticky (isNameChar_of_isAlpha hw) hdigit)
  rw [h.text]
  exact findKeyword_of_word hword hquiet hhit hspell hstop

/-- Up to the end of the list the search for what ends it finds nothing, and the stretch up to
there is level and ends in no semicolon. -/
theorem Clause.quiet (hshow : ShowsClause source tree) :
    Quiet boundarySearch.keywords {} none (gap ++ (distinct ++ (space ++ list))) after ∧
      Level (gap ++ (distinct ++ (space ++ list))) ∧
      ∀ c ∈ (trimEnd (gap ++ (distinct ++ (space ++ list)))).getLast?, c ≠ ';' := by
  obtain ⟨_, hseeks, hcalm⟩ := h.seeks
  have hword : At 0 {} (lead ++ word) ((gap ++ (distinct ++ (space ++ list))) ++ after) := by
    simpa using h.at_word hbare
  have hlist : At 0 {} (lead ++ word ++ (gap ++ (distinct ++ (space ++ list)))) after := by
    simpa using h.at_list hbare
  have hlevel := hword.between hlist
  have hfree : Free [';'] {} (gap ++ (distinct ++ (space ++ list))) := by
    have hmarks := hseeks.free hword
    rwa [hword.run] at hmarks
  refine ⟨?_, hlevel, ne_of_getLast_trimEnd (by decide) (by simp) hlevel hfree⟩
  have hall := hseeks.quiet hword ?_
  · rw [hword.run] at hall
    refine hall.of_head fun d hd => not_isAlpha_of_not_isNameChar ?_
    refine (reads_keyword h.reads_word).2 d ?_
    rw [show gap ++ (distinct ++ (space ++ (list ++ after))) =
      (gap ++ (distinct ++ (space ++ list))) ++ after by simp, List.head?_append,
      Option.mem_def.mp hd]
    rfl
  · have htext : lead ++ word ++ ((gap ++ (distinct ++ (space ++ list))) ++ after) = source := by
      simp [h.text]
    rw [htext]
    exact hcalm hshow.list

/-- A keyword behind the list is apart from it. -/
theorem Clause.stops (hshow : ShowsClause source tree) :
    ∀ c ∈ after.head?, c.isAlpha = true →
      ∀ b ∈ (gap ++ (distinct ++ (space ++ list))).getLast?, isSticky b = false := by
  obtain ⟨ns, htree, -⟩ := h.reads_list
  intro d hd hletter b hb
  have hlast : b ∈ (lead ++ word ++ gap ++ distinct ++ space ++ list).getLast? := by
    have hsplit : lead ++ word ++ gap ++ distinct ++ space ++ list =
        lead ++ word ++ (gap ++ (distinct ++ (space ++ list))) := by simp
    rw [hsplit, List.getLast?_append, Option.mem_def.mp hb]
    rfl
  obtain ⟨rest, rfl⟩ := List.head?_eq_some_iff.mp hd
  refine ((h.at_list hbare).ends rfl rfl).not_isSticky (isNameChar_of_isAlpha hletter) (fun e he => ?_)
    b hlast
  have hstop : stopOf (.node .projectionItems (lead ++ word ++ gap ++ distinct ++ space).length
      list ns) = (lead ++ word ++ gap ++ distinct ++ space ++ list).length := by
    rw [stopOf, Tree.start, Tree.text, ← List.length_append]
  have htext : source = (lead ++ word ++ gap ++ distinct ++ space ++ list) ++ d :: rest := by
    simp [h.text]
  have hno := hshow.stop _ htree
  rw [hstop, htext] at hno
  exact not_isDigit_of_stop hletter hno e he

/-- **What ends the clause ends the list of the tree.** -/
theorem Clause.trimClause (hshow : ShowsClause source tree) :
    trimClause (upTo (findKeyword boundarySearch.keywords
      ((gap ++ (distinct ++ (space ++ list))) ++ after)) ((gap ++ (distinct ++ (space ++ list))) ++ after)) =
      trim (distinct ++ (space ++ list)) := by
  obtain ⟨c, hc, hink⟩ := h.ink hbare
  obtain ⟨hquiet, hlevel, hlast⟩ := h.quiet hbare hshow
  rw [trimClause_upTo hlevel ⟨c, by simp [List.mem_of_head? hc], hink⟩ hlast hquiet
    ((h.sorting (h.at_list hbare)).closing (h.at_list hbare)) (h.stops hbare hshow)]
  exact congrArg trimEnd (trimStart_blank (h.at_gap hbare).2 _)

/-- A `DISTINCT` is no part of the list. -/
theorem Clause.projection :
    (stripKeywordPrefix "DISTINCT".toList (trim (distinct ++ (space ++ list)))).getD
      (trim (distinct ++ (space ++ list))) = trim list := by
  have hdistinctWord : SingleWord "DISTINCT" := ⟨by decide, List.all_eq_true.mp (by decide)⟩
  obtain ⟨_, hgap⟩ := h.reads_gap
  obtain ⟨_, hdistinct⟩ := h.reads_distinct
  obtain ⟨_, hspace⟩ := h.reads_space
  obtain ⟨c, hc, hink⟩ := h.ink hbare
  rcases hdistinct.of_opt with hgiven | ⟨rfl, -, hrefused⟩
  · obtain ⟨-, hkeyword⟩ := hgiven.of_atomic rfl
    obtain ⟨hspell, hend⟩ := reads_keyword hkeyword
    have hstop : ∀ d ∈ (space ++ list).head?, isIdentifierChar d = false := by
      intro d hd
      obtain ⟨_, -, hlist⟩ := h.reads_list
      refine not_isIdentifierChar_of_head (led_append (led_of_filler hspace)
        (led_append (beginsAscii_of_reads hlist (by decide)) h.ascii)) hend d ?_
      rw [← List.append_assoc, List.head?_append, Option.mem_def.mp hd]
      rfl
    rw [stripKeywordPrefix_of_given hdistinctWord hspell hstop ⟨c, by simp [List.mem_of_head? hc], hink⟩]
    exact congrArg trimEnd (trimStart_blank (h.at_space hbare).2 _)
  · -- Without a `DISTINCT` the list follows the filler behind `RETURN`.
    obtain rfl : space = [] := by
      cases hspaces : space with
      | nil => rfl
      | cons b bs =>
        have hblank := blanks_of_filler (h.at_distinct hbare).bare hspace b (by simp [hspaces])
        rw [not_isFillerBlank_of_filler hgap b (by simp [hspaces])] at hblank
        cases hblank
    rw [List.nil_append] at hrefused
    rw [List.nil_append, List.nil_append]
    have hends := (h.at_list hbare).ends rfl rfl
    rw [stripKeywordPrefix_of_omitted hdistinctWord hrefused
      (fun d hd => by obtain rfl := Option.mem_unique hc hd; exact hink) fun d hd halpha => ?_]
    · rfl
    · have hlast : d ∈ (lead ++ word ++ gap ++ [] ++ [] ++ list).getLast? := by
        rw [List.getLast?_append, Option.mem_def.mp hd]
        rfl
      refine (hends d hlast).2.2.2 (isNameChar_of_isAlpha halpha) ?_
      rw [Bool.eq_false_iff]
      intro hdigit
      rw [not_isAlpha_of_isDigit hdigit] at halpha
      cases halpha

/-- **The list that the searches isolate is the list of the tree.** -/
theorem Clause.returns (hshow : ShowsClause source tree) :
    (returns? source).map Returns.projection = some (trim list) := by
  have hdrop : source.drop (lead.length + word.length) =
      (gap ++ (distinct ++ (space ++ list))) ++ after := by
    rw [h.text, ← List.append_assoc, ← List.length_append, List.drop_left]
    simp
  have htrim := h.trimClause hbare hshow
  rw [← hdrop] at htrim
  rw [← h.projection hbare, ← htrim, returns?, h.findReturn hbare hshow]
  rfl

/-- Before the list stands no digit. -/
theorem Clause.not_isDigit : ∀ b ∈ (lead ++ word ++ gap ++ distinct ++ space).getLast?,
    b.isDigit = false := by
  obtain ⟨_, hdistinct⟩ := h.reads_distinct
  have hblank {bs : List Char} (hbs : Blank bs) : ∀ b ∈ bs.getLast?, b.isDigit = false :=
    fun b hb => not_isDigit_of_isBlank (hbs b (List.mem_of_getLast? hb))
  have hword : ∀ b ∈ (lead ++ word).getLast?, b.isDigit = false := by
    intro b hb
    refine not_isDigit_of_letters (reads_keyword h.reads_word).1 (List.all_eq_true.mp (by decide)) b ?_
    have hne : word ≠ [] := by
      rintro rfl
      cases (reads_keyword h.reads_word).1
    rwa [List.getLast?_append, List.getLast?_eq_some_getLast hne, Option.some_or,
      ← List.getLast?_eq_some_getLast hne] at hb
  refine forall_getLast?_append (forall_getLast?_append (forall_getLast?_append hword
    (hblank (h.at_gap hbare).2)) ?_) (hblank (h.at_space hbare).2)
  rcases hdistinct.of_opt with hgiven | ⟨rfl, -, -⟩
  · exact not_isDigit_of_letters (reads_keyword (hgiven.of_atomic rfl).2).1
      (List.all_eq_true.mp (by decide))
  · simp

/-- The list is read as the items of the tree, and blanks behind them. -/
theorem Clause.items : ∃ xs fs, list = xs ++ fs ∧ Blank fs ∧
    Items IsItem (lead ++ word ++ gap ++ distinct ++ space) xs (fs ++ after) (returnedTrees tree) ∧
    Apart (lead ++ word ++ gap ++ distinct ++ space) xs (fs ++ after) := by
  obtain ⟨_, hspace⟩ := h.reads_space
  obtain ⟨ns, htree, hlist⟩ := h.reads_list
  obtain ⟨_, hnode, hbody⟩ := hlist.of_normal rfl
  obtain ⟨-, -, -, rfl⟩ := Tree.node.inj (List.cons.inj hnode).1
  obtain ⟨xs, fs, rfl, hitems, hend⟩ := exists_returnedItems hbody
  have hnodes : returnedTrees tree = ns := by rw [returnedTrees, htree]; rfl
  have hapart : Apart (lead ++ word ++ gap ++ distinct ++ space) (xs ++ fs) after :=
    ⟨(h.at_space hbare).1, not_isFillerBlank_of_filler hspace, h.not_isDigit hbare, h.ascii⟩
  obtain ⟨hblank, hapart'⟩ := hapart.of_items IsItem.seeks hitems hend
  exact ⟨xs, fs, rfl, hblank, by rwa [hnodes], hapart'⟩

end Clause

/-! ## What is returned -/

/-- **The items that a text returns are the items of its tree.** -/
theorem returnItems_eq (h : parse source = .ok tree) (hbare : commentCharacters source = [])
    (hshow : ShowsReturn source tree) :
    returnItems source = (returnedTrees tree).map returnedItem := by
  obtain ⟨lead, word, gap, distinct, space, list, after, hclause⟩ := exists_clause h
  have hbare' := uncommented_of_commentless hbare
  obtain ⟨clause, hreturns, hprojection⟩ := Option.map_eq_some_iff.mp (hclause.returns hbare' hshow.clause)
  obtain ⟨xs, fs, rfl, hblank, hitems, hapart⟩ := hclause.items hbare'
  have htext : source = lead ++ word ++ gap ++ distinct ++ space ++ (xs ++ (fs ++ after)) := by
    simp [hclause.text]
  rw [returnItems, hreturns]
  show (splitTopLevel ',' clause.projection).map splitAlias = _
  rw [hprojection, splitTopLevel_trim (by decide), splitTopLevel_append_blank hblank (by decide)]
  refine splitAlias_of_items hitems hapart ?_
  rw [← htext]
  exact hshow.items

/-! ## Columns and keys -/

/-- The column that an item of the tree returns. -/
def columnOf (item : Tree Rule) : List Char :=
  match aliasOf item with
  | some name => Name.normalize name
  | none => Name.normalizeFragment (expressionOf item)

/-- The grouping keys that the items of a tree imply. -/
def impliedKeys (items : List (Tree Rule)) : List String :=
  let expressions := items.map fun item => trim (expressionOf item)
  if expressions.any aggregates then
    (expressions.filter fun e => !aggregates e).map fun e => String.ofList (Name.normalizeFragment e)
  else []

theorem column_returnedItem (item : Tree Rule) : (returnedItem item).column = columnOf item := by
  rw [ReturnItem.column, columnOf, returnedItem]
  cases aliasOf item with
  | none => exact Name.normalizeFragment_trim _
  | some name => rfl

theorem between?_of_ne {opening closing c : Char} (h : c ≠ opening) (cs : List Char) :
    Name.between? opening closing (c :: cs) = none := by
  rw [Name.between?, stripStart, if_neg (Ne.symm h)]
  rfl

/-- A name is lost as a column only if it is the empty one in back quotes. -/
theorem normalize_ne_nil (h : grammar.Reads true (.once (Rule.body .variable)) before cs after nodes)
    (hne : cs ≠ ['`', '`']) : Name.normalize cs ≠ [] := by
  have htrim := trim_of_variable h
  obtain ⟨xs, ys, _, _, rfl, -, hfree, hname⟩ := h.of_tight_seq
  obtain ⟨rfl, -, -⟩ := hfree.of_absent
  rw [List.nil_append] at htrim hne ⊢
  rw [Name.normalize, htrim]
  refine Name.lowercase_ne_nil ?_
  rcases reads_symbolicName hname with ⟨hplain, -⟩ | ⟨body, rfl, -⟩
  · obtain ⟨c, rest, rfl⟩ := List.exists_cons_of_ne_nil hplain.ne_nil
    have hc := hplain.chars c (by simp)
    have hmark {mark : Char} (hmark : isNameChar mark = false) : c ≠ mark := by
      rintro rfl
      rw [hc] at hmark
      cases hmark
    rw [Name.unquote, between?_of_ne (hmark (by decide)), between?_of_ne (hmark (by decide)),
      between?_of_ne (hmark (by decide))]
    simp
  · have hbody : Name.between? '`' '`' ('`' :: (body ++ ['`'])) = some body := by
      rw [Name.between?, stripStart, if_pos rfl, stripStart, Option.bind_some, stripEnd,
        List.reverse_append, List.reverse_singleton, stripStart_eq_some.mpr rfl, Option.map_some,
        List.reverse_reverse]
    rw [Name.unquote, between?_of_ne (by decide), hbody]
    show body ≠ []
    rintro rfl
    exact hne rfl

theorem IsItem.columnOf_ne_nil {item : Tree Rule} (h : IsItem before cs after item)
    (hapart : Apart before cs after) (hname : aliasOf item ≠ some ['`', '`']) : columnOf item ≠ [] := by
  obtain ⟨hat, hhead, -, -⟩ := hapart
  rcases h with h | h
  · obtain ⟨parts, hitem, hbody⟩ := h.of_normal rfl
    obtain ⟨rfl, rfl⟩ := hbody.of_text
    obtain ⟨rfl, -⟩ := List.cons.inj hitem
    show Name.normalizeFragment ['*'] ≠ []
    exact Name.normalizeFragment_ne_nil ⟨'*', by decide, by decide⟩
  · obtain ⟨parts, hitem, hbody⟩ := h.of_normal rfl
    obtain ⟨rfl, -⟩ := List.cons.inj hitem
    obtain ⟨es, fs, ys, _, _, _, rfl, rfl, hexpr, hgap, hopt⟩ := hbody.of_loose_seq
    obtain ⟨ns, rfl, -⟩ := hexpr.of_normal rfl
    simp only [List.append_assoc] at hat hhead
    rcases hopt.of_opt with hnamed | ⟨rfl, rfl, -⟩
    · obtain ⟨ws, gs, vs, _, _, _, rfl, rfl, hword, hspace, hvariable⟩ := hnamed.of_loose_seq
      obtain ⟨rfl, -⟩ := hword.of_atomic rfl
      obtain ⟨rfl, hvar⟩ := hvariable.of_atomic rfl
      refine normalize_ne_nil hvar fun hempty => hname ?_
      subst hempty
      rfl
    · obtain ⟨c, hc, hink⟩ :=
        ((seeks_expression hexpr).ink hat rfl hhead).resolve_left fun hno => by cases hno.2
      exact Name.normalizeFragment_ne_nil ⟨c, List.mem_of_head? hc, hink⟩

theorem Items.columnOf_ne_nil {items : List (Tree Rule)} (h : Items IsItem before cs after items)
    (hapart : Apart before cs after) (hnames : ∀ item ∈ items, aliasOf item ≠ some ['`', '`']) :
    ∀ item ∈ items, columnOf item ≠ [] := by
  induction h with
  | last hitem =>
    intro item hmem
    obtain rfl := List.mem_singleton.mp hmem
    exact hitem.columnOf_ne_nil hapart (hnames _ hmem)
  | @more before cs fs gs ds after item items skipped skipped' hitem hgap hspace _ ih =>
    obtain ⟨hfirst, hthen⟩ := hapart.of_more IsItem.seeks hitem hgap hspace
    intro i hi
    rcases List.mem_cons.mp hi with rfl | hi
    · exact hitem.columnOf_ne_nil hfirst (hnames _ (by simp))
    · exact ih hthen (fun j hj => hnames j (by simp [hj])) i hi

/-- The columns that a text returns are those of its tree, in their order. -/
theorem returnColumns_eq (h : parse source = .ok tree) (hbare : commentCharacters source = [])
    (hshow : ShowsReturn source tree)
    (hnames : ∀ item ∈ returnedTrees tree, aliasOf item ≠ some ['`', '`']) :
    returnColumns source = (returnedTrees tree).map fun item => String.ofList (columnOf item) := by
  obtain ⟨lead, word, gap, distinct, space, list, after, hclause⟩ := exists_clause h
  obtain ⟨xs, fs, -, -, hitems, hapart⟩ := hclause.items (uncommented_of_commentless hbare)
  have hcolumns : (returnItems source).map ReturnItem.column = (returnedTrees tree).map columnOf := by
    rw [returnItems_eq h hbare hshow, List.map_map]
    exact List.map_congr_left fun item _ => column_returnedItem item
  have hkept : ((returnedTrees tree).map columnOf).filter (fun column => !column.isEmpty) =
      (returnedTrees tree).map columnOf := by
    refine List.filter_eq_self.mpr fun column hcolumn => ?_
    obtain ⟨item, hitem, rfl⟩ := List.mem_map.mp hcolumn
    simpa using hitems.columnOf_ne_nil hapart hnames item hitem
  rw [returnColumns, hcolumns, hkept, List.map_map]
  rfl

/-- The grouping keys of a text are those that the items of its tree imply. -/
theorem groupingKeys_eq (h : parse source = .ok tree) (hbare : commentCharacters source = [])
    (hshow : ShowsReturn source tree) : groupingKeys source = impliedKeys (returnedTrees tree) := by
  rw [groupingKeys, returnItems_eq h hbare hshow, impliedKeys]
  simp only [List.any_map, List.filter_map, List.map_map]
  rfl

/-- **What the text returns is what the tree returns**: the items, the columns and the grouping keys
of an accepted text without comments, where the searches are not led astray and no item is given
the empty name. -/
theorem returned_of_tree (h : parse source = .ok tree) (hbare : commentCharacters source = [])
    (hshow : ShowsReturn source tree)
    (hnames : ∀ item ∈ returnedTrees tree, aliasOf item ≠ some ['`', '`']) :
    (returnedList? tree).isSome ∧
      returnItems source = (returnedTrees tree).map returnedItem ∧
      (structureOf source tree).returnColumns =
        (returnedTrees tree).map (fun item => String.ofList (columnOf item)) ∧
      (structureOf source tree).aggregation.groupBy = impliedKeys (returnedTrees tree) := by
  obtain ⟨_, _, _, _, _, _, _, hclause⟩ := exists_clause h
  obtain ⟨_, hlist, -⟩ := hclause.reads_list
  exact ⟨by rw [hlist]; rfl, returnItems_eq h hbare hshow, returnColumns_eq h hbare hshow hnames,
    groupingKeys_eq h hbare hshow⟩

/-- Labels and keys inside brackets may spell any keyword. -/
def markedQuery : List Char :=
  "MATCH (n:RETURN) WITH n WHERE n.x > 1 RETURN DISTINCT n.as AS `as`, count(*) LIMIT 3".toList

theorem returned_markedQuery : ∃ tree, parse markedQuery = .ok tree ∧
    commentCharacters markedQuery = [] ∧ ShowsReturn markedQuery tree ∧
    (returnedTrees tree).map columnOf = ["as".toList, "count(*)".toList] ∧
    (structureOf markedQuery tree).returnColumns =
      (returnedTrees tree).map (fun item => String.ofList (columnOf item)) := by
  obtain ⟨tree, hparse, hall⟩ := exists_tree_of_any markedQuery
    (fun tree => decide (ShowsReturn markedQuery tree ∧
      (∀ item ∈ returnedTrees tree, aliasOf item ≠ some ['`', '`']) ∧
      (returnedTrees tree).map columnOf = ["as".toList, "count(*)".toList])) (by decide +kernel)
  obtain ⟨hshow, hnames, hcolumns⟩ := of_decide_eq_true hall
  have hbare : commentCharacters markedQuery = [] := by decide +kernel
  exact ⟨tree, hparse, hbare, hshow, hcolumns, (returned_of_tree hparse hbare hshow hnames).2.2.1⟩

/-- A key that spells a keyword, with a blank behind its dot. -/
def spacedKey : List Char := "MATCH (n:P) RETURN n. limit, n.b".toList

/-- The search takes the key for the end of the list: one column is cut, the other lost. -/
theorem returnColumns_spacedKey : ∃ tree, parse spacedKey = .ok tree ∧
    commentCharacters spacedKey = [] ∧
    (structureOf spacedKey tree).returnColumns = ["n."] ∧
    (returnedTrees tree).map (fun item => String.ofList (columnOf item)) = ["n. limit", "n.b"] := by
  obtain ⟨tree, hparse, hall⟩ := exists_tree_of_any spacedKey
    (fun tree => decide ((returnedTrees tree).map (fun item => String.ofList (columnOf item)) =
      ["n. limit", "n.b"])) (by decide +kernel)
  have hcolumns : returnColumns spacedKey = ["n."] := by decide +kernel
  exact ⟨tree, hparse, by decide +kernel, hcolumns, of_decide_eq_true hall⟩

end QueryScore.Cypher
