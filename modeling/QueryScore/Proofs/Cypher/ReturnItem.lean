/-
# QueryScore.Proofs.Cypher.ReturnItem -- returned items, in the text and in the tree

The text of an item is cut at its last `AS`; the tree has a node for the expression and one for
the variable behind `AS`. They agree unless a label, a relationship type or a property key of an
item without a name spells `AS`, or `AS` directly follows a digit (`splitAlias_of_item`). Commas
at the top level stand between items and nowhere else, so a list of items is cut into the items
of the tree (`splitAlias_of_items`).
-/

import QueryScore.Cypher.Extract
import QueryScore.Cypher.Walk
import QueryScore.Proofs.Cypher.Listing

namespace QueryScore.Cypher

open Text Grammar Peg

/-! ## What the tree says -/

/-- The text of the expression of a returned item; a star stands for itself. -/
def expressionOf (item : Tree Rule) : List Char :=
  match childOf? .expression item with
  | some e => e.text
  | none => item.text

/-- The text of the name of a returned item. -/
def aliasOf (item : Tree Rule) : Option (List Char) := (childOf? .variable item).map Tree.text

/-- A returned item of the tree. -/
def returnedItem (item : Tree Rule) : ReturnItem := ⟨trim (expressionOf item), aliasOf item⟩

/-- The character before an index is a digit. -/
def digitBefore (source : List Char) (i : Nat) : Bool := (source.take i).getLast?.any Char.isDigit

/-- **`ShowsAlias source item`** -- the search for the name of an item is not led astray: an item
without a name holds no label, type or key that it takes for an `AS`, and the `AS` of an item
does not follow a digit directly. -/
structure ShowsAlias (source : List Char) (item : Tree Rule) : Prop where
  calm : childOf? .variable item = none → isCalm ["AS"] source item = true
  apart : ∀ word ∈ childOf? (.keyword "AS") item, digitBefore source word.start = false

instance (source : List Char) (item : Tree Rule) : Decidable (ShowsAlias source item) :=
  decidable_of_iff ((childOf? .variable item = none → isCalm ["AS"] source item = true) ∧
      ∀ word ∈ childOf? (.keyword "AS") item, digitBefore source word.start = false)
    ⟨fun h => ⟨h.1, h.2⟩, fun h => ⟨h.calm, h.apart⟩⟩

theorem singleWord_as : SingleWord "AS" := ⟨by decide, List.all_eq_true.mp (by decide)⟩

variable {q : Search} {s t : Place} {before cs ds after : List Char} {nodes : List (Tree Rule)}

/-! ## One item -/

theorem splitAlias_of_none (h : findKeywords ["AS"] cs = []) : splitAlias cs = ⟨trim cs, none⟩ := by
  rw [splitAlias, h]
  rfl

theorem splitAlias_of_getLast {front word rest : List Char}
    (h : (findKeywords ["AS"] (front ++ (word ++ rest))).getLast? =
      some ⟨front.length, front.length + word.length, "AS"⟩) :
    splitAlias (front ++ (word ++ rest)) = ⟨trim front, some (trim rest)⟩ := by
  rw [splitAlias, h]
  have hdrop : (front ++ (word ++ rest)).drop (front.length + word.length) = rest := by
    rw [← List.append_assoc, ← List.length_append, List.drop_left]
  simp [hdrop]

/-- An expression of an item: it leads from the top level to the top level, and a search for `AS`
finds nothing but labels, types and keys in it. -/
theorem seeks_expression
    (h : grammar.Reads false (.once (.rule .expression)) before cs after nodes) :
    Seeks aliasSearch {} ⟨0, false, true⟩ before cs after nodes :=
  seeks_of_reads aliasSearch_closed h (by decide)

theorem trimStart_of_ink (h : ∃ c ∈ cs.head?, isBlank c = false) : trimStart cs = cs := by
  obtain ⟨c, hc, hblank⟩ := h
  refine trimStart_of_head fun d hd => ?_
  obtain rfl := Option.mem_unique hc hd
  exact hblank

/-- The name of an item is a stretch without blanks at its ends. -/
theorem trim_of_variable
    (h : grammar.Reads true (.once (Rule.body .variable)) before cs after nodes) : trim cs = cs := by
  obtain ⟨xs, ys, _, _, rfl, -, hfree, hname⟩ := h.of_tight_seq
  obtain ⟨rfl, -, -⟩ := hfree.of_absent
  rw [List.nil_append]
  rcases reads_symbolicName hname with ⟨hplain, -⟩ | ⟨body, rfl, -⟩
  · have hink : ∀ c ∈ ys, isBlank c = false := fun c hc =>
      (isIdentifierChar_of_isNameChar (hplain.chars c hc)).2
    exact trim_of_ends (fun c hc => hink c (List.mem_of_head? hc))
      fun c hc => hink c (List.mem_of_getLast? hc)
  · refine trim_of_ends (by simp; decide) fun c hc => ?_
    rw [← List.cons_append, List.getLast?_concat] at hc
    obtain rfl := Option.some.inj hc
    decide

/-- An item without a name: nothing is found in its expression. -/
theorem splitAlias_of_plain (hread : grammar.Reads false (.once (.rule .expression)) before cs
      after nodes) (hat : At 0 {} before (cs ++ after))
    (hhead : ∀ c ∈ (cs ++ after).head?, isFillerBlank c = false)
    (hdigit : ∀ b ∈ before.getLast?, b.isDigit = false)
    (hascii : ∀ c ∈ after.head?, isAscii c = true)
    (hcalm : areCalm ["AS"] (before ++ (cs ++ after)) nodes = true) :
    splitAlias (trim cs) = ⟨trim cs, none⟩ := by
  have hseeks := seeks_expression hread
  have hends := (hseeks.leads hat).ends rfl rfl
  have hquiet := quiet_of_ends (hseeks.quiet hat hcalm) (hat.ends rfl rfl) hdigit
  rw [hat.run] at hquiet
  have hwhole : Quiet ["AS"] {} none cs [] := quiet_cut_of_ends singleWord_as hquiet hends hascii
  have hink : ∃ c ∈ cs.head?, isBlank c = false :=
    (hseeks.ink hat rfl hhead).resolve_left fun h => by cases h.2
  obtain ⟨bs, hbs, hsplit⟩ := exists_trimEnd cs
  have htrim : trim cs = trimEnd cs := by rw [trim, trimStart_of_ink hink]
  rw [hsplit, ← htrim] at hwhole
  have hnone := findKeywords_of_quiet (hwhole.cut_blank singleWord_as hbs)
  rw [splitAlias_of_none hnone, trim_trim]

/-- An item with a name: the last `AS` is the one before the name. -/
theorem splitAlias_of_word {front word rest : List Char} (hends : Ends front (word ++ rest))
    (hlevel : Level front) (hdigit : ∀ b ∈ front.getLast?, b.isDigit = false)
    (hword : word.map asciiLower = "AS".toList.map asciiLower)
    (hstop : ∀ c ∈ rest.head?, isIdentifierChar c = false)
    (hquiet : Quiet ["AS"] {} word.getLast? rest []) :
    splitAlias (front ++ (word ++ rest)) = ⟨trim front, some (trim rest)⟩ := by
  have halpha := isAlpha_of_mem hword singleWord_as.alpha
  have hstop' : startsInsideWord rest = false := by
    cases rest with
    | nil => rfl
    | cons c rest => exact hstop c rfl
  obtain ⟨w, more, rfl⟩ : ∃ w more, word = w :: more := by
    cases word with
    | nil => cases hword
    | cons w more => exact ⟨w, more, rfl⟩
  have hw : isNameChar w = true := isNameChar_of_isAlpha (halpha w (by simp))
  have hsticky := hends.not_isSticky hw hdigit
  -- A letter before the `AS` would carry the word on.
  have hend : ∀ c ∈ front.getLast?, c.isAlpha = false := by
    intro c hc
    rw [Bool.eq_false_iff]
    intro hletter
    have hno := hsticky c hc
    rw [isSticky_of_isNameChar (isNameChar_of_isAlpha hletter)] at hno
    cases hno
  have hstrip := singleWord_as.strip.mpr ⟨w :: more, rfl, hword, hstop'⟩
  have hhit : isHit ["AS"] (Scanner.run {} front) front.getLast? (w :: more ++ rest) = true := by
    rw [hlevel]
    exact isHit_of_strip (by simp) hstrip ⟨w, rfl, halpha w (by simp)⟩ hsticky
  refine splitAlias_of_getLast (getLast?_findKeywords singleWord_as hend hhit hword hstop' ?_)
  have hrun : Scanner.run {} (front ++ w :: more) = {} := by
    have hinert : Inert (w :: more) := .of_isPlain fun c hc =>
      isPlain_of_isNameChar (isNameChar_of_isAlpha (halpha c hc))
    rw [Scanner.run_append, hlevel]
    exact hinert.level 0
  rw [hrun]
  exact hquiet

theorem Ends.of_head {other : List Char} (h : Ends before after)
    (hhead : other.head? = after.head?) : Ends before other := by
  intro c hc
  rw [hhead]
  exact h c hc

theorem Ends.of_append_right (hne : cs ≠ []) (h : Ends (before ++ cs) after) : Ends cs after := by
  rwa [Ends, List.getLast?_append, List.getLast?_eq_some_getLast hne, Option.some_or,
    ← List.getLast?_eq_some_getLast hne] at h

/-- The parts of an item with a name. -/
structure NamedItem (before after es fs ws gs vs : List Char) : Prop where
  expression : ∃ ns, grammar.Reads false (.once (.rule .expression)) before es
    (fs ++ (ws ++ (gs ++ (vs ++ after)))) ns
  gap : ∃ ns, grammar.Reads true (.once grammar.filler) (before ++ es) fs
    (ws ++ (gs ++ (vs ++ after))) ns
  word : grammar.Reads true (.once (Rule.body (.keyword "AS"))) (before ++ es ++ fs) ws
    (gs ++ (vs ++ after)) []
  space : ∃ ns, grammar.Reads true (.once grammar.filler) (before ++ es ++ fs ++ ws) gs
    (vs ++ after) ns
  name : grammar.Reads true (.once (Rule.body .variable)) (before ++ es ++ fs ++ ws ++ gs) vs after []

namespace NamedItem

variable {es fs ws gs vs : List Char}

theorem word_ne_nil (h : NamedItem before after es fs ws gs vs) : ws ≠ [] := by
  obtain ⟨hspell, -⟩ := reads_keyword h.word
  rintro rfl
  cases hspell

/-- A name begins with ink. -/
theorem name_head (h : NamedItem before after es fs ws gs vs) : ∃ v more, vs = v :: more := by
  obtain ⟨v, hv, -⟩ := (met_of_variable h.name).led.head
  obtain ⟨more, rfl⟩ := List.head?_eq_some_iff.mp hv
  exact ⟨v, more, rfl⟩

/-- No identifier goes on behind `AS`. -/
theorem stops (h : NamedItem before after es fs ws gs vs) :
    ∀ c ∈ (gs ++ vs).head?, isIdentifierChar c = false := by
  obtain ⟨-, hend⟩ := reads_keyword h.word
  obtain ⟨_, hspace⟩ := h.space
  obtain ⟨v, more, rfl⟩ := h.name_head
  have hled := (inert_of_atomic (r := .variable) rfl rfl h.name).led
  refine not_isIdentifierChar_of_head (led_append (led_of_filler hspace) hled) fun c hc => hend c ?_
  rw [← List.append_assoc, List.head?_append, Option.mem_def.mp hc]
  rfl

/-- The expression of an item that stands at the top level begins with ink. -/
theorem ink (h : NamedItem before after es fs ws gs vs)
    (hat : At 0 {} before (es ++ (fs ++ (ws ++ (gs ++ (vs ++ after))))))
    (hhead : ∀ c ∈ (es ++ (fs ++ (ws ++ (gs ++ (vs ++ after))))).head?, isFillerBlank c = false) :
    ∃ c ∈ es.head?, isBlank c = false := by
  obtain ⟨_, hexpr⟩ := h.expression
  exact ((seeks_expression hexpr).ink hat rfl hhead).resolve_left fun h => by cases h.2

/-- The places behind the expression, behind the filler, and behind `AS`. -/
theorem places (h : NamedItem before after es fs ws gs vs)
    (hat : At 0 {} before (es ++ (fs ++ (ws ++ (gs ++ (vs ++ after)))))) :
    At 0 {} (before ++ es) (fs ++ (ws ++ (gs ++ (vs ++ after)))) ∧
      (At 0 {} (before ++ es ++ fs) (ws ++ (gs ++ (vs ++ after))) ∧ Blank fs) ∧
      At 0 {} (before ++ es ++ fs ++ ws) ((gs ++ vs) ++ after) ∧ Blank gs := by
  obtain ⟨⟨_, hexpr⟩, ⟨_, hgap⟩, hword, ⟨_, hspace⟩, -⟩ := h
  have hes : At 0 {} (before ++ es) _ := ((seeks_expression hexpr).leads hat).top
  have hfs := hes.filler hgap
  have hws : At 0 {} (before ++ es ++ fs ++ ws) _ := hfs.1.token (by decide) rfl hword
  refine ⟨hes, hfs, by rwa [List.append_assoc gs vs after], (hws.filler hspace).2⟩

/-- Behind the `AS` before the name there is no other. -/
theorem quiet (h : NamedItem before after es fs ws gs vs)
    (hat : At 0 {} before (es ++ (fs ++ (ws ++ (gs ++ (vs ++ after))))))
    (hascii : ∀ c ∈ after.head?, isAscii c = true) : Quiet ["AS"] {} ws.getLast? (gs ++ vs) [] := by
  obtain ⟨-, -, hgs, -⟩ := h.places hat
  obtain ⟨_, hspace⟩ := h.space
  have hrest : Seeks aliasSearch {} ⟨0, false, true⟩ (before ++ es ++ fs ++ ws) (gs ++ vs) after
      ([] ++ [.node .variable _ vs []]) :=
    (Seeks.filler hspace).append (Seeks.token (r := .variable) (by decide) rfl h.name)
  have hall := hrest.quiet hgs rfl
  rw [hgs.run, List.getLast?_append, List.getLast?_eq_some_getLast h.word_ne_nil, Option.some_or,
    ← List.getLast?_eq_some_getLast h.word_ne_nil] at hall
  exact quiet_cut_of_ends singleWord_as hall ((hrest.leads hgs).ends rfl rfl) hascii

/-- The word stands apart from the expression. -/
theorem ends (h : NamedItem before after es fs ws gs vs)
    (hat : At 0 {} before (es ++ (fs ++ (ws ++ (gs ++ (vs ++ after))))))
    (hhead : ∀ c ∈ (es ++ (fs ++ (ws ++ (gs ++ (vs ++ after))))).head?, isFillerBlank c = false) :
    Ends (es ++ fs) (ws ++ (gs ++ vs)) := by
  obtain ⟨-, ⟨hfs, -⟩, -⟩ := h.places hat
  obtain ⟨c, hc, -⟩ := h.ink hat hhead
  obtain ⟨more, rfl⟩ := List.head?_eq_some_iff.mp hc
  have hends := hfs.ends rfl rfl
  rw [List.append_assoc] at hends
  refine (hends.of_append_right (by simp)).of_head ?_
  obtain ⟨w, rest, rfl⟩ := List.exists_cons_of_ne_nil h.word_ne_nil
  rfl

theorem trim_text (h : NamedItem before after es fs ws gs vs) (hink : ∃ c ∈ es.head?, isBlank c = false) :
    trim (es ++ (fs ++ (ws ++ (gs ++ vs)))) = es ++ (fs ++ (ws ++ (gs ++ vs))) := by
  obtain ⟨e, he, hblank⟩ := hink
  obtain ⟨v, more, rfl⟩ := h.name_head
  have hname : trimEnd (trimStart (v :: more)) = v :: more := trim_of_variable h.name
  refine trim_of_ends (fun c hc => ?_) fun c hc => ?_
  · rw [List.head?_append, Option.mem_def.mp he] at hc
    obtain rfl := Option.some.inj hc
    exact hblank
  · have hlast := getLast_trimEnd (trimStart (v :: more)) c
    rw [hname] at hlast
    exact hlast (by simpa [List.getLast?_append] using hc)

/-- **An item with a name is cut at the `AS` before it.** -/
theorem splitAlias (h : NamedItem before after es fs ws gs vs)
    (hat : At 0 {} before (es ++ (fs ++ (ws ++ (gs ++ (vs ++ after))))))
    (hhead : ∀ c ∈ (es ++ (fs ++ (ws ++ (gs ++ (vs ++ after))))).head?, isFillerBlank c = false)
    (hascii : ∀ c ∈ after.head?, isAscii c = true)
    (hdigit : ∀ b ∈ (es ++ fs).getLast?, b.isDigit = false) :
    splitAlias (trim (es ++ (fs ++ (ws ++ (gs ++ vs))))) = ⟨trim es, some vs⟩ := by
  obtain ⟨hes, ⟨-, hfs⟩, -, hgs⟩ := h.places hat
  have hlevel : Level (es ++ fs) := (hat.between hes).append hfs.level
  obtain ⟨hspell, -⟩ := reads_keyword h.word
  have hcut := splitAlias_of_word (h.ends hat hhead) hlevel hdigit hspell h.stops
    (h.quiet hat hascii)
  have hname : trim (gs ++ vs) = vs := by
    rw [trim, trimStart_blank hgs, ← trim, trim_of_variable h.name]
  rw [h.trim_text (h.ink hat hhead), ← List.append_assoc, hcut, trim_append_blank hfs, hname]

end NamedItem

/-- **An item of the text is the item of the tree.** -/
theorem splitAlias_of_item {item : Tree Rule}
    (hread : grammar.Reads false (.once (.rule .projectionItem)) before cs after [item])
    (hat : At 0 {} before (cs ++ after))
    (hhead : ∀ c ∈ (cs ++ after).head?, isFillerBlank c = false)
    (hdigit : ∀ b ∈ before.getLast?, b.isDigit = false)
    (hascii : ∀ c ∈ after.head?, isAscii c = true)
    (hshow : ShowsAlias (before ++ (cs ++ after)) item) :
    splitAlias (trim cs) = returnedItem item := by
  obtain ⟨parts, hitem, hbody⟩ := hread.of_normal rfl
  obtain ⟨rfl, -⟩ := List.cons.inj hitem
  obtain ⟨es, fs, ys, _, _, _, rfl, rfl, hexpr, hgap, hopt⟩ := hbody.of_loose_seq
  obtain ⟨ns, rfl, -⟩ := hexpr.of_normal rfl
  simp only [List.append_assoc] at hat hhead
  rcases hopt.of_opt with hnamed | ⟨rfl, rfl, -⟩
  · obtain ⟨ws, gs, vs, _, _, _, rfl, rfl, hword, hspace, hname⟩ := hnamed.of_loose_seq
    obtain ⟨rfl, has⟩ := hword.of_atomic rfl
    obtain ⟨rfl, hvar⟩ := hname.of_atomic rfl
    simp only [List.append_assoc] at hat hhead hexpr hgap
    have hparts : NamedItem before after es fs ws gs vs :=
      ⟨⟨_, hexpr⟩, ⟨_, hgap⟩, has, ⟨_, hspace⟩, hvar⟩
    refine hparts.splitAlias hat hhead hascii fun b hb => ?_
    have hno := hshow.apart (.node (.keyword "AS") (before ++ es ++ fs).length ws []) (by
      simp [childOf?, Tree.children, Tree.rule])
    have htake : (before ++ ((es ++ (fs ++ (ws ++ (gs ++ vs)))) ++ after)).take
        (before ++ es ++ fs).length = before ++ (es ++ fs) := by
      rw [← List.append_assoc, ← List.append_assoc, ← List.append_assoc, List.append_assoc _ _ after,
        List.take_left, List.append_assoc]
    rw [digitBefore, Tree.start, htake, List.getLast?_append, Option.mem_def.mp hb] at hno
    simpa using hno
  · rw [List.nil_append] at hat hhead hgap hexpr
    obtain ⟨hes, hblank⟩ := ((seeks_expression hexpr).leads hat).top.filler hgap
    rw [List.append_nil, trim_append_blank hblank]
    have hcalm := hshow.calm (by simp [childOf?, Tree.children, Tree.rule])
    rw [isCalm] at hcalm
    simp only [List.append_nil, List.append_assoc, Bool.and_eq_true] at hcalm
    refine splitAlias_of_plain hexpr hat hhead hdigit
      (led_append (led_of_filler hgap) hascii) hcalm.2

/-! ## The list -/

/-- **`IsItem before cs after item`** -- the stretch is read as a star or as an item. -/
def IsItem (before cs after : List Char) (item : Tree Rule) : Prop :=
  grammar.Reads false (.once (.rule .star)) before cs after [item] ∨
    grammar.Reads false (.once (.rule .projectionItem)) before cs after [item]

theorem IsItem.seeks {item : Tree Rule} (h : IsItem before cs after item) :
    Seeks itemSearch {} ⟨0, false, true⟩ before cs after [item] := by
  rcases h with h | h
  · exact seeks_of_reads itemSearch_closed h (by decide)
  · exact seeks_of_reads itemSearch_closed h (by decide)

theorem IsItem.splitAlias {item : Tree Rule} (h : IsItem before cs after item)
    (hapart : Apart before cs after) (hshow : ShowsAlias (before ++ (cs ++ after)) item) :
    splitAlias (trim cs) = returnedItem item := by
  rcases h with h | h
  · obtain ⟨parts, hitem, hbody⟩ := h.of_normal rfl
    obtain ⟨rfl, rfl⟩ := hbody.of_text
    obtain ⟨rfl, -⟩ := List.cons.inj hitem
    rfl
  · exact splitAlias_of_item h hapart.place hapart.head hapart.digit hapart.ascii hshow

/-- The body of a returned list: items, and filler that may end it. -/
theorem exists_returnedItems (h : grammar.Reads false (.once (Rule.body .projectionItems)) before cs
      after nodes) : ∃ xs fs, cs = xs ++ fs ∧ Items IsItem before xs (fs ++ after) nodes ∧
      (fs = [] ∨ ∃ skipped, grammar.Reads true (.once grammar.filler) (before ++ xs) fs after
        skipped) := by
  refine exists_items (r := .projectionItem) rfl .inr (fun hfirst => ?_) h
  rcases hfirst.of_alt with hfirst | ⟨-, hfirst⟩
  · obtain ⟨parts, rfl, -⟩ := hfirst.of_normal rfl
    exact ⟨_, rfl, .inl hfirst⟩
  · obtain ⟨parts, rfl, -⟩ := hfirst.of_normal rfl
    exact ⟨_, rfl, .inr hfirst⟩

/-- **A returned list of the text is cut into the items of the tree.** -/
theorem splitAlias_of_items {items : List (Tree Rule)} (h : Items IsItem before cs after items)
    (hapart : Apart before cs after)
    (hshow : ∀ item ∈ items, ShowsAlias (before ++ (cs ++ after)) item) :
    (splitTopLevel ',' cs).map splitAlias = items.map returnedItem :=
  splitTopLevel_of_items IsItem.seeks h hapart fun hitem hmem htext hapart' =>
    hitem.splitAlias hapart' (htext ▸ hshow _ hmem)

end QueryScore.Cypher
