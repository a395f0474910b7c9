/-
# QueryScore.Proofs.Cypher.Listing -- lists with commas, in the text and in the tree

A clause lists items with commas between them. At the top level of such a list the commas between
its items are the only ones (`Items`), so a text that is cut at its top-level commas falls into the
items of the tree, whatever is made of each of them (`splitTopLevel_of_items`). What an item is, is
left open here: a returned item, a sort key.
-/

import QueryScore.Proofs.Cypher.Search
import QueryScore.Proofs.Peg.Node

namespace QueryScore.Cypher

open Text Grammar Peg

/-! ## Places at the top level -/

variable {q : Search} {s t : Place} {before cs ds after : List Char} {nodes : List (Tree Rule)}

theorem seeks_of_reads {e : Peg Rule} (hclosed : q.Closed)
    (h : grammar.Reads false (.once e) before cs after nodes) (hpass : q.flow.pass e s = some t) :
    Seeks q s t before cs after nodes :=
  Flow.relates (seeks_respects hclosed) h hpass

theorem At.top {depth : Nat} {begun : Bool} (h : At depth ⟨0, false, begun⟩ before after) :
    At depth {} before after :=
  h.weaken rfl (by simp)

theorem At.run (h : At 0 {} before after) : Scanner.run {} before = {} := h.level

/-- Between two places at the top level the text is level. -/
theorem At.between (h : At 0 {} before (cs ++ after)) (h' : At 0 {} (before ++ cs) after) :
    Level cs := by
  have hrun := h'.run
  rwa [Scanner.run_append, h.run] at hrun

theorem At.filler {skipped : List (Tree Rule)} (h : At 0 {} before (cs ++ after))
    (hread : grammar.Reads true (.once grammar.filler) before cs after skipped) :
    At 0 {} (before ++ cs) after ∧ Blank cs :=
  ⟨(Seeks.filler (q := itemSearch) hread).leads h,
    fun c hc => (isBlank_of_isFillerBlank (blanks_of_filler h.bare hread c hc)).1⟩

theorem At.token {r : Rule} (h : At 0 {} before (cs ++ after)) (hpart : r.isPart = true)
    (hkind : r.kind = .atomic) (hread : grammar.Reads true (.once r.body) before cs after nodes) :
    At 0 {} (before ++ cs) after := by
  have hinside : r ∉ itemSearch.beyond := by
    intro hmem
    have hnormal := (show ∀ r ∈ itemSearch.beyond, r.kind = .normal by decide) r hmem
    rw [hkind] at hnormal
    cases hnormal
  have hpass : itemSearch.passes r = true := by cases r <;> rfl
  have hcross : Place.cross itemSearch r {} = some ⟨0, r = .rangeLiteral, true⟩ := by
    rw [Place.cross, if_pos ⟨hpart, hinside, hpass, fun _ => .inl rfl⟩]
  have hne : r ≠ .rangeLiteral := by
    rintro rfl
    cases hkind
  have hat := (Seeks.token hcross hkind hread).leads h
  simp only [hne, decide_false] at hat
  exact hat.top

/-- A name that goes on to the next character ends before no other name. -/
theorem Ends.not_isSticky {c : Char} (h : Ends before (c :: after)) (hc : isNameChar c = true)
    (hdigit : ∀ b ∈ before.getLast?, b.isDigit = false) :
    ∀ b ∈ before.getLast?, isSticky b = false := by
  intro b hb
  obtain ⟨hascii, hdollar, hdot, hname⟩ := h b hb
  have hother : isNameChar b = false := by
    rw [Bool.eq_false_iff]
    intro hb'
    have hno := hname hb' (hdigit b hb) c rfl
    rw [hc] at hno
    cases hno
  simp [isSticky, not_isIdentifierChar_of_not_isNameChar hascii hother, hdollar, hdot]

/-- What stands before a stretch does not matter where names end. -/
theorem quiet_of_ends {keywords : List String} {scanner : Scanner}
    (h : Quiet keywords scanner before.getLast? cs after) (hends : Ends before (cs ++ after))
    (hdigit : ∀ b ∈ before.getLast?, b.isDigit = false) : Quiet keywords scanner none cs after := by
  cases cs with
  | nil => trivial
  | cons c cs =>
    by_cases hc : isNameChar c = true
    · exact h.of_apart (hends.not_isSticky hc hdigit)
    · refine h.of_head fun d hd => ?_
      obtain rfl := Option.some.inj hd
      exact not_isAlpha_of_not_isNameChar (by simpa using hc)

theorem not_isIdentifierChar_of_head (hascii : ∀ c ∈ after.head?, isAscii c = true)
    (hname : ∀ c ∈ after.head?, isNameChar c = false) :
    ∀ c ∈ after.head?, isIdentifierChar c = false :=
  fun c hc => not_isIdentifierChar_of_not_isNameChar (hascii c hc) (hname c hc)

/-- What stands behind a stretch does not matter where names end. -/
theorem quiet_cut_of_ends {keyword : String} {scanner : Scanner} {prev : Option Char}
    (hkeyword : SingleWord keyword) (h : Quiet [keyword] scanner prev cs after)
    (hends : Ends (before ++ cs) after) (hascii : ∀ c ∈ after.head?, isAscii c = true) :
    Quiet [keyword] scanner prev cs [] := by
  refine h.cut hkeyword fun c hc halpha => not_isIdentifierChar_of_head hascii fun d hd => ?_
  have hlast : c ∈ (before ++ cs).getLast? := by
    rw [List.getLast?_append, Option.mem_def.mp hc]
    rfl
  refine (hends c hlast).2.2.2 (isNameChar_of_isAlpha halpha) ?_ d hd
  rw [Bool.eq_false_iff]
  intro hdigit
  rw [not_isAlpha_of_isDigit hdigit] at halpha
  cases halpha

/-! ## Lists -/

/-- **`Apart before cs after`** -- a stretch at the top level that does not touch what stands around
it. -/
structure Apart (before cs after : List Char) : Prop where
  place : At 0 {} before (cs ++ after)
  /-- It begins with no blank. -/
  head : ∀ c ∈ (cs ++ after).head?, isFillerBlank c = false
  digit : ∀ b ∈ before.getLast?, b.isDigit = false
  ascii : ∀ c ∈ after.head?, isAscii c = true

/-- **`Items isItem before cs after items`** -- items with commas between them. -/
inductive Items (isItem : List Char → List Char → List Char → Tree Rule → Prop) :
    List Char → List Char → List Char → List (Tree Rule) → Prop
  | last {before cs after item} : isItem before cs after item → Items isItem before cs after [item]
  | more {before cs fs gs ds after item items skipped skipped'} :
      isItem before cs (fs ++ (',' :: (gs ++ (ds ++ after)))) item →
      grammar.Reads true (.once grammar.filler) (before ++ cs) fs (',' :: (gs ++ (ds ++ after)))
        skipped →
      grammar.Reads true (.once grammar.filler) (before ++ cs ++ fs ++ [',']) gs (ds ++ after)
        skipped' →
      Items isItem (before ++ cs ++ fs ++ [','] ++ gs) ds after items →
      Items isItem before (cs ++ (fs ++ (',' :: (gs ++ ds)))) after (item :: items)

section Reading

variable {isItem : List Char → List Char → List Char → Tree Rule → Prop} {r : Rule}

/-- A comma and a further item. -/
def further (r : Rule) : Peg Rule := .seq (sign ",") (.rule r)

theorem exists_further (hkind : r.kind = .normal)
    (h : grammar.Reads false (.once (further r)) before cs after nodes) :
    ∃ gs ys item skipped, cs = ',' :: (gs ++ ys) ∧ nodes = [item] ∧
      grammar.Reads true (.once grammar.filler) (before ++ [',']) gs (ys ++ after) skipped ∧
        grammar.Reads false (.once (.rule r)) (before ++ [','] ++ gs) ys after [item] := by
  obtain ⟨us, gs, ys, _, _, _, rfl, rfl, hcomma, hgap, hnext⟩ := h.of_loose_seq
  obtain ⟨rfl, rfl⟩ := hcomma.of_text
  obtain ⟨parts, rfl, -⟩ := hnext.of_normal hkind
  exact ⟨gs, ys, _, _, rfl, rfl, hgap, hnext⟩

theorem Items.of_again (hkind : r.kind = .normal)
    (hread : ∀ {before cs after item}, grammar.Reads false (.once (.rule r)) before cs after [item] →
      isItem before cs after item)
    {part : Peg.Part Rule} {atomic : Bool} {ns : List (Tree Rule)}
    (h : grammar.Reads atomic part before ds after ns) (hpart : part = .again (further r))
    (hatomic : atomic = false) {front cs : List Char} {item : Tree Rule} (hfront : before = front ++ cs)
    (hitem : isItem front cs (ds ++ after) item) : Items isItem front (cs ++ ds) after (item :: ns) := by
  induction h generalizing front cs item with
  | enough =>
    rw [List.append_nil]
    exact .last hitem
  | @moreLoose a before fs xs ds after skipped ns ms hfill hone _ _ _ ih =>
    cases hpart
    subst hfront
    obtain ⟨gs, ys, next, _, rfl, rfl, hgap, hnext⟩ := exists_further hkind hone
    have hrest : Items isItem (front ++ cs ++ fs ++ [','] ++ gs) (ys ++ ds) after (next :: ms) :=
      ih rfl rfl (by simp) (hread hnext)
    have hlist : Items isItem front (cs ++ (fs ++ (',' :: (gs ++ (ys ++ ds))))) after
        (item :: next :: ms) :=
      .more (by simpa using hitem) (by simpa using hfill) (by simpa using hgap) hrest
    simpa using hlist
  | moreTight => cases hatomic
  | _ => cases hpart

/-- The body of a list of items: items, and filler that may end it. -/
theorem exists_items {first : Peg Rule} (hkind : r.kind = .normal)
    (hread : ∀ {before cs after item}, grammar.Reads false (.once (.rule r)) before cs after [item] →
      isItem before cs after item)
    (hfirst : ∀ {before cs after nodes}, grammar.Reads false (.once first) before cs after nodes →
      ∃ item, nodes = [item] ∧ isItem before cs after item)
    (h : grammar.Reads false (.once (.seq first (.many (further r)))) before cs after nodes) :
    ∃ xs fs, cs = xs ++ fs ∧ Items isItem before xs (fs ++ after) nodes ∧
      (fs = [] ∨ ∃ skipped, grammar.Reads true (.once grammar.filler) (before ++ xs) fs after
        skipped) := by
  obtain ⟨xs, ys, ns, ms, rfl, rfl, hone, hmore⟩ := h.of_seq_many
  obtain ⟨item, rfl, hitem⟩ := hfirst hone
  rcases hmore with ⟨rfl, hfill⟩ | hagain
  · exact ⟨xs, ys, rfl, .last hitem, hfill⟩
  · exact ⟨xs ++ ys, [], by simp, .of_again hkind hread hagain rfl rfl rfl hitem, .inl rfl⟩

end Reading

section Cutting

variable {isItem : List Char → List Char → List Char → Tree Rule → Prop}
  (hseeks : ∀ {before cs after item}, isItem before cs after item →
    Seeks itemSearch {} ⟨0, false, true⟩ before cs after [item])
include hseeks

/-- From an item over its comma to the next item. -/
theorem leads_comma {fs gs : List Char} {item : Tree Rule} {skipped skipped' : List (Tree Rule)}
    (hitem : isItem before cs (fs ++ (',' :: (gs ++ (ds ++ after)))) item)
    (hgap : grammar.Reads true (.once grammar.filler) (before ++ cs) fs
      (',' :: (gs ++ (ds ++ after))) skipped)
    (hspace : grammar.Reads true (.once grammar.filler) (before ++ cs ++ fs ++ [',']) gs
      (ds ++ after) skipped')
    (hat : At 0 {} before (cs ++ (fs ++ (',' :: (gs ++ (ds ++ after)))))) :
    Level (cs ++ fs) ∧ Blank fs ∧ At 0 {} (before ++ cs ++ fs ++ [','] ++ gs) (ds ++ after) ∧
      Blank gs := by
  have hcs : At 0 {} (before ++ cs) _ := ((hseeks hitem).leads hat).top
  obtain ⟨hfs, hblank⟩ := hcs.filler hgap
  have hcomma : At 0 {} (before ++ cs ++ fs ++ [',']) (gs ++ (ds ++ after)) :=
    ((Seeks.sign (q := boundarySearch) (s := {}) (t := ⟨0, false, true⟩)
      (by decide)).leads hfs).top
  have hlevel : Level cs := hat.between hcs
  exact ⟨hlevel.append hblank.level, hblank, hcomma.filler hspace⟩

theorem Items.leads {items : List (Tree Rule)} (h : Items isItem before cs after items)
    (hat : At 0 {} before (cs ++ after)) : At 0 {} (before ++ cs) after := by
  induction h with
  | last hitem => exact ((hseeks hitem).leads hat).top
  | more hitem hgap hspace _ ih =>
    simp only [List.append_assoc, List.cons_append] at hat
    obtain ⟨-, -, hgs, -⟩ := leads_comma hseeks hitem hgap hspace hat
    simpa using ih hgs

/-- Filler at the end of a list is blanks, and the items before it are apart from what follows. -/
theorem Apart.of_items {items : List (Tree Rule)} {fs : List Char} (h : Apart before (cs ++ fs) after)
    (hitems : Items isItem before cs (fs ++ after) items)
    (hend : fs = [] ∨ ∃ skipped, grammar.Reads true (.once grammar.filler) (before ++ cs) fs after
      skipped) : Blank fs ∧ Apart before cs (fs ++ after) := by
  obtain ⟨hat, hhead, hdigit, hascii⟩ := h
  rw [List.append_assoc] at hat hhead
  rcases hend with rfl | ⟨_, hfiller⟩
  · exact ⟨.nil, hat, hhead, hdigit, hascii⟩
  · exact ⟨((hitems.leads hseeks hat).filler hfiller).2, hat, hhead, hdigit,
      led_append (led_of_filler hfiller) hascii⟩

/-- An item is not blank, and no comma stands at its top level. -/
theorem Apart.ink_free {item : Tree Rule} (h : Apart before cs after)
    (hitem : isItem before cs after item) :
    (∃ c ∈ cs.head?, isBlank c = false) ∧ Free [','] {} cs := by
  constructor
  · exact ((hseeks hitem).ink h.place rfl h.head).resolve_left fun hno => by cases hno.2
  · have hmarks := (hseeks hitem).free h.place
    rw [h.place.run] at hmarks
    exact hmarks.of_subset (by simp [itemSearch])

/-- The item before a comma and the list behind it are apart from what stands around them. -/
theorem Apart.of_more {fs gs : List Char} {item : Tree Rule} {skipped skipped' : List (Tree Rule)}
    (h : Apart before (cs ++ (fs ++ (',' :: (gs ++ ds)))) after)
    (hitem : isItem before cs (fs ++ (',' :: (gs ++ (ds ++ after)))) item)
    (hgap : grammar.Reads true (.once grammar.filler) (before ++ cs) fs
      (',' :: (gs ++ (ds ++ after))) skipped)
    (hspace : grammar.Reads true (.once grammar.filler) (before ++ cs ++ fs ++ [',']) gs
      (ds ++ after) skipped') :
    Apart before cs (fs ++ (',' :: (gs ++ (ds ++ after)))) ∧
      Apart (before ++ cs ++ fs ++ [','] ++ gs) ds after := by
  have hassoc : (cs ++ (fs ++ (',' :: (gs ++ ds)))) ++ after =
      cs ++ (fs ++ (',' :: (gs ++ (ds ++ after)))) := by simp
  obtain ⟨hat, hhead, hdigit, hascii⟩ := h
  rw [hassoc] at hat hhead
  obtain ⟨-, -, hgs, hblank⟩ := leads_comma hseeks hitem hgap hspace hat
  refine ⟨⟨hat, hhead, hdigit, led_append (led_of_filler hgap) (by simp; decide)⟩,
    ⟨hgs, not_isFillerBlank_of_filler hspace, ?_, hascii⟩⟩
  -- Before the next item stands the comma or a blank.
  refine forall_getLast?_append (fun b hb => ?_) fun b hb => ?_
  · rw [List.getLast?_concat] at hb
    obtain rfl := Option.some.inj hb
    decide
  · exact not_isDigit_of_isBlank (hblank b (List.mem_of_getLast? hb))

/-- **A list of the text is cut into the items of the tree**, if what is made of a piece of the text
is what is made of the item. -/
theorem splitTopLevel_of_items {γ : Type} {f : List Char → γ} {g : Tree Rule → γ}
    {items : List (Tree Rule)} (h : Items isItem before cs after items) (hapart : Apart before cs after)
    (hitem : ∀ {before' cs' after' item}, isItem before' cs' after' item → item ∈ items →
      before' ++ (cs' ++ after') = before ++ (cs ++ after) → Apart before' cs' after' →
        f (trim cs') = g item) :
    (splitTopLevel ',' cs).map f = items.map g := by
  induction h with
  | @last before cs after item hread =>
    obtain ⟨⟨c, hc, hink⟩, hfree⟩ := hapart.ink_free hseeks hread
    rw [splitTopLevel_of_free hfree (trim_ne_nil ⟨c, List.mem_of_head? hc, hink⟩)]
    simp [hitem hread (by simp) rfl hapart]
  | @more before cs fs gs ds after item items skipped skipped' hread hgap hspace _ ih =>
    obtain ⟨hfirst, hthen⟩ := hapart.of_more hseeks hread hgap hspace
    obtain ⟨⟨c, hc, hink⟩, hfree⟩ := hfirst.ink_free hseeks hread
    obtain ⟨hlevel, hblank, -, hblank'⟩ := leads_comma hseeks hread hgap hspace hfirst.place
    have hcut := hitem hread (by simp) (by simp) hfirst
    have hrest := ih hthen fun hread' hmem htext => hitem hread' (by simp [hmem]) (by simp [htext])
    rw [← List.append_assoc, splitTopLevel_append hlevel (by decide),
      splitTopLevel_append_blank hblank (by decide),
      splitTopLevel_blank_append hblank' (by decide),
      splitTopLevel_of_free hfree (trim_ne_nil ⟨c, List.mem_of_head? hc, hink⟩),
      List.map_append, hrest]
    simp [hcut]

end Cutting

end QueryScore.Cypher
