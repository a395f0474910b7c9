/-
# QueryScore.Proofs.Cypher.Balance -- a rule closes what it opens

The brackets of the grammar are signs of its rules, and each rule that opens one closes it. So in a
stretch without comments the brackets that a rule reads are in pairs, and so are its quotes
(`balances_of_reads`): the grammar is followed with the brackets that are open at each place
(`Opened`). From this, an expression that stands for itself in a condition is `Solitary`: no
parentheses wrap it, since it goes on behind the first thing it reads, or does not begin with one
(`standsAlone`).
-/

import QueryScore.Proofs.Cypher.Filler
import QueryScore.Proofs.Filter.Spelling

namespace QueryScore.Cypher

open Text Grammar Peg QueryScore.Filter

variable {before cs ds after fs : List Char} {nodes ns ms : List (Tree Rule)}
  {opens closes : Char → Bool}

/-! ## Open brackets along a rule -/

/-- What is open at a place in the body of a rule. -/
structure Opened where
  /-- The brackets of all kinds. -/
  brackets : Nat := 0
  /-- The parentheses. -/
  parens : Nat := 0
  /-- Something was read. -/
  begun : Bool := false
  deriving DecidableEq

/-- The number of open brackets behind a sign; none is closed that is not open. -/
def openAfter (opens closes : Char → Bool) : Nat → List Char → Option Nat
  | depth, [] => some depth
  | depth, c :: cs =>
    if opens c then openAfter opens closes (depth + 1) cs
    else if closes c then if depth = 0 then none else openAfter opens closes (depth - 1) cs
    else openAfter opens closes depth cs

/-- The place behind a sign. -/
def Opened.sign (ws : List Char) (s : Opened) : Option Opened :=
  if ws ≠ [] ∧ (ws.all fun c => !isQuote c && !isBlank c) = true then
    (openAfter isOpening isClosing s.brackets ws).bind fun brackets =>
      (openAfter isOpeningParen isClosingParen s.parens ws).map fun parens => ⟨brackets, parens, true⟩
  else none

/-- The rules that stand inside a query: a balanced group is only looked at. -/
def Rule.isInner (r : Rule) : Bool := r.isPart && r != .query && r != .endOfText

/-- The place behind a rule. -/
def Opened.cross (r : Rule) (s : Opened) : Option Opened :=
  if r.isInner then some { s with begun := true } else none

/-- What two places have in common. -/
def Opened.meet (s t : Opened) : Option Opened :=
  if s.brackets = t.brackets ∧ s.parens = t.parens then some { s with begun := s.begun && t.begun }
  else none

/-- How places change along a rule. -/
def openedFlow : Flow Rule Opened where
  sign := Opened.sign
  cross := Opened.cross
  settle s := s
  meet := Opened.meet

theorem openedFlow_closed {r : Rule} (hinner : r.isInner = true) (hkind : r.kind = .normal) :
    openedFlow.pass r.body {} = some ⟨0, 0, true⟩ := by
  have hall : (normalRules.all fun r =>
      !r.isInner || openedFlow.pass r.body {} == some ⟨0, 0, true⟩) = true := by decide
  have hone := of_normalRules hall hkind
  rw [hinner, Bool.not_true, Bool.false_or] at hone
  exact eq_of_beq hone

/-! ## Stretches that balance -/

theorem modeAfter_of_noQuote (h : ∀ c ∈ cs, isQuote c = false) : modeAfter .outside cs = .outside := by
  induction cs with
  | nil => rfl
  | cons c cs ih =>
    have hc : Mode.step .outside c = .outside := by simp [Mode.step, h c (by simp)]
    show modeAfter (Mode.step .outside c) cs = .outside
    rw [hc]
    exact ih fun d hd => h d (by simp [hd])

theorem modeAfter_of_blank (h : Blank cs) : modeAfter .outside cs = .outside :=
  modeAfter_of_noQuote fun c hc => (not_mark_of_isBlank (h c hc)).1

/-- **`Balances s t cs nodes`** -- the stretch opens and closes what the two places differ in. -/
structure Balances (s t : Opened) (cs : List Char) (nodes : List (Tree Rule)) : Prop where
  /-- Its quotes end. -/
  closed : modeAfter .outside cs = .outside
  brackets : ∀ more ds, pairsUp isOpening isClosing .outside (s.brackets + more) (cs ++ ds) =
    pairsUp isOpening isClosing .outside (t.brackets + more) ds
  parens : ∀ more ds, pairsUp isOpeningParen isClosingParen .outside (s.parens + more) (cs ++ ds) =
    pairsUp isOpeningParen isClosingParen .outside (t.parens + more) ds
  begun : s.begun = false → t.begun = true → ∃ c ∈ cs, isBlank c = false
  ink : nodes ≠ [] → ∃ c ∈ cs, isBlank c = false

variable {s t u v : Opened}

theorem Balances.nil : Balances s s [] [] where
  closed := rfl
  brackets _ _ := rfl
  parens _ _ := rfl
  begun hs ht := by
    rw [hs] at ht
    cases ht
  ink h := absurd rfl h

theorem Balances.append (h₁ : Balances s t cs ns) (h₂ : Balances t u ds ms) :
    Balances s u (cs ++ ds) (ns ++ ms) where
  closed := by rw [modeAfter_append, h₁.closed, h₂.closed]
  brackets more es := by rw [List.append_assoc, h₁.brackets, h₂.brackets]
  parens more es := by rw [List.append_assoc, h₁.parens, h₂.parens]
  begun hs hu := by
    cases ht : t.begun with
    | false =>
      obtain ⟨c, hc, hink⟩ := h₂.begun ht hu
      exact ⟨c, List.mem_append_right _ hc, hink⟩
    | true =>
      obtain ⟨c, hc, hink⟩ := h₁.begun hs ht
      exact ⟨c, List.mem_append_left _ hc, hink⟩
  ink hne := by
    by_cases hns : ns = []
    · rw [hns, List.nil_append] at hne
      obtain ⟨c, hc, hink⟩ := h₂.ink hne
      exact ⟨c, List.mem_append_right _ hc, hink⟩
    · obtain ⟨c, hc, hink⟩ := h₁.ink hns
      exact ⟨c, List.mem_append_left _ hc, hink⟩

/-- What is known may be forgotten. -/
theorem Balances.weaken (h : Balances s t cs nodes) (hbrackets : v.brackets = t.brackets)
    (hparens : v.parens = t.parens) (hbegun : v.begun = true → t.begun = true) :
    Balances s v cs nodes where
  closed := h.closed
  brackets := by rw [hbrackets]; exact h.brackets
  parens := by rw [hparens]; exact h.parens
  begun hs hv := h.begun hs (hbegun hv)
  ink := h.ink

theorem Balances.meet_left (hmeet : Opened.meet t u = some v) (h : Balances s t cs nodes) :
    Balances s v cs nodes := by
  unfold Opened.meet at hmeet
  split at hmeet
  · obtain rfl := Option.some.inj hmeet
    exact h.weaken rfl rfl (by simp +contextual)
  · cases hmeet

theorem Balances.meet_right (hmeet : Opened.meet t u = some v) (h : Balances s u cs nodes) :
    Balances s v cs nodes := by
  unfold Opened.meet at hmeet
  split at hmeet
  · rename_i hsame
    obtain rfl := Option.some.inj hmeet
    exact h.weaken hsame.1 hsame.2 (by simp +contextual)
  · cases hmeet

theorem pairsUp_openAfter {depth depth' : Nat} {ws : List Char}
    (hquote : ∀ c ∈ ws, isQuote c = false) (h : openAfter opens closes depth ws = some depth')
    (more : Nat) (ds : List Char) :
    pairsUp opens closes .outside (depth + more) (ws ++ ds) =
      pairsUp opens closes .outside (depth' + more) ds := by
  induction ws generalizing depth with
  | nil =>
    obtain rfl := Option.some.inj h
    rfl
  | cons c ws ih =>
    have hshows : Mode.shows .outside c = true := by simp [Mode.shows, hquote c (by simp)]
    have hstep : Mode.step .outside c = .outside := by simp [Mode.step, hquote c (by simp)]
    have hws : ∀ d ∈ ws, isQuote d = false := fun d hd => hquote d (by simp [hd])
    rw [openAfter] at h
    rw [List.cons_append, pairsUp, hshows, hstep, Bool.true_and, Bool.true_and]
    split
    · rename_i hopen
      rw [if_pos hopen] at h
      rw [← ih hws h, Nat.add_right_comm]
    · rename_i hopen
      rw [if_neg hopen] at h
      split
      · rename_i hclose
        rw [if_pos hclose] at h
        split at h
        · cases h
        · rename_i hdepth
          have hmore : (depth + more != 0) = true := by
            simp
            omega
          rw [hmore, Bool.true_and, ← ih hws h, Nat.sub_add_comm (by omega)]
      · rename_i hclose
        rw [if_neg hclose] at h
        exact ih hws h

theorem Balances.sign {ws : List Char} (h : Opened.sign ws s = some t) : Balances s t ws [] := by
  unfold Opened.sign at h
  split at h
  · rename_i hws
    obtain ⟨hne, hall⟩ := hws
    have hchars : ∀ c ∈ ws, isQuote c = false ∧ isBlank c = false := by simpa using hall
    obtain ⟨brackets, hbrackets, h⟩ := Option.bind_eq_some_iff.mp h
    obtain ⟨parens, hparens, rfl⟩ := Option.map_eq_some_iff.mp h
    have hquote : ∀ c ∈ ws, isQuote c = false := fun c hc => (hchars c hc).1
    refine ⟨modeAfter_of_noQuote hquote, pairsUp_openAfter hquote hbrackets,
      pairsUp_openAfter hquote hparens, fun _ _ => ?_, fun hno => absurd rfl hno⟩
    obtain ⟨c, rest, rfl⟩ := List.exists_cons_of_ne_nil hne
    exact ⟨c, by simp, (hchars c (by simp)).2⟩
  · cases h

/-- A stretch in which no bracket shows. -/
theorem Balances.of_shown (hclosed : modeAfter .outside cs = .outside)
    (hshown : Shown (fun c => isOpening c = false ∧ isClosing c = false) .outside cs)
    (hink : nodes ≠ [] → ∃ c ∈ cs, isBlank c = false) : Balances s s cs nodes where
  closed := hclosed
  brackets more ds := by rw [pairsUp_shown hshown, hclosed]
  parens more ds := by
    rw [pairsUp_shown (hshown.mono fun _ => not_paren_of_not_bracket), hclosed]
  begun hs ht := by
    rw [hs] at ht
    cases ht
  ink := hink

/-- A stretch that leaves a node has begun. -/
theorem Balances.begin (h : Balances s t cs nodes) (hne : nodes ≠ []) :
    Balances s { t with begun := true } cs nodes :=
  ⟨h.closed, h.brackets, h.parens, fun _ _ => h.ink hne, h.ink⟩

theorem Balances.filler (hbare : Bare cs) (h : grammar.Reads true (.once filler) before cs after nodes) :
    Balances s s cs [] := by
  have hblank := blank_of_filler hbare h
  refine .of_shown (modeAfter_of_blank hblank) (shown_of_forall fun c hc => ?_) fun hno => absurd rfl hno
  exact (not_mark_of_isBlank (hblank c hc)).2

theorem Balances.token {r : Rule} (h : Opened.cross r s = some t) (hkind : r.kind = .atomic)
    (hread : grammar.Reads true (.once r.body) before cs after nodes) :
    Balances s t cs [.node r before.length cs nodes] := by
  unfold Opened.cross at h
  split at h
  · rename_i hinner
    obtain rfl := Option.some.inj h
    simp only [Rule.isInner, Bool.and_eq_true] at hinner
    have hinert := inert_of_atomic hinner.1.1 hkind hread
    obtain ⟨c, hc, hink⟩ := (reads_token hinner.1.1 hkind hread).led.head
    have hplain := hinert.plain.mono fun _ => not_bracket_of_isPlain
    exact (Balances.of_shown hinert.closed hplain fun _ => ⟨c, List.mem_of_mem_head? hc, hink⟩).begin
      (by simp)
  · cases h

theorem Balances.node {r : Rule} (h : Opened.cross r s = some t) (hkind : r.kind = .normal)
    (hbody : ∀ {u v}, openedFlow.pass r.body u = some v → Balances u v cs nodes) :
    Balances s t cs [.node r before.length cs nodes] := by
  unfold Opened.cross at h
  split at h
  · rename_i hinner
    obtain rfl := Option.some.inj h
    have hinside := hbody (openedFlow_closed hinner hkind)
    have hink := hinside.begun rfl rfl
    refine ⟨hinside.closed, fun more ds => ?_, fun more ds => ?_, fun _ _ => hink, fun _ => hink⟩
    · have hsame := hinside.brackets (s.brackets + more) ds
      simpa using hsame
    · have hsame := hinside.parens (s.parens + more) ds
      simpa using hsame
  · cases h

/-- **In a text without comments every reading opens and closes what its places differ in.** -/
theorem balances_respects : openedFlow.Respects grammar fun s t _ cs _ nodes =>
    Bare cs → Balances s t cs nodes where
  nil _ := .nil
  append h₁ h₂ hbare := by
    have hfirst := h₁ hbare.left
    exact hfirst.append (h₂ (hbare.right hfirst.closed))
  meetLeft hmeet h hbare := (h hbare).meet_left hmeet
  meetRight hmeet h hbare := (h hbare).meet_right hmeet
  filler h hbare := .filler hbare h
  sign h _ := .sign h
  token h hkind hread _ := .token h hkind hread
  node h hkind hbody hbare := .node h hkind fun hpass => hbody hpass hbare
  silent {r s} hkind := by
    have hinner : r.isInner = false := by cases r <;> first | rfl | cases hkind
    show Opened.cross r s = none
    rw [Opened.cross, if_neg (by simp [hinner])]

theorem balances_of_reads {e : Peg Rule} (hpass : openedFlow.pass e s = some t)
    (h : grammar.Reads false (.once e) before cs after nodes) (hbare : Bare cs) :
    Balances s t cs nodes :=
  Flow.relates balances_respects h hpass hbare

theorem Balances.paired {begun : Bool} (h : Balances {} ⟨0, 0, begun⟩ cs nodes) : Paired cs where
  brackets := by
    have hall := h.brackets 0 []
    rw [List.append_nil] at hall
    exact hall
  parens := by
    have hall := h.parens 0 []
    rw [List.append_nil] at hall
    exact hall

/-- **`Closes cs`** -- unless a comment gets in the way, the quotes of the stretch end in it. -/
def Closes (cs : List Char) : Prop := Bare cs → modeAfter .outside cs = .outside

theorem Closes.append (hcs : Closes cs) (hds : Closes ds) : Closes (cs ++ ds) := by
  intro hbare
  have hmode := hcs hbare.left
  rw [modeAfter_append, hmode]
  exact hds (hbare.right hmode)

theorem closes_of_reads {e : Peg Rule} (hpass : openedFlow.pass e {} = some t)
    (h : grammar.Reads false (.once e) before cs after nodes) : Closes cs := fun hbare =>
  (balances_of_reads hpass h hbare).closed

theorem closes_of_filler (h : grammar.Reads true (.once filler) before fs after nodes) : Closes fs :=
  fun hbare => modeAfter_of_blank (blank_of_filler hbare h)

theorem pass_rule {r : Rule} (hinner : r.isInner = true) :
    openedFlow.pass (.rule r) {} = some ⟨0, 0, true⟩ := by
  simp [Flow.pass, openedFlow, Opened.cross, hinner]

/-! ## Expressions that no parentheses wrap -/

/-- A first expression that closes what it opens, and a second that can be followed. -/
def isClosedBefore (a b : Peg Rule) : Bool :=
  (openedFlow.pass a {}).any (fun s => s.brackets == 0 && s.parens == 0) &&
    (openedFlow.pass b {}).isSome

/-- The expression reads something. -/
def begins (e : Peg Rule) : Bool := (openedFlow.pass e {}).any Opened.begun

/-- A sign that is no parenthesis. -/
def isOtherSign : Peg Rule → Bool
  | .text (c :: _) => c != '(' && !isBlank c
  | _ => false

/-- The expression only looks ahead. -/
def isLook : Peg Rule → Bool
  | .present _ => true
  | _ => false

/-- **`standsAlone e`** -- what the expression reads does not begin with a parenthesis, or goes on
behind the first brackets. -/
def standsAlone : Peg Rule → Bool
  | .rule r => r.isInner && r.kind == .atomic
  | .alt a b => standsAlone a && standsAlone b
  | .seq a b => isOtherSign a || isLook a && standsAlone b || isClosedBefore a b && begins a && begins b
  | _ => false

section Parts

variable {a b e : Peg Rule} {xs ys : List Char} {skipped : List (Tree Rule)}

/-- An expression that begins, or leaves a node, reads something. -/
theorem exists_ink (hpass : openedFlow.pass e {} = some t) (hsome : begins e = true ∨ nodes ≠ [])
    (h : Balances {} t cs nodes) : ∃ c ∈ cs, isBlank c = false := by
  rcases hsome with hbegins | hne
  · rw [begins, hpass] at hbegins
    exact h.begun rfl hbegins
  · exact h.ink hne

/-- Parentheses that the first of two expressions opens do not wrap the second. -/
theorem unwrap?_of_seq (hclosed : isClosedBefore a b = true)
    (hfirst : grammar.Reads false (.once a) before xs (fs ++ (ys ++ after)) ns)
    (hfill : grammar.Reads true (.once filler) (before ++ xs) fs (ys ++ after) skipped)
    (hrest : grammar.Reads false (.once b) (before ++ xs ++ fs) ys after ms)
    (hbare : Bare (xs ++ (fs ++ ys))) (hxs : begins a = true ∨ ns ≠ [])
    (hys : begins b = true ∨ ms ≠ []) : unwrap? (trim (xs ++ (fs ++ ys))) = none := by
  obtain ⟨ha, hb⟩ := Bool.and_eq_true_iff.mp hclosed
  obtain ⟨s, hpass, hlevel⟩ := (Option.any_eq_true _ _).mp ha
  obtain ⟨t, hpass'⟩ := Option.isSome_iff_exists.mp hb
  have hopen := balances_of_reads hpass hfirst hbare.left
  have hbehind := hbare.right hopen.closed
  have hgap := modeAfter_of_blank (blank_of_filler hbehind.left hfill)
  have hmore := balances_of_reads hpass' hrest (hbehind.right hgap)
  have hink := exists_ink hpass hxs hopen
  obtain ⟨c, hc, hink'⟩ := exists_ink hpass' hys hmore
  obtain ⟨brackets, parens, begun⟩ := s
  obtain ⟨rfl, rfl⟩ : brackets = 0 ∧ parens = 0 := by simpa using hlevel
  exact unwrap?_trim_append hopen.paired hink ⟨c, List.mem_append_right _ hc, hink'⟩

/-- **What such an expression reads is not wrapped by parentheses.** -/
theorem unwrap?_of_standsAlone (he : standsAlone e = true)
    (h : grammar.Reads false (.once e) before cs after nodes) (hbare : Bare cs) :
    unwrap? (trim cs) = none := by
  induction e generalizing before cs after nodes with
  | rule r =>
    simp only [standsAlone, Rule.isInner, Bool.and_eq_true, beq_iff_eq] at he
    obtain ⟨⟨⟨hpart, -⟩, -⟩, hkind⟩ := he
    obtain ⟨rfl, hread⟩ := h.of_atomic hkind
    have hinert := inert_of_atomic hpart hkind hread
    obtain ⟨c, hc, hink⟩ := (reads_token hpart hkind hread).led.head
    obtain ⟨rest, rfl⟩ := List.head?_eq_some_iff.mp hc
    refine unwrap?_trim_cons ?_ hink rest
    rintro rfl
    exact absurd (hinert.plain.1 (by decide)) (by decide)
  | alt a b iha ihb =>
    obtain ⟨ha, hb⟩ := Bool.and_eq_true_iff.mp he
    rcases h.of_alt with h | ⟨-, h⟩
    · exact iha ha h hbare
    · exact ihb hb h hbare
  | seq a b _ ihb =>
    obtain ⟨xs, fs, ys, ns, skipped, ms, rfl, rfl, hfirst, hfill, hrest⟩ := h.of_loose_seq
    simp only [standsAlone, Bool.or_eq_true, Bool.and_eq_true] at he
    -- It begins with a sign that is no parenthesis, only looks ahead, or has a closed first part
    -- with something behind it.
    rcases he with (hsign | ⟨hlook, hb⟩) | ⟨⟨hclosed, ha⟩, hb⟩
    · cases a with
      | text ws =>
        obtain ⟨hws, -⟩ := hfirst.of_text
        cases ws with
        | nil => cases hsign
        | cons c ws =>
          simp only [isOtherSign, Bool.and_eq_true, bne_iff_ne, Bool.not_eq_true'] at hsign
          rw [hws]
          exact unwrap?_trim_cons hsign.1 hsign.2 _
      | _ => cases hsign
    · cases a with
      | present look =>
        obtain rfl := hfirst.of_present
        rw [List.nil_append] at hbare ⊢
        have hblank := blank_of_filler hbare.left hfill
        have hinner := ihb hb hrest (hbare.right (modeAfter_of_blank hblank))
        have htrim := trim_append hblank .nil ys
        rw [List.append_nil] at htrim
        rwa [htrim]
      | _ => cases hlook
    · exact unwrap?_of_seq hclosed hfirst hfill hrest hbare (.inl ha) (.inl hb)
  | _ => cases he

/-- The two parts of an expression that may leave one node. -/
def splitsParts : Peg Rule → Bool
  | .seq a b => isClosedBefore a b
  | _ => true

/-- An expression that may leave one node, and leaves more, is not wrapped. -/
theorem unwrap?_of_isLone (hlone : grammar.isLone e = true) (hsplits : splitsParts e = true)
    (h : grammar.Reads false (.once e) before cs after nodes) (hbare : Bare cs)
    (hlength : nodes.length ≠ 1) : unwrap? (trim cs) = none := by
  have hone (he : grammar.isOne e = true) : unwrap? (trim cs) = none := by
    obtain ⟨r, -, parts, rfl⟩ := Grammar.exists_node_of_isOne he h
    exact absurd rfl hlength
  cases e with
  | seq a b =>
    obtain ⟨xs, fs, ys, ns, skipped, ms, rfl, rfl, hfirst, hfill, hrest⟩ := h.of_loose_seq
    have hboth : ns ≠ [] ∧ ms ≠ [] := by
      rcases (Bool.or_eq_true _ _).mp hlone with hlone | hlone
      · obtain ⟨r, -, parts, rfl⟩ := Grammar.exists_node_of_isOne (Bool.and_eq_true_iff.mp hlone).1 hfirst
        refine ⟨by simp, ?_⟩
        rintro rfl
        exact hlength rfl
      · obtain ⟨r, -, parts, rfl⟩ := Grammar.exists_node_of_isOne (Bool.and_eq_true_iff.mp hlone).2 hrest
        refine ⟨?_, by simp⟩
        rintro rfl
        exact hlength rfl
    exact unwrap?_of_seq hsplits hfirst hfill hrest hbare (.inr hboth.1) (.inr hboth.2)
  | rule r => exact hone hlone
  | alt a b => exact hone hlone
  | _ => cases hlone

end Parts

end QueryScore.Cypher
