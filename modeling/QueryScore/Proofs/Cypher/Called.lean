/-
# QueryScore.Proofs.Cypher.Called -- calls are found in tokens

The search for calls of aggregate functions reads the text of a projection without its tree. The grammar is
followed with what stands before each place (`Site`): behind the name of a function a parenthesis opens the
call, and behind no other name a parenthesis follows. So in a text without comments no call reaches from one
token into the next, and all that are found are found token by token (`calls_of_tokens`): the text of a token
decides alone, with the parenthesis behind it if the token is called.
-/

import QueryScore.Cypher.Extract
import QueryScore.Proofs.Cypher.LastSign
import QueryScore.Proofs.Peg.Node
import QueryScore.Proofs.Text.Called

namespace QueryScore.Cypher

open Text Grammar Peg

variable {source before cs ds after tail : List Char} {nodes ns ms : List (Tree Rule)} {t k : Tree Rule}
  {prev : Option Char}

/-! ## Tokens -/

mutual

/-- **`tokensOf t`** -- the tokens of a tree, in the order of the text. -/
def tokensOf : Tree Rule → List (Tree Rule)
  | .node r i cs ts => if r.kind = .atomic then [.node r i cs ts] else tokensOfAll ts

/-- The tokens of several trees. -/
def tokensOfAll : List (Tree Rule) → List (Tree Rule)
  | [] => []
  | t :: ts => tokensOf t ++ tokensOfAll ts

end

theorem tokensOfAll_append (ts us : List (Tree Rule)) :
    tokensOfAll (ts ++ us) = tokensOfAll ts ++ tokensOfAll us := by
  induction ts with
  | nil => rfl
  | cons t ts ih => rw [List.cons_append, tokensOfAll, tokensOfAll, ih, List.append_assoc]

theorem mem_tokensOfAll {ts : List (Tree Rule)} : k ∈ tokensOfAll ts ↔ ∃ t ∈ ts, k ∈ tokensOf t := by
  induction ts with
  | nil => simp [tokensOfAll]
  | cons t ts ih => rw [tokensOfAll, List.mem_append, ih, List.exists_mem_cons_iff]

theorem tokensOf_of_atomic (h : t.rule.kind = .atomic) : tokensOf t = [t] := by
  obtain ⟨r, i, cs, ts⟩ := t
  exact if_pos h

theorem tokensOf_of_not_atomic (h : t.rule.kind ≠ .atomic) : tokensOf t = tokensOfAll t.children := by
  obtain ⟨r, i, cs, ts⟩ := t
  exact if_neg h

/-- The tokens of a tree are its nodes of atomic rules. -/
theorem mem_tokensOf (h : grammar.Grows source t) : k ∈ tokensOf t ↔ k ∈ t.nodes ∧ k.rule.kind = .atomic := by
  induction t using Tree.partsInduction with
  | h t ih =>
    rw [Tree.mem_nodes]
    by_cases hatomic : t.rule.kind = .atomic
    · -- A token has no parts, so it is its only node.
      rw [tokensOf_of_atomic hatomic, h.children_of_atomic hatomic, List.mem_singleton]
      refine ⟨?_, fun hk => hk.1.resolve_right (by simp)⟩
      rintro rfl
      exact ⟨.inl rfl, hatomic⟩
    · rw [tokensOf_of_not_atomic hatomic, mem_tokensOfAll]
      constructor
      · rintro ⟨u, hu, hk⟩
        obtain ⟨hnode, hkind⟩ := (ih u hu (h.parts u hu)).mp hk
        exact ⟨.inr ⟨u, hu, hnode⟩, hkind⟩
      · rintro ⟨rfl | ⟨u, hu, hnode⟩, hkind⟩
        · exact absurd hkind hatomic
        · exact ⟨u, hu, (ih u hu (h.parts u hu)).mpr ⟨hnode, hkind⟩⟩

/-- What the token spells is followed by the arguments of a call. -/
def Rule.isCallee (r : Rule) : Bool := r == .functionName || r == .keyword "COUNT"

/-- The calls that a token shows where it stands. -/
def callsOfToken (k : Tree Rule) : List (List Char) :=
  calls aggregateNames (if k.rule.isCallee then k.text ++ ['('] else k.text)

theorem callable_aggregates : Callable aggregateNames := by decide

theorem calls_eq_callsWithin (cs : List Char) :
    calls aggregateNames cs = callsWithin aggregateNames none cs [] :=
  callsFrom_eq_callsWithin cs

theorem isWordCharacter_eq {c : Char} (h : isAscii c = true) : isWordCharacter c = isNameChar c :=
  eq_of_beq (of_isAscii (p := fun c => isWordCharacter c == isNameChar c) (by decide +kernel) h)

theorem PlainName.wordy (h : PlainName cs) : Wordy cs where
  ne_nil := h.ne_nil
  ascii c hc := isAscii_of_isNameChar (h.chars c hc)
  inner c hc := by rw [isWordCharacter_eq (isAscii_of_isNameChar (h.chars c hc)), h.chars c hc]

/-- **`Edged cs after`** -- how a token begins and ends: with a character of ASCII that opens no call, and
with one that no name goes beyond. -/
structure Edged (cs after : List Char) : Prop where
  head : ∃ c ∈ cs.head?, isAscii c = true ∧ isBlank c = false ∧ c ≠ '('
  last : ∃ front c, cs = front ++ [c] ∧ isAscii c = true ∧ isBlank c = false ∧
    (c.isAlpha = true → Halts after)

theorem edged_of_token {r : Rule} (hpart : r.isPart = true) (hkind : r.kind = .atomic)
    (h : grammar.Reads true (.once r.body) before cs after nodes) : Edged cs after := by
  have hmet := reads_token hpart hkind h
  have hinert := inert_of_atomic hpart hkind h
  obtain ⟨c, hlast, hfirm⟩ := exists_firm_of_token hpart hkind h
  obtain ⟨hascii, -, -, hends⟩ := hmet.ends c hlast
  simp only [isFirm, Bool.and_eq_true, Bool.not_eq_true'] at hfirm
  refine ⟨?_, ?_⟩
  · obtain ⟨d, hd, hink⟩ := hmet.led.head
    refine ⟨d, hd, hinert.led d hd, hink, ?_⟩
    rintro rfl
    obtain ⟨more, rfl⟩ := List.head?_eq_some_iff.mp hd
    have hplain := hinert.plain.1 (by decide)
    cases hplain
  · obtain ⟨front, hfront⟩ := List.getLast?_eq_some_iff.mp hlast
    refine ⟨front, c, hfront, hascii, hfirm.1, fun halpha d hd => ?_⟩
    refine not_isAlpha_of_not_isNameChar (hends (isNameChar_of_isAlpha halpha) ?_ d hd)
    rw [Bool.eq_false_iff]
    intro hdigit
    rw [not_isAlpha_of_isDigit hdigit] at halpha
    cases halpha

theorem Halts.of_prefix (h : Halts after) (htail : tail <+: after) : Halts tail := by
  obtain ⟨rest, rfl⟩ := htail
  exact fun c hc => h c (head?_append_of_mem hc rest)

/-- The calls of a token where it stands, from its text alone. -/
theorem Edged.callsWithin_eq (h : Edged cs after) (htail : tail <+: after) {tail' : List Char}
    (htail' : Halts tail') (hopens : opensCall tail = opensCall tail') :
    callsWithin aggregateNames prev cs tail = callsWithin aggregateNames prev cs tail' := by
  obtain ⟨front, c, rfl, hascii, hink, hhalts⟩ := h.last
  cases hc : c.isAlpha with
  | true => exact callsWithin_congr callable_aggregates htail' (Halts.of_prefix (hhalts hc) htail) hopens _
  | false => exact callsWithin_concat callable_aggregates hascii hc hink _ _ _

/-! ## What stands before a place -/

/-- What stands before a place. -/
inductive Site where
  /-- A sign or a keyword, so a name may begin there. -/
  | fresh
  /-- A name that is not called, perhaps. -/
  | named
  /-- The name of a function that is called. -/
  | callee
  deriving DecidableEq

/-- What is known at the one place holds at the other. -/
def Site.within (s t : Site) : Bool := s == t || s == .fresh && t == .named

/-- The site behind a sign. No name is followed by a parenthesis, but for those that are called. -/
def Site.sign (ws : List Char) (s : Site) : Option Site :=
  if (ws.all fun c => isAscii c && !isNameChar c && !isBlank c && !isQuote c) = true ∧ ws ≠ [] ∧
      (s = .fresh ∨ (ws.head? = some '(' ↔ s = .callee)) then some .fresh
  else none

/-- A name may stand right before the rule. -/
def Rule.follows (r : Rule) : Bool :=
  [.matchClause, .unwindClause, .withClause, .returnClause, .whereClause, .orderClause, .sortDirection,
    .skipClause, .limitClause, .nodeLabels, .relationshipPattern, .leftArrow, .relationshipTypes,
    .rangeLiteral, .properties, .comparisonOperator, .predicateSuffix, .additiveOperator,
    .multiplicativeOperator, .propertyLookup, .indexLookup, .caseAlternative, .comprehensionTail,
    .mapLiteral].contains r

/-- The rule ends with a sign. -/
def Rule.isOperator (r : Rule) : Bool :=
  [.relationshipPattern, .rightArrow, .comparisonOperator, .additiveOperator, .multiplicativeOperator,
    .unaryOperator].contains r

/-- What may stand before a rule. -/
def Rule.entry (r : Rule) : Site := if r.follows then .named else .fresh

/-- What stands behind a rule. -/
def Rule.exit (r : Rule) : Site := if r.isOperator then .fresh else .named

/-- The text is the name of an aggregate function. -/
def isAggregate (cs : List Char) : Bool := (aggregateNames.map String.toList).contains (cs.map asciiLower)

/-- The site behind a token. Keywords and parameters may stand behind a name. -/
def Site.token (s : Site) : Rule → Option Site
  | .functionName | .keyword "COUNT" => if s = .fresh then some .callee else none
  | .keyword w => if s ≠ .callee ∧ isAggregate w.toList = false then some .fresh else none
  | .parameter => if s ≠ .callee then some .named else none
  | _ => if s = .fresh then some .named else none

/-- The site behind a rule. -/
def Site.cross (r : Rule) (s : Site) : Option Site :=
  if r.isInner then
    if r.kind = .atomic then s.token r else if s.within r.entry then some r.exit else none
  else none

/-- What two sites have in common. -/
def Site.meet (s t : Site) : Option Site := if s.within t then some t else if t.within s then some s else none

/-- How sites change along a rule. -/
def siteFlow : Flow Rule Site where
  sign := Site.sign
  cross := Site.cross
  settle s := s
  meet := Site.meet

theorem siteFlow_body {r : Rule} (hinner : r.isInner = true) (hkind : r.kind = .normal) :
    ∃ t, siteFlow.pass r.body r.entry = some t ∧ t.within r.exit = true := by
  have hall : (normalRules.all fun r =>
      !r.isInner || (siteFlow.pass r.body r.entry).any fun t => t.within r.exit) = true := by decide
  have hone := of_normalRules hall hkind
  rw [hinner, Bool.not_true, Bool.false_or, Option.any_eq_true] at hone
  exact hone

theorem Site.within_cases {s t : Site} (h : s.within t = true) : s = t ∨ s = .fresh ∧ t = .named := by
  simpa [Site.within] using h

/-! ## The calls along a stretch -/

/-- A name may begin behind `prev`, or none does. -/
def Begins (prev : Option Char) (rest : List Char) : Prop :=
  isOpenSide prev = true ∨ ∀ c ∈ rest.head?, isNameChar c = false

/-- **`s.Fits tail`** -- what stands behind the site opens a call, if it has to, or opens none. -/
def Site.Fits (s : Site) (tail : List Char) : Prop := s ≠ .fresh → opensCall tail = decide (s = .callee)

/-- **`Voices s t cs after nodes`** -- on the way from one site to the other, the calls of the stretch are
those of its tokens. -/
structure Voices (s t : Site) (cs after : List Char) (nodes : List (Tree Rule)) : Prop where
  /-- Its quotes end. -/
  closed : modeAfter .outside cs = .outside
  begins : ∀ {prev}, (s = .fresh → Begins prev (cs ++ after)) → t = .fresh →
    Begins (cs.getLast?.or prev) after
  fits : ∀ {tail}, tail <+: after → t.Fits tail → s.Fits (cs ++ tail)
  told : ∀ {prev tail}, (s = .fresh → Begins prev (cs ++ after)) → tail <+: after → t.Fits tail →
    callsWithin aggregateNames prev cs tail = (tokensOfAll nodes).flatMap callsOfToken

variable {r : Rule} {s t' u v : Site}

theorem Voices.nil : Voices s s [] after [] where
  closed := rfl
  begins h := h
  fits _ h := h
  told _ _ _ := rfl

theorem Voices.append (h₁ : Voices s u cs (ds ++ after) ns) (h₂ : Voices u v ds after ms) :
    Voices s v (cs ++ ds) after (ns ++ ms) where
  closed := by rw [modeAfter_append, h₁.closed, h₂.closed]
  begins hbegins hv := by
    rw [List.append_assoc] at hbegins
    have hlast := h₂.begins (h₁.begins hbegins) hv
    rwa [← Option.or_assoc, ← List.getLast?_append] at hlast
  fits htail hv := by
    rw [List.append_assoc]
    exact h₁.fits ((List.prefix_append_right_inj ds).mpr htail) (h₂.fits htail hv)
  told hbegins htail hv := by
    rw [List.append_assoc] at hbegins
    rw [callsWithin_append, h₁.told hbegins ((List.prefix_append_right_inj ds).mpr htail) (h₂.fits htail hv),
      h₂.told (h₁.begins hbegins) htail hv, tokensOfAll_append, List.flatMap_append]

theorem Site.Fits.of_within (h : v.Fits tail) (hwithin : u.within v = true) : u.Fits tail := by
  rcases Site.within_cases hwithin with rfl | ⟨rfl, -⟩
  · exact h
  · exact fun hne => absurd rfl hne

/-- What is known may be forgotten. -/
theorem Voices.weaken (h : Voices s u cs after nodes) (hwithin : u.within v = true) :
    Voices s v cs after nodes where
  closed := h.closed
  begins hbegins hv := h.begins hbegins (by
    rcases Site.within_cases hwithin with rfl | ⟨rfl, -⟩
    · exact hv
    · rfl)
  fits htail hv := h.fits htail (hv.of_within hwithin)
  told hbegins htail hv := h.told hbegins htail (hv.of_within hwithin)

/-- What may stand behind a name may stand behind a sign. -/
theorem Voices.enter (h : Voices u v cs after nodes) (hwithin : s.within u = true) :
    Voices s v cs after nodes := by
  rcases Site.within_cases hwithin with rfl | ⟨rfl, rfl⟩
  · exact h
  · have hnever {p : Prop} (hno : Site.named = .fresh) : p := absurd hno (by decide)
    exact ⟨h.closed, fun _ => h.begins hnever, fun _ _ hne => absurd rfl hne, fun _ => h.told hnever⟩

theorem Voices.meet_left (hmeet : Site.meet u t' = some v) (h : Voices s u cs after nodes) :
    Voices s v cs after nodes := by
  unfold Site.meet at hmeet
  split at hmeet
  · obtain rfl := Option.some.inj hmeet
    exact h.weaken (by assumption)
  · split at hmeet
    · obtain rfl := Option.some.inj hmeet
      exact h
    · cases hmeet

theorem Voices.meet_right (hmeet : Site.meet t' u = some v) (h : Voices s u cs after nodes) :
    Voices s v cs after nodes := by
  unfold Site.meet at hmeet
  split at hmeet
  · obtain rfl := Option.some.inj hmeet
    exact h
  · split at hmeet
    · obtain rfl := Option.some.inj hmeet
      exact h.weaken (by assumption)
    · cases hmeet

theorem Voices.filler (hbare : Bare cs) (h : grammar.Reads true (.once filler) before cs after nodes) :
    Voices s s cs after [] where
  closed := modeAfter_of_blank (blank_of_filler hbare h)
  begins hbegins hs := by
    have hblank := blank_of_filler hbare h
    by_cases hne : cs = []
    · subst hne
      exact hbegins hs
    · exact .inl (isOpenSide_gap ⟨hne, hblank⟩)
  fits _ hs hne := (opensCall_blank (blank_of_filler hbare h) _).trans (hs hne)
  told _ _ _ := callsWithin_blank callable_aggregates.isWord (blank_of_filler hbare h) _

theorem Voices.sign {ws : List Char} (h : Site.sign ws s = some u) : Voices s u ws after [] := by
  unfold Site.sign at h
  split at h
  · rename_i hws
    obtain ⟨hall, hne, hopens⟩ := hws
    obtain rfl := Option.some.inj h
    have hchars : ∀ c ∈ ws,
        isAscii c = true ∧ isNameChar c = false ∧ isBlank c = false ∧ isQuote c = false := by
      simpa [and_assoc] using hall
    refine ⟨modeAfter_of_noQuote fun c hc => (hchars c hc).2.2.2, fun _ _ => .inl ?_, fun _ _ hfresh => ?_,
      fun _ _ _ => ?_⟩
    · obtain ⟨hascii, hname, -⟩ := hchars _ (List.getLast_mem hne)
      rw [List.getLast?_eq_some_getLast hne, Option.some_or, isOpenSide, isWordCharacter_eq hascii, hname]
      rfl
    · obtain ⟨c, rest, rfl⟩ := List.exists_cons_of_ne_nil hne
      have hparen := hopens.resolve_left hfresh
      rw [List.cons_append, opensCall_of_ink (hchars c (by simp)).2.2.1, Bool.beq_eq_decide_eq]
      simpa using hparen
    · refine callsWithin_sign callable_aggregates.isWord (fun c hc => ?_) _
      exact ⟨(hchars c hc).1, not_isAlpha_of_not_isNameChar (hchars c hc).2.1⟩
  · cases h

theorem Edged.not_opensCall (h : Edged cs after) (tail : List Char) : opensCall (cs ++ tail) = false := by
  obtain ⟨c, hc, -, hink, hparen⟩ := h.head
  obtain ⟨more, rfl⟩ := List.head?_eq_some_iff.mp hc
  rw [List.cons_append, opensCall_of_ink hink]
  exact beq_eq_false_iff_ne.mpr hparen

/-- Where a name may begin, or none does, a token shows the calls of its text. -/
theorem Edged.callsWithin_none (h : Edged cs after) (hbegins : Begins prev (cs ++ after)) (tail : List Char) :
    callsWithin aggregateNames prev cs tail = callsWithin aggregateNames none cs tail := by
  refine callsWithin_before callable_aggregates.isWord (hbegins.imp_right fun hhead c hc => ?_) tail
  obtain ⟨d, hd, hascii, -, -⟩ := h.head
  obtain rfl := Option.mem_unique hc hd
  exact ⟨hascii, not_isAlpha_of_not_isNameChar (hhead c (head?_append_of_mem hc after))⟩

/-- What a token leads to: a call, a place where a name may begin, or a name that is not called. -/
theorem Site.token_cases (h : s.token r = some u) :
    (r.isCallee = true ∧ s = .fresh ∧ u = .callee) ∨
      (∃ w, r = .keyword w ∧ r.isCallee = false ∧ isAggregate w.toList = false ∧ s ≠ .callee ∧ u = .fresh) ∨
      (r.isCallee = false ∧ u = .named ∧ (s = .fresh ∨ r = .parameter ∧ s ≠ .callee)) := by
  unfold Site.token at h
  split at h
  · split at h
    · exact .inl ⟨rfl, by assumption, (Option.some.inj h).symm⟩
    · cases h
  · split at h
    · exact .inl ⟨by decide, by assumption, (Option.some.inj h).symm⟩
    · cases h
  · rename_i w hcount
    split at h
    · rename_i hw
      refine .inr (.inl ⟨w, rfl, ?_, hw.2, hw.1, (Option.some.inj h).symm⟩)
      simpa [Rule.isCallee] using fun heq : w = "COUNT" => hcount heq
    · cases h
  · split at h
    · exact .inr (.inr ⟨rfl, (Option.some.inj h).symm, .inr ⟨rfl, by assumption⟩⟩)
    · cases h
  · rename_i hname hcount hkeyword _
    split at h
    · refine .inr (.inr ⟨?_, (Option.some.inj h).symm, .inl (by assumption)⟩)
      cases r with
      | keyword w => exact absurd rfl (hkeyword w)
      | functionName => exact absurd rfl hname
      | _ => rfl
    · cases h

theorem calls_append_paren (cs : List Char) :
    calls aggregateNames (cs ++ ['(']) = callsWithin aggregateNames none cs ['('] := by
  have hsign : ∀ c ∈ ['('], isAscii c = true ∧ c.isAlpha = false := fun c hc => by
    obtain rfl := List.mem_singleton.mp hc
    decide
  have hparen (prev : Option Char) : callsWithin aggregateNames prev ['('] [] = [] :=
    callsWithin_sign callable_aggregates.isWord hsign []
  rw [calls_eq_callsWithin, callsWithin_append, hparen, List.append_nil, List.append_nil]

/-- A plain word that is no aggregate function shows no call. -/
theorem callsWithin_of_not_isAggregate (hcs : Wordy cs) (hno : isAggregate cs = false) (htail : Halts tail) :
    callsWithin aggregateNames prev cs tail = [] := by
  rw [callsWithin_word callable_aggregates hcs htail, if_neg]
  rintro ⟨-, -, hmem⟩
  rw [isAggregate, List.contains_iff_mem.mpr hmem] at hno
  cases hno

theorem Voices.token (h : Site.cross r s = some u) (hkind : r.kind = .atomic)
    (hread : grammar.Reads true (.once r.body) before cs after nodes) :
    Voices s u cs after [.node r before.length cs nodes] := by
  unfold Site.cross at h
  split at h
  · rename_i hinner
    have hpart : r.isPart = true := by
      simp only [Rule.isInner, Bool.and_eq_true] at hinner
      exact hinner.1.1
    have hedged := edged_of_token hpart hkind hread
    have hclosed := (inert_of_atomic hpart hkind hread).closed
    have hfits {tail : List Char} (hs : s ≠ .callee) : s.Fits (cs ++ tail) := fun _ => by
      rw [hedged.not_opensCall, decide_eq_false hs]
    have htokens : (tokensOfAll [.node r before.length cs nodes]).flatMap callsOfToken =
        calls aggregateNames (if r.isCallee then cs ++ ['('] else cs) := by
      have hone : tokensOf (.node r before.length cs nodes) = [_] := tokensOf_of_atomic hkind
      rw [tokensOfAll, hone]
      exact List.append_nil _
    rcases Site.token_cases h with ⟨hcallee, rfl, rfl⟩ | ⟨w, rfl, hcallee, hw, hs, rfl⟩ | ⟨hcallee, rfl, hs⟩
    · refine ⟨hclosed, fun _ hno => absurd hno (by decide), fun _ _ => hfits (by decide),
        fun hbegins htail hopens => ?_⟩
      have hparen : Halts ['('] := .cons (by decide) []
      rw [htokens, if_pos hcallee, calls_append_paren, hedged.callsWithin_none (hbegins rfl),
        hedged.callsWithin_eq htail hparen (hopens (by decide))]
    · obtain ⟨hspell, hafter⟩ := reads_keyword hread
      have hhalts : Halts after := fun c hc => not_isAlpha_of_not_isNameChar (hafter c hc)
      have hwordy : Wordy cs := by
        obtain ⟨front, c, hcs, -⟩ := hedged.last
        refine PlainName.wordy ⟨by simp [hcs], fun c hc => isNameChar_of_isAlpha ?_⟩
        simp only [Rule.isPart, Bool.and_eq_true] at hpart
        exact isAlpha_of_mem hspell (List.all_eq_true.mp hpart.2) c hc
      have hno : isAggregate cs = false := by
        rw [isAggregate, hspell]
        exact hw
      refine ⟨hclosed, fun _ _ => .inr hafter, fun _ _ => hfits hs, fun _ htail _ => ?_⟩
      rw [htokens, hcallee, if_neg Bool.false_ne_true, calls_eq_callsWithin,
        callsWithin_of_not_isAggregate hwordy hno (Halts.of_prefix hhalts htail),
        callsWithin_of_not_isAggregate hwordy hno .nil]
    · have hcalled : s ≠ .callee := by
        rcases hs with rfl | ⟨-, hs⟩
        · decide
        · exact hs
      refine ⟨hclosed, fun _ hno => absurd hno (by decide), fun _ _ => hfits hcalled,
        fun {prev _} hbegins htail hopens => ?_⟩
      have hstart : Begins prev (cs ++ after) := by
        rcases hs with rfl | ⟨rfl, -⟩
        · exact hbegins rfl
        · obtain ⟨xs, ys, _, _, rfl, -, hdollar, -⟩ := hread.of_tight_seq
          obtain ⟨rfl, -⟩ := hdollar.of_text
          refine .inr fun c hc => ?_
          obtain rfl := Option.some.inj hc
          decide
      rw [htokens, hcallee, if_neg Bool.false_ne_true, calls_eq_callsWithin, hedged.callsWithin_none hstart,
        hedged.callsWithin_eq htail .nil (hopens (by decide))]
  · cases h

theorem Voices.node (h : Site.cross r s = some u) (hkind : r.kind = .normal)
    (hbody : ∀ {v w}, siteFlow.pass r.body v = some w → Voices v w cs after nodes) :
    Voices s u cs after [.node r before.length cs nodes] := by
  unfold Site.cross at h
  split at h
  · rename_i hinner
    rw [if_neg (by rw [hkind]; decide)] at h
    split at h
    · rename_i hentry
      obtain rfl := Option.some.inj h
      obtain ⟨v, hpass, hexit⟩ := siteFlow_body hinner hkind
      have hinside := ((hbody hpass).weaken hexit).enter hentry
      have htokens : tokensOfAll [.node r before.length cs nodes] = tokensOfAll nodes := by
        rw [tokensOfAll, tokensOf_of_not_atomic (by rw [Tree.rule, hkind]; decide)]
        exact List.append_nil _
      exact ⟨hinside.closed, hinside.begins, hinside.fits, htokens ▸ hinside.told⟩
    · cases h
  · cases h

theorem voices_respects : siteFlow.Respects grammar fun s u _ cs after nodes =>
    Bare cs → Voices s u cs after nodes where
  nil _ := .nil
  append h₁ h₂ hbare := by
    have hfirst := h₁ hbare.left
    exact hfirst.append (h₂ (hbare.right hfirst.closed))
  meetLeft hmeet h hbare := (h hbare).meet_left hmeet
  meetRight hmeet h hbare := (h hbare).meet_right hmeet
  filler h hbare := .filler hbare h
  sign h _ := .sign h
  token h hkind hread _ := .token h hkind hread
  node h hkind hbody hbare := .node h hkind fun hpass => hbody hpass hbare
  silent {r s} hkind := by
    have hinner : r.isInner = false := by cases r <;> first | rfl | cases hkind
    show Site.cross r s = none
    rw [Site.cross, if_neg (by simp [hinner])]

/-- Behind a sign every rule may begin. -/
theorem pass_fresh (hinner : r.isInner = true) (hkind : r.kind = .normal) :
    siteFlow.pass (.rule r) .fresh = some r.exit := by
  have hentry : Site.within .fresh r.entry = true := by
    rw [Rule.entry]
    split <;> rfl
  have hatomic : r.kind ≠ .atomic := by
    rw [hkind]
    decide
  show Site.cross r .fresh = some r.exit
  rw [Site.cross, if_pos hinner, if_neg hatomic, if_pos hentry]

/-- **In a text without comments, the calls that a search finds are those of the tokens.** -/
theorem calls_of_tokens (h : grammar.Grows source t) (hinner : t.rule.isInner = true)
    (hkind : t.rule.kind = .normal) (hbare : Bare t.text) :
    calls aggregateNames t.text = (tokensOf t).flatMap callsOfToken := by
  cases h with
  | @node r before cs after ts _ hread =>
    have hpass := pass_fresh (r := r) hinner hkind
    have hvoices : Voices .fresh r.exit cs after _ := Flow.relates voices_respects hread hpass hbare
    have hfits : r.exit.Fits [] := fun _ => by
      rw [Rule.exit]
      split <;> rfl
    have hbegins : Begins none (cs ++ after) := .inl rfl
    have hcalls := hvoices.told (fun _ => hbegins) List.nil_prefix hfits
    rw [tokensOfAll, tokensOfAll, List.append_nil] at hcalls
    exact (calls_eq_callsWithin cs).trans hcalls

end QueryScore.Cypher
