/-
# QueryScore.Proofs.Cypher.LastSign -- no query ends where a name is awaited

Some signs are followed by a name: the colon of a label, the bar between types, the point of a
look-up, and in a map the brace and the comma. A reserved word could stand there, so what follows a
text that ends with such a sign might become a part of it. But no rule of an accepted text ends so:
the grammar is followed with one bit, whether the last sign awaits a name (`lastSignFlow`), and
every token ends with a letter, a digit, a line or a quote mark (`firm_of_token`).
-/

import QueryScore.Proofs.Cypher.Balance
import QueryScore.Proofs.Cypher.Fuel

namespace QueryScore.Cypher

open Text Grammar Peg

variable {before cs ds after : List Char} {nodes ns ms : List (Tree Rule)}

/-! ## The last character that is no blank -/

/-- A name may follow the sign. -/
def awaitsName (c : Char) : Bool := c == ':' || c == '|' || c == '.' || c == '{' || c == ','

/-- The last character of a stretch that is no blank. -/
def lastInk (cs : List Char) : Option Char := (cs.filter fun c => !isBlank c).getLast?

theorem lastInk_append (cs ds : List Char) : lastInk (cs ++ ds) = (lastInk ds).or (lastInk cs) := by
  rw [lastInk, List.filter_append, List.getLast?_append]
  rfl

theorem lastInk_of_blank (h : Blank cs) : lastInk cs = none := by
  have hnone : cs.filter (fun c => !isBlank c) = [] := List.filter_eq_nil_iff.mpr fun c hc => by
    simp [h c hc]
  rw [lastInk, hnone]
  rfl

theorem lastInk_of_getLast {c : Char} (h : cs.getLast? = some c) (hc : isBlank c = false) :
    lastInk cs = some c := by
  obtain ⟨front, rfl⟩ := List.getLast?_eq_some_iff.mp h
  rw [lastInk_append]
  simp [lastInk, hc]

/-- The character ends a token. -/
def isFirm (c : Char) : Bool := !isBlank c && !awaitsName c

theorem isFirm_of_isAlphanum {c : Char} (h : c.isAlphanum = true) : isFirm c = true := by
  have hp := of_isAscii (p := fun c => !c.isAlphanum || isFirm c) (by decide) (isAscii_of_isAlphanum h)
  simpa [h] using hp

theorem isFirm_of_isQuote {c : Char} (h : isQuote c = true) : isFirm c = true := by
  simp only [isQuote, Bool.or_eq_true, beq_iff_eq] at h
  rcases h with (rfl | rfl) | rfl <;> decide

/-! ## Tokens -/

/-- Inside an atomic rule, what the expression reads ends with a firm character. -/
def endsFirm (e : Peg Rule) : Bool :=
  quotedForms.contains e ||
    match e with
    | .text ws => ws.all isFirm
    | .word ws => ws.all Char.isAlpha
    | .digit | .letter | .start | .stop | .absent _ | .present _ => true
    | .any | .rule _ => false
    | .seq a b => endsFirm b && (endsFirm a || !ranking.rests b)
    | .alt a b => endsFirm a && endsFirm b
    | .many a | .opt a => endsFirm a

/-- **`Firm cs`** -- the stretch ends with a firm character, or is empty. -/
def Firm (cs : List Char) : Prop := ∀ c ∈ cs.getLast?, isFirm c = true

theorem Firm.of_all (h : ∀ c ∈ cs, isFirm c = true) : Firm cs := fun c hc => h c (List.mem_of_getLast? hc)

theorem Firm.append (hds : Firm ds) (hcs : ds = [] → Firm cs) : Firm (cs ++ ds) := by
  intro c hc
  rw [List.getLast?_append] at hc
  cases hlast : ds.getLast? with
  | none =>
    rw [hlast, Option.none_or] at hc
    exact hcs (List.getLast?_eq_none_iff.mp hlast) c hc
  | some d =>
    rw [hlast, Option.some_or] at hc
    obtain rfl := Option.some.inj hc
    exact hds d hlast

theorem firm_of_quotedForm {e : Peg Rule} (he : quotedForms.contains e = true)
    (h : grammar.Reads true (.once e) before cs after nodes) : Firm cs := by
  have hbetween {mark : Char} {body : List Char} (hmark : isQuote mark = true) :
      Firm (mark :: (body ++ [mark])) := by
    intro c hc
    rw [← List.cons_append, List.getLast?_concat] at hc
    obtain rfl := Option.some.inj hc
    exact isFirm_of_isQuote hmark
  have he : e = backQuoted ∨ e = stringBetween (sign "'") ∨ e = stringBetween (sign "\"") := by
    simpa [quotedForms] using he
  rcases he with rfl | rfl | rfl
  · obtain ⟨body, rfl, -⟩ := reads_backQuoted h
    exact hbetween (by decide)
  · obtain ⟨body, rfl, -⟩ := reads_string (by decide) h
    exact hbetween (by decide)
  · obtain ⟨body, rfl, -⟩ := reads_string (by decide) h
    exact hbetween (by decide)

private theorem firm_of_form {e : Peg Rule} {structural : Bool}
    (h : grammar.Reads true (.once e) before cs after nodes)
    (he : (quotedForms.contains e || structural) = true) (hs : structural = true → Firm cs) : Firm cs :=
  (Bool.or_eq_true _ _ ▸ he).elim (fun hq => firm_of_quotedForm hq h) hs

private theorem firm_of_part {part : Peg.Part Rule} {atomic : Bool}
    (h : grammar.Reads atomic part before cs after nodes) (hatomic : atomic = true)
    (hpart : endsFirm part.body = true) : Firm cs := by
  -- A quoted form is taken as a whole; elsewhere the last part that takes a character decides.
  induction h with
  | text =>
    subst hatomic
    rw [Peg.Part.body, endsFirm] at hpart
    refine firm_of_form (.text : grammar.Reads true _ [] _ [] []) hpart fun hs => ?_
    exact .of_all (by simpa using hs)
  | word hword =>
    subst hatomic
    rw [Peg.Part.body, endsFirm] at hpart
    refine firm_of_form (.word hword : grammar.Reads true _ [] _ [] []) hpart fun hs => ?_
    refine .of_all fun c hc => isFirm_of_isAlphanum (isAlphanum_of_isAlpha ?_)
    exact isAlpha_of_mem hword (by simpa using hs) c hc
  | digit hd =>
    refine .of_all fun c hc => isFirm_of_isAlphanum ?_
    obtain rfl := List.mem_singleton.mp hc
    simp [Char.isAlphanum, hd]
  | letter hl =>
    refine .of_all fun c hc => isFirm_of_isAlphanum ?_
    obtain rfl := List.mem_singleton.mp hc
    exact isAlphanum_of_isAlpha hl
  | any =>
    subst hatomic
    rw [Peg.Part.body, endsFirm] at hpart
    exact firm_of_form (.any : grammar.Reads true _ [] _ [] []) hpart (by simp)
  | bare _ hbody =>
    subst hatomic
    rw [Peg.Part.body, endsFirm] at hpart
    exact firm_of_form (.bare (.inr rfl) hbody) hpart (by simp)
  | node => cases hatomic
  | tight ha hb iha ihb =>
    rw [Peg.Part.body, endsFirm] at hpart
    refine firm_of_form (.tight ha hb) hpart fun hs => ?_
    obtain ⟨hsb, hsa⟩ := (Bool.and_eq_true _ _).mp hs
    refine (ihb rfl hsb).append fun hnil => ?_
    rcases (Bool.or_eq_true _ _).mp hsa with hsa | htakes
    · exact iha rfl hsa
    · exact absurd hnil (ranking.ne_nil_of_reads ranking_bounds (by simpa using htakes) hb)
  | loose => cases hatomic
  | left ha iha =>
    subst hatomic
    rw [Peg.Part.body, endsFirm] at hpart
    refine firm_of_form (.left ha) hpart fun hs => ?_
    exact iha rfl ((Bool.and_eq_true _ _).mp hs).1
  | right hno hb ihb =>
    subst hatomic
    rw [Peg.Part.body, endsFirm] at hpart
    refine firm_of_form (.right hno hb) hpart fun hs => ?_
    exact ihb rfl ((Bool.and_eq_true _ _).mp hs).2
  | often hone hmore ihone ihmore =>
    subst hatomic
    rw [Peg.Part.body, endsFirm] at hpart
    exact firm_of_form (.often hone hmore) hpart fun hs => (ihmore rfl hs).append fun _ => ihone rfl hs
  | moreTight _ _ ihone ihmore => exact (ihmore rfl hpart).append fun _ => ihone rfl hpart
  | moreLoose => cases hatomic
  | given ha iha =>
    subst hatomic
    rw [Peg.Part.body, endsFirm] at hpart
    exact firm_of_form (.given ha) hpart (iha rfl)
  | _ => exact .of_all (by simp)

/-- **A token ends with a firm character.** -/
theorem exists_firm_of_token {r : Rule} (hr : r.isPart = true) (hkind : r.kind = .atomic)
    (h : grammar.Reads true (.once r.body) before cs after nodes) :
    ∃ c, cs.getLast? = some c ∧ isFirm c = true := by
  have hfirm : endsFirm r.body = true ∧ ranking.rests r.body = false := by
    cases r with
    | keyword w =>
      simp only [Rule.isPart, Bool.and_eq_true, Bool.not_eq_true'] at hr
      have hword : endsFirm (.word w.toList) = true := by
        rw [endsFirm, hr.2, Bool.or_true]
      have hend : endsFirm (.absent identChar) = true := by decide
      refine ⟨?_, ?_⟩
      · show endsFirm (.seq (.word w.toList) (.absent identChar)) = true
        rw [endsFirm, hword, hend]
        simp
      · show (w.toList.isEmpty && _) = false
        rw [hr.1, Bool.false_and]
    | _ => first | decide | cases hkind
  have hne := ranking.ne_nil_of_reads ranking_bounds hfirm.2 h
  have hlast := List.getLast?_eq_some_getLast hne
  exact ⟨_, hlast, firm_of_part h rfl hfirm.1 _ hlast⟩

theorem firm_of_token {r : Rule} (hr : r.isPart = true) (hkind : r.kind = .atomic)
    (h : grammar.Reads true (.once r.body) before cs after nodes) :
    ∃ c, lastInk cs = some c ∧ awaitsName c = false := by
  obtain ⟨c, hlast, hc⟩ := exists_firm_of_token hr hkind h
  simp only [isFirm, Bool.and_eq_true, Bool.not_eq_true'] at hc
  exact ⟨c, lastInk_of_getLast hlast hc.1, hc.2⟩

/-! ## The last sign of a rule -/

/-- Whether the last sign awaits a name, along a rule. A range may end with its points. -/
def lastSignFlow : Flow Rule Bool where
  sign ws _ :=
    if (ws.all fun c => !isQuote c && !isBlank c) = true then ws.getLast?.map awaitsName else none
  cross r _ := if r.isInner then some (r == .rangeLiteral) else none
  settle s := s
  meet s t := some (s || t)

theorem lastSignFlow_body {r : Rule} (hinner : r.isInner = true) (hkind : r.kind = .normal) :
    lastSignFlow.pass r.body true = some (r == .rangeLiteral) := by
  have hall : (normalRules.all fun r =>
      !r.isInner || lastSignFlow.pass r.body true == some (r == .rangeLiteral)) = true := by decide
  have hone := of_normalRules hall hkind
  rw [hinner, Bool.not_true, Bool.false_or] at hone
  exact eq_of_beq hone

/-- **`Finishes s t cs`** -- the stretch ends outside quotes, and with a sign that awaits a name only
if the flow says so. -/
structure Finishes (s t : Bool) (cs : List Char) : Prop where
  closed : modeAfter .outside cs = .outside
  ink : t = false → ∀ c, lastInk cs = some c → awaitsName c = false
  inkless : t = false → lastInk cs = none → s = false

variable {s t u v : Bool}

theorem Finishes.nil : Finishes s s [] := ⟨rfl, fun _ _ hc => (by cases hc), fun h _ => h⟩

theorem Finishes.append (h₁ : Finishes s t cs) (h₂ : Finishes t u ds) : Finishes s u (cs ++ ds) where
  closed := by rw [modeAfter_append, h₁.closed, h₂.closed]
  ink hu c hc := by
    rw [lastInk_append] at hc
    cases hds : lastInk ds with
    | none =>
      rw [hds, Option.none_or] at hc
      exact h₁.ink (h₂.inkless hu hds) c hc
    | some d =>
      rw [hds, Option.some_or] at hc
      obtain rfl := Option.some.inj hc
      exact h₂.ink hu d hds
  inkless hu hnone := by
    rw [lastInk_append, Option.or_eq_none_iff] at hnone
    exact h₁.inkless (h₂.inkless hu hnone.1) hnone.2

/-- What is known may be forgotten. -/
theorem Finishes.weaken (h : Finishes s t cs) (hle : v = false → t = false) : Finishes s v cs :=
  ⟨h.closed, fun hv => h.ink (hle hv), fun hv => h.inkless (hle hv)⟩

theorem Finishes.of_ink {c : Char} (hclosed : modeAfter .outside cs = .outside)
    (hc : lastInk cs = some c) (hfirm : t = false → awaitsName c = false) : Finishes s t cs where
  closed := hclosed
  ink ht d hd := by
    rw [hc] at hd
    obtain rfl := Option.some.inj hd
    exact hfirm ht
  inkless _ hnone := by
    rw [hc] at hnone
    cases hnone

theorem Finishes.sign {ws : List Char} (h : lastSignFlow.sign ws s = some t) : Finishes s t ws := by
  simp only [lastSignFlow] at h
  split at h
  · rename_i hws
    have hchars : ∀ c ∈ ws, isQuote c = false ∧ isBlank c = false := by simpa using hws
    obtain ⟨c, hlast, rfl⟩ := Option.map_eq_some_iff.mp h
    have hink := lastInk_of_getLast hlast (hchars c (List.mem_of_getLast? hlast)).2
    exact .of_ink (modeAfter_of_noQuote fun c hc => (hchars c hc).1) hink id
  · cases h

theorem isInner_of_cross {r : Rule} (h : lastSignFlow.cross r s = some t) :
    r.isInner = true ∧ t = (r == .rangeLiteral) := by
  simp only [lastSignFlow] at h
  split at h
  · rename_i hinner
    exact ⟨hinner, (Option.some.inj h).symm⟩
  · cases h

theorem Finishes.token {r : Rule} (h : lastSignFlow.cross r s = some t) (hkind : r.kind = .atomic)
    (hread : grammar.Reads true (.once r.body) before cs after nodes) : Finishes s t cs := by
  have hpart := (isInner_of_cross h).1
  simp only [Rule.isInner, Bool.and_eq_true] at hpart
  obtain ⟨c, hc, hfirm⟩ := firm_of_token hpart.1.1 hkind hread
  exact .of_ink (inert_of_atomic hpart.1.1 hkind hread).closed hc fun _ => hfirm

/-- A rule forgets the sign before it. -/
theorem Finishes.forget (h : Finishes true t cs) : Finishes s t cs where
  closed := h.closed
  ink := h.ink
  inkless ht hnone := by
    have hno := h.inkless ht hnone
    cases hno

theorem lastSign_respects : lastSignFlow.Respects grammar fun s t _ cs _ _ => Bare cs → Finishes s t cs where
  nil _ := .nil
  append h₁ h₂ hbare := by
    have hfirst := h₁ hbare.left
    exact hfirst.append (h₂ (hbare.right hfirst.closed))
  meetLeft hmeet h hbare := (h hbare).weaken fun hv => by
    obtain rfl := Option.some.inj hmeet
    exact (Bool.or_eq_false_iff.mp hv).1
  meetRight hmeet h hbare := (h hbare).weaken fun hv => by
    obtain rfl := Option.some.inj hmeet
    exact (Bool.or_eq_false_iff.mp hv).2
  filler h hbare := by
    have hblank := blank_of_filler hbare h
    have hnone := lastInk_of_blank hblank
    refine ⟨modeAfter_of_blank hblank, fun _ c hc => ?_, fun ht _ => ht⟩
    rw [hnone] at hc
    cases hc
  sign h _ := .sign h
  token h hkind hread _ := .token h hkind hread
  node h hkind hbody hbare := by
    obtain ⟨hinner, rfl⟩ := isInner_of_cross h
    exact (hbody (lastSignFlow_body hinner hkind) hbare).forget
  silent {r s} hkind := by
    have hinner : r.isInner = false := by cases r <;> first | rfl | cases hkind
    simp [lastSignFlow, hinner]

/-- **A query without comments does not end with a sign that awaits a name.** -/
theorem lastInk_of_singleQuery (hbare : Bare cs)
    (h : grammar.Reads false (.once (.rule .singleQuery)) before cs after nodes) :
    ∃ c, lastInk cs = some c ∧ awaitsName c = false := by
  have hpass : lastSignFlow.pass (.rule Rule.singleQuery) true = some false := by decide
  have hends : Finishes true false cs := Flow.relates lastSign_respects h hpass hbare
  cases hlast : lastInk cs with
  | none =>
    have hno := hends.inkless rfl hlast
    cases hno
  | some c => exact ⟨c, rfl, hends.ink rfl c hlast⟩

end QueryScore.Cypher
