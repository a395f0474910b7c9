/-
# QueryScore.Proofs.Cypher.Token -- names, keywords and literals leave a scan where it was

The scanner that counts brackets knows quotes; the grammar has its own forms of quoted text, a
string between two marks and a name between back quotes. Both agree: from outside quotes, a
token of the grammar leads outside quotes again, opens and closes no bracket, and holds no slash
that could begin a comment (`Inert`). Every atomic rule reads such a token (`inert_of_atomic`).
-/

import QueryScore.Proofs.Cypher.Comment

namespace QueryScore.Cypher

open Text Grammar Peg

/-! ## Plain characters -/

/-- A character that means nothing to a scan: no quote, no bracket, no slash, no separator. -/
def isPlain (c : Char) : Bool :=
  isAscii c && !isQuote c && !isOpening c && !isClosing c && c != '/' && c != ',' &&
    c != ';'

theorem isPlain_of_isAlphanum {c : Char} (h : c.isAlphanum = true) : isPlain c = true := by
  have hp := of_isAscii (p := fun c => !c.isAlphanum || isPlain c) (by decide)
    (isAscii_of_isAlphanum h)
  simpa [h] using hp

/-! ## Tokens -/

/-- **`Inert cs`** -- from outside quotes, the stretch leads outside quotes again, and what it
shows is plain. -/
structure Inert (cs : List Char) : Prop where
  /-- The characters outside quotes are plain. -/
  plain : Shown (isPlain · = true) .outside cs
  /-- The quotes are closed at the end. -/
  closed : modeAfter .outside cs = .outside
  /-- It begins with a character of ASCII. -/
  led : ∀ c ∈ cs.head?, isAscii c = true

/-- Plain characters are no brackets. -/
theorem not_bracket_of_isPlain {c : Char} (h : isPlain c = true) :
    isOpening c = false ∧ isClosing c = false := by
  simp only [isPlain, Bool.and_eq_true, Bool.not_eq_true', bne_iff_ne, ne_eq] at h
  exact ⟨h.1.1.1.1.2, h.1.1.1.2⟩

theorem ne_slash_of_isPlain {c : Char} (h : isPlain c = true) : c ≠ '/' := by
  rintro rfl
  cases h

namespace Inert

theorem nil : Inert [] := ⟨trivial, rfl, by simp⟩

theorem append {cs ds : List Char} (hcs : Inert cs) (hds : Inert ds) : Inert (cs ++ ds) where
  plain := shown_append.mpr ⟨hcs.plain, by rw [hcs.closed]; exact hds.plain⟩
  closed := by rw [modeAfter_append, hcs.closed, hds.closed]
  led c hc := by
    cases cs with
    | nil => exact hds.led c hc
    | cons d cs => exact hcs.led c hc

theorem of_isPlain {cs : List Char} (h : ∀ c ∈ cs, isPlain c = true) : Inert cs := by
  induction cs with
  | nil => exact nil
  | cons c cs ih =>
    suffices hone : Inert [c] from hone.append (ih fun d hd => h d (by simp [hd]))
    have hc := h c (by simp)
    have hplain := hc
    simp only [isPlain, Bool.and_eq_true, Bool.not_eq_true'] at hplain
    obtain ⟨⟨⟨⟨⟨⟨hascii, hquote⟩, -⟩, -⟩, -⟩, -⟩, -⟩ := hplain
    exact ⟨⟨fun _ => hc, trivial⟩, by simp [modeAfter, Mode.step, hquote], by simpa using hascii⟩

/-- A scan ends a token in the state in which it begins it. -/
theorem level {cs : List Char} (h : Inert cs) (depth : Nat) :
    Scanner.run ⟨.outside, depth⟩ cs = ⟨.outside, depth⟩ := by
  rw [run_of_shown (h.plain.mono fun _ => not_bracket_of_isPlain), h.closed]

/-- A token before any text holds no comment. -/
theorem bares {cs after : List Char} (h : Inert cs) : Bares cs after cs :=
  .of_shown (h.plain.mono fun _ => ne_slash_of_isPlain) h.closed

end Inert

/-! ## Quoted stretches -/

/-- **`Held mark cs`** -- inside quotes opened by `mark`, the stretch shows nothing and stays
inside. -/
def Held (mark : Char) (cs : List Char) : Prop :=
  Shown (fun _ => False) (.quoted mark false) cs ∧
    modeAfter (.quoted mark false) cs = .quoted mark false

theorem Held.nil {mark : Char} : Held mark [] := ⟨trivial, rfl⟩

theorem Held.append {mark : Char} {cs ds : List Char} (hcs : Held mark cs) (hds : Held mark ds) :
    Held mark (cs ++ ds) :=
  ⟨shown_append.mpr ⟨hcs.1, by rw [hcs.2]; exact hds.1⟩,
    by rw [modeAfter_append, hcs.2, hds.2]⟩

theorem Held.single {mark c : Char} (hmark : c ≠ mark) (hhide : c = '\\' → mark = '`') :
    Held mark [c] := by
  have hstep : Mode.step (.quoted mark false) c = .quoted mark false := by
    simp only [Mode.step]
    rw [if_neg (by simpa using hhide), if_neg hmark]
  exact ⟨⟨by simp [not_shows_quoted], trivial⟩, hstep⟩

theorem Held.hidden {mark c : Char} (hmark : mark ≠ '`') : Held mark ['\\', c] := by
  have hhide : Mode.step (.quoted mark false) '\\' = .quoted mark true := by
    simp [Mode.step, hmark]
  refine ⟨⟨by simp [not_shows_quoted], ?_, trivial⟩, ?_⟩
  · rw [hhide]
    simp [not_shows_quoted]
  · show Mode.step (Mode.step (.quoted mark false) '\\') c = _
    rw [hhide]
    rfl

/-- A held stretch between its marks is inert. -/
theorem Held.between {mark : Char} {cs : List Char} (h : Held mark cs)
    (hmark : isQuote mark = true) : Inert (mark :: (cs ++ [mark])) := by
  have hascii : isAscii mark = true := by
    simp only [isQuote, Bool.or_eq_true, beq_iff_eq] at hmark
    rcases hmark with (rfl | rfl) | rfl <;> decide
  have hhide : mark ≠ '\\' := by
    rintro rfl
    cases hmark
  have hopen : Mode.step .outside mark = .quoted mark false := by simp [Mode.step, hmark]
  have hclose : Mode.step (.quoted mark false) mark = .outside := by simp [Mode.step, hhide]
  refine ⟨⟨by simp [Mode.shows, hmark], ?_⟩, ?_, by simpa using hascii⟩
  · rw [hopen]
    refine shown_append.mpr ⟨h.1.mono fun _ => False.elim, ?_, trivial⟩
    rw [h.2]
    simp [not_shows_quoted]
  · show modeAfter (Mode.step .outside mark) (cs ++ [mark]) = _
    rw [hopen, modeAfter_append, h.2]
    exact hclose

variable {before cs after : List Char} {nodes : List (Tree Rule)}

/-- The inside of a string. -/
theorem held_of_stringRounds {mark : Char} (hmark : mark ≠ '`')
    (h : grammar.Rounds (alts [.seq (sign "\\") .any, allBut (.text [mark])]) before cs after)
    (hafter : after ≠ []) : Held mark cs := by
  induction h with
  | done => exact .nil
  | @more before cs ds after nodes hone _ ih =>
    refine Held.append ?_ (ih hafter)
    rcases hone.of_alt with hone | ⟨hno, hone⟩
    · obtain ⟨xs, ys, _, _, rfl, -, hslash, hany⟩ := hone.of_tight_seq
      obtain ⟨rfl, -⟩ := hslash.of_text
      cases hany with
      | any => exact .hidden hmark
    · obtain ⟨c, rfl, hc⟩ := reads_allBut hone
      -- A backslash would have been taken by the first alternative, with what it hides.
      refine Held.single ?_ ?_
      · rintro rfl
        exact hc.text ⟨ds ++ after, rfl⟩
      · rintro rfl
        rcases hno.seq with hno | ⟨xs, rest, _, hsplit, hslash, hany⟩
        · exact absurd ⟨ds ++ after, rfl⟩ hno.text
        · obtain ⟨rfl, -⟩ := hslash.of_text
          rw [hany.any] at hsplit
          simp [hafter] at hsplit

theorem reads_string {mark : Char} (hmark : mark ≠ '`')
    (h : grammar.Reads true (.once (stringBetween (.text [mark]))) before cs after nodes) :
    ∃ body, cs = mark :: (body ++ [mark]) ∧ Held mark body := by
  obtain ⟨xs, zs, _, _, rfl, -, hopen, hrest⟩ := h.of_tight_seq
  obtain ⟨ys, ends, _, _, rfl, -, hbody, hclose⟩ := hrest.of_tight_seq
  obtain ⟨rfl, -⟩ := hopen.of_text
  obtain ⟨rfl, -⟩ := hclose.of_text
  exact ⟨ys, rfl, held_of_stringRounds hmark hbody.rounds (by simp)⟩

/-- A name between back quotes. -/
def backQuoted : Peg Rule := seqs [sign "`", .many (allBut (sign "`")), sign "`"]

theorem reads_backQuoted (h : grammar.Reads true (.once backQuoted) before cs after nodes) :
    ∃ body, cs = '`' :: (body ++ ['`']) ∧ Held '`' body := by
  obtain ⟨xs, zs, _, _, rfl, -, hopen, hrest⟩ := h.of_tight_seq
  obtain ⟨ys, ends, _, _, rfl, -, hbody, hclose⟩ := hrest.of_tight_seq
  obtain ⟨rfl, -⟩ := hopen.of_text
  obtain ⟨rfl, -⟩ := hclose.of_text
  refine ⟨ys, rfl, hbody.rounds.all .nil .append fun hread => ?_⟩
  obtain ⟨c, rfl, hc⟩ := reads_allBut hread
  refine Held.single ?_ fun _ => rfl
  rintro rfl
  exact hc.text ⟨_, rfl⟩

/-! ## Atomic rules -/

/-- The forms of quoted text. -/
def quotedForms : List (Peg Rule) :=
  [backQuoted, stringBetween (sign "'"), stringBetween (sign "\"")]

theorem inert_of_quotedForm {e : Peg Rule} (he : quotedForms.contains e = true)
    (h : grammar.Reads true (.once e) before cs after nodes) : Inert cs := by
  have he : e = backQuoted ∨ e = stringBetween (sign "'") ∨ e = stringBetween (sign "\"") := by
    simpa [quotedForms] using he
  rcases he with rfl | rfl | rfl
  · obtain ⟨body, rfl, hbody⟩ := reads_backQuoted h
    exact hbody.between (by decide)
  · obtain ⟨body, rfl, hbody⟩ := reads_string (by decide) h
    exact hbody.between (by decide)
  · obtain ⟨body, rfl, hbody⟩ := reads_string (by decide) h
    exact hbody.between (by decide)

/-- Built from quoted forms, plain signs, letters and digits. -/
def isInert (e : Peg Rule) : Bool :=
  quotedForms.contains e ||
    match e with
    | .text ws => ws.all isPlain
    | .word ws => ws.all Char.isAlpha
    | .digit | .letter | .start | .stop | .absent _ | .present _ => true
    | .any | .rule _ => false
    | .seq a b | .alt a b => isInert a && isInert b
    | .many a | .opt a => isInert a

private theorem inert_of_form {e : Peg Rule} {structural : Bool}
    (h : grammar.Reads true (.once e) before cs after nodes)
    (he : (quotedForms.contains e || structural) = true) (hs : structural = true → Inert cs) :
    Inert cs :=
  (Bool.or_eq_true _ _ ▸ he).elim (fun hq => inert_of_quotedForm hq h) hs

private theorem inert_of_part {part : Peg.Part Rule} {atomic : Bool}
    (h : grammar.Reads atomic part before cs after nodes) (hatomic : atomic = true)
    (hpart : isInert part.body = true) : Inert cs := by
  -- A quoted form is taken as a whole; elsewhere the parts of the expression are inert.
  induction h with
  | text =>
    subst hatomic
    rw [Peg.Part.body, isInert] at hpart
    refine inert_of_form (.text : grammar.Reads true _ [] _ [] []) hpart fun hs => ?_
    exact .of_isPlain (by simpa using hs)
  | word hword =>
    subst hatomic
    rw [Peg.Part.body, isInert] at hpart
    refine inert_of_form (.word hword : grammar.Reads true _ [] _ [] []) hpart fun hs => ?_
    refine .of_isPlain fun c hc => isPlain_of_isAlphanum ?_
    have halpha := isAlpha_of_mem hword (by simpa using hs) c hc
    exact isAlphanum_of_isAlpha halpha
  | digit hd =>
    refine .of_isPlain fun c hc => ?_
    obtain rfl := List.mem_singleton.mp hc
    exact isPlain_of_isAlphanum (by simp [Char.isAlphanum, hd])
  | letter hl =>
    refine .of_isPlain fun c hc => ?_
    obtain rfl := List.mem_singleton.mp hc
    exact isPlain_of_isAlphanum (isAlphanum_of_isAlpha hl)
  | any =>
    subst hatomic
    rw [Peg.Part.body, isInert] at hpart
    exact inert_of_form (.any : grammar.Reads true _ [] _ [] []) hpart (by simp)
  | bare _ hbody =>
    subst hatomic
    rw [Peg.Part.body, isInert] at hpart
    exact inert_of_form (.bare (.inr rfl) hbody) hpart (by simp)
  | node => cases hatomic
  | tight ha hb iha ihb =>
    rw [Peg.Part.body, isInert] at hpart
    refine inert_of_form (.tight ha hb) hpart fun hs => ?_
    obtain ⟨hsa, hsb⟩ := (Bool.and_eq_true _ _).mp hs
    exact (iha rfl hsa).append (ihb rfl hsb)
  | loose => cases hatomic
  | left ha iha =>
    subst hatomic
    rw [Peg.Part.body, isInert] at hpart
    refine inert_of_form (.left ha) hpart fun hs => ?_
    exact iha rfl ((Bool.and_eq_true _ _).mp hs).1
  | right hno hb ihb =>
    subst hatomic
    rw [Peg.Part.body, isInert] at hpart
    refine inert_of_form (.right hno hb) hpart fun hs => ?_
    exact ihb rfl ((Bool.and_eq_true _ _).mp hs).2
  | often hone hmore ihone ihmore =>
    subst hatomic
    rw [Peg.Part.body, isInert] at hpart
    exact inert_of_form (.often hone hmore) hpart fun hs => (ihone rfl hs).append (ihmore rfl hs)
  | moreTight _ _ ihone ihmore => exact (ihone rfl hpart).append (ihmore rfl hpart)
  | moreLoose => cases hatomic
  | given ha iha =>
    subst hatomic
    rw [Peg.Part.body, isInert] at hpart
    exact inert_of_form (.given ha) hpart (iha rfl)
  | _ => exact .nil

/-- Inside an atomic rule, what is built from quoted forms, plain signs, letters and digits reads
inert stretches. -/
theorem inert_of_reads {e : Peg Rule} (h : grammar.Reads true (.once e) before cs after nodes)
    (he : isInert e = true) : Inert cs :=
  inert_of_part h rfl he

/-- The rule may stand in the body of a rule that is not atomic: keywords consist of letters, and
a balanced group is only looked at. -/
def Rule.isPart : Rule → Bool
  | .keyword w => !w.toList.isEmpty && w.toList.all Char.isAlpha
  | .parenGroup => false
  | _ => true

/-- The rules that leave a node with parts. -/
def normalRules : List Rule :=
  [.query, .union, .singleQuery, .matchClause, .unwindClause, .withClause, .returnClause,
    .whereClause, .projectionBody, .projectionItems, .projectionItem, .star, .orderClause,
    .sortItem, .sortDirection, .skipClause, .limitClause, .pattern, .patternPart,
    .patternElement, .nodePattern, .nodeLabels, .relationshipPattern, .leftArrow, .rightArrow,
    .relationshipDetail, .relationshipTypes, .rangeLiteral, .properties, .expression,
    .orExpression, .xorExpression, .andExpression, .notExpression, .comparisonExpression,
    .comparisonOperator, .predicateExpression, .predicateSuffix, .additiveExpression,
    .additiveOperator, .multiplicativeExpression, .multiplicativeOperator, .powerExpression,
    .unaryExpression, .unaryOperator, .postfixExpression, .propertyLookup, .indexLookup, .atom,
    .countStar, .functionInvocation, .caseExpression, .caseAlternative, .parenthesizedExpression,
    .patternPredicate, .nullLiteral, .booleanLiteral, .listLiteral, .comprehensionTail,
    .mapLiteral, .mapEntry, .endOfText]

/-- What is decided rule by rule holds of every such rule. -/
theorem of_normalRules {p : Rule → Bool} (hall : normalRules.all p = true) {r : Rule}
    (hkind : r.kind = .normal) : p r = true := by
  refine List.all_eq_true.mp hall r ?_
  cases r <;> first | decide | cases hkind

theorem isInert_body {r : Rule} (hr : r.isPart = true) (hatomic : r.kind = .atomic) :
    isInert r.body = true := by
  cases r with
  | keyword w =>
    have hw : w.toList.all Char.isAlpha = true := by
      simp only [Rule.isPart, Bool.and_eq_true] at hr
      exact hr.2
    simp [Rule.body, isInert, hw]
  | _ => first | decide | cases hatomic

/-- **An atomic rule reads an inert stretch.** -/
theorem inert_of_atomic {r : Rule} (hr : r.isPart = true) (hatomic : r.kind = .atomic)
    (h : grammar.Reads true (.once r.body) before cs after nodes) : Inert cs :=
  inert_of_reads h (isInert_body hr hatomic)

/-! ## Keywords -/

/-- A character of an identifier of the grammar. -/
def isNameChar (c : Char) : Bool := c.isAlpha || c.isDigit || c == '_'

theorem not_isNameChar_of_refuses {atomic : Bool}
    (h : grammar.Refuses atomic identChar before after) :
    ∀ c ∈ after.head?, isNameChar c = false := by
  intro c hc
  obtain ⟨rest, rfl⟩ : ∃ rest, after = c :: rest := by
    cases after with
    | nil => cases hc
    | cons d rest =>
      obtain rfl := Option.some.inj hc
      exact ⟨rest, rfl⟩
  obtain ⟨hletter, h⟩ := h.alt
  obtain ⟨hdigit, hline⟩ := h.alt
  have hne : c ≠ '_' := by
    rintro rfl
    exact hline.text ⟨rest, rfl⟩
  simp [isNameChar, hletter.letter c rfl, hdigit.digit c rfl, hne]

/-- A keyword is spelled in some case, and no character of an identifier follows. -/
theorem reads_keyword {w : String}
    (h : grammar.Reads true (.once (Rule.body (.keyword w))) before cs after nodes) :
    cs.map asciiLower = w.toList.map asciiLower ∧ ∀ c ∈ after.head?, isNameChar c = false := by
  obtain ⟨xs, ys, _, _, rfl, -, hword, hend⟩ := h.of_tight_seq
  obtain ⟨hxs, -⟩ := hword.of_word
  obtain ⟨rfl, -, hend⟩ := hend.of_absent
  exact ⟨by simpa using hxs, not_isNameChar_of_refuses hend⟩

end QueryScore.Cypher
