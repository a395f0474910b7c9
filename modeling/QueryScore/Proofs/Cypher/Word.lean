/-
# QueryScore.Proofs.Cypher.Word -- the tokens of a query, as a search for keywords meets them

A search for keywords looks for a word that begins behind no character of an identifier, no dot
and no dollar sign. A token of the grammar begins at most one such word, at its own start: a
keyword, or a name without back quotes (`reads_token`). Variables and function names are no
reserved words, so what is left to be mistaken for a keyword are labels, relationship types and
property keys.
-/

import QueryScore.Proofs.Cypher.Token
import QueryScore.Proofs.Text.Quiet

namespace QueryScore.Cypher

open Text Grammar Peg

variable {before cs after : List Char} {nodes : List (Tree Rule)}

/-! ## Characters -/

theorem isAscii_of_isNameChar {c : Char} (h : isNameChar c = true) : isAscii c = true := by
  simp only [isNameChar, Bool.or_eq_true, beq_iff_eq] at h
  rcases h with (h | h) | rfl
  · exact isAscii_of_isAlphanum (by simp [Char.isAlphanum, h])
  · exact isAscii_of_isAlphanum (by simp [Char.isAlphanum, h])
  · decide

/-- The characters of names are characters of identifiers, and no blanks. -/
theorem isIdentifierChar_of_isNameChar {c : Char} (h : isNameChar c = true) :
    isIdentifierChar c = true ∧ isBlank c = false := by
  have hp := of_isAscii (p := fun c => !isNameChar c || (isIdentifierChar c && !isBlank c))
    (by decide) (isAscii_of_isNameChar h)
  simpa [h] using hp

/-- Other characters of ASCII are no characters of identifiers. -/
theorem not_isIdentifierChar_of_not_isNameChar {c : Char} (hascii : isAscii c = true)
    (h : isNameChar c = false) : isIdentifierChar c = false := by
  have hp := of_isAscii (p := fun c => isNameChar c || !isIdentifierChar c) (by decide)
    hascii
  simpa [h] using hp

theorem isNameChar_of_isAlpha {c : Char} (h : c.isAlpha = true) : isNameChar c = true := by
  simp [isNameChar, h]

theorem isNameChar_of_isDigit {c : Char} (h : c.isDigit = true) : isNameChar c = true := by
  simp [isNameChar, h]

theorem not_isAlpha_of_isDigit {c : Char} (h : c.isDigit = true) : c.isAlpha = false := by
  have hp := of_isAscii (p := fun c => !c.isDigit || !c.isAlpha) (by decide)
    (isAscii_of_isAlphanum (c := c) (by simp [Char.isAlphanum, h]))
  simpa [h] using hp

theorem not_isBlank_of_isDigit {c : Char} (h : c.isDigit = true) : isBlank c = false :=
  (isIdentifierChar_of_isNameChar (isNameChar_of_isDigit h)).2

theorem not_isDigit_of_isBlank {c : Char} (h : isBlank c = true) : c.isDigit = false := by
  rw [Bool.eq_false_iff]
  intro hdigit
  rw [not_isBlank_of_isDigit hdigit] at h
  cases h

/-! ## Names -/

theorem reads_identChar {atomic : Bool}
    (h : grammar.Reads atomic (.once identChar) before cs after nodes) :
    ∃ c, cs = [c] ∧ isNameChar c = true := by
  rcases h.of_alt with h | ⟨-, h⟩
  · cases h with
    | letter hc => exact ⟨_, rfl, isNameChar_of_isAlpha hc⟩
  rcases h.of_alt with h | ⟨-, h⟩
  · cases h with
    | digit hc => exact ⟨_, rfl, isNameChar_of_isDigit hc⟩
  · exact ⟨'_', h.of_text.1, by decide⟩

/-- **`PlainName cs`** -- a name without quotes. -/
structure PlainName (cs : List Char) : Prop where
  ne_nil : cs ≠ []
  chars : ∀ c ∈ cs, isNameChar c = true

/-- **`QuotedName cs`** -- a name in back quotes. -/
def QuotedName (cs : List Char) : Prop := ∃ body, cs = '`' :: (body ++ ['`']) ∧ Held '`' body

/-- A name is plain, and then no character of an identifier follows, or in back quotes. -/
theorem reads_symbolicName (h : grammar.Reads true (.once symbolicName) before cs after nodes) :
    PlainName cs ∧ (∀ c ∈ after.head?, isNameChar c = false) ∨ QuotedName cs := by
  rcases h.of_alt with h | ⟨-, h⟩
  · refine .inl ?_
    obtain ⟨xs, ys, _, _, rfl, -, hfirst, hmore⟩ := h.of_tight_seq
    have hxs : ∃ c, xs = [c] ∧ isNameChar c = true := by
      rcases hfirst.of_alt with h | ⟨-, h⟩
      · cases h with
        | letter hc => exact ⟨_, rfl, isNameChar_of_isAlpha hc⟩
      · exact ⟨'_', h.of_text.1, by decide⟩
    obtain ⟨c, rfl, hc⟩ := hxs
    have hrounds := hmore.rounds
    refine ⟨⟨by simp, ?_⟩, not_isNameChar_of_refuses hrounds.refuses⟩
    have hys : ∀ d ∈ ys, isNameChar d = true := by
      refine hrounds.all (P := fun cs => ∀ d ∈ cs, isNameChar d = true) (by simp)
        (fun hcs hds d hd => (List.mem_append.mp hd).elim (hcs d) (hds d)) fun hread => ?_
      obtain ⟨d, rfl, hd⟩ := reads_identChar hread
      simpa using hd
    intro d hd
    rcases List.mem_append.mp hd with hd | hd
    · obtain rfl := List.mem_singleton.mp hd
      exact hc
    · exact hys d hd
  · exact .inr (reads_backQuoted h)

/-! ## Reserved words -/

theorem refuses_of_mem_alts {ρ : Type} {g : Grammar ρ} {atomic : Bool} {es : List (Peg ρ)}
    {e : Peg ρ} (he : e ∈ es) (h : g.Refuses atomic (alts es) before after) :
    g.Refuses atomic e before after := by
  induction es with
  | nil => cases he
  | cons a es ih =>
    cases es with
    | nil =>
      obtain rfl := List.mem_singleton.mp he
      exact h
    | cons b es =>
      obtain ⟨ha, hrest⟩ := h.alt
      rcases List.mem_cons.mp he with rfl | he
      · exact ha
      · exact ih he hrest

/-- A choice among several is read by one of them, and those before it are refused. -/
theorem exists_of_reads_alts {ρ : Type} {g : Grammar ρ} {atomic : Bool} {es : List (Peg ρ)}
    {ns : List (Tree ρ)} (hes : es ≠ []) (h : g.Reads atomic (.once (alts es)) before cs after ns) :
    ∃ earlier e later, es = earlier ++ e :: later ∧
      (∀ e' ∈ earlier, g.Refuses atomic e' before (cs ++ after)) ∧
        g.Reads atomic (.once e) before cs after ns := by
  induction es with
  | nil => exact absurd rfl hes
  | cons a es ih =>
    cases es with
    | nil => exact ⟨[], a, [], rfl, by simp, h⟩
    | cons b es =>
      rcases h.of_alt with h | ⟨hno, h⟩
      · exact ⟨[], a, b :: es, rfl, by simp, h⟩
      · obtain ⟨earlier, e, later, hsplit, hall, hread⟩ := ih (by simp) h
        refine ⟨a :: earlier, e, later, by rw [hsplit]; rfl, ?_, hread⟩
        intro e' he'
        rcases List.mem_cons.mp he' with rfl | he'
        · exact hno
        · exact hall e' he'

/-- The letters of a word in lower case. -/
def spelling (w : String) : List Char := w.toList.map asciiLower

/-- No reserved word is the beginning of one that stands behind it in the list. -/
theorem reservedWords_pairwise :
    reservedWords.Pairwise fun w v => ¬ spelling w <+: spelling v := by
  decide

theorem isAlpha_of_mem_reservedWords :
    ∀ w ∈ reservedWords, w.toList ≠ [] ∧ ∀ c ∈ w.toList, c.isAlpha = true := by
  have hall : ∀ w ∈ reservedWords, w.toList ≠ [] ∧ w.toList.all Char.isAlpha = true := by
    decide
  exact fun w hw => ⟨(hall w hw).1, List.all_eq_true.mp (hall w hw).2⟩

/-- **A plain name that is read as a variable is no reserved word.** -/
theorem not_reserved (h : grammar.Reads true (.once unreserved) before [] (cs ++ after) nodes)
    (hafter : ∀ c ∈ after.head?, isNameChar c = false) {w : String} (hw : w ∈ reservedWords) :
    cs.map asciiLower ≠ spelling w := by
  intro hspell
  obtain ⟨-, -, hno⟩ := h.of_absent
  have hword : ¬ grammar.Refuses true (.word w.toList) before (cs ++ after) :=
    fun hrefuse => hrefuse.word hspell ⟨after, rfl⟩
  rcases hno.seq with hno | ⟨xs, rest, _, hsplit, hread, hend⟩
  · exact hword (refuses_of_mem_alts (List.mem_map.mpr ⟨w, hw, rfl⟩) hno)
  -- The first reserved word that stands here is followed by a character of a name.
  obtain ⟨ys, rest', _, rfl, hchar⟩ := hend.absent
  obtain ⟨d, rfl, hd⟩ := reads_identChar hchar
  obtain ⟨earlier, e, later, hlist, hearlier, hxs⟩ :=
    exists_of_reads_alts (by simp [reservedWords]) hread
  obtain ⟨earlierWords, laterWords, hwords, rfl, hrest⟩ := List.map_eq_append_iff.mp hlist
  obtain ⟨v, laterWords, rfl, rfl, rfl⟩ := List.map_eq_cons_iff.mp hrest
  obtain ⟨hxs, -⟩ := hxs.of_word
  have hv : v ∈ reservedWords := by rw [hwords]; simp
  have halpha := isAlpha_of_mem hxs (isAlpha_of_mem_reservedWords v hv).2
  have hnot : w ∉ earlierWords := by
    intro hmem
    rw [← hsplit] at hearlier
    exact hword (hearlier _ (List.mem_map.mpr ⟨w, hmem, rfl⟩))
  have hne : after ≠ d :: rest' := by
    intro hafter'
    rw [hafter d (by rw [hafter']; rfl)] at hd
    cases hd
  -- That word begins with the name, or the name with that word.
  rcases List.append_eq_append_iff.mp hsplit with ⟨more, rfl, hmore⟩ | ⟨more, rfl, hmore⟩
  · cases more with
    | nil => exact hne hmore
    | cons c more =>
      have hc := hafter c (by rw [hmore]; rfl)
      rw [isNameChar_of_isAlpha (halpha c (by simp))] at hc
      cases hc
  · -- It is shorter than the name, so it would have to stand behind it in the list.
    have hprefix : spelling v <+: spelling w := by
      rw [← hspell, spelling, ← hxs, List.map_append]
      exact List.prefix_append _ _
    have hpairs := reservedWords_pairwise
    rw [hwords] at hw hpairs
    rcases List.mem_append.mp hw with hw | hw
    · exact hnot hw
    rcases List.mem_cons.mp hw with rfl | hw
    · have hlength := congrArg List.length (hspell.trans hxs.symm)
      simp only [List.length_map, List.length_append] at hlength
      obtain rfl := List.eq_nil_of_length_eq_zero (by omega : more.length = 0)
      exact hne hmore.symm
    · exact (List.pairwise_cons.mp (List.pairwise_append.mp hpairs).2.1).1 w hw hprefix

/-! ## How a token begins and ends -/

/-- **`Led p cs after`** -- at most one word begins in the stretch: a plain name with a property
at its start, or none. -/
inductive Led (p : List Char → Prop) (cs after : List Char) : Prop
  | word {word more} : cs = word ++ more → PlainName word → p word →
      (∀ c ∈ (more ++ after).head?, isNameChar c = false) →
      Startless .outside word.getLast? more → Led p cs after
  | other {c tail} : cs = c :: tail → c.isAlpha = false → isBlank c = false →
      Startless (Mode.step .outside c) (some c) tail → Led p cs after

/-- **`Ends before after`** -- no name reaches from `before` into `after`, and no parameter or
property begins between them. -/
def Ends (before after : List Char) : Prop :=
  ∀ c ∈ before.getLast?, isAscii c = true ∧ c ≠ '$' ∧ c ≠ '.' ∧
    (isNameChar c = true → c.isDigit = false → ∀ d ∈ after.head?, isNameChar d = false)

theorem Ends.of_append {cs : List Char} (hne : cs ≠ []) (h : Ends cs after) :
    Ends (before ++ cs) after := by
  rw [Ends, List.getLast?_append, List.getLast?_eq_some_getLast hne, Option.some_or,
    ← List.getLast?_eq_some_getLast hne]
  exact h

theorem PlainName.ends {cs : List Char} (h : PlainName cs)
    (hafter : ∀ c ∈ after.head?, isNameChar c = false) : Ends cs after := by
  intro c hc
  have hname := h.chars c (List.mem_of_getLast? hc)
  refine ⟨isAscii_of_isNameChar hname, ?_, ?_, fun _ _ => hafter⟩
  · rintro rfl
    cases hname
  · rintro rfl
    cases hname

theorem ends_of_getLast {c : Char} (hlast : cs.getLast? = some c) (hascii : isAscii c = true)
    (hdollar : c ≠ '$') (hdot : c ≠ '.') (hname : isNameChar c = false) : Ends cs after := by
  intro d hd
  rw [hlast] at hd
  obtain rfl := Option.some.inj hd
  exact ⟨hascii, hdollar, hdot, fun h => by rw [hname] at h; cases h⟩

theorem startless_of_hidden {m : Mode} {prev : Option Char} (h : Shown (fun _ => False) m cs) :
    Startless m prev cs := by
  induction cs generalizing m prev with
  | nil => trivial
  | cons c cs ih => exact ⟨fun hc => (h.1 hc).elim, ih h.2⟩

/-- A quoted stretch holds no word. -/
theorem Held.startless {mark : Char} {prev : Option Char} (h : Held mark cs)
    (hmark : isQuote mark = true) : Startless (Mode.step .outside mark) prev (cs ++ [mark]) := by
  have hopen : Mode.step .outside mark = .quoted mark false := by simp [Mode.step, hmark]
  rw [hopen]
  refine startless_append.mpr ⟨startless_of_hidden h.1, ?_, trivial⟩
  rw [h.2]
  simp [not_shows_quoted]

theorem not_isAlpha_of_isQuote {c : Char} (h : isQuote c = true) : c.isAlpha = false := by
  simp only [isQuote, Bool.or_eq_true, beq_iff_eq] at h
  rcases h with (rfl | rfl) | rfl <;> decide

theorem not_isBlank_of_isQuote {c : Char} (h : isQuote c = true) : isBlank c = false := by
  simp only [isQuote, Bool.or_eq_true, beq_iff_eq] at h
  rcases h with (rfl | rfl) | rfl <;> decide

theorem Held.led {p : List Char → Prop} {mark : Char} (h : Held mark cs)
    (hmark : isQuote mark = true) : Led p (mark :: (cs ++ [mark])) after :=
  .other rfl (not_isAlpha_of_isQuote hmark) (not_isBlank_of_isQuote hmark) (h.startless hmark)

theorem Held.ends {mark : Char} (hmark : isQuote mark = true) :
    Ends (mark :: (cs ++ [mark])) after := by
  have hlast : (mark :: (cs ++ [mark])).getLast? = some mark := by
    rw [← List.cons_append]
    exact List.getLast?_concat
  simp only [isQuote, Bool.or_eq_true, beq_iff_eq] at hmark
  rcases hmark with (rfl | rfl) | rfl <;>
    exact ends_of_getLast hlast (by decide) (by decide) (by decide) (by decide)

theorem PlainName.led {p : List Char → Prop} (h : PlainName cs) (hp : p cs)
    (hafter : ∀ c ∈ after.head?, isNameChar c = false) : Led p cs after :=
  .word (List.append_nil cs).symm h hp hafter trivial

theorem not_isWordStart_of_not_isAlpha {prev : Option Char} {c : Char} (h : c.isAlpha = false) :
    isWordStart prev c = false := by
  simp [isWordStart, h]

theorem isSticky_of_isNameChar {c : Char} (h : isNameChar c = true) : isSticky c = true := by
  simp [isSticky, (isIdentifierChar_of_isNameChar h).1]

theorem PlainName.startless {b : Char} (h : PlainName cs) (hb : isSticky b = true) :
    Startless .outside (some b) cs := by
  obtain ⟨c, cs, rfl⟩ := List.exists_cons_of_ne_nil h.ne_nil
  refine ⟨fun _ => not_isWordStart_of_isSticky hb, ?_⟩
  exact startless_of_isIdentifierChar (isIdentifierChar_of_isNameChar (h.chars c (by simp))).1
    fun d hd => (isIdentifierChar_of_isNameChar (h.chars d (by simp [hd]))).1

theorem isPlain_of_isNameChar {c : Char} (h : isNameChar c = true) : isPlain c = true := by
  simp only [isNameChar, Bool.or_eq_true, beq_iff_eq] at h
  rcases h with (h | h) | rfl
  · exact isPlain_of_isAlphanum (by simp [Char.isAlphanum, h])
  · exact isPlain_of_isAlphanum (by simp [Char.isAlphanum, h])
  · decide

theorem PlainName.closed (h : PlainName cs) : modeAfter .outside cs = .outside :=
  (Inert.of_isPlain fun c hc => isPlain_of_isNameChar (h.chars c hc)).closed

/-! ## The atomic rules -/

/-- **`Met p cs after`** -- what a search meets at a token: how it begins and how it ends. -/
structure Met (p : List Char → Prop) (cs after : List Char) : Prop where
  led : Led p cs after
  ends : Ends cs after

theorem met_of_symbolicName {p : List Char → Prop}
    (h : grammar.Reads true (.once symbolicName) before cs after nodes)
    (hp : PlainName cs → (∀ c ∈ after.head?, isNameChar c = false) → p cs) : Met p cs after := by
  rcases reads_symbolicName h with ⟨hplain, hafter⟩ | ⟨body, rfl, hbody⟩
  · exact ⟨hplain.led (hp hplain hafter) hafter, hplain.ends hafter⟩
  · exact ⟨hbody.led (by decide), Held.ends (by decide)⟩

/-- The name of a variable is none of the reserved words. -/
def Unreserved (cs : List Char) : Prop := ∀ w ∈ reservedWords, cs.map asciiLower ≠ spelling w

theorem met_of_variable (h : grammar.Reads true (.once (Rule.body .variable)) before cs after nodes) :
    Met Unreserved cs after := by
  obtain ⟨xs, ys, _, _, rfl, -, hfree, hname⟩ := h.of_tight_seq
  obtain ⟨rfl, -, -⟩ := hfree.of_absent
  rw [List.append_nil] at hname
  exact met_of_symbolicName hname fun _ hafter _ hw => not_reserved hfree hafter hw

theorem met_of_keyword {w : String} (hw : w.toList ≠ [])
    (halpha : ∀ c ∈ w.toList, c.isAlpha = true)
    (h : grammar.Reads true (.once (Rule.body (.keyword w))) before cs after nodes) :
    Met (fun word => word.map asciiLower = spelling w) cs after := by
  obtain ⟨hcs, hafter⟩ := reads_keyword h
  have hplain : PlainName cs := by
    refine ⟨?_, fun c hc => isNameChar_of_isAlpha (isAlpha_of_mem hcs halpha c hc)⟩
    rintro rfl
    exact hw (List.map_eq_nil_iff.mp hcs.symm)
  exact ⟨hplain.led hcs hafter, hplain.ends hafter⟩

theorem met_of_string {p : List Char → Prop}
    (h : grammar.Reads true (.once (Rule.body .stringLiteral)) before cs after nodes) :
    Met p cs after := by
  rcases h.of_alt with h | ⟨-, h⟩
  · obtain ⟨body, rfl, hbody⟩ := reads_string (by decide) h
    exact ⟨hbody.led (by decide), Held.ends (by decide)⟩
  · obtain ⟨body, rfl, hbody⟩ := reads_string (by decide) h
    exact ⟨hbody.led (by decide), Held.ends (by decide)⟩

/-- **`Digits cs`** -- one digit or more. -/
structure Digits (cs : List Char) : Prop where
  ne_nil : cs ≠ []
  chars : ∀ c ∈ cs, c.isDigit = true

theorem reads_digits (h : grammar.Reads true (.once (some1 .digit)) before cs after nodes) :
    Digits cs := by
  obtain ⟨xs, ys, _, _, rfl, -, hfirst, hmore⟩ := h.of_tight_seq
  cases hfirst with
  | digit hc =>
    refine ⟨by simp, ?_⟩
    have hys : ∀ d ∈ ys, d.isDigit = true := by
      refine hmore.rounds.all (P := fun cs => ∀ d ∈ cs, d.isDigit = true) (by simp)
        (fun hcs hds d hd => (List.mem_append.mp hd).elim (hcs d) (hds d)) fun hread => ?_
      cases hread with
      | digit hd => simpa using hd
    simpa [hc] using hys

theorem Digits.startless {m : Mode} {prev : Option Char} (h : Digits cs) : Startless m prev cs :=
  startless_of_not_isAlpha fun c hc => not_isAlpha_of_isDigit (h.chars c hc)

theorem Digits.ends (h : Digits cs) : Ends cs after := by
  intro c hc
  have hdigit := h.chars c (List.mem_of_getLast? hc)
  refine ⟨isAscii_of_isNameChar (isNameChar_of_isDigit hdigit), ?_, ?_, fun _ hno => ?_⟩
  · rintro rfl
    cases hdigit
  · rintro rfl
    cases hdigit
  · rw [hdigit] at hno
    cases hno

theorem Digits.led {p : List Char → Prop} (h : Digits cs) : Led p cs after := by
  obtain ⟨c, cs, rfl⟩ := List.exists_cons_of_ne_nil h.ne_nil
  have hstart : Startless .outside none (c :: cs) := h.startless
  have hdigit := h.chars c (by simp)
  exact .other rfl (not_isAlpha_of_isDigit hdigit) (not_isBlank_of_isDigit hdigit) hstart.2

theorem QuotedName.startless {prev : Option Char} (h : QuotedName cs) :
    Startless .outside prev cs := by
  obtain ⟨body, rfl, hbody⟩ := h
  exact ⟨fun _ => not_isWordStart_of_not_isAlpha (by decide), hbody.startless (by decide)⟩

theorem QuotedName.closed (h : QuotedName cs) : modeAfter .outside cs = .outside := by
  obtain ⟨body, rfl, hbody⟩ := h
  exact (hbody.between (by decide)).closed

/-- What follows a dot or a dollar sign directly begins no word, and ends like any name. -/
theorem startless_of_symbolicName {b : Char} (hb : isSticky b = true)
    (h : grammar.Reads true (.once symbolicName) before cs after nodes) :
    Startless .outside (some b) cs ∧ modeAfter .outside cs = .outside := by
  rcases reads_symbolicName h with ⟨hplain, -⟩ | hquoted
  · exact ⟨hplain.startless hb, hplain.closed⟩
  · exact ⟨hquoted.startless, hquoted.closed⟩

theorem ne_nil_of_symbolicName
    (h : grammar.Reads true (.once symbolicName) before cs after nodes) : cs ≠ [] := by
  rcases reads_symbolicName h with ⟨hplain, -⟩ | ⟨body, rfl, -⟩
  · exact hplain.ne_nil
  · simp

theorem met_of_parameter {p : List Char → Prop}
    (h : grammar.Reads true (.once (Rule.body .parameter)) before cs after nodes) :
    Met p cs after := by
  obtain ⟨xs, ys, _, _, rfl, -, hdollar, hname⟩ := h.of_tight_seq
  obtain ⟨rfl, -⟩ := hdollar.of_text
  rcases hname.of_alt with hname | ⟨-, hdigits⟩
  · have hmet := met_of_symbolicName (p := fun _ => True) hname fun _ _ => trivial
    exact ⟨.other rfl (by decide) (by decide) (startless_of_symbolicName (by decide) hname).1,
      hmet.ends.of_append (ne_nil_of_symbolicName hname)⟩
  · have hdigits := reads_digits hdigits
    exact ⟨.other rfl (by decide) (by decide) hdigits.startless, hdigits.ends.of_append hdigits.ne_nil⟩

/-- The further parts of a function name. -/
theorem startless_of_dotted (h : grammar.Rounds (.seq (sign ".") symbolicName) before cs after) :
    (∀ prev, Startless .outside prev cs) ∧ modeAfter .outside cs = .outside := by
  refine h.all (P := fun cs => (∀ prev, Startless .outside prev cs) ∧
    modeAfter .outside cs = .outside) ⟨fun _ => trivial, rfl⟩ ?_ fun hread => ?_
  · rintro cs ds ⟨hcs, hclosed⟩ ⟨hds, hclosed'⟩
    refine ⟨fun prev => startless_append.mpr ⟨hcs prev, ?_⟩, ?_⟩
    · rw [hclosed]
      exact hds _
    · rw [modeAfter_append, hclosed, hclosed']
  · obtain ⟨xs, ys, _, _, rfl, -, hdot, hname⟩ := hread.of_tight_seq
    obtain ⟨rfl, -⟩ := hdot.of_text
    obtain ⟨hstart, hclosed⟩ := startless_of_symbolicName (b := '.') (by decide) hname
    exact ⟨fun prev => ⟨fun _ => not_isWordStart_of_not_isAlpha (by decide), hstart⟩, hclosed⟩

theorem ends_of_dotted (h : grammar.Rounds (.seq (sign ".") symbolicName) before cs after) :
    cs = [] ∨ cs ≠ [] ∧ Ends cs after := by
  induction h with
  | done => exact .inl rfl
  | more hone _ ih =>
    refine .inr ?_
    obtain ⟨xs, ys, _, _, rfl, -, -, hname⟩ := hone.of_tight_seq
    have hne := ne_nil_of_symbolicName hname
    rcases ih with rfl | ⟨hne', hends⟩
    · have hmet := met_of_symbolicName (p := fun _ => True) hname fun _ _ => trivial
      rw [List.append_nil]
      exact ⟨by simp [hne], hmet.ends.of_append hne⟩
    · exact ⟨by simp [hne], hends.of_append hne'⟩

theorem met_of_functionName
    (h : grammar.Reads true (.once (Rule.body .functionName)) before cs after nodes) :
    Met Unreserved cs after := by
  obtain ⟨xs, ys, _, _, rfl, -, hfree, h⟩ := h.of_tight_seq
  obtain ⟨rfl, -, -⟩ := hfree.of_absent
  rw [List.append_nil] at h
  obtain ⟨first, more, _, _, rfl, -, hname, hmore⟩ := h.of_tight_seq
  have hrounds := hmore.rounds
  obtain ⟨hstart, -⟩ := startless_of_dotted hrounds
  rw [List.nil_append]
  have hends : Ends (first ++ more) after := by
    rcases ends_of_dotted hrounds with rfl | ⟨hne, hends⟩
    · have hmet := met_of_symbolicName (p := fun _ => True) hname fun _ _ => trivial
      simpa using hmet.ends
    · exact hends.of_append hne
  refine ⟨?_, hends⟩
  rcases reads_symbolicName hname with ⟨hplain, hafter⟩ | hquoted
  · refine .word rfl hplain (fun w hw => ?_) hafter (hstart _)
    rw [List.append_assoc] at hfree
    exact not_reserved hfree hafter hw
  · have hall : Startless .outside none (first ++ more) :=
      startless_append.mpr ⟨hquoted.startless, by rw [hquoted.closed]; exact hstart _⟩
    obtain ⟨body, rfl, hbody⟩ := hquoted
    exact .other rfl (by decide) (by decide) hall.2

/-! ### Numbers -/

theorem Digits.closed (h : Digits cs) : modeAfter .outside cs = .outside :=
  (Inert.of_isPlain fun c hc => isPlain_of_isNameChar (isNameChar_of_isDigit (h.chars c hc))).closed

/-- **`Numeric cs`** -- a stretch that ends with a digit, and in which no word begins. -/
structure Numeric (cs : List Char) : Prop where
  startless : ∀ prev, Startless .outside prev cs
  closed : modeAfter .outside cs = .outside
  last : ∃ c ∈ cs.getLast?, c.isDigit = true

theorem Digits.numeric (h : Digits cs) : Numeric cs where
  startless _ := h.startless
  closed := h.closed
  last := ⟨_, List.getLast?_eq_some_getLast h.ne_nil, h.chars _ (List.getLast_mem h.ne_nil)⟩

theorem Numeric.append {ds : List Char} (hcs : Numeric cs) (hds : Numeric ds) :
    Numeric (cs ++ ds) where
  startless prev := startless_append.mpr ⟨hcs.startless prev, by
    rw [hcs.closed]
    exact hds.startless _⟩
  closed := by rw [modeAfter_append, hcs.closed, hds.closed]
  last := by
    obtain ⟨c, hc, hdigit⟩ := hds.last
    exact ⟨c, getLast?_append_of_mem _ hc, hdigit⟩

theorem Numeric.ends (h : Numeric cs) : Ends cs after := by
  obtain ⟨c, hc, hdigit⟩ := h.last
  have hends : Ends [c] after := Digits.ends ⟨by simp, by simpa using hdigit⟩
  intro d hd
  obtain rfl := Option.mem_unique hc hd
  exact hends c rfl

theorem Numeric.cons {c : Char} (hc : c.isAlpha = false) (hmode : Mode.step .outside c = .outside)
    (h : Numeric cs) : Numeric (c :: cs) where
  startless _ := by
    refine ⟨fun _ => not_isWordStart_of_not_isAlpha hc, ?_⟩
    rw [hmode]
    exact h.startless _
  closed := by
    show modeAfter (Mode.step .outside c) cs = .outside
    rw [hmode, h.closed]
  last := by
    obtain ⟨d, hd, hdigit⟩ := h.last
    exact ⟨d, getLast?_append_of_mem [c] hd, hdigit⟩

/-- A fraction begins with its dot. -/
theorem numeric_of_fraction
    (h : grammar.Reads true (.once (.seq (sign ".") (some1 .digit))) before cs after nodes) :
    Numeric cs := by
  obtain ⟨xs, ys, _, _, rfl, -, hdot, hdigits⟩ := h.of_tight_seq
  obtain ⟨rfl, -⟩ := hdot.of_text
  exact .cons (c := '.') (by decide) (by decide) (reads_digits hdigits).numeric

/-- The digits of an exponent, with or without a sign. -/
theorem numeric_of_signed
    (h : grammar.Reads true (.once (.seq (.opt (alts [sign "+", sign "-"])) (some1 .digit))) before cs
      after nodes) : Numeric cs := by
  obtain ⟨ys, zs, _, _, rfl, -, hsign, hdigits⟩ := h.of_tight_seq
  have hzs : Numeric zs := (reads_digits hdigits).numeric
  rcases hsign.of_opt with hsign | ⟨rfl, -, -⟩
  · rcases hsign.of_alt with hsign | ⟨-, hsign⟩
    · obtain ⟨rfl, -⟩ := hsign.of_text
      exact .cons (c := '+') (by decide) (by decide) hzs
    · obtain ⟨rfl, -⟩ := hsign.of_text
      exact .cons (c := '-') (by decide) (by decide) hzs
  · exact hzs

/-- The letter of an exponent stands behind a digit, so it begins no word. -/
theorem numeric_of_exponent {ds : List Char} (hds : Numeric ds)
    (h : grammar.Reads true (.once (seqs [.word ['e'], .opt (alts [sign "+", sign "-"]),
      some1 .digit])) before cs after nodes) : Numeric (ds ++ cs) := by
  obtain ⟨xs, ys, _, _, rfl, -, hletter, hsigned⟩ := h.of_tight_seq
  have hys : Numeric ys := numeric_of_signed hsigned
  obtain ⟨hspell, -⟩ := hletter.of_word
  obtain ⟨e, rfl⟩ : ∃ e, xs = [e] := by
    obtain ⟨e, xs, rfl⟩ := List.exists_cons_of_ne_nil (l := xs) (by rintro rfl; cases hspell)
    obtain ⟨-, hnil⟩ := List.cons.inj hspell
    exact ⟨e, by rw [List.map_eq_nil_iff.mp hnil]⟩
  have halpha : e.isAlpha = true := isAlpha_of_mem hspell (List.all_eq_true.mp (by decide)) e (by simp)
  have hclosed : modeAfter .outside [e] = .outside :=
    (Inert.of_isPlain (by simpa using isPlain_of_isNameChar (isNameChar_of_isAlpha halpha))).closed
  obtain ⟨b, hb, hbdigit⟩ := hds.last
  refine ⟨fun prev => startless_append.mpr ⟨hds.startless prev, ?_⟩, ?_, ?_⟩
  · rw [hds.closed, Option.mem_def.mp hb]
    refine startless_append.mpr ⟨⟨fun _ => ?_, trivial⟩, ?_⟩
    · exact not_isWordStart_of_isSticky (isSticky_of_isNameChar (isNameChar_of_isDigit hbdigit))
    · rw [hclosed]
      exact hys.startless _
  · rw [modeAfter_append, hds.closed, modeAfter_append, hclosed, hys.closed]
  · obtain ⟨c, hc, hdigit⟩ := hys.last
    exact ⟨c, getLast?_append_of_mem _ (getLast?_append_of_mem _ hc), hdigit⟩

theorem Numeric.met {p : List Char → Prop} {c : Char} {cs : List Char} (h : Numeric (c :: cs))
    (hc : c.isAlpha = false) (hblank : isBlank c = false) : Met p (c :: cs) after :=
  ⟨.other rfl hc hblank (h.startless none).2, h.ends⟩

theorem Digits.met {p : List Char → Prop} {ds more : List Char} (h : Digits ds)
    (hall : Numeric (ds ++ more)) : Met p (ds ++ more) after := by
  obtain ⟨c, ds, rfl⟩ := List.exists_cons_of_ne_nil h.ne_nil
  have hdigit := h.chars c (by simp)
  exact hall.met (not_isAlpha_of_isDigit hdigit) (not_isBlank_of_isDigit hdigit)

theorem met_of_number {p : List Char → Prop}
    (h : grammar.Reads true (.once (Rule.body .numberLiteral)) before cs after nodes) :
    Met p cs after := by
  rcases h.of_alt with h | ⟨-, h⟩
  · obtain ⟨ds, rest, _, _, rfl, -, hdigits, h⟩ := h.of_tight_seq
    obtain ⟨fs, es, _, _, rfl, -, hfraction, hexponent⟩ := h.of_tight_seq
    have hds : Digits ds := reads_digits hdigits
    have hfs : Numeric (ds ++ fs) := by
      rcases hfraction.of_opt with hfraction | ⟨rfl, -, -⟩
      · exact hds.numeric.append (numeric_of_fraction hfraction)
      · simpa using hds.numeric
    refine hds.met ?_
    rw [← List.append_assoc]
    rcases hexponent.of_opt with hexponent | ⟨rfl, -, -⟩
    · exact numeric_of_exponent hfs hexponent
    · simpa using hfs
  · have hnumeric := numeric_of_fraction h
    obtain ⟨xs, ys, _, _, rfl, -, hdot, -⟩ := h.of_tight_seq
    obtain ⟨rfl, -⟩ := hdot.of_text
    exact hnumeric.met (c := '.') (by decide) (by decide)

/-! ### All of them -/

/-- What is known of the word that a token begins with. -/
def Rule.tokenWord (r : Rule) (word : List Char) : Prop :=
  match r with
  | .keyword w => word.map asciiLower = spelling w
  | .labelName | .relTypeName | .propertyKey => True
  | _ => Unreserved word

/-- **Every token of the grammar begins at most one word, at its own start, and ends it.** -/
theorem reads_token {r : Rule} (hpart : r.isPart = true) (hatomic : r.kind = .atomic)
    (h : grammar.Reads true (.once r.body) before cs after nodes) : Met r.tokenWord cs after := by
  cases r with
  | keyword w =>
    simp only [Rule.isPart, Bool.and_eq_true, Bool.not_eq_true', List.isEmpty_eq_false_iff,
      List.all_eq_true] at hpart
    exact met_of_keyword hpart.1 hpart.2 h
  | labelName => exact met_of_symbolicName h fun _ _ => trivial
  | relTypeName => exact met_of_symbolicName h fun _ _ => trivial
  | propertyKey => exact met_of_symbolicName h fun _ _ => trivial
  | functionName => exact met_of_functionName h
  | numberLiteral => exact met_of_number h
  | integerLiteral =>
    have hdigits := reads_digits h
    exact ⟨hdigits.led, hdigits.ends⟩
  | stringLiteral => exact met_of_string h
  | parameter => exact met_of_parameter h
  | «variable» => exact met_of_variable h
  | _ => cases hatomic

end QueryScore.Cypher
