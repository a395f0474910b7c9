/-
# QueryScore.Proofs.Name.Dotted -- the normal form of a dotted name

A dotted name is made of parts: identifiers, and texts in quotes that may hold anything but the mark
that ends them. The scan for dots passes each part and is outside quotes behind it (`markDots_text`),
so a name falls into the parts it was made of (`parts_dotted`), and its last part decides its normal
form. Two things are done to that part, though: it loses its quotes when the name is cut, and what was
inside them is trimmed and loses quotes again. A name without qualifiers loses its quotes once. So a
qualifier changes the normal form exactly where a text in quotes has blanks at its ends or is itself
in quotes (`normalizeRelation_dotted`).
-/

import Mathlib.Data.List.Induction
import QueryScore.Proofs.Text.Letter
import QueryScore.Proofs.Text.Trim

namespace QueryScore.Name

open Text

variable {cs ds : List Char} {opening closing : Char}

/-! ## Parts -/

/-- A character that opens a quoted identifier. -/
def isOpeningQuote (c : Char) : Bool := c == '"' || c == '`' || c == '['

/-- A character of an identifier without quotes: no dot, no quote, no bracket and no blank. -/
def isBare (c : Char) : Bool := c != '.' && !isOpeningQuote c && c != ']' && !isBlank c

/-- A part of a dotted name. -/
inductive Part where
  /-- An identifier without quotes. -/
  | bare (name : List Char) (hname : ∀ c ∈ name, isBare c = true)
  /-- A text in quotes, which does not hold the character that closes them. -/
  | quoted (opening : Char) (inner : List Char) (hopening : isOpeningQuote opening = true)
      (hinner : closingQuote opening ∉ inner)

/-- A part as it is written. -/
def Part.text : Part → List Char
  | .bare name _ => name
  | .quoted opening inner _ _ => opening :: (inner ++ [closingQuote opening])

/-- A part without its quotes. -/
def Part.content : Part → List Char
  | .bare name _ => name
  | .quoted _ inner _ _ => inner

/-- **`dotted qualifiers last`** -- the parts with a dot behind each but the last. -/
def dotted : List Part → Part → List Char
  | [], last => last.text
  | qualifier :: qualifiers, last => qualifier.text ++ '.' :: dotted qualifiers last

/-! ## The quotes of a part -/

theorem between?_eq_some_iff : between? opening closing cs = some ds ↔ cs = opening :: (ds ++ [closing]) := by
  unfold between? stripEnd
  rw [Option.bind_eq_some_iff]
  constructor
  · rintro ⟨rest, hrest, hend⟩
    obtain ⟨front, hfront, rfl⟩ := Option.map_eq_some_iff.mp hend
    rw [stripStart_eq_some.mp hrest, ← List.reverse_reverse rest, stripStart_eq_some.mp hfront]
    simp
  · intro h
    refine ⟨ds ++ [closing], stripStart_eq_some.mpr h, ?_⟩
    rw [Option.map_eq_some_iff]
    exact ⟨ds.reverse, stripStart_eq_some.mpr (by simp), List.reverse_reverse ds⟩

/-- Quotes are taken off a text that opens with one of the three marks and ends with what closes it. -/
theorem unquote_eq_of_quoted (h : isOpeningQuote opening = true) (inner : List Char) :
    unquote (opening :: (inner ++ [closingQuote opening])) = inner := by
  have hself : between? opening (closingQuote opening) (opening :: (inner ++ [closingQuote opening])) =
      some inner := between?_eq_some_iff.mpr rfl
  have hother {mark closing : Char} (hne : opening ≠ mark) :
      between? mark closing (opening :: (inner ++ [closingQuote opening])) = none := by
    refine Option.eq_none_iff_forall_ne_some.mpr fun ds hsome => hne ?_
    exact (List.cons.inj (between?_eq_some_iff.mp hsome)).1
  simp only [isOpeningQuote, Bool.or_eq_true, beq_iff_eq] at h
  unfold unquote
  rcases h with (rfl | rfl) | rfl
  · show (between? '"' (closingQuote '"') _ <|> _).getD _ = inner
    rw [hself]
    rfl
  · show (_ <|> between? '`' (closingQuote '`') _ <|> _).getD _ = inner
    rw [hother (by decide), hself]
    rfl
  · show (_ <|> _ <|> between? '[' (closingQuote '[') _).getD _ = inner
    rw [hother (by decide), hother (by decide), hself]
    rfl

/-- A text that no mark opens stays. -/
theorem unquote_of_head (h : ∀ c ∈ cs.head?, isOpeningQuote c = false) : unquote cs = cs := by
  have hnone {mark closing : Char} (hmark : isOpeningQuote mark = true) : between? mark closing cs = none := by
    refine Option.eq_none_iff_forall_ne_some.mpr fun ds hsome => ?_
    have hhead := h mark (by rw [between?_eq_some_iff.mp hsome]; rfl)
    rw [hmark] at hhead
    cases hhead
  unfold unquote
  rw [hnone (by decide), hnone (by decide), hnone (by decide)]
  rfl

theorem Part.unquote_text (p : Part) : unquote p.text = p.content := by
  cases p with
  | bare name hname =>
    refine unquote_of_head fun c hc => ?_
    have hbare := hname c (List.mem_of_mem_head? hc)
    simp only [isBare, Bool.and_eq_true, Bool.not_eq_true'] at hbare
    exact hbare.1.1.2
  | quoted opening inner hopening hinner => exact unquote_eq_of_quoted hopening inner

/-! ## The ends of a part -/

theorem isOpeningQuote_ink {c : Char} (h : isOpeningQuote c = true) :
    isBlank c = false ∧ isBlank (closingQuote c) = false ∧ c ≠ '.' := by
  simp only [isOpeningQuote, Bool.or_eq_true, beq_iff_eq] at h
  rcases h with (rfl | rfl) | rfl <;> decide

theorem Part.head_text (p : Part) : ∀ c ∈ p.text.head?, isBlank c = false := by
  intro c hc
  cases p with
  | bare name hname =>
    have hbare := hname c (List.mem_of_mem_head? hc)
    simp only [isBare, Bool.and_eq_true, Bool.not_eq_true'] at hbare
    exact hbare.2
  | quoted opening inner hopening hinner =>
    obtain rfl := Option.some.inj hc
    exact (isOpeningQuote_ink hopening).1

theorem Part.getLast_text (p : Part) : ∀ c ∈ p.text.getLast?, isBlank c = false := by
  intro c hc
  cases p with
  | bare name hname =>
    have hbare := hname c (List.mem_of_getLast? hc)
    simp only [isBare, Bool.and_eq_true, Bool.not_eq_true'] at hbare
    exact hbare.2
  | quoted opening inner hopening hinner =>
    rw [Part.text, ← List.cons_append, List.getLast?_concat] at hc
    obtain rfl := Option.some.inj hc
    exact (isOpeningQuote_ink hopening).2.1

theorem Part.trim_text (p : Part) : trim p.text = p.text := trim_of_ends p.head_text p.getLast_text

theorem head_dotted (qualifiers : List Part) (last : Part) :
    ∀ c ∈ (dotted qualifiers last).head?, isBlank c = false := by
  cases qualifiers with
  | nil => exact last.head_text
  | cons qualifier qualifiers =>
    intro c hc
    rw [dotted, List.head?_append] at hc
    cases hhead : qualifier.text.head? with
    | none =>
      rw [hhead] at hc
      obtain rfl := Option.some.inj hc
      decide
    | some d =>
      rw [hhead] at hc
      obtain rfl := Option.some.inj hc
      exact qualifier.head_text d hhead

theorem getLast_dotted (qualifiers : List Part) (last : Part) :
    ∀ c ∈ (dotted qualifiers last).getLast?, isBlank c = false := by
  induction qualifiers with
  | nil => exact last.getLast_text
  | cons qualifier qualifiers ih =>
    have hdot : ∀ c ∈ ('.' :: dotted qualifiers last).getLast?, isBlank c = false := by
      intro c hc
      rw [List.getLast?_cons] at hc
      obtain rfl := Option.some.inj hc
      cases hlast : (dotted qualifiers last).getLast? with
      | none => decide
      | some d => exact ih d hlast
    intro c hc
    rw [dotted, List.getLast?_append] at hc
    cases hlast : ('.' :: dotted qualifiers last).getLast? with
    | none => simp at hlast
    | some d =>
      rw [hlast] at hc
      obtain rfl := Option.some.inj hc
      exact hdot d hlast

theorem trim_dotted (qualifiers : List Part) (last : Part) :
    trim (dotted qualifiers last) = dotted qualifiers last :=
  trim_of_ends (head_dotted qualifiers last) (getLast_dotted qualifiers last)

/-! ## The scan for dots -/

/-- Between quotes nothing is marked, and nothing but the closing mark ends them. -/
theorem markDots_inner (hinner : closingQuote opening ∉ cs) (ds : List Char) :
    markDots (some opening) (cs ++ ds) = cs.map (·, false) ++ markDots (some opening) ds := by
  induction cs with
  | nil => rfl
  | cons c cs ih =>
    rw [List.mem_cons, not_or] at hinner
    obtain ⟨hne, hinner⟩ := hinner
    have hstep : quoteAfter (some opening) c = some opening := if_neg (Ne.symm hne)
    rw [List.cons_append, markDots, hstep, ih hinner]
    rfl

/-- **The scan passes a part and is outside quotes behind it.** -/
theorem markDots_text (p : Part) (ds : List Char) :
    markDots none (p.text ++ ds) = p.text.map (·, false) ++ markDots none ds := by
  cases p with
  | bare name hname =>
    rw [Part.text]
    induction name with
    | nil => rfl
    | cons c name ih =>
      have hbare := hname c List.mem_cons_self
      simp only [isBare, isOpeningQuote, Bool.and_eq_true, Bool.not_eq_true', bne_iff_ne,
        Bool.or_eq_false_iff, beq_eq_false_iff_ne] at hbare
      obtain ⟨⟨⟨hdot, ⟨hdouble, hback⟩, hsquare⟩, -⟩, -⟩ := hbare
      have hstep : quoteAfter none c = none := by simp [quoteAfter, hdouble, hback, hsquare]
      rw [List.cons_append, markDots, hstep, ih fun d hd => hname d (List.mem_cons_of_mem _ hd)]
      simp [hdot]
  | quoted opening inner hopening hinner =>
    have hdot := (isOpeningQuote_ink hopening).2.2
    have hopen : quoteAfter none opening = some opening := if_pos hopening
    have hclose : quoteAfter (some opening) (closingQuote opening) = none := if_pos rfl
    rw [Part.text, List.cons_append, List.append_assoc, markDots, hopen, markDots_inner hinner,
      List.singleton_append, markDots, hclose]
    simp [hdot]

/-- **A dotted name falls into its parts.** -/
theorem parts_dotted (qualifiers : List Part) (last : Part) :
    parts (dotted qualifiers last) = qualifiers.map Part.text ++ [last.text] := by
  have hunmarked (p : Part) : splitWhere Prod.snd (p.text.map (·, false)) = [p.text.map (·, false)] := by
    refine splitWhere_of_none fun x hx => ?_
    obtain ⟨c, -, rfl⟩ := List.mem_map.mp hx
    rfl
  have hplain (p : Part) : trim ((p.text.map (·, false)).map Prod.fst) = p.text := by
    rw [List.map_map]
    show trim (p.text.map id) = p.text
    rw [List.map_id, p.trim_text]
  unfold parts
  induction qualifiers with
  | nil =>
    have hlast := markDots_text last []
    rw [List.append_nil, markDots, List.append_nil] at hlast
    rw [dotted, hlast, hunmarked, List.map_singleton, hplain]
    rfl
  | cons qualifier qualifiers ih =>
    rw [dotted, markDots_text, markDots]
    show List.map _ (splitWhere Prod.snd (_ ++ ('.', true) :: markDots none (dotted qualifiers last))) = _
    rw [splitWhere_append rfl, List.map_append, ih, hunmarked, List.map_singleton, hplain]
    rfl

/-! ## What is taken off a text -/

/-- Without its quotes a text is a stretch of itself. -/
theorem isInfix_unquote (cs : List Char) : unquote cs <:+: cs := by
  have hstretch {mark closing : Char} {ds : List Char} (h : between? mark closing cs = some ds) : ds <:+: cs :=
    ⟨[mark], [closing], by rw [between?_eq_some_iff.mp h]; rfl⟩
  unfold unquote
  cases hdouble : between? '"' '"' cs with
  | some ds => exact hstretch hdouble
  | none =>
    cases hback : between? '`' '`' cs with
    | some ds => exact hstretch hback
    | none =>
      cases hsquare : between? '[' ']' cs with
      | some ds => exact hstretch hsquare
      | none => exact List.infix_rfl

theorem isInfix_trim (cs : List Char) : trim cs <:+: cs := by
  obtain ⟨bs, bs', -, -, hsplit⟩ := exists_trim cs
  exact ⟨bs, bs', by rw [List.append_assoc, ← hsplit]⟩

/-- Nothing is taken off exactly if the text has neither blanks at its ends nor quotes around it. -/
theorem unquote_trim_eq_iff : unquote (trim cs) = cs ↔ trim cs = cs ∧ unquote cs = cs := by
  constructor
  · intro h
    have hunquote := (isInfix_unquote (trim cs)).length_le
    have htrim : trim cs = cs := (isInfix_trim cs).eq_of_length_le (by rwa [h] at hunquote)
    rw [htrim] at h
    exact ⟨htrim, h⟩
  · rintro ⟨htrim, hunquote⟩
    rw [htrim, hunquote]

/-- The lower case of a text has the length that the lower cases of its characters have together. -/
theorem length_lowercase (cs : List Char) : (lowercase cs).length = (cs.flatMap lowerChar).length := by
  suffices hall : ∀ before, (lowercaseFrom before cs).length = (cs.flatMap lowerChar).length from hall []
  induction cs with
  | nil => exact fun _ => rfl
  | cons c cs ih =>
    intro before
    rw [lowercaseFrom, List.length_append, ih, List.flatMap_cons, List.length_append]
    congr 1
    split
    · rename_i hsigma
      rw [hsigma]
      show 1 = (lowerChar 'Σ').length
      decide
    · rfl

/-- A stretch of a text that has the lower case of the text is all of it. -/
theorem eq_of_lowercase_eq (hstretch : ds <:+: cs) (h : lowercase ds = lowercase cs) : ds = cs := by
  obtain ⟨front, back, rfl⟩ := hstretch
  have hnil (xs : List Char) (hlength : (xs.flatMap lowerChar).length = 0) : xs = [] := by
    cases xs with
    | nil => rfl
    | cons x xs =>
      have hpositive := List.length_pos_iff.mpr (lowerChar_ne_nil x)
      rw [List.flatMap_cons, List.length_append] at hlength
      omega
  have hlength := congrArg List.length h
  rw [length_lowercase, length_lowercase, List.flatMap_append, List.flatMap_append, List.length_append,
    List.length_append] at hlength
  rw [hnil front (by omega), hnil back (by omega), List.nil_append, List.append_nil]

/-! ## Normal forms -/

theorem Part.normalize_text (p : Part) : normalize p.text = lowercase p.content := by
  rw [normalize, p.trim_text, p.unquote_text]

/-- **`Part.IsBareInside`** -- without its quotes, the part has neither blanks at its ends nor quotes around
it. -/
def Part.IsBareInside (p : Part) : Prop := trim p.content = p.content ∧ unquote p.content = p.content

/-- **The normal form of a dotted name**: with qualifiers, what stands inside the quotes of its last part
is trimmed and loses quotes again; so a qualifier changes nothing exactly where nothing is left to take
off. -/
theorem normalizeRelation_dotted (qualifiers : List Part) (last : Part) :
    normalizeRelation (dotted qualifiers last) =
        normalize (if qualifiers = [] then last.text else last.content) ∧
      (normalizeRelation (dotted qualifiers last) = normalize last.text ↔
        qualifiers = [] ∨ last.IsBareInside) := by
  have hform : normalizeRelation (dotted qualifiers last) =
      normalize (if qualifiers = [] then last.text else last.content) := by
    unfold normalizeRelation splitQualified
    rw [trim_dotted, parts_dotted, List.reverse_append, List.reverse_singleton]
    cases qualifiers using List.reverseRecOn with
    | nil => rfl
    | append_singleton qualifiers qualifier =>
      rw [List.map_append, List.reverse_append]
      simp [last.unquote_text]
  refine ⟨hform, ?_⟩
  rw [hform]
  split
  · rename_i hnil
    exact ⟨fun _ => .inl hnil, fun _ => rfl⟩
  · rename_i hne
    rw [last.normalize_text, normalize]
    constructor
    · intro h
      have hall := (isInfix_unquote (trim last.content)).trans (isInfix_trim last.content)
      exact .inr (unquote_trim_eq_iff.mp (eq_of_lowercase_eq hall h))
    · rintro (hnil | hinside)
      · exact absurd hnil hne
      · rw [unquote_trim_eq_iff.mpr hinside]

/-- A qualifier without quotes. -/
def schemaPart : Part := .bare ['s'] (List.forall_mem_singleton.mpr (by decide))

/-- A name in square brackets, in double quotes. -/
def bracketedPart : Part := .quoted '"' "[x]".toList (by decide) (by decide)

/-- **A qualifier may change the normal form of a name**: `s."[x]"` becomes `x`, and `"[x]"` alone `[x]`. -/
theorem normalizeRelation_ne_normalize :
    dotted [schemaPart] bracketedPart = "s.\"[x]\"".toList ∧
      normalizeRelation (dotted [schemaPart] bracketedPart) = "x".toList ∧
      normalize bracketedPart.text = "[x]".toList ∧
      normalizeRelation (dotted [schemaPart] bracketedPart) ≠ normalize bracketedPart.text := by decide

end QueryScore.Name
