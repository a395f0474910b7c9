/-
# QueryScore.Proofs.Cypher.Sealed -- a text that lets in nothing from behind

What stands behind a text can change how its end is read: a quoted stretch, a comment or a group of
parentheses might go on there, or a name that is awaited. In a `Sealed` text none of them is open at
the end, and the same holds of what is left behind each part of it (`Sealed.drop`). So a quote mark
in it opens a stretch that it closes (`Sealed.of_quote`), and a parenthesis a group that it closes
(`Sealed.exists_group`), which is read as a whole whatever stands behind it (`Group.exists_grouped`).
-/

import QueryScore.Proofs.Cypher.LastSign
import QueryScore.Proofs.Cypher.Lockstep

namespace QueryScore.Cypher

open Text Grammar Peg

variable {m : Mode} {depth : Nat} {c q : Char} {xs cs body : List Char} {opens closes : Char → Bool}

/-! ## Sealed texts -/

/-- From mode `m` on, no comment begins, and nothing between back quotes looks like one. -/
def isCommentless (m : Mode) : List Char → Bool
  | [] => true
  | c :: cs =>
    !((m == .outside || m == .quoted '`' false) && opensComment (c :: cs)) && isCommentless (m.step c) cs

theorem isCommentless_append (h : isCommentless m (xs ++ cs) = true) :
    isCommentless (modeAfter m xs) cs = true := by
  induction xs generalizing m with
  | nil => exact h
  | cons x xs ih => exact ih ((Bool.and_eq_true _ _).mp h).2

theorem not_opensComment_of_commentless (h : isCommentless m cs = true)
    (hm : m = .outside ∨ m = .quoted '`' false) : opensComment cs = false := by
  cases cs with
  | nil => rfl
  | cons c cs =>
    have hmode : (m == .outside || m == .quoted '`' false) = true := by
      rcases hm with rfl | rfl <;> rfl
    have hone := ((Bool.and_eq_true _ _).mp h).1
    rw [hmode, Bool.true_and] at hone
    simpa using hone

theorem admits_of_commentless (h : isCommentless m cs = true) : Admits m cs :=
  ⟨fun hm => commentSize_of_not_opensComment (not_opensComment_of_commentless h (.inl hm)),
    fun hm => not_opensComment_of_commentless h (.inr hm)⟩

/-- A text without comments has nothing to leave out. -/
theorem uncommentFrom_of_commentless (h : isCommentless m cs = true) : uncommentFrom 0 m cs = cs := by
  induction cs generalizing m with
  | nil => rfl
  | cons c cs ih => rw [uncommentFrom_keep (admits_of_commentless h).outside, ih ((Bool.and_eq_true _ _).mp h).2]

/-- A text without comments goes beside itself. -/
theorem respaced_of_commentless (g : Spacing) (h : isCommentless m cs = true) :
    Respaced g m [] cs cs (modeAfter m cs) := by
  induction cs generalizing m with
  | nil => exact .nil
  | cons c cs ih =>
    have hadmits : Admits m (c :: (cs ++ [])) := by
      rw [List.append_nil]
      exact admits_of_commentless h
    exact .keep hadmits (ih ((Bool.and_eq_true _ _).mp h).2)

theorem exists_pairsUp_append (h : pairsUp opens closes m depth (xs ++ cs) = true) :
    ∃ depth', pairsUp opens closes (modeAfter m xs) depth' cs = true := by
  induction xs generalizing m depth with
  | nil => exact ⟨depth, h⟩
  | cons x xs ih =>
    rw [List.cons_append, pairsUp] at h
    split at h
    · exact ih h
    · split at h
      · exact ih ((Bool.and_eq_true _ _).mp h).2
      · exact ih h

/-- **`Shut depth cs`** -- at the end of the text no quoted stretch and no comment is open, and the
`depth` groups that were open before it are closed, as are its own. -/
structure Shut (depth : Nat) (cs : List Char) : Prop where
  closed : modeAfter .outside cs = .outside
  commentless : isCommentless .outside cs = true
  paired : pairsUp isOpeningParen isClosingParen .outside depth cs = true

/-- **`Sealed cs`** -- at the end of the text nothing is open, and no name is awaited. -/
structure Sealed (cs : List Char) : Prop where
  shut : ∃ depth, Shut depth cs
  finished : ∀ c, lastInk cs = some c → awaitsName c = false

theorem closed_of_append (h : modeAfter .outside (xs ++ cs) = .outside)
    (hxs : modeAfter .outside xs = .outside) : modeAfter .outside cs = .outside := by
  rwa [modeAfter_append, hxs] at h

theorem commentless_of_append (h : isCommentless .outside (xs ++ cs) = true)
    (hxs : modeAfter .outside xs = .outside) : isCommentless .outside cs = true := by
  have hcommentless := isCommentless_append h
  rwa [hxs] at hcommentless

/-- What is left of a sealed text is sealed. -/
theorem Sealed.drop (h : Sealed (xs ++ cs)) (hxs : modeAfter .outside xs = .outside) : Sealed cs where
  shut := by
    obtain ⟨depth, hshut⟩ := h.shut
    obtain ⟨depth', hpaired⟩ := exists_pairsUp_append hshut.paired
    rw [hxs] at hpaired
    exact ⟨depth', closed_of_append hshut.closed hxs, commentless_of_append hshut.commentless hxs, hpaired⟩
  finished c hc := h.finished c (by rw [lastInk_append, hc, Option.some_or])

theorem Sealed.not_opensComment (h : Sealed cs) : opensComment cs = false := by
  obtain ⟨_, hshut⟩ := h.shut
  exact not_opensComment_of_commentless hshut.commentless (.inl rfl)

/-! ## Quoted stretches -/

theorem Inside.held (h : Inside q false body) : Held q body := by
  generalize hshown : false = hidden at h
  -- A backslash and the character it hides go together.
  suffices hboth : (hidden = false → Held q body) ∧
      (hidden = true → ∃ c more, body = c :: more ∧ Held q more) from hboth.1 hshown.symm
  clear hshown
  induction h with
  | nil => exact ⟨fun _ => .nil, by simp⟩
  | @hidden c body _ ih => exact ⟨by simp, fun _ => ⟨c, body, rfl, ih.1 rfl⟩⟩
  | escape hname _ ih =>
    obtain ⟨c, more, rfl, hmore⟩ := ih.2 rfl
    exact ⟨fun _ => Held.append (.hidden hname) hmore, by simp⟩
  | plain hne hescape _ _ ih => exact ⟨fun _ => Held.append (.single hne hescape) (ih.1 rfl), by simp⟩

/-- Between its marks the stretch shows nothing. -/
theorem Inside.inert (hq : isQuote q = true) (h : Inside q false body) : Inert (q :: (body ++ [q])) :=
  h.held.between hq

/-- A mark opens a quoted stretch that the text closes. -/
theorem exists_closing_mark (hq : isQuote q = true) (hclosed : modeAfter .outside (q :: cs) = .outside)
    (hcommentless : isCommentless .outside (q :: cs) = true) :
    ∃ body rest, cs = body ++ q :: rest ∧ Inside q false body := by
  have hbeside := respaced_of_commentless relaying hcommentless
  rw [hclosed] at hbeside
  obtain ⟨body, rest, _, hsplit, -, hbody, -⟩ := Beside.of_quote hq hbeside
  exact ⟨body, rest, hsplit, hbody⟩

theorem cons_quoted (q : Char) (body rest : List Char) :
    q :: (body ++ q :: rest) = (q :: (body ++ [q])) ++ rest := by
  simp

/-- A mark of a sealed text opens a quoted stretch, and what is left behind it is sealed. -/
theorem Sealed.of_quote (h : Sealed (q :: cs)) (hq : isQuote q = true) :
    ∃ body rest, cs = body ++ q :: rest ∧ Inside q false body ∧ Sealed rest := by
  obtain ⟨_, hshut⟩ := h.shut
  obtain ⟨body, rest, rfl, hbody⟩ := exists_closing_mark hq hshut.closed hshut.commentless
  rw [cons_quoted] at h
  exact ⟨body, rest, rfl, hbody, h.drop (hbody.inert hq).closed⟩

theorem Shut.of_quote (h : Shut depth (q :: cs)) (hq : isQuote q = true) :
    ∃ body rest, cs = body ++ q :: rest ∧ Inside q false body ∧ Shut depth rest := by
  obtain ⟨body, rest, rfl, hbody⟩ := exists_closing_mark hq h.closed h.commentless
  have hinert := hbody.inert hq
  obtain ⟨hclosed, hcommentless, hpaired⟩ := h
  rw [cons_quoted] at hclosed hcommentless hpaired
  refine ⟨body, rest, rfl, hbody, closed_of_append hclosed hinert.closed,
    commentless_of_append hcommentless hinert.closed, ?_⟩
  have hshown := hinert.plain.mono fun _ hc => not_paren_of_not_bracket (not_bracket_of_isPlain hc)
  rwa [pairsUp_shown hshown, hinert.closed] at hpaired

/-! ## Groups of parentheses -/

/-- **`Group g`** -- the stretch between a parenthesis and the one that closes it. -/
inductive Group : List Char → Prop
  | nil : Group []
  | char {c : Char} {g : List Char} : isQuote c = false → ¬ (c = '(' ∨ c = ')') →
      (∀ rest, opensComment (c :: (g ++ ')' :: rest)) = false) → Group g → Group (c :: g)
  | quoted {q : Char} {body g : List Char} : isQuote q = true → Inside q false body → Group g →
      Group (q :: (body ++ q :: g))
  | nested {g g' : List Char} : Group g → Group g' → Group ('(' :: (g ++ ')' :: g'))

theorem Shut.of_char (h : Shut depth (c :: cs)) (hquote : isQuote c = false) (hparen : ¬ (c = '(' ∨ c = ')')) :
    opensComment (c :: cs) = false ∧ Shut depth cs := by
  have hopens := not_opensComment_of_commentless h.commentless (.inl rfl)
  have hmode : modeAfter .outside [c] = .outside := step_of_not_isQuote hquote
  obtain ⟨hopen, hclose⟩ := not_or.mp hparen
  have hcommentless : isCommentless .outside ([c] ++ cs) = true := h.commentless
  have hclosed : modeAfter .outside ([c] ++ cs) = .outside := h.closed
  refine ⟨hopens, closed_of_append hclosed hmode, commentless_of_append hcommentless hmode, ?_⟩
  have hpaired := h.paired
  rw [pairsUp, step_of_not_isQuote hquote] at hpaired
  simpa [isOpeningParen, isClosingParen, hopen, hclose] using hpaired

theorem Shut.of_open (h : Shut depth ('(' :: cs)) : Shut (depth + 1) cs :=
  ⟨h.closed, ((Bool.and_eq_true _ _).mp h.commentless).2, h.paired⟩

theorem Shut.of_close (h : Shut (depth + 1) (')' :: cs)) : Shut depth cs :=
  ⟨h.closed, ((Bool.and_eq_true _ _).mp h.commentless).2, h.paired⟩

/-- **A text that closes what is open before it begins with a group and its parenthesis.** -/
theorem Shut.exists_group (h : Shut (depth + 1) cs) :
    ∃ g rest, cs = g ++ ')' :: rest ∧ Group g ∧ Shut depth rest := by
  -- A stretch between marks or parentheses is passed at once, so the induction is on the length.
  induction hsize : cs.length using Nat.strongRecOn generalizing cs depth with
  | ind size ih =>
    cases cs with
    | nil =>
      have hno := h.paired
      cases hno
    | cons c cs =>
      simp only [List.length_cons] at hsize
      by_cases hquote : isQuote c = true
      · obtain ⟨body, later, rfl, hbody, hlater⟩ := h.of_quote hquote
        obtain ⟨g, rest, rfl, hg, hrest⟩ := ih later.length (by simp at hsize; omega) hlater rfl
        exact ⟨c :: (body ++ c :: g), rest, by simp, .quoted hquote hbody hg, hrest⟩
      by_cases hclose : c = ')'
      · subst hclose
        exact ⟨[], cs, rfl, .nil, h.of_close⟩
      by_cases hopen : c = '('
      · subst hopen
        obtain ⟨g, later, rfl, hg, hlater⟩ := ih cs.length (by omega) h.of_open rfl
        obtain ⟨g', rest, rfl, hg', hrest⟩ := ih later.length (by simp at hsize; omega) hlater rfl
        exact ⟨'(' :: (g ++ ')' :: g'), rest, by simp, .nested hg hg', hrest⟩
      · have hparen : ¬ (c = '(' ∨ c = ')') := not_or.mpr ⟨hopen, hclose⟩
        obtain ⟨hopens, hlater⟩ := h.of_char (by simpa using hquote) hparen
        obtain ⟨g, rest, rfl, hg, hrest⟩ := ih cs.length (by omega) hlater rfl
        refine ⟨c :: g, rest, rfl, .char (by simpa using hquote) hparen (fun ds => ?_) hg, hrest⟩
        rw [← hopens]
        cases g with
        | nil => exact opensComment_congr _ _
        | cons d g => exact opensComment_congr _ _

theorem Group.closed (h : Group body) : modeAfter .outside body = .outside := by
  induction h with
  | nil => rfl
  | char hquote _ _ _ ih =>
    show modeAfter (Mode.step .outside _) _ = _
    rwa [step_of_not_isQuote hquote]
  | quoted hq hbody _ ih => rw [cons_quoted, modeAfter_append, (hbody.inert hq).closed, ih]
  | @nested g g' _ _ ih ih' =>
    show modeAfter .outside (g ++ ')' :: g') = _
    rw [modeAfter_append, ih]
    exact ih'

/-- A parenthesis of a sealed text opens a group, and what is left behind it is sealed. -/
theorem Sealed.exists_group (h : Sealed ('(' :: cs)) :
    ∃ g rest, cs = g ++ ')' :: rest ∧ Group g ∧ Sealed rest := by
  obtain ⟨_, hshut⟩ := h.shut
  obtain ⟨g, rest, rfl, hg, -⟩ := hshut.of_open.exists_group
  have hsplit : '(' :: (g ++ ')' :: rest) = ('(' :: (g ++ [')'])) ++ rest := by simp
  rw [hsplit] at h
  refine ⟨g, rest, rfl, hg, h.drop ?_⟩
  show modeAfter .outside (g ++ [')']) = _
  rw [modeAfter_append, hg.closed]
  rfl

/-! ## What the grammar makes of a group -/

/-- **`g.Grouped i nodes`** -- at index `i` the group is read as a whole, whatever stands behind it. -/
def Grouped (g : List Char) (i : Nat) (nodes : List (Tree Rule)) : Prop :=
  ∀ rest, grammar.Yields false (.rule .parenGroup) ⟨i, '(' :: (g ++ ')' :: rest)⟩
    (.matched ⟨i + (g.length + 2), rest⟩ nodes)

theorem yields_parenGroup_failed {atomic : Bool} {at' : Cursor} (h : ∀ x ∈ at'.rest.head?, x ≠ '(') :
    grammar.Yields atomic (.rule .parenGroup) at' .failed := by
  have hbody : grammar.Yields (atomic || decide (grammar.kind .parenGroup = .atomic))
      (grammar.body .parenGroup) at' .failed := (yields_text_failed h).seq_failed
  have hrule : grammar.Yields atomic (.rule .parenGroup) at' _ := Yields.rule hbody
  exact hrule

/-- A part of a group: a group, or what is none. -/
def groupItem : Peg Rule := .alt (.rule .parenGroup) groupPart

/-- One round takes one part of the group, if the groups in it are read as a whole. -/
theorem loose_group {size : Nat}
    (hinner : ∀ g, Group g → g.length < size → ∀ i, ∃ nodes, Grouped g i nodes) :
    Loose ')' (fun g => Group g ∧ g.length ≤ size) (fun _ => True) groupItem where
  settled rest := ⟨by simp [isFillerBlank], rfl⟩
  closing i rest :=
    (yields_parenGroup_failed (by simp)).right (yields_groupPart_paren (.inr rfl) i rest)
  blank {c g} hg hc := by
    obtain ⟨hg, hlength⟩ := hg
    refine ⟨?_, by simp at hlength; omega⟩
    cases hg with
    | char _ _ _ hmore => exact hmore
    | quoted hq =>
      rw [not_isFillerBlank_of_isQuote hq] at hc
      cases hc
    | nested => cases hc
  bare hg _ rest := by
    cases hg.1 with
    | char _ _ hopens _ => exact commentSize_of_not_opensComment (hopens rest)
    | quoted hq => exact commentSize_of_ne (by
        rintro rfl
        cases hq)
    | nested => rfl
  round {c g} hg hsettled i := by
    obtain ⟨hg, hlength⟩ := hg
    cases hg with
    | char hquote hparen _ hmore =>
      refine ⟨[c], g, [], rfl, by simp, ⟨hmore, by simp at hlength; omega⟩, trivial, fun rest => ?_⟩
      exact (yields_parenGroup_failed (by simpa using fun h => hparen (.inl h))).right
        (yields_groupPart_char hquote hparen (hsettled rest) i)
    | @quoted _ body more hq hbody hmore =>
      have hcons (rest : List Char) : (c :: (body ++ [c])) ++ (more ++ ')' :: rest) =
          c :: (body ++ c :: (more ++ ')' :: rest)) := by simp
      have hopen (rest : List Char) : grammar.Yields false (.rule .parenGroup)
          ⟨i, c :: (body ++ c :: (more ++ ')' :: rest))⟩ .failed := by
        refine yields_parenGroup_failed ?_
        rintro x hx rfl
        obtain rfl := Option.some.inj hx
        cases hq
      have hshort : more.length ≤ size := by simp at hlength; omega
      have htaken : (c :: (body ++ [c])).length = body.length + 2 := by simp
      by_cases hstring : c = '\'' ∨ c = '"'
      · refine ⟨c :: (body ++ [c]), more, [.node .stringLiteral i (c :: (body ++ [c])) []], by simp,
          by simp, ⟨hmore, hshort⟩, trivial, fun rest => ?_⟩
        rw [hcons, htaken]
        exact (hopen rest).right (yields_groupPart_string hstring hbody i _)
      · obtain rfl : c = '`' := by
          simp only [isQuote, Bool.or_eq_true, beq_iff_eq] at hq
          exact hq.resolve_left hstring
        refine ⟨'`' :: (body ++ ['`']), more, [], by simp, by simp, ⟨hmore, hshort⟩, trivial,
          fun rest => ?_⟩
        rw [hcons, htaken]
        exact (hopen rest).right (yields_groupPart_name hbody i _)
    | @nested inner more hin hmore =>
      have hsizes : inner.length < size ∧ more.length ≤ size := by
        simp at hlength
        omega
      obtain ⟨nodes, hgroup⟩ := hinner inner hin hsizes.1 i
      refine ⟨'(' :: (inner ++ [')']), more, nodes, by simp, by simp, ⟨hmore, hsizes.2⟩, trivial,
        fun rest => ?_⟩
      have hone : grammar.Yields false groupItem _ _ := (hgroup (more ++ ')' :: rest)).left
      have hcons : '(' :: (inner ++ [')']) ++ (more ++ ')' :: rest) =
          '(' :: (inner ++ ')' :: (more ++ ')' :: rest)) := by simp
      have htaken : ('(' :: (inner ++ [')'])).length = inner.length + 2 := by simp
      rw [hcons, htaken]
      exact hone
  none := trivial
  append _ _ := trivial

/-- **A group is read as a whole, whatever stands behind it.** -/
theorem Group.exists_grouped (h : Group body) (i : Nat) : ∃ nodes, Grouped body i nodes := by
  induction hsize : body.length using Nat.strongRecOn generalizing body i with
  | ind size ih =>
    have hloose : Loose ')' (fun g => Group g ∧ g.length ≤ size) (fun _ => True) groupItem :=
      loose_group fun g hg hlength i => ih g.length hlength hg i rfl
    obtain ⟨nodes, -, hbetween⟩ := hloose.yields_between ⟨h, Nat.le_of_eq hsize⟩ '(' i
    refine ⟨nodes, fun rest => ?_⟩
    have hrule : grammar.Yields false (.rule .parenGroup) _ _ := Yields.rule (hbetween rest)
    exact hrule

end QueryScore.Cypher
