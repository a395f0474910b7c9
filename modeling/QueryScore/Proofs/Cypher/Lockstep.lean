/-
# QueryScore.Proofs.Cypher.Lockstep -- a query and its respaced form are read in lockstep

The grammar is run on a text and on its respaced form at the same time. Both runs take the same
token where one stands, both pass filler where the text has some, and both mismatch together, so
refusals and look-ahead agree as well (`lockstep`). What the runs leave are the same nodes, but for the
filler in their texts (`Similar`). The fuel lasts for every text, so an accepted text stays accepted
when it is respaced, and its tree stays the same but for the filler in it (`parse_beside`), if the
guard lets it pass.
-/

import QueryScore.Proofs.Cypher.Fuel
import QueryScore.Proofs.Cypher.Quoted

namespace QueryScore.Cypher

open Text Grammar Peg

/-! ## The same tree but for filler -/

mutual

/-- **`Similar same t u`** -- the trees have the same rules; tokens have the same text, and the texts
of the other nodes are related as `same` says. -/
inductive Similar (same : List Char → List Char → Prop) : Tree Rule → Tree Rule → Prop
  | node {r : Rule} {i j : Nat} {xs ys : List Char} {ts us : List (Tree Rule)} :
      same xs ys → (r.kind = .atomic → ys = xs) → SimilarAll same ts us →
      Similar same (.node r i xs ts) (.node r j ys us)

/-- The trees of two lists are similar one by one. -/
inductive SimilarAll (same : List Char → List Char → Prop) : List (Tree Rule) → List (Tree Rule) → Prop
  | nil : SimilarAll same [] []
  | cons {t u : Tree Rule} {ts us : List (Tree Rule)} : Similar same t u → SimilarAll same ts us →
      SimilarAll same (t :: ts) (u :: us)

end

theorem SimilarAll.append {same : List Char → List Char → Prop} {ts us ts' us' : List (Tree Rule)}
    (h : SimilarAll same ts us) (h' : SimilarAll same ts' us') :
    SimilarAll same (ts ++ ts') (us ++ us') := by
  match ts, us, h with
  | _, _, .nil => exact h'
  | _, _, .cons hone hmore => exact .cons hone (hmore.append h')

mutual

theorem Similar.refl {same : List Char → List Char → Prop} (hsame : ∀ xs, same xs xs) :
    ∀ t, Similar same t t
  | .node _ _ xs ts => .node (hsame xs) (fun _ => rfl) (SimilarAll.refl hsame ts)

theorem SimilarAll.refl {same : List Char → List Char → Prop} (hsame : ∀ xs, same xs xs) :
    ∀ ts, SimilarAll same ts ts
  | [] => .nil
  | t :: ts => .cons (Similar.refl hsame t) (SimilarAll.refl hsame ts)

end

mutual

theorem Similar.mono {same same' : List Char → List Char → Prop} (hmore : ∀ xs ys, same xs ys → same' xs ys) :
    ∀ {t u : Tree Rule}, Similar same t u → Similar same' t u
  | _, _, .node htext htoken hparts => .node (hmore _ _ htext) htoken (hparts.mono hmore)

theorem SimilarAll.mono {same same' : List Char → List Char → Prop}
    (hmore : ∀ xs ys, same xs ys → same' xs ys) :
    ∀ {ts us : List (Tree Rule)}, SimilarAll same ts us → SimilarAll same' ts us
  | _, _, .nil => .nil
  | _, _, .cons hone hrest => .cons (hone.mono hmore) (hrest.mono hmore)

end

/-- **`g.Turns xs ys`** -- somewhere outside quotes the first text is respaced to the second. -/
def Spacing.Turns (g : Spacing) (xs ys : List Char) : Prop := ∃ after, Respaced g .outside after xs ys .outside

theorem Spacing.turns_of_same {g : Spacing} {after xs : List Char} (h : Respaced g .outside after xs xs .outside) :
    g.Turns xs xs := ⟨after, h⟩

/-! ## From places side by side to places side by side -/

/-- **`Track atomic c d xs ys c' d'`** -- the stretches `xs` and `ys` lead from the places `c` and
`d` to the places `c'` and `d'`, and the first is respaced to the second. -/
structure Track (g : Spacing) (atomic : Bool) (c d : Cursor) (xs ys : List Char) (c' d' : Cursor) : Prop where
  source : c.rest = xs ++ c'.rest
  target : d.rest = ys ++ d'.rest
  sourceIndex : c'.index = c.index + xs.length
  targetIndex : d'.index = d.index + ys.length
  respaced : Respaced g .outside c'.rest xs ys .outside
  token : atomic = true → ys = xs
  beside : Beside g c'.rest d'.rest

/-- **`Steps atomic c d c' ns d' ms`** -- two runs that began at `c` and `d` are at `c'` and `d'`,
and their nodes are similar. -/
def Steps (g : Spacing) (atomic : Bool) (c d c' : Cursor) (ns : List (Tree Rule)) (d' : Cursor)
    (ms : List (Tree Rule)) : Prop :=
  (∃ xs ys, Track g atomic c d xs ys c' d') ∧ SimilarAll g.Turns ns ms

variable {g : Spacing} {atomic : Bool} {c d c' d' c'' d'' : Cursor} {xs ys xs' ys' : List Char}
  {ns ms ns' ms' : List (Tree Rule)}

theorem Track.trans (h : Track g atomic c d xs ys c' d') (h' : Track g atomic c' d' xs' ys' c'' d'') :
    Track g atomic c d (xs ++ xs') (ys ++ ys') c'' d'' where
  source := by rw [h.source, h'.source, List.append_assoc]
  target := by rw [h.target, h'.target, List.append_assoc]
  sourceIndex := by rw [h'.sourceIndex, h.sourceIndex, List.length_append, Nat.add_assoc]
  targetIndex := by rw [h'.targetIndex, h.targetIndex, List.length_append, Nat.add_assoc]
  respaced := by
    have hfirst := h.respaced
    rw [h'.source] at hfirst
    exact hfirst.append h'.respaced
  token hatomic := by rw [h.token hatomic, h'.token hatomic]
  beside := h'.beside

theorem Track.refl (h : Beside g c.rest d.rest) : Track g atomic c d [] [] c d where
  source := rfl
  target := rfl
  sourceIndex := rfl
  targetIndex := rfl
  respaced := .nil
  token _ := rfl
  beside := h

theorem Steps.refl (h : Beside g c.rest d.rest) : Steps g atomic c d c [] d [] :=
  ⟨⟨[], [], .refl h⟩, .nil⟩

theorem Steps.trans (h : Steps g atomic c d c' ns d' ms) (h' : Steps g atomic c' d' c'' ns' d'' ms') :
    Steps g atomic c d c'' (ns ++ ns') d'' (ms ++ ms') := by
  obtain ⟨⟨xs, ys, htrack⟩, hnodes⟩ := h
  obtain ⟨⟨xs', ys', htrack'⟩, hnodes'⟩ := h'
  exact ⟨⟨_, _, htrack.trans htrack'⟩, hnodes.append hnodes'⟩

theorem Steps.beside (h : Steps g atomic c d c' ns d' ms) : Beside g c'.rest d'.rest := by
  obtain ⟨⟨_, _, htrack⟩, _⟩ := h
  exact htrack.beside

/-- **`Places atomic c d`** -- two runs may be at these places: the texts that are left are side by
side, and outside tokens what was to be skipped is skipped. -/
structure Places (g : Spacing) (atomic : Bool) (c d : Cursor) : Prop where
  beside : Beside g c.rest d.rest
  settled : atomic = false → Settled c.rest

/-! ## Tokens -/

theorem isToken_of_isAlphanum {x : Char} (h : x.isAlphanum = true) : isToken x = true := by
  have hp := of_isAscii (p := fun x => !x.isAlphanum || isToken x) (by decide)
    (isAscii_of_isAlphanum h)
  simpa [h] using hp

/-- A character with a property that no comment has. -/
theorem alike_ofChar {p : Char → Bool} (h : Beside g c.rest d.rest)
    (hp : ∀ x, p x = true → isToken x = true) :
    (Outcome.ofChar p c).Alike (Steps g atomic c d) (Outcome.ofChar p d) := by
  obtain ⟨i, cs⟩ := c
  obtain ⟨j, ds⟩ := d
  rcases h.head fun x hx => .inl (hp x hx) with ⟨hcs, hds⟩ | ⟨x, cs', ds', hc, hd, hx, hrest, hrespaced⟩
  · have hno (k : Nat) (es : List Char) (hes : ∀ x ∈ es.head?, p x = false) :
        (Outcome.ofChar p ⟨k, es⟩ : Outcome Rule) = .failed := by
      cases es with
      | nil => rfl
      | cons x es => simp [Outcome.ofChar, hes x rfl]
    rw [hno i cs hcs, hno j ds hds]
    trivial
  · simp only at hc hd
    subst hc hd
    simp only [Outcome.ofChar, if_pos hx]
    exact ⟨⟨[x], [x], rfl, rfl, rfl, rfl, hrespaced, fun _ => rfl, hrest⟩, .nil⟩

section Strip

variable {same : Char → Char → Bool} {strip : List Char → List Char → Option (List Char)}

/-- A sign stands at the front of both texts, or at the front of neither. -/
theorem beside_strip (hstrip : Strips same strip) {cs ds ws : List Char} (h : Beside g cs ds)
    (hws : ∀ w ∈ ws, ∀ x, same w x = true → isToken x = true) :
    (strip ws cs = none ∧ strip ws ds = none) ∨ ∃ xs cs' ds', cs = xs ++ cs' ∧ ds = xs ++ ds' ∧
      xs.length = ws.length ∧ strip ws cs = some cs' ∧ strip ws ds = some ds' ∧ Beside g cs' ds' ∧
        Respaced g .outside cs' xs xs .outside := by
  induction ws generalizing cs ds with
  | nil => exact .inr ⟨[], cs, ds, rfl, rfl, rfl, hstrip.nil _, hstrip.nil _, h, .nil⟩
  | cons w ws ih =>
    have hhead (x : Char) (hx : same w x = true) : isToken x = true := hws w (by simp) x hx
    rcases h.head fun x hx => .inl (hhead x hx) with
      ⟨hcs, hds⟩ | ⟨x, cs', ds', rfl, rfl, hx, hrest, hrespaced⟩
    · have hno (es : List Char) (hes : ∀ x ∈ es.head?, same w x = false) :
          strip (w :: ws) es = none := by
        cases es with
        | nil => exact hstrip.short w ws
        | cons x es => rw [hstrip.cons, hes x rfl, if_neg (by simp)]
      exact .inl ⟨hno cs hcs, hno ds hds⟩
    · rw [hstrip.cons, hstrip.cons, if_pos hx, if_pos hx]
      rcases ih hrest fun v hv => hws v (by simp [hv]) with
        hnone | ⟨xs, cs'', ds'', rfl, rfl, hlength, hsource, htarget, hbeside, hmore⟩
      · exact .inl hnone
      · refine .inr ⟨x :: xs, cs'', ds'', rfl, rfl, by simp [hlength], hsource, htarget, hbeside, ?_⟩
        exact hrespaced.append hmore

theorem alike_strip (hstrip : Strips same strip) {ws : List Char} (h : Beside g c.rest d.rest)
    (hws : ∀ w ∈ ws, ∀ x, same w x = true → isToken x = true) :
    (Outcome.ofRest c ws.length (strip ws c.rest)).Alike (Steps g atomic c d)
      (Outcome.ofRest d ws.length (strip ws d.rest)) := by
  rcases beside_strip hstrip h hws with
    ⟨hc, hd⟩ | ⟨xs, cs', ds', hsource, htarget, hlength, hc, hd, hbeside, hrespaced⟩
  · rw [hc, hd]
    trivial
  · rw [hc, hd, ← hlength]
    exact ⟨⟨xs, xs, hsource, htarget, rfl, rfl, hrespaced, fun _ => rfl, hbeside⟩, .nil⟩

end Strip

/-- A slash is the same in both texts where no comment begins. -/
theorem alike_slash (h : Places g atomic c d) (hatomic : atomic = false) :
    (Outcome.ofRest c 1 (stripStart ['/'] c.rest)).Alike (Steps g atomic c d)
      (Outcome.ofRest d 1 (stripStart ['/'] d.rest)) := by
  obtain ⟨i, cs⟩ := c
  obtain ⟨j, ds⟩ := d
  have hbare : commentSize cs = 0 := (h.settled hatomic).bare
  have hslash (x : Char) (hx : (x == '/') = true) : isToken x = true ∨ x = '/' ∧ commentSize cs = 0 :=
    .inr ⟨by simpa using hx, hbare⟩
  rcases Beside.head h.beside hslash with
    ⟨hcs, hds⟩ | ⟨x, cs', ds', hc, hd, hx, hrest, hrespaced⟩
  · have hno (es : List Char) (hes : ∀ x ∈ es.head?, (x == '/') = false) :
        stripStart ['/'] es = none := by
      cases es with
      | nil => rfl
      | cons x es =>
        have hx := hes x rfl
        rw [beq_eq_false_iff_ne] at hx
        simp [stripStart, Ne.symm hx]
    rw [hno cs hcs, hno ds hds]
    trivial
  · simp only at hc hd
    subst hc hd
    obtain rfl := beq_iff_eq.mp hx
    simp only [stripStart, if_true]
    exact ⟨⟨['/'], ['/'], rfl, rfl, rfl, rfl, hrespaced, fun _ => rfl, hrest⟩, .nil⟩

/-! ## Quoted forms -/

/-- A stretch that both runs read as a whole. -/
theorem steps_of_same {i j : Nat} {xs cs ds : List Char} {ns ms : List (Tree Rule)}
    (hbeside : Beside g cs ds) (hrespaced : Respaced g .outside cs xs xs .outside)
    (hnodes : SimilarAll g.Turns ns ms) :
    Steps g atomic ⟨i, xs ++ cs⟩ ⟨j, xs ++ ds⟩ ⟨i + xs.length, cs⟩ ns ⟨j + xs.length, ds⟩ ms :=
  ⟨⟨xs, xs, rfl, rfl, rfl, rfl, hrespaced, fun _ => rfl, hbeside⟩, hnodes⟩

/-- A quoted form begins with its mark, and reads up to the mark that closes it. -/
theorem alike_between {q : Char} {a : Peg Rule} (hq : isQuote q = true)
    (hreads : ∀ {body}, Inside q false body → ∀ i rest,
      grammar.Yields atomic (seqs [.text [q], a, .text [q]]) ⟨i, q :: (body ++ q :: rest)⟩
        (.matched ⟨i + (body.length + 2), rest⟩ []))
    (h : Beside g c.rest d.rest) (fuel : Nat) :
    (grammar.run fuel atomic (seqs [.text [q], a, .text [q]]) c).Alike (Steps g atomic c d)
      (grammar.run fuel atomic (seqs [.text [q], a, .text [q]]) d) := by
  obtain ⟨i, cs⟩ := c
  obtain ⟨j, ds⟩ := d
  simp only at h
  by_cases hhead : cs.head? = some q
  · obtain ⟨cs, rfl⟩ := List.head?_eq_some_iff.mp hhead
    obtain ⟨body, cs', ds', rfl, rfl, hbody, hrest, hrespaced⟩ := h.of_quote hq
    refine (hreads hbody i cs').alike (hreads hbody j ds') ?_ fuel
    have hsteps : Steps g atomic ⟨i, _⟩ ⟨j, _⟩ _ [] _ [] := steps_of_same hrest hrespaced .nil
    simp only [List.cons_append, List.append_assoc, List.nil_append, List.length_cons,
      List.length_append, List.length_nil] at hsteps
    exact hsteps
  · -- The respaced text cannot begin with the mark either.
    have hno : ds.head? ≠ some q := by
      intro hd
      cases h with
      | nil => cases hd
      | keep => exact hhead hd
      | gap hgap =>
        obtain ⟨hne, hblank⟩ := g.blank hgap
        obtain ⟨b, k', rfl⟩ := List.exists_cons_of_ne_nil hne
        obtain rfl := Option.some.inj hd
        have hq := not_isFillerBlank_of_isQuote hq
        rw [hblank b (by simp)] at hq
        cases hq
    have hfails (k : Nat) (es : List Char) (hes : es.head? ≠ some q) :
        grammar.Yields atomic (seqs [.text [q], a, .text [q]]) ⟨k, es⟩ .failed := by
      refine (yields_text_failed fun x hx => ?_).seq_failed
      rintro rfl
      exact hes hx
    exact (hfails i cs hhead).alike (hfails j ds hno) trivial fuel

/-- Inside an atomic rule, quoted forms are read in lockstep. -/
theorem alike_of_quotedForm {e : Peg Rule} (he : quotedForms.contains e = true)
    (h : Beside g c.rest d.rest) (fuel : Nat) :
    (grammar.run fuel true e c).Alike (Steps g true c d) (grammar.run fuel true e d) := by
  have he : e = backQuoted ∨ e = stringBetween (sign "'") ∨ e = stringBetween (sign "\"") := by
    simpa [quotedForms] using he
  rcases he with rfl | rfl | rfl
  · exact alike_between (by decide) (fun hbody => yields_backQuoted hbody) h fuel
  · exact alike_between (by decide) (fun hbody => yields_string (by decide) (by decide) hbody) h fuel
  · exact alike_between (by decide) (fun hbody => yields_string (by decide) (by decide) hbody) h fuel

/-! ## The characters of a balanced group -/

/-- A string, a name between back quotes, or a character, in a balanced group. -/
def groupPart : Peg Rule :=
  alts [.rule .stringLiteral, backQuoted, allBut (alts [sign "(", sign ")"])]

theorem yields_stringLiteral {q : Char} (hq : q = '\'' ∨ q = '"') {body : List Char}
    (hbody : Inside q false body) (i : Nat) (rest : List Char) :
    grammar.Yields false (.rule .stringLiteral) ⟨i, q :: (body ++ q :: rest)⟩
      (.matched ⟨i + (body.length + 2), rest⟩
        [.node .stringLiteral i (q :: (body ++ [q])) []]) := by
  have hstring : grammar.Yields true (Rule.body .stringLiteral) ⟨i, q :: (body ++ q :: rest)⟩
      (.matched ⟨i + (body.length + 2), rest⟩ []) := by
    rcases hq with rfl | rfl
    · exact (yields_string (by decide) (by decide) hbody i rest).left
    · refine Yields.right (yields_sign_of_ne (by decide) i _).seq_failed ?_
      exact yields_string (by decide) (by decide) hbody i rest
  have hrule : grammar.Yields false (.rule .stringLiteral) _ _ := Yields.rule hstring
  have htext : Cursor.textTo ⟨i, q :: (body ++ q :: rest)⟩ ⟨i + (body.length + 2), rest⟩ =
      q :: (body ++ [q]) := by
    have hsplit : q :: (body ++ q :: rest) = (q :: (body ++ [q])) ++ rest := by simp
    have hsize : body.length + 2 = (q :: (body ++ [q])).length := by simp
    rw [Cursor.textTo, hsplit, Nat.add_sub_cancel_left, hsize, List.take_left]
  rw [← htext]
  exact hrule

theorem yields_stringLiteral_failed (h : ∀ x ∈ c.rest.head?, isQuote x = false ∨ x = '`') :
    grammar.Yields false (.rule .stringLiteral) c .failed := by
  have hno (q : Char) (hq : isQuote q = true) (hname : q ≠ '`') (ws : List Char) :
      ∀ x ∈ c.rest.head?, x ≠ q := by
    rintro x hx rfl
    rcases h x hx with h | h
    · rw [hq] at h
      cases h
    · exact hname h
  have hbody : grammar.Yields true (Rule.body .stringLiteral) c .failed :=
    Yields.right (yields_text_failed (hno '\'' (by decide) (by decide) [])).seq_failed
      (yields_text_failed (hno '"' (by decide) (by decide) [])).seq_failed
  have hrule : grammar.Yields false (.rule .stringLiteral) c _ := Yields.rule hbody
  exact hrule

theorem yields_backQuoted_failed (h : ∀ x ∈ c.rest.head?, x ≠ '`') :
    grammar.Yields atomic backQuoted c .failed :=
  (yields_text_failed h).seq_failed

/-! ### The parts of a group, one by one -/

theorem yields_groupPart_string {q : Char} (hq : q = '\'' ∨ q = '"') {body : List Char}
    (hbody : Inside q false body) (i : Nat) (rest : List Char) :
    grammar.Yields false groupPart ⟨i, q :: (body ++ q :: rest)⟩
      (.matched ⟨i + (body.length + 2), rest⟩ [.node .stringLiteral i (q :: (body ++ [q])) []]) :=
  (yields_stringLiteral hq hbody i rest).left

theorem yields_groupPart_name {body : List Char} (hbody : Inside '`' false body) (i : Nat)
    (rest : List Char) :
    grammar.Yields false groupPart ⟨i, '`' :: (body ++ '`' :: rest)⟩
      (.matched ⟨i + (body.length + 2), rest⟩ []) :=
  (yields_stringLiteral_failed (by simp)).right (yields_backQuoted_loose hbody i rest).left

/-- What is no quoted form is a character or nothing. -/
theorem yields_groupPart_of_last {x : Char} (hquote : isQuote x = false) (i : Nat) (rest : List Char)
    {o : Outcome Rule} (ho : grammar.Yields false (allBut (alts [sign "(", sign ")"])) ⟨i, x :: rest⟩ o) :
    grammar.Yields false groupPart ⟨i, x :: rest⟩ o := by
  refine (yields_stringLiteral_failed ?_).right ((yields_backQuoted_failed ?_).right ho)
  · simp [hquote]
  · rintro y hy rfl
    obtain rfl := Option.some.inj hy
    cases hquote

theorem yields_groupPart_paren {x : Char} (hparen : x = '(' ∨ x = ')') (i : Nat) (rest : List Char) :
    grammar.Yields false groupPart ⟨i, x :: rest⟩ .failed := by
  rcases hparen with rfl | rfl
  · exact yields_groupPart_of_last rfl i rest (yields_allBut_failed (yields_sign '(' i rest).left)
  · have hclose : grammar.Yields false (alts [sign "(", sign ")"]) ⟨i, ')' :: rest⟩ _ :=
      (yields_sign_of_ne (by decide) i rest).right (yields_sign ')' i rest)
    exact yields_groupPart_of_last rfl i rest (yields_allBut_failed hclose)

theorem yields_groupPart_char {x : Char} (hquote : isQuote x = false) (hparen : ¬ (x = '(' ∨ x = ')'))
    {rest : List Char} (hsettled : Settled (x :: rest)) (i : Nat) :
    grammar.Yields false groupPart ⟨i, x :: rest⟩ (.matched ⟨i + 1, rest⟩ []) := by
  obtain ⟨hopen, hclose⟩ := not_or.mp hparen
  refine yields_groupPart_of_last hquote i rest ?_
  exact yields_allBut ((yields_sign_of_ne hopen i rest).right (yields_sign_of_ne hclose i rest))
    (skips_of_settled hsettled i false)

/-- The rest of a balanced group is read in lockstep. -/
theorem alike_groupPart (h : Places g false c d) (fuel : Nat) :
    (grammar.run fuel false groupPart c).Alike (Steps g false c d)
      (grammar.run fuel false groupPart d) := by
  obtain ⟨i, cs⟩ := c
  obtain ⟨j, ds⟩ := d
  have hsettled := h.settled rfl
  have hsettled' := h.beside.settled hsettled
  have hbeside := h.beside
  simp only at hsettled hsettled' hbeside
  cases cs with
  | nil =>
    -- At the end of the text nothing is left to take.
    obtain rfl := hbeside.nil_iff.mp rfl
    have hends (k : Nat) : grammar.Yields false groupPart ⟨k, []⟩ .failed := by
      refine (yields_stringLiteral_failed (by simp)).right
        ((yields_backQuoted_failed (by simp)).right ?_)
      exact ((yields_sign_nil k).right (yields_sign_nil k)).absent.seq
        (skips_of_settled hsettled k false) yields_any_failed
    exact (hends i).alike (hends j) trivial fuel
  | cons x cs =>
    by_cases hstring : x = '\'' ∨ x = '"'
    · have hquote : isQuote x = true := by rcases hstring with rfl | rfl <;> rfl
      obtain ⟨body, cs', ds', rfl, rfl, hbody, hrest, hrespaced⟩ := hbeside.of_quote hquote
      refine (yields_groupPart_string hstring hbody i cs').alike
        (yields_groupPart_string hstring hbody j ds') ?_ fuel
      have hnode : SimilarAll g.Turns [.node .stringLiteral i (x :: (body ++ [x])) []]
          [.node .stringLiteral j (x :: (body ++ [x])) []] :=
        .cons (.node (Spacing.turns_of_same hrespaced) (fun _ => rfl) .nil) .nil
      have hsteps : Steps g false ⟨i, _⟩ ⟨j, _⟩ _ _ _ _ := steps_of_same hrest hrespaced hnode
      simp only [List.cons_append, List.append_assoc, List.nil_append, List.length_cons,
        List.length_append, List.length_nil] at hsteps
      exact hsteps
    by_cases hname : x = '`'
    · subst hname
      obtain ⟨body, cs', ds', rfl, rfl, hbody, hrest, hrespaced⟩ := hbeside.of_quote (by decide)
      refine (yields_groupPart_name hbody i cs').alike (yields_groupPart_name hbody j ds') ?_ fuel
      have hsteps : Steps g false ⟨i, _⟩ ⟨j, _⟩ _ [] _ [] := steps_of_same hrest hrespaced .nil
      simp only [List.cons_append, List.append_assoc, List.nil_append, List.length_cons,
        List.length_append, List.length_nil] at hsteps
      exact hsteps
    · have hquote : isQuote x = false := by
        simp only [isQuote, Bool.or_eq_false_iff, beq_eq_false_iff_ne]
        exact ⟨⟨fun hx => hstring (.inl hx), fun hx => hstring (.inr hx)⟩, hname⟩
      obtain ⟨ds, rfl, hrest⟩ := hbeside.of_settled hsettled
      rw [step_of_not_isQuote hquote] at hrest
      by_cases hparen : x = '(' ∨ x = ')'
      · exact (yields_groupPart_paren hparen i cs).alike (yields_groupPart_paren hparen j ds) trivial fuel
      · refine (yields_groupPart_char hquote hparen hsettled i).alike
          (yields_groupPart_char hquote hparen hsettled' j) ?_ fuel
        refine ⟨⟨[x], [x], rfl, rfl, rfl, rfl, ?_, fun _ => rfl, hrest⟩, .nil⟩
        refine .keep (admits_outside hsettled.bare) ?_
        rw [step_of_not_isQuote hquote]
        exact .nil

/-! ## The grammar -/

/-- The rule may be met on the way: keywords consist of letters, and whole queries are not parts. -/
def Rule.isSteady : Rule → Bool
  | .query => false
  | .keyword w => w.toList.all Char.isAlpha
  | _ => true

/-- The expression is read in lockstep as a whole. -/
def isWhole (atomic : Bool) (e : Peg Rule) : Bool :=
  if atomic then quotedForms.contains e else e == groupPart

/-- The expression is built from quoted forms, signs that begin no comment, letters and digits;
outside tokens a slash may stand as well, and a balanced group. -/
def isSteady (atomic : Bool) (e : Peg Rule) : Bool :=
  isWhole atomic e ||
    match e with
    | .text ws => ws.all isToken || !atomic && ws == ['/']
    | .word ws => ws.all Char.isAlpha
    | .digit | .letter | .stop => true
    | .start | .any => false
    | .rule r => !atomic && r.isSteady
    | .seq a b | .alt a b => isSteady atomic a && isSteady atomic b
    | .many a | .opt a | .absent a | .present a => isSteady atomic a

theorem isSteady_body {r : Rule} (hr : r.isSteady = true) :
    isSteady (decide (r.kind = .atomic)) r.body = true := by
  cases r with
  | keyword w =>
    have hend : isSteady true (.absent identChar) = true := by decide
    have hword : isSteady true (.word w.toList) = true := by
      rw [isSteady, Bool.or_eq_true]
      exact .inr hr
    show isSteady true (.seq (.word w.toList) (.absent identChar)) = true
    rw [isSteady, hword, hend]
    simp
  | _ => first | decide | cases hr

/-- **`Lockstep g fuel`** -- with this fuel, each of the three interpreters does the same at places
side by side. -/
structure Lockstep (g : Spacing) (fuel : Nat) : Prop where
  /-- With an expression. -/
  run {atomic : Bool} {e : Peg Rule} {c d : Cursor} : isSteady atomic e = true → Places g atomic c d →
    (grammar.run fuel atomic e c).Alike (Steps g atomic c d) (grammar.run fuel atomic e d)
  /-- With filler. -/
  skip {atomic : Bool} {c d : Cursor} : Beside g c.rest d.rest →
    (grammar.skip fuel atomic c).Alike
      (fun c' _ d' _ => Steps g atomic c d c' [] d' [] ∧ Places g atomic c' d')
      (grammar.skip fuel atomic d)
  /-- With the further rounds of a repetition. -/
  again {atomic : Bool} {a : Peg Rule} {c d c' d' : Cursor} {ns ms : List (Tree Rule)} :
    isSteady atomic a = true → Steps g atomic c d c' ns d' ms →
    (grammar.repeatFrom fuel atomic a c' ns).Alike (Steps g atomic c d)
      (grammar.repeatFrom fuel atomic a d' ms)

section Step

variable {fuel : Nat} {a b e : Peg Rule}

/-- A node spans what its rule has read. -/
theorem Steps.leaveNode {r : Rule} (h : Steps g (decide (r.kind = .atomic)) c d c' ns d' ms) :
    Steps g false c d c' (leaveNode r.kind false r c c' ns) d' (leaveNode r.kind false r d d' ms) := by
  obtain ⟨⟨xs, ys, htrack⟩, hnodes⟩ := h
  have hloose : Track g false c d xs ys c' d' := { htrack with token := nofun }
  refine ⟨⟨xs, ys, hloose⟩, ?_⟩
  have htext : c.textTo c' = xs := by
    rw [Cursor.textTo, htrack.sourceIndex, htrack.source, Nat.add_sub_cancel_left, List.take_left]
  have htext' : d.textTo d' = ys := by
    rw [Cursor.textTo, htrack.targetIndex, htrack.target, Nat.add_sub_cancel_left, List.take_left]
  simp only [QueryScore.leaveNode, htext, htext']
  split
  · exact hnodes
  · refine .cons (.node ⟨_, htrack.respaced⟩ (fun hkind => ?_) hnodes) .nil
    exact htrack.token (by simpa using hkind)

theorem Lockstep.rule (h : Lockstep g fuel) {r : Rule} (hr : r.isSteady = true)
    (hplaces : Places g false c d) :
    (grammar.run (fuel + 1) false (.rule r) c).Alike (Steps g false c d)
      (grammar.run (fuel + 1) false (.rule r) d) := by
  have hbody : Places g (decide (r.kind = .atomic)) c d :=
    ⟨hplaces.beside, fun _ => hplaces.settled rfl⟩
  refine Outcome.Alike.andThen (h.run (isSteady_body hr) hbody) fun hsteps => ?_
  exact hsteps.leaveNode

theorem Lockstep.seq (h : Lockstep g fuel) (ha : isSteady atomic a = true)
    (hb : isSteady atomic b = true) (hplaces : Places g atomic c d) :
    (grammar.run (fuel + 1) atomic (.seq a b) c).Alike (Steps g atomic c d)
      (grammar.run (fuel + 1) atomic (.seq a b) d) := by
  refine Outcome.Alike.andThen (h.run ha hplaces) fun {c₁ ns d₁ ms} hfirst => ?_
  refine Outcome.Alike.andThen (h.skip hfirst.beside) fun {c₂ _ d₂ _} ⟨hskipped, hplaces₂⟩ => ?_
  refine Outcome.Alike.andThen (h.run hb hplaces₂) fun {c₃ ns' d₃ ms'} hsecond => ?_
  have hall := (hfirst.trans hskipped).trans hsecond
  rw [List.append_nil, List.append_nil] at hall
  exact hall

theorem Lockstep.many (h : Lockstep g fuel) (ha : isSteady atomic a = true)
    (hplaces : Places g atomic c d) :
    (grammar.run (fuel + 1) atomic (.many a) c).Alike (Steps g atomic c d)
      (grammar.run (fuel + 1) atomic (.many a) d) := by
  rw [Grammar.run, Grammar.run]
  refine Outcome.Alike.orElse ?_ (.refl hplaces.beside)
  exact Outcome.Alike.andThen (h.run ha hplaces) fun hfirst => h.again ha hfirst

theorem Lockstep.round (h : Lockstep g fuel) (ha : isSteady atomic a = true)
    (hsteps : Steps g atomic c d c' ns d' ms) :
    (grammar.repeatFrom (fuel + 1) atomic a c' ns).Alike (Steps g atomic c d)
      (grammar.repeatFrom (fuel + 1) atomic a d' ms) := by
  have hround : ((grammar.skip fuel atomic c').andThen fun c₁ _ => grammar.run fuel atomic a c₁).Alike
      (Steps g atomic c' d')
      ((grammar.skip fuel atomic d').andThen fun d₁ _ => grammar.run fuel atomic a d₁) := by
    refine Outcome.Alike.andThen (h.skip hsteps.beside) fun ⟨hskipped, hplaces⟩ => ?_
    refine (h.run ha hplaces).mono fun hone => ?_
    exact hskipped.trans hone
  rw [Grammar.repeatFrom, Grammar.repeatFrom]
  generalize (grammar.skip fuel atomic c').andThen _ = o at hround ⊢
  generalize (grammar.skip fuel atomic d').andThen _ = o' at hround ⊢
  -- Both rounds match and go on, or both mismatch and give the filler back.
  cases o with
  | exhausted => trivial
  | failed =>
    cases o' with
    | exhausted => exact Outcome.alike_exhausted_right _
    | failed => exact hsteps
    | matched => exact hround.elim
  | matched c₁ more =>
    cases o' with
    | exhausted => exact Outcome.alike_exhausted_right _
    | failed => exact hround.elim
    | matched d₁ more' => exact h.again ha (hsteps.trans hround)

theorem Lockstep.step (h : Lockstep g fuel) (he : isSteady atomic e = true)
    (hplaces : Places g atomic c d) :
    (grammar.run (fuel + 1) atomic e c).Alike (Steps g atomic c d)
      (grammar.run (fuel + 1) atomic e d) := by
  rw [isSteady.eq_def, Bool.or_eq_true] at he
  rcases he with hform | he
  · cases atomic with
    | true => exact alike_of_quotedForm hform hplaces.beside (fuel + 1)
    | false =>
      obtain rfl : e = groupPart := by simpa [isWhole] using hform
      exact alike_groupPart hplaces (fuel + 1)
  cases e with
  | text ws =>
    simp only [Bool.or_eq_true, Bool.and_eq_true, Bool.not_eq_true', beq_iff_eq] at he
    rcases he with hws | ⟨hatomic, rfl⟩
    · refine alike_strip strips_text hplaces.beside fun w hw x hx => ?_
      obtain rfl := beq_iff_eq.mp hx
      exact List.all_eq_true.mp hws w hw
    · exact alike_slash hplaces hatomic
  | word ws =>
    refine alike_strip strips_word hplaces.beside fun w hw x hx => ?_
    have hletter := List.all_eq_true.mp he w hw
    refine isToken_of_isAlphanum (isAlphanum_of_isAlpha ?_)
    exact isAlpha_of_sameIgnoringCase hletter hx
  | digit =>
    exact alike_ofChar hplaces.beside fun x hx => isToken_of_isAlphanum (by simp [Char.isAlphanum, hx])
  | letter =>
    exact alike_ofChar hplaces.beside fun x hx => isToken_of_isAlphanum (isAlphanum_of_isAlpha hx)
  | any | start => cases he
  | stop =>
    rw [Grammar.run, Grammar.run]
    have hnil := hplaces.beside.nil_iff
    by_cases hc : c.rest = []
    · rw [if_pos (by simp [hc]), if_pos (by simp [hnil.mp hc])]
      exact .refl hplaces.beside
    · rw [if_neg (by simpa using hc), if_neg (by simpa using fun hd => hc (hnil.mpr hd))]
      trivial
  | rule r =>
    obtain ⟨hatomic, hr⟩ := (Bool.and_eq_true _ _).mp he
    obtain rfl : atomic = false := by simpa using hatomic
    exact h.rule hr hplaces
  | seq a b =>
    obtain ⟨ha, hb⟩ := (Bool.and_eq_true _ _).mp he
    exact h.seq ha hb hplaces
  | alt a b =>
    obtain ⟨ha, hb⟩ := (Bool.and_eq_true _ _).mp he
    rw [Grammar.run, Grammar.run]
    exact Outcome.Alike.orElse (h.run ha hplaces) (h.run hb hplaces)
  | many a => exact h.many he hplaces
  | opt a =>
    rw [Grammar.run, Grammar.run]
    exact Outcome.Alike.orElse (h.run he hplaces) (.refl hplaces.beside)
  | absent a =>
    have ha := h.run he hplaces
    rw [Grammar.run, Grammar.run]
    generalize grammar.run fuel atomic a c = o at ha ⊢
    generalize grammar.run fuel atomic a d = o' at ha ⊢
    cases o <;> cases o' <;> first | trivial | exact ha.elim | exact .refl hplaces.beside
  | present a =>
    exact Outcome.Alike.andThen (h.run he hplaces) fun _ => .refl hplaces.beside

theorem Lockstep.skips (hbeside : Beside g c.rest d.rest) :
    (grammar.skip (fuel + 1) atomic c).Alike
      (fun c' _ d' _ => Steps g atomic c d c' [] d' [] ∧ Places g atomic c' d')
      (grammar.skip (fuel + 1) atomic d) := by
  cases atomic with
  | true => exact ⟨.refl hbeside, hbeside, nofun⟩
  | false =>
    obtain ⟨i, cs⟩ := c
    obtain ⟨j, ds⟩ := d
    have hsource : (List.replicate i ' ').length = i := List.length_replicate
    -- The first run says where its filler ends; there the second run ends as well.
    show (grammar.run fuel true filler ⟨i, cs⟩).Alike _ (grammar.run fuel true filler ⟨j, ds⟩)
    cases hrun : grammar.run fuel true filler ⟨i, cs⟩ with
    | exhausted => trivial
    | failed =>
      rw [← hsource] at hrun
      exact absurd ⟨fuel, hrun⟩ not_refuses_filler
    | matched later nodes =>
      rw [← hsource] at hrun
      have hgives : grammar.Gives true (.once filler) _ cs later nodes :=
        (grammar.runsRead fuel).run hrun
      obtain ⟨fs, after, rfl, rfl, hread⟩ := hgives
      obtain ⟨hfs, hsettled⟩ := filled_of_reads hread
      obtain ⟨gs, rest, hds, hgs, hrespaced, hrest⟩ := Beside.skip hbeside hfs hsettled
      obtain rfl : ds = gs ++ rest := hds
      obtain ⟨skipped, hskips⟩ := skips_of_filled hgs (hrest.settled hsettled) j
      have hsecond : (grammar.run fuel true filler ⟨j, gs ++ rest⟩).Settles _ := hskips (fuel + 1)
      refine .of_settles (.refl _) hsecond ?_
      have htrack : Track g false ⟨i, fs ++ after⟩ ⟨j, gs ++ rest⟩ fs gs
          ⟨(List.replicate i ' ' ++ fs).length, after⟩ ⟨j + gs.length, rest⟩ :=
        ⟨rfl, rfl, by simp, rfl, hrespaced, nofun, hrest⟩
      exact ⟨⟨⟨fs, gs, htrack⟩, .nil⟩, hrest, fun _ => hsettled⟩

/-- **Both runs go side by side**, whatever the fuel. -/
theorem lockstep (fuel : Nat) : Lockstep g fuel := by
  induction fuel with
  | zero => exact ⟨fun _ _ => trivial, fun _ => trivial, fun _ _ => trivial⟩
  | succ fuel ih => exact ⟨ih.step, Lockstep.skips, ih.round⟩

end Step

/-! ## A whole query -/

section Whole

variable {g : Spacing}

/-- A whole query and its respaced form are read alike. -/
theorem alike_query {cs ds : List Char} (h : Beside g cs ds) (fuel : Nat) :
    (grammar.run fuel false (.rule .query) ⟨0, cs⟩).Alike (Steps g false ⟨0, cs⟩ ⟨0, ds⟩)
      (grammar.run fuel false (.rule .query) ⟨0, ds⟩) := by
  -- A comment may stand at the very start, so filler is skipped before the first clause.
  obtain ⟨rest, hbody, hrest⟩ : ∃ rest, Rule.body .query = .seq .start rest ∧
      isSteady false rest = true := ⟨_, rfl, by decide⟩
  have hstart (es : List Char) : grammar.Yields false .start ⟨0, es⟩ (.matched ⟨0, es⟩ []) :=
    yields_of_succ fun _ => .refl _
  cases fuel with
  | zero => trivial
  | succ fuel =>
    rw [Grammar.run, Grammar.run]
    refine Outcome.Alike.andThen (R := Steps g false ⟨0, cs⟩ ⟨0, ds⟩) ?_ fun hsteps =>
      Steps.leaveNode (r := .query) hsteps
    show (grammar.run fuel false (Rule.body .query) ⟨0, cs⟩).Alike _
      (grammar.run fuel false (Rule.body .query) ⟨0, ds⟩)
    rw [hbody]
    cases fuel with
    | zero => trivial
    | succ fuel =>
      have hfirst : (grammar.run fuel false .start ⟨0, cs⟩).Alike (Steps g false ⟨0, cs⟩ ⟨0, ds⟩)
          (grammar.run fuel false .start ⟨0, ds⟩) :=
        Yields.alike (R := Steps g false ⟨0, cs⟩ ⟨0, ds⟩) (hstart cs) (hstart ds)
          (Steps.refl (c := ⟨0, cs⟩) (d := ⟨0, ds⟩) h) fuel
      refine hfirst.andThen fun {c₁ ns d₁ ms} hfirst => ?_
      refine ((lockstep (g := g) fuel).skip hfirst.beside).andThen fun {c₂ _ d₂ _} hnext => ?_
      obtain ⟨hskipped, hplaces⟩ := hnext
      refine ((lockstep (g := g) fuel).run hrest hplaces).andThen fun {c₃ ns' d₃ ms'} hsecond => ?_
      have hall := (hfirst.trans hskipped).trans hsecond
      rw [List.append_nil, List.append_nil] at hall
      exact hall

/-- The answers are alike whatever fuel each text is given. -/
theorem alike_of_fuel {cs ds : List Char} (h : Beside g cs ds) (fuel fuel' : Nat) :
    (grammar.run fuel false (.rule .query) ⟨0, cs⟩).Alike (Steps g false ⟨0, cs⟩ ⟨0, ds⟩)
      (grammar.run fuel' false (.rule .query) ⟨0, ds⟩) :=
  .of_settles (grammar.run_settles (Nat.le_max_left fuel fuel') false (.rule .query) ⟨0, cs⟩)
    (grammar.run_settles (Nat.le_max_right fuel fuel') false (.rule .query) ⟨0, ds⟩)
    (alike_query h (max fuel fuel'))

/-- **A text stays accepted when it is respaced, and its tree stays the same but for filler**, if it is
not too deep for the guard then. -/
theorem parse_beside {source target : List Char} {tree : Tree Rule} (h : parse source = .ok tree)
    (hbeside : Beside g source target) (hguard : nesting target ≤ maxNesting) :
    ∃ tree', parse target = .ok tree' ∧ Similar g.Turns tree tree' := by
  have hanswers := run_fuelFor_answers target
  have halike := alike_of_fuel hbeside (fuelFor source) (fuelFor target)
  rw [parse, if_neg (Nat.not_lt.mpr hguard)]
  rw [parse] at h
  split at h
  · cases h
  cases hsource : grammar.run (fuelFor source) false (.rule .query) ⟨0, source⟩ with
  | failed | exhausted =>
    rw [hsource] at h
    cases h
  | matched later nodes =>
    rw [hsource] at h halike
    cases htarget : grammar.run (fuelFor target) false (.rule .query) ⟨0, target⟩ with
    | exhausted =>
      rw [htarget] at hanswers
      exact hanswers.elim
    | failed =>
      rw [htarget] at halike
      exact halike.elim
    | matched later' nodes' =>
      rw [htarget] at halike
      obtain ⟨-, hnodes⟩ := halike
      cases hnodes with
      | nil => cases h
      | cons hone _ =>
        obtain rfl := Except.ok.inj h
        exact ⟨_, rfl, hone⟩

end Whole

end QueryScore.Cypher
