/-
# QueryScore.Proofs.Text.Nested -- brackets that close the nearest open one

In a well-bracketed text each bracket that closes is of the kind of the nearest one that is open,
nothing is left open, and the quotes end (`WellBracketed`). Then the brackets are in pairs however
they are counted (`WellBracketed.paired`): all kinds together, as a search for keywords counts them,
and the parentheses among themselves, as the stripping of wrapping ones does. And where parentheses
wrap the whole text, the first of them is open up to its end, whatever other brackets stand inside, so
a search finds nothing there (`findKeywords_of_unwrap?`).
-/

import QueryScore.Proofs.Text.Alike

namespace QueryScore.Text

/-- The bracket that closes what a bracket opens. -/
def closerOf (o : Char) : Char := if o = '(' then ')' else if o = '[' then ']' else '}'

/-- **`matchesUp m opened cs`** -- from mode `m` on, with the brackets `opened` open, the nearest first,
each bracket that closes is the one for the nearest open one; in the end none is open, and no quote. -/
def matchesUp : Mode → List Char → List Char → Bool
  | m, opened, [] => m == .outside && opened.isEmpty
  | m, opened, c :: cs =>
    if m.shows c && isOpening c then matchesUp (m.step c) (c :: opened) cs
    else if m.shows c && isClosing c then
      (opened.head?.any fun o => c == closerOf o) && matchesUp (m.step c) opened.tail cs
    else matchesUp (m.step c) opened cs

/-- **`WellBracketed cs`** -- the brackets outside quotes match, and the text ends outside quotes. -/
def WellBracketed (cs : List Char) : Prop := matchesUp .outside [] cs = true

instance (cs : List Char) : Decidable (WellBracketed cs) :=
  inferInstanceAs (Decidable (matchesUp .outside [] cs = true))

variable {m : Mode} {opened cs bs : List Char} {c o : Char}

theorem not_isClosing_of_isOpening (h : isOpening c = true) : isClosing c = false := by
  simp only [isOpening, Bool.or_eq_true, beq_iff_eq] at h
  rcases h with (rfl | rfl) | rfl <;> rfl

theorem not_isOpening_of_isClosing (h : isClosing c = true) : isOpening c = false := by
  rw [Bool.eq_false_iff]
  intro hopen
  rw [not_isClosing_of_isOpening hopen] at h
  cases h

theorem closerOf_eq_paren_iff (h : isOpening o = true) : closerOf o = ')' ↔ o = '(' := by
  simp only [isOpening, Bool.or_eq_true, beq_iff_eq] at h
  rcases h with (rfl | rfl) | rfl <;> decide

/-- What the first character does: it opens a bracket, closes the nearest, or is none. -/
theorem matchesUp_cons_iff : matchesUp m opened (c :: cs) = true ↔
    (m.shows c = true ∧ isOpening c = true ∧ matchesUp (m.step c) (c :: opened) cs = true) ∨
      (∃ o rest, opened = o :: rest ∧ m.shows c = true ∧ isClosing c = true ∧ c = closerOf o ∧
        matchesUp (m.step c) rest cs = true) ∨
      ((m.shows c = true → isOpening c = false ∧ isClosing c = false) ∧
        matchesUp (m.step c) opened cs = true) := by
  rw [matchesUp]
  by_cases hshows : m.shows c = true
  · cases hopen : isOpening c with
    | true => simp [hshows, not_isClosing_of_isOpening hopen]
    | false =>
      cases hclose : isClosing c with
      | true =>
        cases opened with
        | nil => simp [hshows]
        | cons o rest =>
          simp only [hshows, List.cons.injEq]
          constructor
          · intro h
            exact .inr (.inl ⟨o, rest, ⟨rfl, rfl⟩, by simpa using h⟩)
          · rintro (⟨_, hno, _⟩ | ⟨_, _, ⟨rfl, rfl⟩, -, -, heq, hrest⟩ | ⟨hplain, -⟩)
            · cases hno
            · simpa [hrest] using heq
            · cases (hplain trivial).2
      | false => simp [hshows]
  · simp [hshows]

/-! ## Pairs -/

/-- Brackets that match pair up, those of one kind among themselves. -/
theorem pairsUp_of_matchesUp {opens closes : Char → Bool} (hopens : ∀ c, opens c = true → isOpening c = true)
    (hcloses : ∀ c, closes c = true → isClosing c = true)
    (hkinds : ∀ o, isOpening o = true → closes (closerOf o) = opens o)
    (hopened : ∀ o ∈ opened, isOpening o = true) (h : matchesUp m opened cs = true) :
    pairsUp opens closes m (opened.countP opens) cs = true := by
  have hno {c : Char} (hopen : isOpening c = false) : opens c = false := by
    rw [Bool.eq_false_iff]
    intro hc
    rw [hopens c hc] at hopen
    cases hopen
  have hnoclose {c : Char} (hclose : isClosing c = false) : closes c = false := by
    rw [Bool.eq_false_iff]
    intro hc
    rw [hcloses c hc] at hclose
    cases hclose
  induction cs generalizing m opened with
  | nil =>
    rw [matchesUp, Bool.and_eq_true, List.isEmpty_iff] at h
    obtain ⟨hm, rfl⟩ := h
    rw [pairsUp, hm]
    rfl
  | cons c cs ih =>
    rw [pairsUp]
    obtain ⟨hshows, hopen, hrest⟩ | ⟨o, rest, rfl, hshows, hclose, rfl, hrest⟩ | ⟨hplain, hrest⟩ :=
      matchesUp_cons_iff.mp h
    case inl =>
      have hpairs := ih (fun d hd => (List.mem_cons.mp hd).elim (fun heq => heq ▸ hopen) (hopened d)) hrest
      rw [hshows, hnoclose (not_isClosing_of_isOpening hopen)]
      cases hkind : opens c with
      | true => simpa [hkind] using hpairs
      | false => simpa [hkind] using hpairs
    case inr.inl =>
      have hpairs := ih (fun d hd => hopened d (List.mem_cons_of_mem _ hd)) hrest
      rw [hshows, hno (not_isOpening_of_isClosing hclose), hkinds o (hopened o List.mem_cons_self)]
      cases hkind : opens o with
      | true => simpa [hkind] using hpairs
      | false => simpa [hkind] using hpairs
    case inr.inr =>
      have hpairs := ih hopened hrest
      by_cases hshows : m.shows c = true
      · obtain ⟨hopen, hclose⟩ := hplain hshows
        rw [hno hopen, hnoclose hclose, Bool.and_false]
        exact hpairs
      · rw [Bool.eq_false_iff.mpr hshows]
        exact hpairs

theorem WellBracketed.paired (h : WellBracketed cs) : Paired cs where
  brackets := by
    refine pairsUp_of_matchesUp (fun _ => id) (fun _ => id) (fun o ho => ?_) (by simp) h
    simp only [isOpening, Bool.or_eq_true, beq_iff_eq] at ho
    rcases ho with (rfl | rfl) | rfl <;> rfl
  parens := by
    refine pairsUp_of_matchesUp (fun c hc => ?_) (fun c hc => ?_) (fun o ho => ?_) (by simp) h
    · obtain rfl : c = '(' := by simpa [isOpeningParen] using hc
      rfl
    · obtain rfl : c = ')' := by simpa [isClosingParen] using hc
      rfl
    · simp only [isOpening, Bool.or_eq_true, beq_iff_eq] at ho
      rcases ho with (rfl | rfl) | rfl <;> rfl

/-! ## Blanks at the ends -/

theorem matchesUp_blank_append (h : Blank bs) : matchesUp .outside opened (bs ++ cs) = matchesUp .outside opened cs := by
  induction bs with
  | nil => rfl
  | cons b bs ih =>
    have hb := h b List.mem_cons_self
    obtain ⟨-, hopen, hclose⟩ := not_mark_of_isBlank hb
    have hstep : Mode.step .outside b = .outside := Mode.step_dull .outside (not_isMark_of_isBlank hb)
    rw [List.cons_append, matchesUp, hopen, hclose, hstep]
    simpa using ih fun c hc => h c (List.mem_cons_of_mem _ hc)

/-- Blanks neither close a bracket nor end a quote. -/
theorem matchesUp_nil_of_blank (hm : m.IsReal) (h : Blank bs) (hbs : matchesUp m opened bs = true) :
    matchesUp m opened [] = true := by
  induction bs generalizing m with
  | nil => exact hbs
  | cons b bs ih =>
    have hb := h b List.mem_cons_self
    obtain ⟨-, hopen, hclose⟩ := not_mark_of_isBlank hb
    rw [matchesUp, hopen, hclose, Mode.step_dull hm (not_isMark_of_isBlank hb)] at hbs
    have hlater := ih hm.settle (fun c hc => h c (List.mem_cons_of_mem _ hc)) (by simpa using hbs)
    cases m with
    | outside => exact hlater
    | quoted mark hidden => cases hidden <;> exact hlater

theorem matchesUp_of_append_blank (hm : m.IsReal) (h : Blank bs) (hcs : matchesUp m opened (cs ++ bs) = true) :
    matchesUp m opened cs = true := by
  induction cs generalizing m opened with
  | nil => exact matchesUp_nil_of_blank hm h hcs
  | cons c cs ih =>
    refine matchesUp_cons_iff.mpr ?_
    obtain ⟨hshows, hopen, hrest⟩ | ⟨o, rest, rfl, hshows, hclose, hmatch, hrest⟩ | ⟨hplain, hrest⟩ :=
      matchesUp_cons_iff.mp hcs
    · exact .inl ⟨hshows, hopen, ih (hm.step c) hrest⟩
    · exact .inr (.inl ⟨o, rest, rfl, hshows, hclose, hmatch, ih (hm.step c) hrest⟩)
    · exact .inr (.inr ⟨hplain, ih (hm.step c) hrest⟩)

theorem WellBracketed.trim (h : WellBracketed cs) : WellBracketed (trim cs) := by
  obtain ⟨bs, bs', hbs, hbs', hsplit⟩ := exists_trim cs
  rw [WellBracketed, hsplit, matchesUp_blank_append hbs] at h
  exact matchesUp_of_append_blank .outside hbs' h

/-! ## A wrapped text -/

/-- Up to the parenthesis that closes the text, a parenthesis at its front is open, so a search finds nothing. -/
theorem quiet_of_closesAtEnd {keywords : List String} {before : Option Char}
    (hopened : ∀ o ∈ opened, isOpening o = true) (h : matchesUp m (opened ++ ['(']) cs = true)
    (hcloses : closesAtEnd m (opened.count '(' + 1) cs = true) :
    Quiet keywords ⟨m, opened.length + 1⟩ before cs [] := by
  induction cs generalizing m opened before with
  | nil => trivial
  | cons c cs ih =>
    refine ⟨by simp [isHit, Scanner.isTop], ?_⟩
    rw [closesAtEnd] at hcloses
    obtain ⟨hshows, hopen, hrest⟩ | ⟨o, rest, hstack, hshows, hclose, rfl, hrest⟩ | ⟨hplain, hrest⟩ :=
      matchesUp_cons_iff.mp h
    case inl =>
      have hparen : c ≠ ')' := by
        rintro rfl
        cases hopen
      have hopened' : ∀ d ∈ c :: opened, isOpening d = true := fun d hd =>
        (List.mem_cons.mp hd).elim (fun heq => heq ▸ hopen) (hopened d)
      have hstep : Scanner.step ⟨m, opened.length + 1⟩ c = ⟨m.step c, (c :: opened).length + 1⟩ := by
        simp [Scanner.step, hshows, depthAfter, hopen]
      rw [hstep]
      refine ih hopened' hrest ?_
      by_cases hc : c = '('
      · subst hc
        simpa [hshows] using hcloses
      · simpa [hshows, hc, hparen, List.count_cons_of_ne (Ne.symm hc)] using hcloses
    case inr.inl =>
      have hopen := not_isOpening_of_isClosing hclose
      cases opened with
      | nil =>
        -- The parenthesis at the front closes, and the text ends.
        obtain ⟨rfl, rfl⟩ := List.cons.inj hstack
        have hparen : m.shows ')' = true := hshows
        have hend : cs = [] := by simpa [hparen, closerOf] using hcloses
        rw [hend]
        trivial
      | cons p opened =>
        obtain ⟨rfl, rfl⟩ := List.cons.inj hstack
        have hp := hopened p List.mem_cons_self
        have hstep : Scanner.step ⟨m, (p :: opened).length + 1⟩ (closerOf p) =
            ⟨m.step (closerOf p), opened.length + 1⟩ := by
          simp [Scanner.step, hshows, depthAfter, hopen, hclose]
        rw [hstep]
        refine ih (fun d hd => hopened d (List.mem_cons_of_mem _ hd)) hrest ?_
        by_cases hkind : p = '('
        · subst hkind
          have hparen : m.shows ')' = true := hshows
          simpa [hparen, closerOf] using hcloses
        · have hparen : closerOf p ≠ ')' := fun heq => hkind ((closerOf_eq_paren_iff hp).mp heq)
          have hparen' : closerOf p ≠ '(' := by
            intro heq
            rw [heq] at hopen
            cases hopen
          simpa [hparen, hparen', List.count_cons_of_ne hkind] using hcloses
    case inr.inr =>
      have hstep : Scanner.step ⟨m, opened.length + 1⟩ c = ⟨m.step c, opened.length + 1⟩ := by
        by_cases hshows : m.shows c = true
        · obtain ⟨hopen, hclose⟩ := hplain hshows
          simp [Scanner.step, hshows, depthAfter, hopen, hclose]
        · simp [Scanner.step, hshows]
      rw [hstep]
      refine ih hopened hrest ?_
      by_cases hshows : m.shows c = true
      · obtain ⟨hopen, hclose⟩ := hplain hshows
        simp only [isOpening, isClosing, Bool.or_eq_false_iff] at hopen hclose
        simpa [hopen.1.1, hclose.1.1] using hcloses
      · simpa [hshows] using hcloses

/-- In a well-bracketed text that parentheses wrap no keyword stands at the top level. -/
theorem findKeywords_of_unwrap? {keywords : List String} {inner : List Char} (h : WellBracketed cs)
    (hwrapped : unwrap? cs = some inner) : findKeywords keywords cs = [] := by
  unfold unwrap? at hwrapped
  split at hwrapped
  · rename_i rest
    split at hwrapped
    · rename_i hcloses
      have hopened : ∀ o ∈ ([] : List Char), isOpening o = true := by simp
      exact findKeywords_of_quiet ⟨rfl, quiet_of_closesAtEnd hopened h hcloses⟩
    · cases hwrapped
  · cases hwrapped

end QueryScore.Text
