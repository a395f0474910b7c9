/-
# QueryScore.Proofs.Text.Pairing -- brackets in pairs

A text is paired if its quotes end, and each bracket that closes has one before it that it closes
(`pairsUp`). A scan passes such a text and is where it was (`run_of_pairsUp`); inside brackets a
search finds nothing in it (`quiet_of_pairsUp`), and parentheses that wrap a longer text do not
close in it (`closesAtEnd_append`). Brackets of all kinds count together for a scan, and the
parentheses alone when wrapping ones are looked for, so a text is paired in both ways (`Paired`).
-/

import QueryScore.Proofs.Text.Quiet

namespace QueryScore.Text

/-- **`pairsUp opens closes m depth cs`** -- from mode `m` on, with `depth` brackets open, every
bracket of the text and those that are open are closed, and so are the quotes. -/
def pairsUp (opens closes : Char → Bool) : Mode → Nat → List Char → Bool
  | m, depth, [] => m == .outside && depth == 0
  | m, depth, c :: cs =>
    if m.shows c && opens c then pairsUp opens closes (m.step c) (depth + 1) cs
    else if m.shows c && closes c then
      depth != 0 && pairsUp opens closes (m.step c) (depth - 1) cs
    else pairsUp opens closes (m.step c) depth cs

/-- The bracket is a parenthesis that opens. -/
def isOpeningParen (c : Char) : Bool := c == '('

/-- The bracket is a parenthesis that closes. -/
def isClosingParen (c : Char) : Bool := c == ')'

theorem not_paren_of_not_bracket {c : Char} (h : isOpening c = false ∧ isClosing c = false) :
    isOpeningParen c = false ∧ isClosingParen c = false := by
  simp only [isOpening, isClosing, Bool.or_eq_false_iff] at h
  exact ⟨h.1.1.1, h.2.1.1⟩

/-- **`Paired cs`** -- the brackets of a text are in pairs, and its parentheses among themselves. -/
structure Paired (cs : List Char) : Prop where
  brackets : pairsUp isOpening isClosing .outside 0 cs = true
  parens : pairsUp isOpeningParen isClosingParen .outside 0 cs = true

instance (cs : List Char) : Decidable (Paired cs) :=
  decidable_of_iff (pairsUp isOpening isClosing .outside 0 cs = true ∧
      pairsUp isOpeningParen isClosingParen .outside 0 cs = true)
    ⟨fun h => ⟨h.1, h.2⟩, fun h => ⟨h.brackets, h.parens⟩⟩

variable {opens closes : Char → Bool} {m : Mode} {depth : Nat} {cs ds bs : List Char}

/-- Behind a stretch that pairs up, the brackets that were open before it are. -/
theorem pairsUp_append (h : pairsUp opens closes m depth cs = true) (more : Nat) (ds : List Char) :
    pairsUp opens closes m (depth + more) (cs ++ ds) = pairsUp opens closes .outside more ds := by
  induction cs generalizing m depth with
  | nil =>
    simp only [pairsUp, Bool.and_eq_true, beq_iff_eq] at h
    obtain ⟨rfl, rfl⟩ := h
    rw [List.nil_append, Nat.zero_add]
  | cons c cs ih =>
    rw [List.cons_append, pairsUp]
    rw [pairsUp] at h
    split
    · rename_i hopen
      rw [if_pos hopen] at h
      rw [← ih h, Nat.add_right_comm]
    · rename_i hopen
      rw [if_neg hopen] at h
      split
      · rename_i hclose
        rw [if_pos hclose, Bool.and_eq_true] at h
        obtain ⟨hdepth, h⟩ := h
        have hdepth : depth ≠ 0 := by simpa using hdepth
        have hmore : (depth + more != 0) = true := by
          simp
          omega
        rw [hmore, Bool.true_and, ← ih h, Nat.sub_add_comm (by omega)]
      · rename_i hclose
        rw [if_neg hclose] at h
        exact ih h

/-- Where no bracket shows, those that are open stay open. -/
theorem pairsUp_shown (h : Shown (fun c => opens c = false ∧ closes c = false) m cs) (depth : Nat)
    (ds : List Char) :
    pairsUp opens closes m depth (cs ++ ds) = pairsUp opens closes (modeAfter m cs) depth ds := by
  induction cs generalizing m with
  | nil => rfl
  | cons c cs ih =>
    rw [List.cons_append, pairsUp]
    by_cases hshows : m.shows c = true
    · obtain ⟨hopen, hclose⟩ := h.1 hshows
      rw [hopen, hclose, Bool.and_false]
      exact ih h.2
    · rw [Bool.eq_false_iff.mpr hshows, Bool.false_and]
      exact ih h.2

/-- What a scan makes of the first character, whatever is open around the stretch. -/
theorem exists_of_pairsUp_cons {c : Char}
    (h : pairsUp isOpening isClosing m depth (c :: cs) = true) :
    ∃ depth', pairsUp isOpening isClosing (m.step c) depth' cs = true ∧
      ∀ more, Scanner.step ⟨m, depth + more⟩ c = ⟨m.step c, depth' + more⟩ := by
  rw [pairsUp] at h
  by_cases hshows : m.shows c = true
  · simp only [hshows, Bool.true_and] at h
    split at h
    · rename_i hopen
      refine ⟨depth + 1, h, fun more => ?_⟩
      simp [Scanner.step, hshows, depthAfter, hopen, Nat.add_right_comm]
    · rename_i hopen
      split at h
      · rename_i hclose
        obtain ⟨hdepth, h⟩ := Bool.and_eq_true_iff.mp h
        have hdepth : depth ≠ 0 := by simpa using hdepth
        refine ⟨depth - 1, h, fun more => ?_⟩
        simp [Scanner.step, hshows, depthAfter, hopen, hclose]
        omega
      · rename_i hclose
        refine ⟨depth, h, fun more => ?_⟩
        simp [Scanner.step, hshows, depthAfter, hopen, hclose]
  · simp only [hshows, Bool.false_and, Bool.false_eq_true, if_false] at h
    exact ⟨depth, h, fun more => by simp [Scanner.step, hshows]⟩

/-- A scan passes a stretch that pairs up. -/
theorem run_of_pairsUp (h : pairsUp isOpening isClosing m depth cs = true) (more : Nat) :
    Scanner.run ⟨m, depth + more⟩ cs = ⟨.outside, more⟩ := by
  induction cs generalizing m depth with
  | nil =>
    simp only [pairsUp, Bool.and_eq_true, beq_iff_eq] at h
    obtain ⟨rfl, rfl⟩ := h
    rw [Nat.zero_add]
    rfl
  | cons c cs ih =>
    obtain ⟨depth', hrest, hstep⟩ := exists_of_pairsUp_cons h
    show Scanner.run (Scanner.step _ c) cs = _
    rw [hstep]
    exact ih hrest

theorem Paired.run (h : Paired cs) : Scanner.run {} cs = {} := run_of_pairsUp h.brackets 0

/-- Inside brackets a search finds nothing in a stretch that pairs up. -/
theorem quiet_of_pairsUp {keywords : List String} (h : pairsUp isOpening isClosing m depth cs = true)
    (more : Nat) (before : Option Char) (after : List Char) :
    Quiet keywords ⟨m, depth + (more + 1)⟩ before cs after := by
  induction cs generalizing m depth before with
  | nil => trivial
  | cons c cs ih =>
    obtain ⟨depth', hrest, hstep⟩ := exists_of_pairsUp_cons h
    refine ⟨by simp [isHit, Scanner.isTop], ?_⟩
    rw [hstep]
    exact ih hrest _

theorem Paired.quiet {keywords : List String} (h : Paired cs) (before : Option Char)
    (after : List Char) : Quiet keywords ⟨.outside, 1⟩ before cs after := by
  show Quiet keywords ⟨.outside, 0 + (0 + 1)⟩ before cs after
  exact quiet_of_pairsUp h.brackets 0 before after

/-! ## Wrapping parentheses -/

/-- Parentheses that are open around a stretch that pairs up do not close in it. -/
theorem closesAtEnd_append (h : pairsUp isOpeningParen isClosingParen m depth cs = true) (more : Nat)
    (ds : List Char) : closesAtEnd m (depth + (more + 1)) (cs ++ ds) = closesAtEnd .outside (more + 1) ds := by
  induction cs generalizing m depth with
  | nil =>
    simp only [pairsUp, Bool.and_eq_true, beq_iff_eq] at h
    obtain ⟨rfl, rfl⟩ := h
    rw [List.nil_append, Nat.zero_add]
  | cons c cs ih =>
    rw [List.cons_append, closesAtEnd]
    rw [pairsUp, isOpeningParen, isClosingParen] at h
    -- One function asks for the closing bracket first, the other for the opening one.
    by_cases hclose : (m.shows c && c == ')') = true
    · have hopen : ¬ (m.shows c && c == '(') = true := by
        simp only [Bool.and_eq_true, beq_iff_eq] at hclose
        simp [hclose.2]
      rw [if_neg hopen, if_pos hclose] at h
      obtain ⟨hdepth, h⟩ := Bool.and_eq_true_iff.mp h
      have hdepth : depth ≠ 0 := by simpa using hdepth
      rw [if_pos hclose, if_neg (by omega), ← ih h]
      congr 1
      omega
    · rw [if_neg hclose]
      by_cases hopen : (m.shows c && c == '(') = true
      · rw [if_pos hopen] at h ⊢
        rw [← ih h]
        congr 1
        omega
      · rw [if_neg hopen, if_neg hclose] at h
        rw [if_neg hopen]
        exact ih h

/-- A parenthesis that closes before the end of a text does not wrap it. -/
theorem closesAtEnd_eq_false (h : pairsUp isOpeningParen isClosingParen m (depth + 1) cs = true)
    (hne : ds ≠ []) : closesAtEnd m (depth + 1) (cs ++ ds) = false := by
  induction cs generalizing m depth with
  | nil => simp [pairsUp] at h
  | cons c cs ih =>
    rw [List.cons_append, closesAtEnd]
    rw [pairsUp, isOpeningParen, isClosingParen] at h
    by_cases hclose : (m.shows c && c == ')') = true
    · have hopen : ¬ (m.shows c && c == '(') = true := by
        simp only [Bool.and_eq_true, beq_iff_eq] at hclose
        simp [hclose.2]
      rw [if_neg hopen, if_pos hclose] at h
      obtain ⟨-, h⟩ := Bool.and_eq_true_iff.mp h
      rw [if_pos hclose]
      cases depth with
      | zero => simp [hne]
      | succ depth =>
        rw [if_neg (by omega)]
        exact ih h
    · rw [if_neg hclose]
      by_cases hopen : (m.shows c && c == '(') = true
      · rw [if_pos hopen] at h ⊢
        exact ih h
      · rw [if_neg hopen, if_neg hclose] at h
        rw [if_neg hopen]
        exact ih h

/-! ## Paired texts -/

theorem Paired.append (hcs : Paired cs) (hds : Paired ds) : Paired (cs ++ ds) where
  brackets := (pairsUp_append hcs.brackets 0 ds).trans hds.brackets
  parens := (pairsUp_append hcs.parens 0 ds).trans hds.parens

/-- A text without quotes and brackets is paired. -/
theorem paired_of_plain (h : ∀ c ∈ cs, isQuote c = false ∧ isOpening c = false ∧ isClosing c = false) :
    Paired cs := by
  have hall (opens closes : Char → Bool)
      (hno : ∀ c ∈ cs, opens c = false ∧ closes c = false) :
      pairsUp opens closes .outside 0 cs = true := by
    induction cs with
    | nil => rfl
    | cons c cs ih =>
      obtain ⟨hquote, -⟩ := h c (by simp)
      obtain ⟨hopen, hclose⟩ := hno c (by simp)
      rw [pairsUp, hopen, hclose, Mode.step, hquote]
      simpa using ih (fun d hd => h d (by simp [hd])) fun d hd => hno d (by simp [hd])
  exact ⟨hall _ _ fun c hc => (h c hc).2, hall _ _ fun c hc => not_paren_of_not_bracket (h c hc).2⟩

/-- Parentheses around a paired text. -/
theorem Paired.wrap (h : Paired cs) : Paired ('(' :: (cs ++ [')'])) where
  brackets := by
    show pairsUp isOpening isClosing .outside (0 + 1) (cs ++ [')']) = true
    rw [pairsUp_append h.brackets 1]
    rfl
  parens := by
    show pairsUp isOpeningParen isClosingParen .outside (0 + 1) (cs ++ [')']) = true
    rw [pairsUp_append h.parens 1]
    rfl

/-- Parentheses around a paired text wrap it. -/
theorem unwrap?_wrap (h : Paired cs) : unwrap? ('(' :: (cs ++ [')'])) = some cs := by
  have hcloses : closesAtEnd .outside 1 (cs ++ [')']) = true :=
    (closesAtEnd_append h.parens 0 [')']).trans rfl
  rw [unwrap?, if_pos hcloses, List.dropLast_concat]

/-- Behind a paired text something follows: nothing wraps both. -/
theorem unwrap?_append (h : Paired cs) (hcs : cs ≠ []) (hds : ds ≠ []) : unwrap? (cs ++ ds) = none := by
  obtain ⟨c, cs, rfl⟩ := List.exists_cons_of_ne_nil hcs
  rw [List.cons_append]
  by_cases hc : c = '('
  · subst hc
    have hparens : pairsUp isOpeningParen isClosingParen .outside (0 + 1) cs = true := h.parens
    rw [unwrap?, closesAtEnd_eq_false hparens hds]
    rfl
  · rw [unwrap?]
    simpa using hc

end QueryScore.Text
