/-
# QueryScore.Proofs.Text.Split -- a text cut at its top-level separators

A scan that is at the top level before and after a stretch cuts the stretch as if it stood alone
(`splitTopLevel_append`), blanks at the ends of a text do not matter to the pieces
(`splitTopLevel_trim`), and a mark that never stands at the top level of a level stretch is not
its last character (`ne_of_getLast_trimEnd`).
-/

import QueryScore.Proofs.Text.Shown
import QueryScore.Proofs.Text.Trim

namespace QueryScore.Text

variable {separator : Char} {s : Scanner} {bs cs ds : List Char}

/-! ## Blanks and level stretches -/

theorem not_mark_of_isBlank {c : Char} (h : isBlank c = true) :
    isQuote c = false ∧ isOpening c = false ∧ isClosing c = false := by
  refine ⟨?_, ?_, ?_⟩ <;>
  · rw [Bool.eq_false_iff]
    intro hmark
    simp only [isQuote, isOpening, isClosing, Bool.or_eq_true, beq_iff_eq] at hmark
    rcases hmark with (rfl | rfl) | rfl <;> exact absurd h (by decide)

/-- Outside quotes a blank changes nothing. -/
theorem step_blank {c : Char} (h : isBlank c = true) (depth : Nat) :
    Scanner.step ⟨.outside, depth⟩ c = ⟨.outside, depth⟩ := by
  obtain ⟨hquote, hopen, hclose⟩ := not_mark_of_isBlank h
  simp [Scanner.step, Mode.step, depthAfter, hquote, hopen, hclose]

theorem run_blank (h : Blank bs) (depth : Nat) :
    Scanner.run ⟨.outside, depth⟩ bs = ⟨.outside, depth⟩ := by
  induction bs with
  | nil => rfl
  | cons b bs ih =>
    show Scanner.run (Scanner.step _ b) bs = _
    rw [step_blank (h b (by simp))]
    exact ih fun c hc => h c (by simp [hc])

/-- Inside quotes opened by a quote mark only such a mark ends them. -/
theorem step_quoted {c mark : Char} (hidden : Bool) (hmark : isQuote mark = true)
    (h : isQuote c = false) : ∃ hidden', Mode.step (.quoted mark hidden) c = .quoted mark hidden' := by
  have hne : c ≠ mark := by
    rintro rfl
    rw [h] at hmark
    cases hmark
  cases hidden with
  | true => exact ⟨false, rfl⟩
  | false =>
    by_cases hslash : (c = '\\' && mark != '`') = true
    · exact ⟨true, by rw [Mode.step, if_pos hslash]⟩
    · exact ⟨false, by rw [Mode.step, if_neg hslash, if_neg hne]⟩

/-- Quotes are opened by quote marks. -/
theorem isQuote_of_modeAfter {m : Mode} (hm : ∀ mark hidden, m = .quoted mark hidden →
    isQuote mark = true) {mark : Char} {hidden : Bool} (h : modeAfter m cs = .quoted mark hidden) :
    isQuote mark = true := by
  induction cs generalizing m with
  | nil => exact hm mark hidden h
  | cons c cs ih =>
    refine ih (fun mark' hidden' hstep => ?_) h
    cases m with
    | outside =>
      by_cases hc : isQuote c = true
      · rw [Mode.step, if_pos hc] at hstep
        cases hstep
        exact hc
      · rw [Mode.step, if_neg hc] at hstep
        cases hstep
    | quoted mark'' hidden'' =>
      have hquote := hm mark'' hidden'' rfl
      cases hidden'' with
      | true =>
        cases hstep
        exact hquote
      | false =>
        simp only [Mode.step] at hstep
        split at hstep
        · cases hstep
          exact hquote
        · split at hstep
          · cases hstep
          · cases hstep
            exact hquote

theorem isQuote_of_run {mark : Char} {hidden : Bool} (h : (Scanner.run {} cs).mode = .quoted mark hidden) :
    isQuote mark = true := by
  rw [mode_run] at h
  exact isQuote_of_modeAfter (by rintro _ _ ⟨⟩) h

/-- Where a scan stands outside quotes behind a stretch without quote marks, it did so before it. -/
theorem outside_of_run (hds : ∀ c ∈ ds, isQuote c = false)
    (h : (Scanner.run {} (cs ++ ds)).mode = .outside) : (Scanner.run {} cs).mode = .outside := by
  cases hmode : (Scanner.run {} cs).mode with
  | outside => rfl
  | quoted mark hidden =>
    have hquote := isQuote_of_run hmode
    have hstay : ∃ hidden', modeAfter (.quoted mark hidden) ds = .quoted mark hidden' := by
      clear h hmode
      induction ds generalizing hidden with
      | nil => exact ⟨hidden, rfl⟩
      | cons d ds ih =>
        obtain ⟨hidden', hstep⟩ := step_quoted hidden hquote (hds d (by simp))
        rw [modeAfter, List.foldl_cons, hstep]
        exact ih (fun c hc => hds c (by simp [hc])) hidden'
    obtain ⟨hidden', hstay⟩ := hstay
    rw [Scanner.run_append, mode_run, hmode, hstay] at h
    cases h

theorem eq_of_outside (h : s.mode = .outside) : s = ⟨.outside, s.depth⟩ := by
  rw [← h]

/-- **`Level cs`** -- a scan of the stretch is at the top level at its end. -/
def Level (cs : List Char) : Prop := Scanner.run {} cs = {}

theorem Level.append (hcs : Level cs) (hds : Level ds) : Level (cs ++ ds) := by
  rw [Level, Scanner.run_append, hcs]
  exact hds

theorem Blank.level (h : Blank bs) : Level bs := run_blank h 0

/-- Blanks may be taken off the end of a level stretch. -/
theorem Level.of_append_blank (hbs : Blank bs) (h : Level (cs ++ bs)) : Level cs := by
  have hmode : (Scanner.run {} cs).mode = .outside := by
    refine outside_of_run (fun b hb => (not_mark_of_isBlank (hbs b hb)).1) ?_
    rw [h]
  obtain ⟨depth, hrun⟩ : ∃ depth, Scanner.run {} cs = ⟨.outside, depth⟩ :=
    ⟨_, eq_of_outside hmode⟩
  rw [Level, Scanner.run_append, hrun, run_blank hbs] at h
  rw [Level, hrun, h]

/-! ## Characters at the top level -/

/-- **`Free marks s cs`** -- none of the marks stands at the top level of the stretch. -/
def Free (marks : List Char) (s : Scanner) (cs : List Char) : Prop :=
  ∀ x ∈ annotate s cs, x.2 = true → x.1 ∉ marks

variable {marks : List Char}

theorem Free.nil : Free marks s [] := by simp [Free, annotate]

theorem free_append : Free marks s (cs ++ ds) ↔ Free marks s cs ∧ Free marks (s.run cs) ds := by
  simp only [Free, annotate_append, List.mem_append, or_imp, forall_and]

/-- Where no mark stands outside quotes, none stands at the top level. -/
theorem free_of_shown {m : Mode} {depth : Nat} (h : Shown (· ∉ marks) m cs) :
    Free marks ⟨m, depth⟩ cs := by
  induction cs generalizing m depth with
  | nil => exact .nil
  | cons c cs ih =>
    intro x hx htop
    rcases List.mem_cons.mp hx with rfl | hx
    · refine h.1 ?_
      simp only [Scanner.isTop, Bool.and_eq_true] at htop
      exact htop.1.1.1
    · exact ih h.2 x hx htop

theorem Free.of_subset {fewer : List Char} (hsub : fewer ⊆ marks) (h : Free marks s cs) :
    Free fewer s cs :=
  fun x hx htop hmem => h x hx htop (hsub hmem)

/-- Behind a level stretch that is free of it, no mark is the last character but blanks. -/
theorem ne_of_getLast_trimEnd {mark : Char} (hmark : isOpening mark = false ∧ isClosing mark = false ∧
    isQuote mark = false) (hmem : mark ∈ marks) (hlevel : Level cs) (hfree : Free marks {} cs) :
    ∀ c ∈ (trimEnd cs).getLast?, c ≠ mark := by
  rintro c hc rfl
  obtain ⟨bs, hbs, hsplit⟩ := exists_trimEnd cs
  obtain ⟨front, hfront⟩ := List.getLast?_eq_some_iff.mp hc
  rw [hsplit, hfront] at hlevel hfree
  have hstep := hlevel.of_append_blank hbs
  obtain ⟨hopen, hclose, hquote⟩ := hmark
  have hlast : ∀ d ∈ [c], isQuote d = false := by simpa using hquote
  have hmode : (Scanner.run {} front).mode = .outside := by
    refine outside_of_run hlast ?_
    rw [hstep]
  rw [Level, Scanner.run_append] at hstep
  obtain ⟨depth, hrun⟩ : ∃ depth, Scanner.run {} front = ⟨.outside, depth⟩ :=
    ⟨_, eq_of_outside hmode⟩
  have hdepth : depth = 0 := by
    rw [hrun] at hstep
    have h := congrArg Scanner.depth hstep
    simpa [Scanner.run, Scanner.step, Mode.shows, depthAfter, hopen, hclose, hquote] using h
  subst hdepth
  have hlast := (free_append.mp (free_append.mp hfree).1).2
  rw [hrun] at hlast
  refine hlast (c, true) ?_ rfl hmem
  simp [annotate, Scanner.isTop, Mode.shows, hopen, hclose, hquote]

/-! ## Pieces -/

/-- The pieces of a level stretch, a separator and what follows. -/
theorem splitTopLevel_append (hcs : Level cs) (htop : Scanner.isTop {} separator = true)
    (ds : List Char) : splitTopLevel separator (cs ++ separator :: ds) =
      splitTopLevel separator cs ++ splitTopLevel separator ds := by
  have hstep : Scanner.step {} separator = {} := by
    simp only [Scanner.isTop, Mode.shows, Bool.and_eq_true, Bool.not_eq_true'] at htop
    obtain ⟨⟨⟨⟨-, hquote⟩, hopen⟩, hclose⟩, -⟩ := htop
    simp [Scanner.step, Mode.step, depthAfter, hquote, hopen, hclose]
  rw [splitTopLevel, annotate_append, hcs, annotate, hstep, htop, splitWhere_append (by simp),
    List.map_append, List.filter_append]
  rfl

/-- A stretch without separators is one piece. -/
theorem splitTopLevel_of_free (h : Free [separator] {} cs) (hne : trim cs ≠ []) :
    splitTopLevel separator cs = [trim cs] := by
  rw [splitTopLevel, splitWhere_of_none fun x hx => ?_, List.map_singleton, map_fst_annotate]
  · simp [hne]
  · by_cases htop : x.2 = true
    · have hx := h x hx htop
      simpa [htop] using hx
    · simp [htop]

theorem splitTopLevel_blank_append (hbs : Blank bs) (hsep : isBlank separator = false) :
    splitTopLevel separator (bs ++ cs) = splitTopLevel separator cs := by
  induction bs with
  | nil => rfl
  | cons b bs ih =>
    have hb := hbs b (by simp)
    have hrest : splitTopLevel separator (bs ++ cs) = splitTopLevel separator cs :=
      ih fun c hc => hbs c (by simp [hc])
    have hne : b ≠ separator := by
      rintro rfl
      rw [hb] at hsep
      cases hsep
    rw [← hrest, splitTopLevel, splitTopLevel, List.cons_append, annotate, step_blank hb]
    have hnot : (Scanner.isTop {} b && b == separator) = false := by simp [hne]
    rw [splitWhere, if_neg (by simp [hnot])]
    cases hpieces : splitWhere (fun x : Char × Bool => x.2 && x.1 == separator)
        (annotate {} (bs ++ cs)) with
    | nil => exact absurd hpieces (splitWhere_ne_nil _ _)
    | cons piece pieces =>
      have hone : Blank [b] := by simpa [Blank] using hb
      have htrim : trim (b :: piece.map Prod.fst) = trim (piece.map Prod.fst) :=
        congrArg trimEnd (trimStart_blank hone _)
      simp only [List.map_cons, htrim]

theorem mem_of_mem_annotate {x : Char × Bool} (h : x ∈ annotate s cs) : x.1 ∈ cs := by
  have hmem := List.mem_map_of_mem (f := Prod.fst) h
  rwa [map_fst_annotate] at hmem

theorem splitTopLevel_append_blank (hbs : Blank bs) (hsep : isBlank separator = false) :
    splitTopLevel separator (cs ++ bs) = splitTopLevel separator cs := by
  have hnone : ∀ x ∈ annotate (Scanner.run {} cs) bs, (x.2 && x.1 == separator) = false := by
    intro x hx
    have hblank := hbs _ (mem_of_mem_annotate hx)
    have hne : x.1 ≠ separator := by
      intro heq
      rw [heq, hsep] at hblank
      cases hblank
    simp [hne]
  obtain ⟨init, last, hcs, hall⟩ := splitWhere_append_of_none hnone (annotate {} cs)
  rw [splitTopLevel, splitTopLevel, annotate_append, hall, hcs]
  have htrim : trim ((last ++ annotate (Scanner.run {} cs) bs).map Prod.fst) =
      trim (last.map Prod.fst) := by
    rw [List.map_append, map_fst_annotate]
    exact trim_append_blank hbs _
  simp only [List.map_append, List.map_cons, List.map_nil, List.filter_append] at htrim ⊢
  rw [htrim]

/-- Blanks at the ends of a list change none of its pieces. -/
theorem splitTopLevel_trim (hsep : isBlank separator = false) (cs : List Char) :
    splitTopLevel separator (trim cs) = splitTopLevel separator cs := by
  obtain ⟨bs, bs', hbs, hbs', hsplit⟩ := exists_trim cs
  rw [hsplit, splitTopLevel_blank_append hbs hsep, splitTopLevel_append_blank hbs' hsep, ← hsplit]

end QueryScore.Text
