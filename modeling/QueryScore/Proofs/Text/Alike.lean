/-
# QueryScore.Proofs.Text.Alike -- texts that a scan does not tell apart

A scan sees quotes, brackets and the backslash. All other characters are the same to it, and so are
stretches of them, however long (`step_dull`). Two texts that differ in such stretches only
(`Alike`) have their brackets in the same pairs (`Alike.pairsUp_eq`) and are wrapped by parentheses
or not (`Alike.unwrap?_eq_none`). A text is like its words with single spaces between them and like
its lower case, so both hold of its comparison form as of the text.
-/

import QueryScore.Proofs.Text.Lower
import QueryScore.Proofs.Text.Pairing
import QueryScore.Proofs.Text.Split

namespace QueryScore.Text

variable {m : Mode} {depth : Nat} {bs cs ds xs ys : List Char} {opens closes : Char → Bool}

/-! ## Marks -/

/-- A character that a scan sees. -/
def isMark (c : Char) : Bool := isQuote c || isOpening c || isClosing c || c == '\\'

/-- The marks. -/
def marks : List Char := ['\'', '"', '`', '(', '[', '\x7b', ')', ']', '\x7d', '\\']

theorem mem_marks {c : Char} : c ∈ marks ↔ isMark c = true := by
  simp [marks, isMark, isQuote, isOpening, isClosing, or_assoc]

/-- A mark has no other case. -/
theorem lowerChar_of_isMark {c : Char} (h : isMark c = true) : lowerChar c = [c] ∧ c ≠ 'Σ' := by
  have hall : (marks.all fun c => lowerChar c == [c] && c != 'Σ') = true := by decide
  simpa using List.all_eq_true.mp hall c (mem_marks.mpr h)

theorem lowerRuns_avoid_marks : ∀ r ∈ lowerRuns, ∀ c ∈ marks, r.avoids c.toNat = true := by
  have hall : (lowerRuns.all fun r => marks.all fun c => r.avoids c.toNat) = true := by
    decide
  simpa only [List.all_eq_true] using hall

/-- No mark is the lower case of another character. -/
theorem not_isMark_of_mem {c d : Char} (h : d ∈ lowerChar c) (hc : isMark c = false) :
    isMark d = false := by
  rw [Bool.eq_false_iff]
  intro hmark
  have hd := mem_marks.mpr hmark
  rw [lowerChar, mapCase] at h
  split at h
  · rename_i n hshift
    obtain rfl := List.mem_singleton.mp h
    obtain ⟨r, hr, hmoves, rfl⟩ := exists_of_shift hshift
    have hcode := CaseRun.ne_of_avoids (lowerRuns_avoid_marks r hr _ hd) hmoves
    have hpositive : (marks.all fun c => c.toNat != 0) = true := by decide
    rw [toNat_ofNat] at hcode
    split at hcode
    · exact hcode rfl
    · rename_i hvalid
      have hzero := List.all_eq_true.mp hpositive _ hd
      rw [toNat_ofNat, if_neg hvalid] at hzero
      cases hzero
  · split at h
    · rename_i ns hlookup
      rw [lowerExpansions, List.lookup_cons] at hlookup
      split at hlookup
      · obtain rfl := Option.some.inj hlookup
        rcases List.mem_cons.mp h with rfl | h
        · exact absurd hmark (by decide)
        · obtain rfl := List.mem_singleton.mp h
          exact absurd hmark (by decide)
      · cases hlookup
    · obtain rfl := List.mem_singleton.mp h
      rw [hc] at hmark
      cases hmark

theorem not_isMark_of_isBlank {c : Char} (h : isBlank c = true) : isMark c = false := by
  rw [Bool.eq_false_iff]
  intro hmark
  have hink : (marks.all fun c => !isBlank c) = true := by decide
  have hc := List.all_eq_true.mp hink c (mem_marks.mpr hmark)
  rw [h] at hc
  cases hc

/-! ## Dull stretches -/

/-- **`Dull cs`** -- a stretch without marks that is not empty. -/
structure Dull (cs : List Char) : Prop where
  ne_nil : cs ≠ []
  plain : ∀ c ∈ cs, isMark c = false

/-- The mode is one of quotes, if any. -/
def Mode.IsReal (m : Mode) : Prop := ∀ mark hidden, m = .quoted mark hidden → isQuote mark = true

theorem Mode.IsReal.outside : Mode.IsReal .outside := by
  rintro _ _ ⟨⟩

theorem Mode.IsReal.step (h : m.IsReal) (c : Char) : (m.step c).IsReal := by
  intro mark hidden hstep
  have hafter : modeAfter m [c] = .quoted mark hidden := hstep
  exact isQuote_of_modeAfter h hafter

/-- The mode behind a dull stretch: what a backslash hides is over. -/
def Mode.settle : Mode → Mode
  | .quoted mark true => .quoted mark false
  | m => m

theorem Mode.settle_settle (m : Mode) : m.settle.settle = m.settle := by
  cases m with
  | outside => rfl
  | quoted mark hidden => cases hidden <;> rfl

theorem Mode.IsReal.settle (h : m.IsReal) : m.settle.IsReal := by
  cases m with
  | outside => exact .outside
  | quoted mark hidden =>
    have hmark := h mark hidden rfl
    cases hidden <;> exact fun _ _ heq => by cases heq; exact hmark

theorem Mode.step_dull {c : Char} (h : m.IsReal) (hc : isMark c = false) : m.step c = m.settle := by
  simp only [isMark, Bool.or_eq_false_iff, beq_eq_false_iff_ne, ne_eq] at hc
  obtain ⟨⟨⟨hquote, -⟩, -⟩, hslash⟩ := hc
  cases m with
  | outside => simp [step, settle, hquote]
  | quoted mark hidden =>
    cases hidden with
    | true => rfl
    | false =>
      have hmark : c ≠ mark := by
        rintro rfl
        rw [h c false rfl] at hquote
        cases hquote
      simp [step, settle, hslash, hmark]

theorem Scanner.step_dull {s : Scanner} {c : Char} (h : s.mode.IsReal) (hc : isMark c = false) :
    s.step c = ⟨s.mode.settle, s.depth⟩ := by
  have hmode := Mode.step_dull h hc
  simp only [isMark, Bool.or_eq_false_iff] at hc
  simp [step, depthAfter, hc, hmode]

/-- A scan passes a dull stretch at once. -/
theorem Scanner.run_dull {s : Scanner} (h : s.mode.IsReal) (hxs : Dull xs) :
    s.run xs = ⟨s.mode.settle, s.depth⟩ := by
  obtain ⟨hne, hplain⟩ := hxs
  induction xs generalizing s with
  | nil => exact absurd rfl hne
  | cons x xs ih =>
    have hx := Scanner.step_dull h (hplain x (by simp))
    show (s.step x).run xs = _
    rw [hx]
    by_cases hxs : xs = []
    · rw [hxs]
      rfl
    · rw [ih h.settle hxs fun c hc => hplain c (by simp [hc]), s.mode.settle_settle]

/-- **`SeesMarks opens closes`** -- brackets are marks. -/
def SeesMarks (opens closes : Char → Bool) : Prop :=
  ∀ c, isMark c = false → opens c = false ∧ closes c = false

theorem seesMarks_brackets : SeesMarks isOpening isClosing := by
  intro c hc
  simp only [isMark, Bool.or_eq_false_iff] at hc
  exact ⟨hc.1.1.2, hc.1.2⟩

theorem seesMarks_parens : SeesMarks isOpeningParen isClosingParen := fun c hc =>
  not_paren_of_not_bracket (seesMarks_brackets c hc)

theorem pairsUp_dull (hsees : SeesMarks opens closes) (h : m.IsReal) (hxs : Dull xs)
    (depth : Nat) (cs : List Char) :
    pairsUp opens closes m depth (xs ++ cs) = pairsUp opens closes m.settle depth cs := by
  obtain ⟨hne, hplain⟩ := hxs
  induction xs generalizing m with
  | nil => exact absurd rfl hne
  | cons x xs ih =>
    have hx := hplain x (by simp)
    obtain ⟨hopen, hclose⟩ := hsees x hx
    rw [List.cons_append, pairsUp, hopen, hclose, Mode.step_dull h hx]
    simp only [Bool.and_false, Bool.false_eq_true, if_false]
    by_cases hxs : xs = []
    · rw [hxs, List.nil_append]
    · rw [ih h.settle hxs fun c hc => hplain c (by simp [hc]), m.settle_settle]

theorem closesAtEnd_dull (h : m.IsReal) (hxs : Dull xs) (depth : Nat) (cs : List Char) :
    closesAtEnd m depth (xs ++ cs) = closesAtEnd m.settle depth cs := by
  obtain ⟨hne, hplain⟩ := hxs
  induction xs generalizing m with
  | nil => exact absurd rfl hne
  | cons x xs ih =>
    have hx := hplain x (by simp)
    obtain ⟨hopen, hclose⟩ := seesMarks_parens x hx
    rw [isOpeningParen] at hopen
    rw [isClosingParen] at hclose
    rw [List.cons_append, closesAtEnd, hopen, hclose, Mode.step_dull h hx]
    simp only [Bool.and_false, Bool.false_eq_true, if_false]
    by_cases hxs : xs = []
    · rw [hxs, List.nil_append]
    · rw [ih h.settle hxs fun c hc => hplain c (by simp [hc]), m.settle_settle]

/-- Without a dull stretch at its end a text that pairs up still does. -/
theorem pairsUp_of_append (hsees : SeesMarks opens closes) (hm : m.IsReal) (hys : Dull ys)
    (h : pairsUp opens closes m depth (xs ++ ys) = true) : pairsUp opens closes m depth xs = true := by
  induction xs generalizing m depth with
  | nil =>
    rw [List.nil_append, ← List.append_nil ys, pairsUp_dull hsees hm hys] at h
    cases m with
    | outside => exact h
    | quoted mark hidden => cases hidden <;> cases h
  | cons x xs ih =>
    rw [List.cons_append, pairsUp] at h
    rw [pairsUp]
    split
    · rename_i hopen
      rw [if_pos hopen] at h
      exact ih (hm.step x) h
    · rename_i hopen
      rw [if_neg hopen] at h
      split
      · rename_i hclose
        rw [if_pos hclose, Bool.and_eq_true] at h
        rw [Bool.and_eq_true]
        exact ⟨h.1, ih (hm.step x) h.2⟩
      · rename_i hclose
        rw [if_neg hclose] at h
        exact ih (hm.step x) h

/-! ## Texts that differ in dull stretches -/

/-- **`Alike cs ds`** -- the texts differ in dull stretches only. -/
inductive Alike : List Char → List Char → Prop
  | nil : Alike [] []
  | same {c : Char} {cs ds : List Char} : Alike cs ds → Alike (c :: cs) (c :: ds)
  | dull {xs ys cs ds : List Char} : Dull xs → Dull ys → Alike cs ds → Alike (xs ++ cs) (ys ++ ds)

theorem Alike.refl (cs : List Char) : Alike cs cs := by
  induction cs with
  | nil => exact .nil
  | cons c cs ih => exact .same ih

theorem Alike.append {cs' ds' : List Char} (h : Alike cs ds) (h' : Alike cs' ds') :
    Alike (cs ++ cs') (ds ++ ds') := by
  induction h with
  | nil => exact h'
  | same _ ih => exact .same ih
  | dull hxs hys _ ih =>
    rw [List.append_assoc, List.append_assoc]
    exact .dull hxs hys ih

theorem Alike.isEmpty_eq (h : Alike cs ds) : cs.isEmpty = ds.isEmpty := by
  cases h with
  | nil | same => rfl
  | dull hxs hys =>
    obtain ⟨x, xs, rfl⟩ := List.exists_cons_of_ne_nil hxs.ne_nil
    obtain ⟨y, ys, rfl⟩ := List.exists_cons_of_ne_nil hys.ne_nil
    rfl

/-- **Brackets are in pairs in both texts, or in neither.** -/
theorem Alike.pairsUp_eq (hsees : SeesMarks opens closes) (h : Alike cs ds) (hm : m.IsReal) :
    pairsUp opens closes m depth cs = pairsUp opens closes m depth ds := by
  induction h generalizing m depth with
  | nil => rfl
  | @same c cs ds _ ih =>
    rw [pairsUp, pairsUp, ih (hm.step c), ih (hm.step c), ih (hm.step c)]
  | dull hxs hys _ ih =>
    rw [pairsUp_dull hsees hm hxs, pairsUp_dull hsees hm hys, ih hm.settle]

theorem Alike.closesAtEnd_eq (h : Alike cs ds) (hm : m.IsReal) :
    closesAtEnd m depth cs = closesAtEnd m depth ds := by
  induction h generalizing m depth with
  | nil => rfl
  | @same c cs ds h ih =>
    rw [closesAtEnd, closesAtEnd, ih (hm.step c), ih (hm.step c), ih (hm.step c), h.isEmpty_eq]
  | dull hxs hys _ ih =>
    rw [closesAtEnd_dull hm hxs, closesAtEnd_dull hm hys, ih hm.settle]

theorem Alike.paired (h : Alike cs ds) (hcs : Paired cs) : Paired ds where
  brackets := (h.pairsUp_eq seesMarks_brackets .outside).symm.trans hcs.brackets
  parens := (h.pairsUp_eq seesMarks_parens .outside).symm.trans hcs.parens

/-- A text that no parentheses wrap is like none that they wrap. -/
theorem Alike.unwrap?_eq_none (h : Alike cs ds) (hcs : unwrap? cs = none) : unwrap? ds = none := by
  cases h with
  | nil => rfl
  | @same c cs ds h =>
    by_cases hc : c = '('
    · subst hc
      rw [unwrap?] at hcs ⊢
      split at hcs
      · cases hcs
      · rename_i hcloses
        rw [h.closesAtEnd_eq .outside] at hcloses
        exact if_neg hcloses
    · rw [unwrap?]
      simpa using hc
  | @dull _ ys _ _ _ hys _ =>
    obtain ⟨y, ys, rfl⟩ := List.exists_cons_of_ne_nil hys.ne_nil
    have hy : y ≠ '(' := by
      rintro rfl
      exact absurd (hys.plain '(' (by simp)) (by decide)
    rw [List.cons_append, unwrap?]
    simpa using hy

/-! ## Blanks at the ends -/

theorem dull_of_blank (h : Blank bs) (hne : bs ≠ []) : Dull bs :=
  ⟨hne, fun c hc => not_isMark_of_isBlank (h c hc)⟩

theorem paired_of_blank (h : Blank bs) : Paired bs :=
  paired_of_plain fun c hc => not_mark_of_isBlank (h c hc)

theorem Paired.of_append_blank (hbs : Blank bs) (h : Paired (cs ++ bs)) : Paired cs := by
  by_cases hne : bs = []
  · simpa [hne] using h
  · have hdull := dull_of_blank hbs hne
    exact ⟨pairsUp_of_append seesMarks_brackets .outside hdull h.brackets,
      pairsUp_of_append seesMarks_parens .outside hdull h.parens⟩

theorem Paired.of_blank_append (hbs : Blank bs) (h : Paired (bs ++ cs)) : Paired cs where
  brackets := (pairsUp_append (paired_of_blank hbs).brackets 0 cs).symm.trans h.brackets
  parens := (pairsUp_append (paired_of_blank hbs).parens 0 cs).symm.trans h.parens

theorem Paired.trim (h : Paired cs) : Paired (trim cs) := by
  obtain ⟨bs, bs', hbs, hbs', hsplit⟩ := exists_trim cs
  rw [hsplit] at h
  exact (h.of_blank_append hbs).of_append_blank hbs'

/-- Behind a paired text something follows: nothing wraps both, nor what is left without the blanks
at the ends. -/
theorem unwrap?_trim_append (h : Paired xs) (hxs : ∃ c ∈ xs, isBlank c = false)
    (hys : ∃ c ∈ ys, isBlank c = false) : unwrap? (trim (xs ++ ys)) = none := by
  obtain ⟨bs, hbs, hsplit⟩ := exists_trimStart xs
  have hpaired : Paired (trimStart xs) := by
    rw [hsplit] at h
    exact h.of_blank_append hbs
  have hend := trimEnd_ne_nil hys
  rw [Text.trim, trimStart_append_of_ink hxs, trimEnd_append_of_ne_nil hend]
  refine unwrap?_append hpaired ?_ hend
  intro hnil
  rw [hnil, List.append_nil] at hsplit
  obtain ⟨c, hc, hink⟩ := hxs
  rw [hsplit] at hc
  rw [hbs c hc] at hink
  cases hink

/-- A text that does not begin with a parenthesis is wrapped by none. -/
theorem unwrap?_trim_cons {c : Char} (hc : c ≠ '(') (hink : isBlank c = false) (cs : List Char) :
    unwrap? (trim (c :: cs)) = none := by
  obtain ⟨bs, -, hsplit⟩ := exists_trimEnd (c :: cs)
  rw [Text.trim, trimStart_of_head (by simpa using hink)]
  have hsome : ∃ d ∈ c :: cs, isBlank d = false := ⟨c, by simp, hink⟩
  obtain ⟨d, ds, hne⟩ := List.exists_cons_of_ne_nil (trimEnd_ne_nil hsome)
  rw [hne] at hsplit ⊢
  obtain ⟨rfl, -⟩ := List.cons.inj hsplit
  rw [unwrap?]
  simpa using hc

/-! ## The comparison form -/

/-- A text is like its lower case. -/
theorem alike_lowercase (cs : List Char) : Alike cs (lowercase cs) := by
  suffices hall : ∀ before, Alike cs (lowercaseFrom before cs) from hall []
  induction cs with
  | nil => exact fun _ => .nil
  | cons c cs ih =>
    intro before
    cases hc : isMark c with
    | true =>
      obtain ⟨hfixed, hsigma⟩ := lowerChar_of_isMark hc
      rw [lowercaseFrom, if_neg hsigma, hfixed]
      exact .same (ih _)
    | false =>
      have hone : Dull [c] := ⟨by simp, by simpa using hc⟩
      by_cases hsigma : c = 'Σ'
      · subst hsigma
        rw [lowercaseFrom, if_pos rfl]
        refine .dull hone ⟨List.cons_ne_nil _ _, fun d hd => ?_⟩ (ih _)
        obtain rfl := List.mem_singleton.mp hd
        split <;> decide
      · rw [lowercaseFrom, if_neg hsigma]
        exact .dull hone ⟨Name.lowerChar_ne_nil c, fun d hd => not_isMark_of_mem hd hc⟩ (ih _)

/-- Blanks are like the space that they collapse to. -/
theorem alike_collapsedGap (h : Blank bs) : Alike bs (collapsedGap bs) := by
  rw [collapsedGap]
  cases bs with
  | nil => exact .nil
  | cons b bs =>
    have hspace : Dull [' '] := dull_of_blank (blank_collapsedGap [b]) (by simp)
    have hall := Alike.dull (dull_of_blank h (by simp)) hspace .nil
    rwa [List.append_nil] at hall

/-- A text is like its words with a space between two of them. -/
theorem alike_collapse (h : Inked cs) : Alike cs (collapse cs) := by
  refine collapse_induction (fun c _ => .refl [c]) (fun c bs ys hbs _ ih => ?_) h
  exact .same ((alike_collapsedGap hbs).append ih)

/-- **The comparison form keeps brackets in pairs.** -/
theorem paired_normalizeFragment (h : Inked cs) (hcs : Paired cs) :
    Paired (Name.normalizeFragment cs) :=
  (alike_lowercase _).paired ((alike_collapse h).paired hcs)

/-- **No parentheses wrap the comparison form of a text that none wrap.** -/
theorem unwrap?_normalizeFragment (h : Inked cs) (hcs : unwrap? cs = none) :
    unwrap? (Name.normalizeFragment cs) = none :=
  (alike_lowercase _).unwrap?_eq_none ((alike_collapse h).unwrap?_eq_none hcs)

end QueryScore.Text
