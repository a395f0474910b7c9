/-
# QueryScore.Proofs.Cypher.Spacing -- texts with other filler between their tokens

Two texts go side by side if one has blanks where the other has filler of some kind, and all other
characters are the same (`Respaced`). Which filler that is, a `Spacing` says: comments that become a
space (`clearing`), or runs of blanks that become others (`relaying`). From outside quotes the two
texts can be followed token by token. They show the same character wherever none of that filler stands
(`Beside.head`), the same quoted stretch between the same marks (`Beside.of_quote`), and filler
against filler (`Beside.skip`).
-/

import QueryScore.Proofs.Cypher.Filler

namespace QueryScore.Cypher

open Text Grammar

/-! ## Spacings -/

/-- The text begins like a comment. -/
def opensComment : List Char → Bool
  | '/' :: '/' :: _ => true
  | '/' :: '*' :: _ => true
  | _ => false

/-- **`Spacing`** -- which filler of a text stands for which blanks of another. -/
structure Spacing where
  /-- Before `rest`, the filler `k` stands for the blanks `k'`. -/
  allows (k k' rest : List Char) : Prop
  filled {k k' rest : List Char} : allows k k' rest → k ≠ [] ∧ Filled k rest
  blank {k k' rest : List Char} : allows k k' rest → k' ≠ [] ∧ ∀ c ∈ k', isFillerBlank c = true

/-- Each comment becomes a space. -/
def clearing : Spacing where
  allows k k' rest := k' = [' '] ∧ k ≠ [] ∧ commentSize (k ++ rest) = k.length
  filled := by
    rintro k k' rest ⟨-, hne, hsize⟩
    have hone : Filled (k ++ []) rest := .comment hne hsize .nil
    rw [List.append_nil] at hone
    exact ⟨hne, hone⟩
  blank := by
    rintro k k' rest ⟨rfl, -⟩
    exact ⟨by simp, by simp [isFillerBlank]⟩

/-- Runs of blanks become others. -/
def relaying : Spacing where
  allows k k' _ := (k ≠ [] ∧ ∀ c ∈ k, isFillerBlank c = true) ∧ k' ≠ [] ∧ ∀ c ∈ k', isFillerBlank c = true
  filled h := ⟨h.1.1, filled_of_blanks h.1.2⟩
  blank h := h.2

variable {g : Spacing} {m n : Mode} {c : Char} {cs ds fs after : List Char}

/-! ## Texts side by side -/

/-- **`m.Admits cs`** -- no comment begins here, and nothing that looks like one between back
quotes. -/
structure Admits (m : Mode) (cs : List Char) : Prop where
  outside : m = .outside → commentSize cs = 0
  name : m = .quoted '`' false → opensComment cs = false

theorem admits_outside {cs : List Char} (h : commentSize cs = 0) : Admits .outside cs :=
  ⟨fun _ => h, fun hm => by cases hm⟩

/-- **`Respaced g m after cs ds n`** -- before `after`, the stretch `ds` is `cs` with the filler that `g`
tells of replaced by blanks, from mode `m` to mode `n`. -/
inductive Respaced (g : Spacing) : Mode → List Char → List Char → List Char → Mode → Prop
  | nil {m : Mode} {after : List Char} : Respaced g m after [] [] m
  | keep {m n : Mode} {c : Char} {cs ds after : List Char} : Admits m (c :: (cs ++ after)) →
      Respaced g (m.step c) after cs ds n → Respaced g m after (c :: cs) (c :: ds) n
  | gap {k k' cs ds after : List Char} {n : Mode} : g.allows k k' (cs ++ after) →
      Respaced g .outside after cs ds n → Respaced g .outside after (k ++ cs) (k' ++ ds) n

theorem Respaced.append {l : Mode} {cs' ds' : List Char} (h : Respaced g m (cs' ++ after) cs ds n)
    (h' : Respaced g n after cs' ds' l) : Respaced g m after (cs ++ cs') (ds ++ ds') l := by
  generalize hrest : cs' ++ after = rest at h
  induction h with
  | nil => exact h'
  | keep hadmits _ ih =>
    subst hrest
    exact .keep (by simpa using hadmits) (ih h' rfl)
  | gap hgap _ ih =>
    subst hrest
    rw [List.append_assoc, List.append_assoc]
    exact .gap (by simpa using hgap) (ih h' rfl)

/-- **`Beside g cs ds`** -- a whole text, quotes closed at its end, beside its respaced form. -/
def Beside (g : Spacing) (cs ds : List Char) : Prop := Respaced g .outside [] cs ds .outside

theorem Beside.nil_iff (h : Beside g cs ds) : cs = [] ↔ ds = [] := by
  cases h with
  | nil => simp
  | keep => simp
  | gap hgap => simp [(g.filled hgap).1, (g.blank hgap).1]

/-- Where no filler begins, both texts show the same character. -/
theorem Beside.of_settled (h : Beside g (c :: cs) ds) (hsettled : Settled (c :: cs)) :
    ∃ ds', ds = c :: ds' ∧ Respaced g (Mode.step .outside c) [] cs ds' .outside := by
  generalize hsource : c :: cs = source at h
  cases h with
  | nil => cases hsource
  | keep _ hrest =>
    obtain ⟨rfl, rfl⟩ := List.cons.inj hsource
    exact ⟨_, rfl, hrest⟩
  | gap hgap _ =>
    obtain ⟨hne, hfilled⟩ := g.filled hgap
    rw [List.append_nil] at hfilled
    exact absurd (hfilled.eq_nil (hsource ▸ hsettled)) hne

/-! ## Tokens -/

/-- The character cannot begin filler or a quoted stretch. -/
def isToken (c : Char) : Bool := !isQuote c && !isFillerBlank c && c != '/'

theorem step_of_not_isQuote (h : isQuote c = false) : Mode.step .outside c = .outside := by
  simp [Mode.step, h]

theorem not_isFillerBlank_of_isQuote (h : isQuote c = true) : isFillerBlank c = false := by
  simp only [isQuote, Bool.or_eq_true, beq_iff_eq] at h
  rcases h with (rfl | rfl) | rfl <;> rfl

theorem step_of_isFillerBlank (h : isFillerBlank c = true) : Mode.step .outside c = .outside := by
  refine step_of_not_isQuote ?_
  simp only [isFillerBlank, Bool.or_eq_true, beq_iff_eq] at h
  rcases h with ((rfl | rfl) | rfl) | rfl <;> rfl

/-- Filler begins with a blank or with a comment. -/
theorem Filled.head (h : Filled fs after) (hne : fs ≠ []) :
    ∀ c ∈ (fs ++ after).head?, isFillerBlank c = true ∨ c = '/' ∧ commentSize (fs ++ after) ≠ 0 := by
  cases h with
  | nil => exact absurd rfl hne
  | blank hc =>
    intro d hd
    obtain rfl := Option.some.inj hd
    exact .inl hc
  | @comment k fs _ hk hsize =>
    intro c hc
    obtain ⟨d, k, rfl⟩ := List.exists_cons_of_ne_nil hk
    obtain rfl := Option.some.inj hc
    refine .inr ⟨?_, by rw [List.append_assoc, hsize]; simp⟩
    refine Decidable.byContradiction fun hslash => ?_
    rw [List.cons_append, commentSize_of_ne hslash] at hsize
    cases hsize

/-- Outside filler both texts show the same character. -/
theorem Beside.head {p : Char → Bool} (h : Beside g cs ds)
    (hp : ∀ c, p c = true → isToken c = true ∨ c = '/' ∧ commentSize cs = 0) :
    ((∀ c ∈ cs.head?, p c = false) ∧ ∀ d ∈ ds.head?, p d = false) ∨
      ∃ c cs' ds', cs = c :: cs' ∧ ds = c :: ds' ∧ p c = true ∧ Beside g cs' ds' ∧
        Respaced g .outside cs' [c] [c] .outside := by
  cases h with
  | nil => simp
  | @keep _ _ c cs ds _ hadmits hrest =>
    by_cases hc : p c = true
    · refine .inr ⟨c, cs, ds, rfl, rfl, hc, ?_⟩
      have hquote : isQuote c = false := by
        rcases hp c hc with hc | ⟨rfl, -⟩
        · simp only [isToken, Bool.and_eq_true, Bool.not_eq_true'] at hc
          exact hc.1.1
        · rfl
      rw [step_of_not_isQuote hquote] at hrest
      refine ⟨hrest, .keep (by simpa using hadmits) ?_⟩
      rw [step_of_not_isQuote hquote]
      exact .nil
    · exact .inl (by simpa using hc)
  | @gap k k' cs ds _ _ hgap _ =>
    obtain ⟨hne, hfilled⟩ := g.filled hgap
    obtain ⟨hne', hblank⟩ := g.blank hgap
    rw [List.append_nil] at hfilled
    have hno (c : Char) (hc : p c = true) : isFillerBlank c = false := by
      rcases hp c hc with hc | ⟨rfl, -⟩
      · simp only [isToken, Bool.and_eq_true, Bool.not_eq_true'] at hc
        exact hc.1.2
      · rfl
    refine .inl ⟨fun c hc => Bool.eq_false_iff.mpr fun htrue => ?_, fun d hd => ?_⟩
    · rcases hfilled.head hne c hc with hblank | ⟨rfl, hsize⟩
      · rw [hno c htrue] at hblank
        cases hblank
      · rcases hp '/' htrue with h | ⟨-, hzero⟩
        · cases h
        · exact hsize hzero
    · obtain ⟨b, k', rfl⟩ := List.exists_cons_of_ne_nil hne'
      obtain rfl := Option.some.inj hd
      refine Bool.eq_false_iff.mpr fun htrue => ?_
      have hb := hblank b (by simp)
      rw [hno b htrue] at hb
      cases hb

/-! ## Quoted stretches -/

/-- **`Inside q hidden body`** -- between marks `q` stands `body`, whose first character is hidden
by a backslash or not. -/
inductive Inside (q : Char) : Bool → List Char → Prop
  | nil : Inside q false []
  | hidden {c : Char} {body : List Char} : Inside q false body → Inside q true (c :: body)
  | escape {body : List Char} : q ≠ '`' → Inside q true body → Inside q false ('\\' :: body)
  | plain {c : Char} {body : List Char} : c ≠ q → (c = '\\' → q = '`') →
      (q = '`' → ∀ rest, opensComment (c :: (body ++ q :: rest)) = false) → Inside q false body →
      Inside q false (c :: body)

theorem opensComment_congr {c d : Char} (xs ys : List Char) :
    opensComment (c :: d :: xs) = opensComment (c :: d :: ys) := by
  unfold opensComment
  split <;> simp_all

/-- A quoted stretch that is closed is the same in both texts. -/
theorem Respaced.of_quoted {q : Char} {hidden : Bool} (hq : isQuote q = true)
    (h : Respaced g (.quoted q hidden) [] cs ds .outside) : ∃ body cs' ds', cs = body ++ q :: cs' ∧
      ds = body ++ q :: ds' ∧ Inside q hidden body ∧ Beside g cs' ds' ∧
        Respaced g (.quoted q hidden) cs' (body ++ [q]) (body ++ [q]) .outside := by
  generalize hm : Mode.quoted q hidden = m at h
  generalize hn : Mode.outside = n at h
  generalize hend : ([] : List Char) = after at h
  induction h generalizing hidden with
  | nil =>
    subst hn
    cases hm
  | gap => cases hm
  | @keep m n c cs ds _ hadmits hrest ih =>
    subst hm hn hend
    have kept {body cs' : List Char} (hcs : cs = body ++ q :: cs') :
        Admits (.quoted q hidden) (c :: ((body ++ [q]) ++ cs')) := by
      simpa [hcs] using hadmits
    cases hidden with
    | true =>
      obtain ⟨body, cs', ds', rfl, rfl, hbody, hbeside, hclears⟩ :=
        ih rfl rfl rfl
      exact ⟨c :: body, cs', ds', rfl, rfl, .hidden hbody, hbeside, .keep (kept rfl) hclears⟩
    | false =>
      by_cases hescape : c = '\\' ∧ q ≠ '`'
      · obtain ⟨rfl, hname⟩ := hescape
        have hstep : Mode.step (.quoted q false) '\\' = .quoted q true := by simp [Mode.step, hname]
        rw [hstep] at hrest ih
        obtain ⟨body, cs', ds', rfl, rfl, hbody, hbeside, hclears⟩ := ih rfl rfl rfl
        refine ⟨'\\' :: body, cs', ds', rfl, rfl, .escape hname hbody, hbeside, .keep (kept rfl) ?_⟩
        rwa [hstep]
      · by_cases hc : c = q
        · subst hc
          have hstep : Mode.step (.quoted c false) c = .outside := by
            have hne : c ≠ '\\' := by
              rintro rfl
              cases hq
            simp [Mode.step, hne]
          rw [hstep] at hrest
          refine ⟨[], cs, ds, rfl, rfl, .nil, hrest, .keep (by simpa using hadmits) ?_⟩
          rw [hstep]
          exact .nil
        · have hstep : Mode.step (.quoted q false) c = .quoted q false := by
            simp only [Mode.step]
            rw [if_neg (by simpa using hescape), if_neg hc]
          rw [hstep] at hrest ih
          obtain ⟨body, cs', ds', rfl, rfl, hbody, hbeside, hclears⟩ :=
            ih rfl rfl rfl
          refine ⟨c :: body, cs', ds', rfl, rfl, .plain hc ?_ ?_ hbody, hbeside, .keep (kept rfl) ?_⟩
          · exact fun hslash => Decidable.not_not.mp (not_and.mp hescape hslash)
          · rintro rfl rest
            have hopens := hadmits.name rfl
            rw [List.append_nil, List.append_cons, List.append_assoc] at hopens
            rw [← hopens]
            cases body with
            | nil => exact opensComment_congr _ _
            | cons d body => exact opensComment_congr _ _
          · rwa [hstep]

/-- A quote mark opens the same quoted stretch in both texts. -/
theorem Beside.of_quote {q : Char} (hq : isQuote q = true) (h : Beside g (q :: cs) ds) :
    ∃ body cs' ds', cs = body ++ q :: cs' ∧ ds = q :: (body ++ q :: ds') ∧ Inside q false body ∧
      Beside g cs' ds' ∧ Respaced g .outside cs' (q :: (body ++ [q])) (q :: (body ++ [q])) .outside := by
  have hsize : ∀ rest, commentSize (q :: rest) = 0 := fun rest => commentSize_of_ne (by
    rintro rfl
    cases hq)
  have hopen : Mode.step .outside q = .quoted q false := by simp [Mode.step, hq]
  have hsettled : Settled (q :: cs) := ⟨by simpa using not_isFillerBlank_of_isQuote hq, hsize _⟩
  obtain ⟨ds, rfl, hrest⟩ := h.of_settled hsettled
  rw [hopen] at hrest
  obtain ⟨body, cs', ds', rfl, rfl, hbody, hbeside, hclears⟩ := hrest.of_quoted hq
  refine ⟨body, cs', ds', rfl, rfl, hbody, hbeside, .keep ⟨fun _ => hsize _, ?_⟩ ?_⟩
  · intro h
    cases h
  · rwa [hopen]

/-! ## Filler -/

/-- A comment end in the respaced text stands in the text. -/
theorem Respaced.commentEnd_infix (h : Respaced g m after cs ds n) (hds : commentEnd <:+: ds) :
    commentEnd <:+: cs := by
  induction h with
  | nil => exact hds
  | @keep m n c cs ds after _ hrest ih =>
    rcases List.infix_cons_iff.mp hds with hds | hds
    · -- The star is kept, and the slash right behind it as well.
      obtain ⟨tail, htail⟩ := hds
      obtain ⟨rfl, hslash⟩ := List.cons.inj htail
      generalize Mode.step m '*' = later at hrest
      cases hrest with
      | nil => cases hslash
      | keep =>
        obtain ⟨rfl, -⟩ := List.cons.inj hslash
        exact ⟨[], _, rfl⟩
      | gap hgap =>
        obtain ⟨hne, hblank⟩ := g.blank hgap
        obtain ⟨b, k', rfl⟩ := List.exists_cons_of_ne_nil hne
        obtain ⟨rfl, -⟩ := List.cons.inj hslash
        cases hblank '/' (by simp)
    · exact List.infix_cons (ih hds)
  | @gap k k' cs ds after n hgap _ ih =>
    have hblank := (g.blank hgap).2
    clear hgap
    induction k' with
    | nil => exact (ih hds).trans (List.suffix_append k cs).isInfix
    | cons b k' ihk =>
      rcases List.infix_cons_iff.mp hds with ⟨tail, htail⟩ | hds
      · obtain ⟨rfl, -⟩ := List.cons.inj htail
        cases hblank '*' (by simp)
      · exact ihk hds fun c hc => hblank c (by simp [hc])

theorem splitOnce_eq_none_iff {mark : List Char} :
    splitOnce mark cs = none ↔ ¬ mark <:+: cs := by
  constructor
  · rintro hnone ⟨front, back, rfl⟩
    have hsome := isSome_splitOnce mark front back
    rw [← List.append_assoc, hnone] at hsome
    cases hsome
  · intro h
    cases hsplit : splitOnce mark cs with
    | none => rfl
    | some parts =>
      exact absurd ⟨parts.1, parts.2, by rw [splitOnce_eq_some hsplit, List.append_assoc]⟩ h

/-- Where the text is settled, its respaced form is. -/
theorem Beside.settled (h : Beside g cs ds) (hcs : Settled cs) : Settled ds := by
  cases cs with
  | nil =>
    obtain rfl := h.nil_iff.mp rfl
    exact hcs
  | cons c cs =>
    obtain ⟨ds, rfl, hrest⟩ := h.of_settled hcs
    refine ⟨hcs.inked, ?_⟩
    rcases Decidable.em (c = '/') with rfl | hc
    · have hbare := hcs.bare
      rw [show Mode.step .outside '/' = .outside from rfl] at hrest
      cases hrest with
      | nil => rfl
      | gap hgap =>
        obtain ⟨hne, hblank⟩ := g.blank hgap
        obtain ⟨b, k', rfl⟩ := List.exists_cons_of_ne_nil hne
        have hb := hblank b (by simp)
        unfold commentSize
        split <;> simp_all [isFillerBlank]
      | @keep _ _ d cs ds _ _ hrest =>
        have hline : d ≠ '/' := by
          rintro rfl
          simp [commentSize] at hbare
        rcases Decidable.em (d = '*') with rfl | hstar
        · -- Without an end in the text, there is none in the respaced text.
          have hunclosed : splitOnce commentEnd cs = none := by
            cases hsplit : splitOnce commentEnd cs with
            | none => rfl
            | some parts =>
              rw [commentSize_block hsplit] at hbare
              cases hbare
          have hend := splitOnce_eq_none_iff.mp hunclosed
          exact commentSize_unclosed (splitOnce_eq_none_iff.mpr fun h => hend (hrest.commentEnd_infix h))
        · unfold commentSize
          split <;> simp_all
    · exact commentSize_of_ne hc

/-- Filler stands beside filler, and what is behind it beside what is behind it. -/
theorem Beside.skip (h : Beside g (fs ++ cs) ds) (hfs : Filled fs cs) (hcs : Settled cs) :
    ∃ gs ds', ds = gs ++ ds' ∧ Filled gs ds' ∧ Respaced g .outside cs fs gs .outside ∧ Beside g cs ds' := by
  suffices hall : ∀ {m n after source ds}, Respaced g m after source ds n → m = .outside → n = .outside →
      after = [] → ∀ fs, source = fs ++ cs → Filled fs cs → ∃ gs ds', ds = gs ++ ds' ∧ Filled gs ds' ∧
        Respaced g .outside cs fs gs .outside ∧ Beside g cs ds' from hall h rfl rfl rfl fs rfl hfs
  clear h hfs
  intro m n after source ds h
  induction h with
  | nil =>
    rintro - - - fs hsource -
    obtain ⟨rfl, rfl⟩ := List.append_eq_nil_iff.mp hsource.symm
    exact ⟨[], [], rfl, .nil, .nil, .nil⟩
  | @keep m n c source ds after hadmits hrest ih =>
    rintro rfl rfl rfl fs hsource hfs
    rw [List.append_nil] at hadmits
    cases hfs with
    | nil =>
      refine ⟨[], c :: ds, rfl, .nil, .nil, ?_⟩
      rw [← show c :: source = cs from hsource]
      exact .keep (by simpa using hadmits) hrest
    | @blank _ fs _ hc hfs =>
      obtain ⟨rfl, rfl⟩ := List.cons.inj hsource
      have hstep : Mode.step .outside c = .outside := step_of_isFillerBlank hc
      obtain ⟨gs, ds', rfl, hgs, hrespaced, hbeside⟩ := ih hstep rfl rfl fs rfl hfs
      exact ⟨c :: gs, ds', rfl, .blank hc hgs, .keep hadmits (by rwa [hstep]), hbeside⟩
    | comment hne hsize =>
      have hzero := hadmits.outside rfl
      rw [hsource, List.append_assoc, hsize] at hzero
      exact absurd (List.length_eq_zero_iff.mp hzero) hne
  | @gap k k' source ds after n hgap hrest ih =>
    rintro - rfl rfl fs hsource hfs
    obtain ⟨-, hfilled⟩ := g.filled hgap
    obtain ⟨-, hblank⟩ := g.blank hgap
    rw [List.append_nil] at hfilled
    obtain ⟨more, rfl, rfl, hmore⟩ := hfilled.drop hfs hcs hsource.symm
    obtain ⟨gs, ds', rfl, hgs, hrespaced, hbeside⟩ := ih rfl rfl rfl more rfl hmore
    rw [List.append_nil] at hgap
    exact ⟨k' ++ gs, ds', (List.append_assoc _ _ _).symm, (filled_of_blanks hblank).append hgs,
      .gap hgap hrespaced, hbeside⟩

end QueryScore.Cypher
