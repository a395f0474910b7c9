/-
# QueryScore.Proofs.Cypher.Cleared -- a query with one space for each comment

Here every comment of a text becomes a single space (`cleared`). A text goes beside its cleared form
(`clears_clearFrom`): a character outside comments stands for itself, a comment for its space, and a
stretch without comments stays as it is (`Clears.eq_of_commentless`).

So an accepted text stays accepted, and its tree stays the same but for the comments in it
(`parse_cleared`): the guard counts what it counts with blanks for comments (`nesting_cleared`), and the
fuel lasts for every text.
-/

import QueryScore.Proofs.Cypher.Guard
import QueryScore.Proofs.Cypher.Lockstep

namespace QueryScore.Cypher

open Text Grammar Peg

/-! ## One space for each comment -/

/-- The text with a space for each comment, from a place on where `hidden` more characters belong
to a comment that has its space. -/
def clearFrom (hidden : Nat) (m : Mode) : List Char → List Char
  | [] => []
  | c :: cs =>
    match hidden with
    | more + 1 => clearFrom more m cs
    | 0 =>
      match (if m = .outside then commentSize (c :: cs) else 0) with
      | 0 => c :: clearFrom 0 (m.step c) cs
      | more + 1 => ' ' :: clearFrom more m cs

/-- The text with a single space for each comment. -/
def cleared (cs : List Char) : List Char := clearFrom 0 .outside cs

/-- From mode `m` on, nothing between back quotes looks like a comment. -/
def hasBareNames (m : Mode) : List Char → Bool
  | [] => true
  | c :: cs => !(m == .quoted '`' false && opensComment (c :: cs)) && hasBareNames (m.step c) cs

variable {m n : Mode} {c : Char} {cs ds after : List Char}

theorem clearFrom_keep (h : m = .outside → commentSize (c :: cs) = 0) :
    clearFrom 0 m (c :: cs) = c :: clearFrom 0 (m.step c) cs := by
  have hsize : (if m = .outside then commentSize (c :: cs) else 0) = 0 := by
    split
    · rename_i hm
      exact h hm
    · rfl
  rw [clearFrom, hsize]

theorem clearFrom_hidden (k cs : List Char) : clearFrom k.length m (k ++ cs) = clearFrom 0 m cs := by
  induction k with
  | nil => rfl
  | cons c k ih => exact ih

theorem clearFrom_comment {k : List Char} (hne : k ≠ []) (h : commentSize (k ++ cs) = k.length) :
    clearFrom 0 .outside (k ++ cs) = ' ' :: clearFrom 0 .outside cs := by
  obtain ⟨c, k, rfl⟩ := List.exists_cons_of_ne_nil hne
  rw [List.cons_append] at h
  rw [List.cons_append, clearFrom, if_pos rfl, h]
  exact congrArg (' ' :: ·) (clearFrom_hidden k cs)

/-! ## A text beside its cleared form -/

/-- **`Clears m after cs ds n`** -- before `after`, the stretch `cs` becomes `ds` when its comments
are cleared, from mode `m` to mode `n`. -/
abbrev Clears : Mode → List Char → List Char → List Char → Mode → Prop := Respaced clearing

theorem Clears.comment {k : List Char} (hne : k ≠ []) (hsize : commentSize (k ++ (cs ++ after)) = k.length)
    (h : Clears .outside after cs ds n) : Clears .outside after (k ++ cs) (' ' :: ds) n :=
  Respaced.gap (g := clearing) ⟨rfl, hne, hsize⟩ h

/-- A text whose names are bare goes beside its cleared form. -/
theorem clears_clearFrom (m : Mode) (cs : List Char) : hasBareNames m (uncommentFrom 0 m cs) = true →
    Clears m [] cs (clearFrom 0 m cs) (modeAfter m (uncommentFrom 0 m cs)) := by
  refine induction_on_comments (P := fun m cs => hasBareNames m (uncommentFrom 0 m cs) = true →
    Clears m [] cs (clearFrom 0 m cs) (modeAfter m (uncommentFrom 0 m cs))) (fun m _ => .nil)
    (fun m c cs hkeep ih hnames => ?_) (fun k cs hne hsize ih hnames => ?_) m cs
  · rw [uncommentFrom_keep hkeep] at hnames ⊢
    rw [clearFrom_keep hkeep]
    simp only [hasBareNames, Bool.and_eq_true, Bool.not_eq_true', Bool.and_eq_false_iff,
      beq_eq_false_iff_ne, ne_eq] at hnames
    refine .keep ⟨by simpa using hkeep, fun hm => ?_⟩ (ih hnames.2)
    -- A slash between back quotes leads to a character between back quotes, which is kept.
    subst hm
    have hopens := hnames.1.resolve_left (by simp)
    rw [List.append_nil]
    by_cases hc : c = '/'
    · subst hc
      cases cs with
      | nil => rfl
      | cons d cs =>
        have hmode : Mode.step (.quoted '`' false) '/' = .quoted '`' false := by decide
        rw [hmode, uncommentFrom_keep (by simp)] at hopens
        unfold opensComment at hopens ⊢
        split at hopens <;> simp_all
    · unfold opensComment
      split <;> simp_all
  · have hbare : uncommentFrom 0 .outside (k ++ cs) =
        List.replicate k.length ' ' ++ uncommentFrom 0 .outside cs :=
      uncommented_of_commentSize hne hsize
    have hmode (size : Nat) : modeAfter .outside (List.replicate size ' ') = .outside := by
      induction size with
      | zero => rfl
      | succ size ih => exact ih
    have hrest : ∀ size, hasBareNames .outside
        (List.replicate size ' ' ++ uncommentFrom 0 .outside cs) = true →
        hasBareNames .outside (uncommentFrom 0 .outside cs) = true := by
      intro size h
      induction size with
      | zero => exact h
      | succ size ih => exact ih ((Bool.and_eq_true _ _).mp h).2
    rw [hbare] at hnames ⊢
    rw [clearFrom_comment hne hsize, modeAfter_append, hmode]
    exact Clears.comment hne (by simpa using hsize) (ih (hrest _ hnames))

theorem commentSize_append_eq_zero (h : commentSize (cs ++ after) = 0) : commentSize cs = 0 := by
  unfold commentSize at h ⊢
  split
  · simp at h
  · rename_i body
    have hunclosed : splitOnce commentEnd (body ++ after) = none := by
      cases hsplit : splitOnce commentEnd (body ++ after) with
      | none => rfl
      | some parts =>
        simp only [List.cons_append] at h
        rw [show ['*', '/'] = commentEnd from rfl, hsplit] at h
        simp at h
    cases hsplit : splitOnce commentEnd body with
    | none =>
      rw [show ['*', '/'] = commentEnd from rfl, hsplit]
    | some parts =>
      have hbody := splitOnce_eq_some hsplit
      have hsome := isSome_splitOnce commentEnd parts.1 (parts.2 ++ after)
      rw [hbody, List.append_assoc, List.append_assoc] at hunclosed
      rw [hunclosed] at hsome
      cases hsome
  · rfl

/-- What is found first is found first whatever follows it. -/
theorem splitOnce_local {mark inside rest : List Char} (hne : mark ≠ [])
    (h : splitOnce mark cs = some (inside, rest)) (ds : List Char) :
    splitOnce mark (inside ++ (mark ++ ds)) = some (inside, ds) := by
  have hhead (ds : List Char) : stripStart mark (mark ++ ds) = some ds := stripStart_eq_some.mpr rfl
  induction cs generalizing inside with
  | nil =>
    obtain ⟨rest, hstrip, -⟩ := Option.map_eq_some_iff.mp h
    exact absurd (List.append_eq_nil_iff.mp (stripStart_eq_some.mp hstrip).symm).1 hne
  | cons c cs ih =>
    have hsplit := splitOnce_eq_some h
    rw [splitOnce] at h
    split at h
    · obtain ⟨rfl, -⟩ := Prod.mk.inj (Option.some.inj h)
      obtain ⟨m, mark, rfl⟩ := List.exists_cons_of_ne_nil hne
      rw [List.nil_append, List.cons_append, splitOnce, ← List.cons_append, hhead]
    · rename_i hnone
      obtain ⟨⟨inside, rest⟩, hfound, heq⟩ := Option.map_eq_some_iff.mp h
      obtain ⟨rfl, rfl⟩ := Prod.mk.inj heq
      have hlater : stripStart mark (c :: (inside ++ (mark ++ ds))) = none := by
        refine Option.eq_none_iff_forall_ne_some.mpr fun more hmore => ?_
        -- The mark would stand at the front already, as it ends no later than the found one.
        have hlong : mark <+: (c :: inside) ++ mark := by
          refine List.prefix_of_prefix_length_le ⟨more, (stripStart_eq_some.mp hmore).symm⟩
            ⟨ds, by simp⟩ ?_
          rw [List.length_append]
          exact Nat.le_add_left _ _
        have hfront : mark <+: c :: cs := hlong.trans ⟨rest, by rw [hsplit, List.append_assoc]⟩
        obtain ⟨more, hmore⟩ := hfront
        rw [stripStart_eq_some.mpr hmore.symm] at hnone
        cases hnone
      rw [List.cons_append, splitOnce, hlater, ih hfound]
      rfl

/-- A comment is the same whatever follows it. -/
theorem commentSize_left {k : List Char} (hne : k ≠ [])
    (h : commentSize (k ++ (cs ++ after)) = k.length) : commentSize (k ++ cs) = k.length := by
  obtain ⟨c, d, k, rfl⟩ : ∃ c d k', k = c :: d :: k' := by
    match k with
    | [] => exact absurd rfl hne
    | [c] =>
      unfold commentSize at h
      split at h
      · simp at h
      · split at h <;> simp at h
      · simp at h
    | c :: d :: k => exact ⟨c, d, k, rfl⟩
  simp only [List.cons_append] at h ⊢
  obtain rfl : c = '/' := by
    refine Decidable.byContradiction fun hc => ?_
    rw [commentSize_of_ne hc] at h
    cases h
  by_cases hline : d = '/'
  · subst hline
    simp only [commentSize, List.length_cons, Nat.add_right_cancel_iff] at h ⊢
    generalize (fun c => !endsLine c) = p at h ⊢
    -- The line ends behind the comment, or the text does.
    have hall : (k ++ (cs ++ after)).takeWhile p = k :=
      (List.prefix_of_prefix_length_le (List.takeWhile_prefix p) (List.prefix_append _ _)
        (Nat.le_of_eq h)).eq_of_length h
    have hk : ∀ c ∈ k, p c = true := fun c hc => List.all_eq_true.mp List.all_takeWhile c (by rwa [hall])
    rw [List.takeWhile_append_of_pos hk] at hall ⊢
    have hstop := List.append_right_eq_self.mp hall
    cases cs with
    | nil => simp
    | cons c cs =>
      rw [List.cons_append, List.takeWhile_cons] at hstop
      rw [List.takeWhile_cons]
      split at hstop
      · cases hstop
      · rename_i hc
        rw [if_neg hc, List.append_nil]
  by_cases hstar : d = '*'
  · subst hstar
    cases hsplit : splitOnce commentEnd (k ++ (cs ++ after)) with
    | none =>
      rw [commentSize_unclosed hsplit] at h
      cases h
    | some parts =>
      obtain ⟨inside, rest⟩ := parts
      rw [commentSize_block hsplit] at h
      have hsize : (inside ++ commentEnd).length = k.length := by
        simp only [List.length_cons] at h
        simp [commentEnd]
        omega
      have hbody : k ++ (cs ++ after) = (inside ++ commentEnd) ++ rest := by
        rw [splitOnce_eq_some hsplit, List.append_assoc]
      obtain ⟨rfl, -⟩ := List.append_inj hbody hsize.symm
      have hfound := splitOnce_local (by decide) hsplit cs
      rw [List.append_assoc, commentSize_block hfound, h]
  · unfold commentSize at h
    split at h <;> simp_all

/-- A stretch without comments stays as it is. -/
theorem Clears.eq_of_commentless (h : Clears m after cs ds n) (hnone : commentsFrom 0 m cs = []) :
    ds = cs := by
  induction h with
  | nil => rfl
  | @keep m n c cs ds after hadmits _ ih =>
    rw [commentsFrom_keep fun hm => commentSize_append_eq_zero (hadmits.outside hm)] at hnone
    rw [ih hnone]
  | gap hgap _ _ =>
    obtain ⟨-, hne, hsize⟩ := hgap
    rw [commentsFrom_comment hne (commentSize_left hne hsize)] at hnone
    exact absurd (List.append_eq_nil_iff.mp hnone).1 hne

/-- A character before which no comment begins stands in both texts. -/
theorem Clears.of_kept (h : Clears m [] (c :: cs) ds n) (hkeep : m = .outside → commentSize (c :: cs) = 0) :
    ∃ ds', ds = c :: ds' ∧ Clears (m.step c) [] cs ds' n := by
  generalize hsource : c :: cs = source at h
  cases h with
  | nil => cases hsource
  | keep _ hrest =>
    obtain ⟨rfl, rfl⟩ := List.cons.inj hsource
    exact ⟨_, rfl, hrest⟩
  | gap hgap _ =>
    obtain ⟨-, hne, hcomment⟩ := hgap
    rw [List.append_nil, ← hsource, hkeep rfl] at hcomment
    exact absurd (List.length_eq_zero_iff.mp hcomment.symm) hne

/-- The second text is the first, unless that holds comments. -/
def SameBare (xs ys : List Char) : Prop := commentCharacters xs = [] → ys = xs

/-! ## The guard -/

/-- **`Squeezes bs cs`** -- `cs` is `bs` with some runs of spaces made one space. -/
inductive Squeezes : List Char → List Char → Prop
  | nil : Squeezes [] []
  | keep (c : Char) {bs cs : List Char} : Squeezes bs cs → Squeezes (c :: bs) (c :: cs)
  | spaces (more : Nat) {bs cs : List Char} : Squeezes bs cs →
      Squeezes (List.replicate (more + 1) ' ' ++ bs) (' ' :: cs)

theorem squeezes_cleared (m : Mode) (cs : List Char) :
    Squeezes (uncommentFrom 0 m cs) (clearFrom 0 m cs) := by
  refine induction_on_comments (P := fun m cs => Squeezes (uncommentFrom 0 m cs) (clearFrom 0 m cs))
    (fun m => .nil) (fun m c cs hkeep ih => ?_) (fun k cs hne hsize ih => ?_) m cs
  · rw [uncommentFrom_keep hkeep, clearFrom_keep hkeep]
    exact .keep c ih
  · obtain ⟨more, hmore⟩ := Nat.exists_eq_succ_of_ne_zero (mt List.length_eq_zero_iff.mp hne)
    have hbare : uncommentFrom 0 .outside (k ++ cs) = _ := uncommented_of_commentSize hne hsize
    rw [hbare, clearFrom_comment hne hsize, hmore]
    exact .spaces more ih

/-- Spaces open no bracket, however many they are. -/
theorem deepest_clearFrom (m : Mode) (cs : List Char) : ∀ depth,
    Scanner.deepest ⟨m, depth⟩ (clearFrom 0 m cs) =
      Scanner.deepest ⟨m, depth⟩ (uncommentFrom 0 m cs) := by
  refine induction_on_comments (P := fun m cs => ∀ depth, Scanner.deepest ⟨m, depth⟩ (clearFrom 0 m cs) =
    Scanner.deepest ⟨m, depth⟩ (uncommentFrom 0 m cs)) (fun m depth => rfl)
    (fun m c cs hkeep ih depth => ?_) (fun k cs hne hsize ih depth => ?_) m cs
  · rw [uncommentFrom_keep hkeep, clearFrom_keep hkeep]
    exact congrArg (max depth) (ih _)
  · have hbare : uncommentFrom 0 .outside (k ++ cs) = _ := uncommented_of_commentSize hne hsize
    have hspace := deepest_append ⟨.outside, depth⟩ [' '] (clearFrom 0 .outside cs)
    rw [hbare, clearFrom_comment hne hsize, deepest_append, deepest_blanks, run_blanks]
    rw [List.singleton_append] at hspace
    rw [hspace, show [' '] = List.replicate 1 ' ' from rfl, deepest_blanks, run_blanks]
    exact congrArg (max depth) (ih depth)

section Squeezes

variable {bs cs word : List Char} {w : Char}

theorem Squeezes.strips (h : Squeezes bs cs) (hword : ∀ w ∈ word, foldsTo w ' ' = false) :
    ((stripFolded word cs).any fun rest => isOpenSide rest.head?) =
      (stripFolded word bs).any fun rest => isOpenSide rest.head? := by
  induction word generalizing bs cs with
  | nil =>
    cases h with
    | nil | keep => rfl
    | spaces => rfl
  | cons w word ih =>
    cases h with
    | nil => rfl
    | keep c hrest =>
      rw [stripFolded, stripFolded]
      split
      · exact ih hrest fun v hv => hword v (by simp [hv])
      · rfl
    | spaces more =>
      have hblank := hword w (by simp)
      rw [List.replicate_succ, List.cons_append, stripFolded, stripFolded, hblank]
      rfl

theorem Squeezes.countWordFrom (h : Squeezes bs cs)
    (hword : ∀ v ∈ w :: word, foldsTo v ' ' = false) (before : Option Char) :
    countWordFrom (w :: word) before cs = countWordFrom (w :: word) before bs := by
  induction h generalizing before with
  | nil => rfl
  | keep c hrest ih =>
    rw [Text.countWordFrom, Text.countWordFrom, ih, wordAt, wordAt,
      Squeezes.strips (.keep c hrest) hword]
  | @spaces more bs cs hrest ih =>
    have hblank := hword w (by simp)
    rw [countWordFrom_blanks hblank, ← ih]
    exact countWordFrom_blanks hblank before 0 cs

end Squeezes

/-- The guard counts on the cleared text what it counts on the text with blanks for comments. -/
theorem nesting_cleared (source : List Char) : nesting (cleared source) = nesting (uncommented source) := by
  have h := squeezes_cleared .outside source
  have hblank : ∀ v ∈ "case".toList, foldsTo v ' ' = false := by
    have hall : ("case".toList.all fun v => !foldsTo v ' ') = true := by decide
    simpa only [List.all_eq_true, Bool.not_eq_true'] using hall
  have hdepth : maxNestingDepth (cleared source) = maxNestingDepth (uncommented source) :=
    deepest_clearFrom .outside source 0
  have hwords : countWord "case".toList (cleared source) = countWord "case".toList (uncommented source) :=
    h.countWordFrom hblank none
  rw [nesting, nesting, hdepth, hwords]

/-! ## The tree -/

/-- An accepted text goes beside its cleared form. -/
theorem beside_cleared {source : List Char} {tree : Tree Rule} (h : parse source = .ok tree)
    (hnames : hasBareNames .outside (uncommented source) = true) : Beside clearing source (cleared source) := by
  have hclears := clears_clearFrom .outside source hnames
  rw [show uncommentFrom 0 .outside source = uncommented source from rfl, closed_of_parse h] at hclears
  exact hclears

/-- **A text stays accepted without its comments, and its tree stays the same but for them**, if it
is not too deep for the guard then and no name holds what looks like a comment. -/
theorem parse_cleared {source : List Char} {tree : Tree Rule} (h : parse source = .ok tree)
    (hdepth : nesting (uncommented source) ≤ maxNesting)
    (hnames : hasBareNames .outside (uncommented source) = true) :
    ∃ tree', parse (cleared source) = .ok tree' ∧ Similar SameBare tree tree' := by
  have hguard : nesting (cleared source) ≤ maxNesting := by
    rwa [nesting_cleared]
  obtain ⟨tree', hparse, hsimilar⟩ := parse_beside h (beside_cleared h hnames) hguard
  exact ⟨tree', hparse, hsimilar.mono fun _ _ ⟨_, hclears⟩ => Clears.eq_of_commentless hclears⟩

end QueryScore.Cypher
