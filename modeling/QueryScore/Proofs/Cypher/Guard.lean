/-
# QueryScore.Proofs.Cypher.Guard -- where the guard bounds the nesting of a tree

The guard scans the raw text, comments included. A quote mark in a comment hides what follows it,
and a closing bracket in a comment closes a bracket that the grammar keeps open; any other
comment leaves the count where it is or raises it (`nesting_uncommented_le`). So the guard bounds
the levels of every accepted tree where no comment holds such a character, and one quote mark in
one comment is enough to let a tree pass that is too deep.
-/

import QueryScore.Proofs.Cypher.Nesting

namespace QueryScore.Cypher

open Text

/-! ## The characters of comments -/

/-- The characters in comments, from a place on where `hidden` more of them belong to one. -/
def commentsFrom (hidden : Nat) (m : Mode) : List Char → List Char
  | [] => []
  | c :: cs =>
    match (if hidden = 0 ∧ m = .outside then commentSize (c :: cs) else hidden) with
    | 0 => commentsFrom 0 (m.step c) cs
    | more + 1 => c :: commentsFrom more m cs

/-- The characters of a text that stand in comments. -/
def commentCharacters (cs : List Char) : List Char := commentsFrom 0 .outside cs

/-- **`Uncomments m cs bare hidden`** -- from mode `m` on, a text, its comment-free form and the
characters of its comments, comment by comment. -/
inductive Uncomments : Mode → List Char → List Char → List Char → Prop
  | nil {m} : Uncomments m [] [] []
  | keep {m c cs bare hidden} : (m = .outside → commentSize (c :: cs) = 0) →
      Uncomments (m.step c) cs bare hidden → Uncomments m (c :: cs) (c :: bare) hidden
  | comment {cs rest bare hidden} : cs.head? = some '/' →
      cs.getLast? = some '/' ∨ (∀ c ∈ rest.head?, endsLine c = true) →
      Uncomments .outside rest bare hidden →
      Uncomments .outside (cs ++ rest) (List.replicate cs.length ' ' ++ bare) (cs ++ hidden)

theorem commentsFrom_hidden {m : Mode} {cs after : List Char} :
    commentsFrom cs.length m (cs ++ after) = cs ++ commentsFrom 0 m after := by
  induction cs with
  | nil => rfl
  | cons c cs ih =>
    rw [List.cons_append, commentsFrom, if_neg (by simp)]
    simp only [List.length_cons, List.cons_append, List.cons.injEq, true_and]
    exact ih

/-- A comment begins with a slash; it ends with one, or where the line ends. -/
theorem exists_comment {cs : List Char} {size : Nat} (h : commentSize cs = size + 1) :
    ∃ comment rest, cs = comment ++ rest ∧ comment.length = size + 1 ∧
      comment.head? = some '/' ∧
        (comment.getLast? = some '/' ∨ ∀ c ∈ rest.head?, endsLine c = true) := by
  unfold commentSize at h
  split at h
  · rename_i body
    refine ⟨'/' :: '/' :: body.takeWhile fun c => !endsLine c,
      body.dropWhile fun c => !endsLine c, by simp, by simpa using h, rfl, .inr ?_⟩
    intro c hc
    have hdrop := List.head?_dropWhile_not (fun c => !endsLine c) body
    rw [Option.mem_def.mp hc] at hdrop
    simpa using hdrop
  · rename_i body
    split at h
    · rename_i inside rest hsplit
      have hbody := splitOnce_eq_some hsplit
      refine ⟨'/' :: '*' :: (inside ++ ['*', '/']), rest, by simp [hbody], by simpa using h, rfl,
        .inl ?_⟩
      rw [show '/' :: '*' :: (inside ++ ['*', '/']) = ('/' :: '*' :: (inside ++ ['*'])) ++ ['/'] by
        simp]
      exact List.getLast?_concat
    · cases h
  · cases h

variable {m : Mode} {c : Char} {cs : List Char}

/-- What holds of the end of a text, and before each kept character and each comment if it holds
behind, holds of every text. -/
theorem induction_on_comments {P : Mode → List Char → Prop} (hnil : ∀ m, P m [])
    (hkeep : ∀ m c cs, (m = .outside → commentSize (c :: cs) = 0) → P (m.step c) cs → P m (c :: cs))
    (hcomment : ∀ k cs, k ≠ [] → commentSize (k ++ cs) = k.length → P .outside cs →
      P .outside (k ++ cs)) (m : Mode) (cs : List Char) : P m cs := by
  -- A comment is passed in one step, so the induction is on the length.
  induction hsize : cs.length using Nat.strongRecOn generalizing m cs with
  | ind size ih =>
    cases cs with
    | nil => exact hnil m
    | cons c cs =>
      by_cases hc : m = .outside ∧ commentSize (c :: cs) ≠ 0
      · obtain ⟨rfl, hc⟩ := hc
        obtain ⟨more, hmore⟩ := Nat.exists_eq_succ_of_ne_zero hc
        obtain ⟨k, rest, hsplit, hlength, -, -⟩ := exists_comment hmore
        rw [hsplit] at hmore ⊢
        have hne : k ≠ [] := by
          rintro rfl
          cases hlength
        refine hcomment k rest hne (hmore.trans hlength.symm) (ih rest.length ?_ _ _ rfl)
        rw [← hsize, hsplit, List.length_append, hlength]
        omega
      · refine hkeep m c cs (fun hm => ?_) (ih cs.length ?_ _ _ rfl)
        · exact Decidable.not_not.mp (not_and.mp hc hm)
        · rw [← hsize]
          exact Nat.lt_succ_self _

theorem commentsFrom_keep (h : m = .outside → commentSize (c :: cs) = 0) :
    commentsFrom 0 m (c :: cs) = commentsFrom 0 (m.step c) cs := by
  have hsize : (if 0 = 0 ∧ m = .outside then commentSize (c :: cs) else 0) = 0 := by
    split
    · rename_i hm
      exact h hm.2
    · rfl
  rw [commentsFrom, hsize]

theorem commentsFrom_comment {k : List Char} (hne : k ≠ []) (h : commentSize (k ++ cs) = k.length) :
    commentsFrom 0 .outside (k ++ cs) = k ++ commentsFrom 0 .outside cs := by
  obtain ⟨c, k, rfl⟩ := List.exists_cons_of_ne_nil hne
  rw [List.cons_append] at h
  rw [List.cons_append, commentsFrom, if_pos ⟨rfl, rfl⟩, h, List.cons_append, ← commentsFrom_hidden]
  rfl

/-- Every text is taken apart so. -/
theorem uncomments (m : Mode) (cs : List Char) :
    Uncomments m cs (uncommentFrom 0 m cs) (commentsFrom 0 m cs) := by
  refine induction_on_comments (P := fun m cs => Uncomments m cs (uncommentFrom 0 m cs)
    (commentsFrom 0 m cs)) (fun _ => .nil) (fun m c cs hkeep ih => ?_) (fun k cs hne hsize ih => ?_) m cs
  · rw [uncommentFrom_keep hkeep, commentsFrom_keep hkeep]
    exact .keep hkeep ih
  · obtain ⟨more, hmore⟩ := Nat.exists_eq_succ_of_ne_zero (mt List.length_eq_zero_iff.mp hne)
    obtain ⟨comment, rest, hsplit, hlength, hhead, hlast⟩ := exists_comment (hsize.trans hmore)
    obtain ⟨rfl, rfl⟩ := List.append_inj hsplit (hmore.trans hlength.symm)
    have hbare : uncommentFrom 0 .outside (k ++ cs) = _ := uncommented_of_commentSize hne hsize
    rw [hbare, commentsFrom_comment hne hsize]
    exact .comment hhead hlast ih

/-- A text without comments is its own comment-free form. -/
theorem Uncomments.eq_of_nil {m : Mode} {cs bare hidden : List Char}
    (h : Uncomments m cs bare hidden) (hhidden : hidden = []) : bare = cs := by
  induction h with
  | nil => rfl
  | keep _ _ ih => rw [ih hhidden]
  | @comment cs rest bare hidden hhead =>
    -- A comment has at least the slash it begins with.
    obtain ⟨rfl, -⟩ := List.append_eq_nil_iff.mp hhidden
    cases hhead

theorem uncommented_of_commentless {source : List Char} (h : commentCharacters source = []) :
    uncommented source = source :=
  (uncomments .outside source).eq_of_nil h

/-! ## What the guard counts with and without comments -/

/-- The character leaves a scan outside quotes and at least as deep. -/
def isHarmless (c : Char) : Bool := !isQuote c && !isClosing c

theorem deepest_mono {m : Mode} {low high : Nat} {cs : List Char} (h : low ≤ high) :
    Scanner.deepest ⟨m, low⟩ cs ≤ Scanner.deepest ⟨m, high⟩ cs := by
  induction cs generalizing m low high with
  | nil => exact h
  | cons c cs ih =>
    have hstep : (Scanner.step ⟨m, low⟩ c).depth ≤ (Scanner.step ⟨m, high⟩ c).depth := by
      simp only [Scanner.step, depthAfter]
      repeat' split
      all_goals omega
    have hrest := ih (m := m.step c) hstep
    show max low _ ≤ max high _
    exact Nat.max_le.mpr ⟨Nat.le_trans h (Nat.le_max_left _ _),
      Nat.le_trans hrest (Nat.le_max_right _ _)⟩

theorem run_of_harmless {depth : Nat} {cs : List Char} (h : ∀ c ∈ cs, isHarmless c = true) :
    ∃ more, Scanner.run ⟨.outside, depth⟩ cs = ⟨.outside, depth + more⟩ := by
  induction cs generalizing depth with
  | nil => exact ⟨0, rfl⟩
  | cons c cs ih =>
    have hc := h c (by simp)
    simp only [isHarmless, Bool.and_eq_true, Bool.not_eq_true'] at hc
    obtain ⟨hquote, hclose⟩ := hc
    have hrest (d : Nat) : ∃ more, Scanner.run ⟨.outside, d⟩ cs = ⟨.outside, d + more⟩ :=
      ih fun d hd => h d (by simp [hd])
    show ∃ more, Scanner.run (Scanner.step ⟨.outside, depth⟩ c) cs = _
    by_cases hopen : isOpening c = true
    · obtain ⟨more, hmore⟩ := hrest (depth + 1)
      refine ⟨more + 1, ?_⟩
      simp only [Scanner.step, Mode.step, Mode.shows, depthAfter, hquote, hopen]
      simpa [Nat.add_comm, Nat.add_left_comm] using hmore
    · obtain ⟨more, hmore⟩ := hrest depth
      refine ⟨more, ?_⟩
      simpa [Scanner.step, Mode.step, Mode.shows, depthAfter, hquote, hopen, hclose] using hmore

theorem run_blanks (depth size : Nat) :
    Scanner.run ⟨.outside, depth⟩ (List.replicate size ' ') = ⟨.outside, depth⟩ := by
  induction size with
  | zero => rfl
  | succ size ih => exact ih

theorem deepest_blanks (depth size : Nat) :
    Scanner.deepest ⟨.outside, depth⟩ (List.replicate size ' ') = depth := by
  induction size with
  | zero => rfl
  | succ size ih =>
    show max depth (Scanner.deepest ⟨.outside, depth⟩ (List.replicate size ' ')) = depth
    rw [ih, Nat.max_self]

/-- Comments without quotes and closing brackets hide no depth. -/
theorem deepest_uncommented_le {m : Mode} {depth : Nat} {cs bare hidden : List Char}
    (h : Uncomments m cs bare hidden) (hidden_harmless : ∀ c ∈ hidden, isHarmless c = true) :
    Scanner.deepest ⟨m, depth⟩ bare ≤ Scanner.deepest ⟨m, depth⟩ cs := by
  induction h generalizing depth with
  | nil => exact Nat.le_refl _
  | @keep m c cs bare hidden _ _ ih =>
    have hrest : Scanner.deepest (Scanner.step ⟨m, depth⟩ c) bare ≤
        Scanner.deepest (Scanner.step ⟨m, depth⟩ c) cs := ih hidden_harmless
    show max depth _ ≤ max depth _
    exact Nat.max_le.mpr ⟨Nat.le_max_left _ _, Nat.le_trans hrest (Nat.le_max_right _ _)⟩
  | @comment cs rest bare hidden hhead _ _ ih =>
    obtain ⟨more, hmore⟩ : ∃ more, Scanner.run ⟨.outside, depth⟩ cs = ⟨.outside, depth + more⟩ :=
      run_of_harmless fun c hc => hidden_harmless c (by simp [hc])
    have hrest : Scanner.deepest ⟨.outside, depth⟩ bare ≤ Scanner.deepest ⟨.outside, depth⟩ rest :=
      ih fun c hc => hidden_harmless c (by simp [hc])
    -- The comment may only have opened brackets, so the rest starts at least as deep.
    have hraise : Scanner.deepest ⟨.outside, depth⟩ rest ≤
        Scanner.deepest ⟨.outside, depth + more⟩ rest := deepest_mono (Nat.le_add_right _ _)
    rw [deepest_append, deepest_append, deepest_blanks, run_blanks, hmore]
    have hstart := depth_le_deepest ⟨.outside, depth⟩ cs
    simp only at hstart
    omega

theorem stripFolded_uncomments {word : List Char} (hword : ∀ w ∈ word, foldsTo w ' ' = false)
    {m : Mode} {cs bare hidden restBare : List Char} (h : Uncomments m cs bare hidden)
    (hstrip : stripFolded word bare = some restBare) :
    ∃ rest, stripFolded word cs = some rest ∧
      (isOpenSide restBare.head? = true → isOpenSide rest.head? = true) := by
  induction word generalizing m cs bare hidden with
  | nil =>
    obtain rfl := Option.some.inj hstrip
    refine ⟨cs, rfl, fun hopen => ?_⟩
    -- A comment behind the word begins with a slash, which ends a word as a blank does.
    cases h with
    | nil => rfl
    | keep => exact hopen
    | comment hhead _ _ =>
      rw [List.head?_append, hhead, Option.some_or]
      decide
  | cons w word ih =>
    cases h with
    | nil => cases hstrip
    | @keep _ c cs bare hidden _ hrest =>
      simp only [stripFolded] at hstrip ⊢
      split at hstrip
      · rename_i hfold
        rw [if_pos hfold]
        exact ih (fun v hv => hword v (by simp [hv])) hrest hstrip
      · cases hstrip
    | @comment cs rest bare hidden hhead _ _ =>
      obtain ⟨c, cs, rfl⟩ : ∃ c tail, cs = c :: tail := by
        cases cs with
        | nil => cases hhead
        | cons c cs => exact ⟨c, cs, rfl⟩
      rw [List.length_cons, List.replicate_succ, List.cons_append, stripFolded,
        if_neg (by simp [hword w (by simp)])] at hstrip
      cases hstrip

theorem wordAt_eq_true {word : List Char} {before : Option Char} {cs : List Char} :
    wordAt word before cs = true ↔
      isOpenSide before = true ∧
        ∃ rest, stripFolded word cs = some rest ∧ isOpenSide rest.head? = true := by
  rw [wordAt, Bool.and_eq_true, Option.any_eq_true]

/-- No word stands where its first letter does not. -/
theorem wordAt_of_not_foldsTo {w c : Char} {word : List Char} {before : Option Char}
    {cs : List Char} (h : foldsTo w c = false) : wordAt (w :: word) before (c :: cs) = false := by
  rw [wordAt, stripFolded, if_neg (by simp [h])]
  simp

theorem countWordFrom_blanks {w : Char} {word : List Char} (hw : foldsTo w ' ' = false)
    (before : Option Char) (size : Nat) (cs : List Char) :
    countWordFrom (w :: word) before (List.replicate (size + 1) ' ' ++ cs) =
      countWordFrom (w :: word) (some ' ') cs := by
  induction size generalizing before with
  | zero =>
    show (if wordAt (w :: word) before (' ' :: cs) = true then 1 else 0) + _ = _
    rw [wordAt_of_not_foldsTo hw]
    exact Nat.zero_add _
  | succ size ih =>
    rw [List.replicate_succ, List.cons_append, countWordFrom, wordAt_of_not_foldsTo hw, ih]
    exact Nat.zero_add _

theorem countWordFrom_le_append (word : List Char) (before : Option Char) (cs rest : List Char) :
    countWordFrom word (cs.getLast?.or before) rest ≤ countWordFrom word before (cs ++ rest) := by
  rw [← wordsIn_nil, ← wordsIn_nil, wordsIn_append]
  exact Nat.le_add_left _ _

/-- Blanking comments makes no word: where a word stands then, it stands in the text. -/
theorem countWordFrom_uncommented_le {w : Char} {word : List Char}
    (hblank : ∀ v ∈ w :: word, foldsTo v ' ' = false)
    (hend : ∀ c, endsLine c = true → foldsTo w c = false)
    {m : Mode} {cs bare hidden : List Char} (h : Uncomments m cs bare hidden)
    {before after : Option Char}
    (hside : isOpenSide before = true → isOpenSide after = true ∨
      ∀ c ∈ cs.head?, endsLine c = true) :
    countWordFrom (w :: word) before bare ≤ countWordFrom (w :: word) after cs := by
  induction h generalizing before after with
  | nil => exact Nat.le_refl _
  | @keep m c cs bare hidden hkeep hrest ih =>
    have hlater : countWordFrom (w :: word) (some c) bare ≤ countWordFrom (w :: word) (some c) cs :=
      ih fun hopen => .inl hopen
    -- The word reaches into no comment, because none of its letters is a blank.
    have hhere (hword : wordAt (w :: word) before (c :: bare) = true) :
        wordAt (w :: word) after (c :: cs) = true := by
      obtain ⟨hbefore, restBare, hstrip, hopen⟩ := wordAt_eq_true.mp hword
      obtain ⟨rest, hstrip', hopen'⟩ := stripFolded_uncomments hblank (.keep hkeep hrest) hstrip
      refine wordAt_eq_true.mpr ⟨?_, rest, hstrip', hopen' hopen⟩
      rcases hside hbefore with h | h
      · exact h
      · rw [wordAt_of_not_foldsTo (hend c (h c rfl))] at hword
        cases hword
    rw [countWordFrom, countWordFrom]
    by_cases hword : wordAt (w :: word) before (c :: bare) = true
    · rw [if_pos hword, if_pos (hhere hword)]
      exact Nat.add_le_add_left hlater _
    · rw [if_neg hword]
      omega
  | @comment cs rest bare hidden hhead hlast _ ih =>
    obtain ⟨c, tail, rfl⟩ : ∃ c tail, cs = c :: tail := by
      cases cs with
      | nil => cases hhead
      | cons c cs => exact ⟨c, cs, rfl⟩
    rw [List.length_cons, countWordFrom_blanks (hblank w (by simp))]
    -- No word begins at the blanks; the words inside the comment only add to the right side.
    refine Nat.le_trans (ih fun _ => ?_) (countWordFrom_le_append _ _ _ _)
    rcases hlast with hlast | hlast
    · refine .inl ?_
      rw [hlast, Option.some_or]
      decide
    · exact .inr hlast

/-- **Comments without quotes and closing brackets hide nothing from the guard.** -/
theorem nesting_uncommented_le {source : List Char}
    (h : ∀ c ∈ commentCharacters source, isHarmless c = true) :
    nesting (uncommented source) ≤ nesting source := by
  have hform := uncomments .outside source
  have hdepth : maxNestingDepth (uncommented source) ≤ maxNestingDepth source :=
    deepest_uncommented_le hform h
  have hend (c : Char) (hc : endsLine c = true) : foldsTo 'c' c = false := by
    simp only [endsLine, Bool.or_eq_true, beq_iff_eq] at hc
    rcases hc with rfl | rfl <;> decide
  have hblank : ∀ v ∈ "case".toList, foldsTo v ' ' = false := by
    have hall : ("case".toList.all fun v => !foldsTo v ' ') = true := by decide
    simpa only [List.all_eq_true, Bool.not_eq_true'] using hall
  have hwords : countWord "case".toList (uncommented source) ≤ countWord "case".toList source :=
    countWordFrom_uncommented_le hblank hend hform fun hopen => .inl hopen
  exact Nat.add_le_add hdepth hwords

/-! ## The bound -/

/-- **The guard bounds the levels of the trees of accepted queries, as far as comments let it.**
The levels on a path are at most what the guard counts on the text with blanks for comments, and
so at most the limit where no comment holds a quote mark or a closing bracket. -/
theorem levelsOn_le_maxNesting {source : List Char} {tree : Tree Rule}
    (h : parse source = .ok tree) {path : List Rule} (hpath : path ∈ tree.paths) :
    levelsOn path ≤ nesting (uncommented source) ∧
      ((∀ c ∈ commentCharacters source, isQuote c = false ∧ isClosing c = false) →
        levelsOn path ≤ maxNesting) := by
  have hlevels := levelsOn_le_nesting h hpath
  refine ⟨hlevels, fun hharmless => ?_⟩
  have hcount : nesting (uncommented source) ≤ nesting source :=
    nesting_uncommented_le fun c hc => by simp [isHarmless, hharmless c hc]
  exact Nat.le_trans hlevels (Nat.le_trans hcount (reads_of_parse h).1)

theorem exists_tree_of_any (source : List Char) (p : Tree Rule → Bool)
    (h : (parse source).toOption.any p = true) : ∃ tree, parse source = .ok tree ∧ p tree = true := by
  cases hparse : parse source with
  | ok tree =>
    rw [hparse] at h
    exact ⟨tree, rfl, h⟩
  | error failure =>
    rw [hparse] at h
    cases h

/-- A query with a harmless comment, three levels deep. -/
def commentedQuery : List Char :=
  "MATCH (n) /* all (of // them */ RETURN [CASE WHEN n.x THEN (1) END]".toList

theorem levelsOn_commentedQuery : ∃ tree path, parse commentedQuery = .ok tree ∧
    path ∈ tree.paths ∧ levelsOn path = 3 ∧ levelsOn path ≤ nesting (uncommented commentedQuery) ∧
      levelsOn path ≤ maxNesting := by
  obtain ⟨tree, hparse, hdeep⟩ := exists_tree_of_any commentedQuery
    (fun tree => tree.paths.any fun path => levelsOn path == 3) (by decide +kernel)
  obtain ⟨path, hpath, hlevels⟩ := List.any_eq_true.mp hdeep
  obtain ⟨hcount, hlimit⟩ := levelsOn_le_maxNesting hparse hpath
  have hharmless : ((commentCharacters commentedQuery).all isHarmless) = true := by decide
  refine ⟨tree, path, hparse, hpath, beq_iff_eq.mp hlevels, hcount, hlimit fun c hc => ?_⟩
  simpa [isHarmless] using List.all_eq_true.mp hharmless c hc

/-- One list inside another, one level deeper than the limit, behind a comment that holds a
quote mark. -/
def quotedComment : List Char :=
  "/*'*/RETURN ".toList ++ (List.replicate (maxNesting + 1) '[' ++ List.replicate (maxNesting + 1) ']')

/-- The mark in the comment hides every bracket from the guard, and the tree is too deep. -/
theorem maxNesting_lt_levelsOn_quotedComment : ∃ tree, parse quotedComment = .ok tree ∧
    ∃ path ∈ tree.paths, maxNesting < levelsOn path := by
  obtain ⟨tree, hparse, hdeep⟩ := exists_tree_of_any quotedComment
    (fun tree => tree.paths.any fun path => maxNesting < levelsOn path) (by decide +kernel)
  obtain ⟨path, hpath, hlevels⟩ := List.any_eq_true.mp hdeep
  exact ⟨tree, hparse, path, hpath, of_decide_eq_true hlevels⟩

end QueryScore.Cypher
