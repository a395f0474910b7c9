/-
# QueryScore.Proofs.Cypher.ClearedText -- the returned lists of a query without its comments

Columns, sort keys and grouping keys are cut out of the raw text, comments included. A comment before
the first `RETURN` stays outside what is cut as long as the scan passes it as it passes a space, and
so does one behind the lists (`ListsBare`). Then the same clause is cut out of the cleared text
(`returns?_cleared`).
-/

import QueryScore.Proofs.Cypher.Boundary
import QueryScore.Proofs.Cypher.Cleared
import QueryScore.Proofs.Cypher.SimilarWalk

namespace QueryScore.Cypher

open Text Grammar Peg

variable {m n l : Mode} {c x : Char} {keyword : String} {s : Scanner} {before before' : Option Char}
  {cs ds xs after after' front front' rest back : List Char}

/-! ## Places of a text and of its cleared form -/

/-- A place outside comments is a place of the cleared text. -/
theorem Clears.exists_cut (h : Clears m [] (front ++ rest) ds n)
    (hkept : ((uncommentFrom 0 m (front ++ rest)).drop front.length).head? ≠ some ' ') :
    ∃ l front' ds', ds = front' ++ ds' ∧ Clears m rest front front' l ∧ Clears l [] rest ds' n ∧
      (uncommentFrom 0 m (front ++ rest)).drop front.length = uncommentFrom 0 l rest := by
  generalize htext : front ++ rest = text at h hkept
  generalize hend : ([] : List Char) = none at h
  induction h generalizing front with
  | nil =>
    obtain ⟨rfl, rfl⟩ := List.append_eq_nil_iff.mp htext
    subst hend
    exact ⟨_, [], [], rfl, .nil, .nil, rfl⟩
  | @keep m n c cs ds after hadmits hrest ih =>
    subst hend
    cases front with
    | nil =>
      obtain rfl : rest = c :: cs := htext
      exact ⟨m, [], c :: ds, rfl, .nil, .keep hadmits hrest, rfl⟩
    | cons d front =>
      rw [List.cons_append] at htext
      obtain ⟨rfl, rfl⟩ := List.cons.inj htext
      have hkeep : m = .outside → commentSize (d :: (front ++ rest)) = 0 := by
        simpa using hadmits.outside
      rw [uncommentFrom_keep hkeep, List.length_cons, List.drop_succ_cons] at hkept ⊢
      obtain ⟨l, front', ds', rfl, hfront, hback, hsame⟩ := ih rfl hkept rfl
      exact ⟨l, d :: front', ds', rfl, .keep (by simpa using hadmits) hfront, hback, hsame⟩
  | @gap k k' cs ds after n hgap hrest ih =>
    obtain ⟨rfl, hne, hsize⟩ := hgap
    subst hend
    rw [List.append_nil] at hsize
    have hbare : uncommentFrom 0 .outside (k ++ cs) =
        List.replicate k.length ' ' ++ uncommentFrom 0 .outside cs :=
      uncommented_of_commentSize hne hsize
    rw [hbare] at hkept ⊢
    by_cases hinside : front.length < k.length
    · -- Inside the comment stands a space.
      rw [List.drop_append_of_le_length (by simp; omega), List.drop_replicate] at hkept
      obtain ⟨more, hmore⟩ := Nat.exists_eq_add_of_lt hinside
      rw [show k.length - front.length = more + 1 by omega] at hkept
      exact absurd rfl hkept
    · obtain ⟨more, rfl, rfl⟩ : ∃ more, front = k ++ more ∧ cs = more ++ rest := by
        rcases List.append_eq_append_iff.mp htext with ⟨more, rfl, hmore⟩ | hbehind
        · obtain rfl : more = [] := by
            rw [List.length_append] at hinside
            exact List.length_eq_zero_iff.mp (by omega)
          exact ⟨[], by simp, hmore.symm⟩
        · exact hbehind
      have hdrop (u : List Char) :
          (List.replicate k.length ' ' ++ u).drop (k ++ more).length = u.drop more.length := by
        simp [List.drop_append]
      rw [hdrop] at hkept ⊢
      obtain ⟨l, front', ds', rfl, hfront, hback, hsame⟩ := ih rfl hkept rfl
      exact ⟨l, ' ' :: front', ds', rfl, Clears.comment hne hsize hfront, hback, hsame⟩

/-- A stretch in which no comment begins is the same in the cleared text. -/
theorem Clears.of_bare (h : Clears m [] (xs ++ back) ds n)
    (hbare : xs <+: uncommentFrom 0 m (xs ++ back)) : ∃ l back', ds = xs ++ back' ∧
      Clears l [] back back' n := by
  induction xs generalizing m ds with
  | nil => exact ⟨m, ds, rfl, h⟩
  | cons x xs ih =>
    have hkeep : m = .outside → commentSize (x :: (xs ++ back)) = 0 := by
      rintro rfl
      refine Decidable.byContradiction fun hsize => ?_
      -- A comment begins with a slash, and a space stands for it.
      obtain ⟨more, hmore⟩ := Nat.exists_eq_succ_of_ne_zero hsize
      obtain rfl : x = '/' := Decidable.byContradiction fun hx => hsize (commentSize_of_ne hx)
      rw [List.cons_append, uncommentFrom, if_pos ⟨rfl, rfl⟩, hmore] at hbare
      obtain ⟨_, hsame⟩ := hbare
      cases hsame
    obtain ⟨ds, rfl, hrest⟩ := Clears.of_kept h hkeep
    rw [List.cons_append, uncommentFrom_keep hkeep, List.cons_prefix_cons] at hbare
    obtain ⟨l, back', rfl, hback⟩ := ih hrest hbare.2
    exact ⟨l, back', rfl, hback⟩

theorem Clears.eq_nil (h : Clears m after [] ds n) : ds = [] := by
  generalize hsource : ([] : List Char) = source at h
  cases h with
  | nil => rfl
  | keep => cases hsource
  | gap hgap => exact absurd (List.append_eq_nil_iff.mp hsource.symm).1 hgap.2.1

/-- Both texts go on with a name, or neither does. -/
theorem Clears.startsInsideWord (h : Clears m after cs ds n) :
    Text.startsInsideWord ds = Text.startsInsideWord cs := by
  cases h with
  | nil => rfl
  | keep => rfl
  | @gap k k' cs _ _ _ hgap _ =>
    obtain ⟨rfl, hne, hsize⟩ := hgap
    obtain ⟨c, k, rfl⟩ := List.exists_cons_of_ne_nil hne
    obtain rfl : c = '/' := by
      refine Decidable.byContradiction fun hc => ?_
      rw [List.cons_append, commentSize_of_ne hc] at hsize
      cases hsize
    have hspace : isIdentifierChar ' ' = false := by decide
    have hslash : isIdentifierChar '/' = false := by decide
    exact hspace.trans hslash.symm

/-! ## The first `RETURN` -/

/-- A keyword of one word stands at the front of both texts, or of neither. -/
theorem Beside.isSome_strip (hkeyword : SingleWord keyword) (h : Beside clearing cs ds) :
    (stripKeyword keyword.toList ds).isSome = (stripKeyword keyword.toList cs).isSome := by
  have hstrip (es : List Char) : (stripKeyword keyword.toList es).isSome =
      (stripWord keyword.toList es).any fun rest => !Text.startsInsideWord rest := by
    rw [hkeyword.stripKeyword_eq, Option.isSome_filter]
  have hword : ∀ w ∈ keyword.toList, ∀ x, sameIgnoringCase w x = true → isToken x = true := by
    intro w hw x hx
    refine isToken_of_isAlphanum (isAlphanum_of_isAlpha ?_)
    exact isAlpha_of_sameIgnoringCase (hkeyword.alpha w hw) hx
  rw [hstrip, hstrip]
  rcases beside_strip strips_word h hword with
    ⟨hcs, hds⟩ | ⟨_, cs', ds', -, -, -, hcs, hds, hrest, -⟩
  · rw [hcs, hds]
  · rw [hcs, hds, Option.any_some, Option.any_some, Clears.startsInsideWord hrest]

/-- A keyword of one word is found in both texts, or in neither. -/
theorem Clears.isHit (hkeyword : SingleWord keyword) (h : Clears m [] cs ds .outside) (hs : s.mode = m)
    (hstart : ∀ c ∈ cs.head?, isWordStart before' c = isWordStart before c) :
    Text.isHit [keyword] s before' ds = Text.isHit [keyword] s before cs := by
  have hblank (c : Char) (es : List Char) (before : Option Char) (hc : c.isAlpha = false) :
      Text.isHit [keyword] s before (c :: es) = false := by
    simp [Text.isHit, isWordStart, hc]
  generalize hend : ([] : List Char) = after at h
  generalize hlast : Mode.outside = n at h
  cases h with
  | nil => rfl
  | @keep _ _ c cs ds _ hadmits hrest =>
    subst hend hlast
    rw [Text.isHit, Text.isHit, hstart c rfl]
    by_cases htop : s.isTop c = true
    · -- At the top level both texts are outside quotes.
      obtain rfl : m = .outside := by
        simp only [Scanner.isTop, Mode.shows, Bool.and_eq_true, beq_iff_eq] at htop
        rw [← hs, htop.1.1.1.1]
      have hsame := Beside.isSome_strip hkeyword (Respaced.keep hadmits hrest)
      rw [firstKeyword_singleton, firstKeyword_singleton, Option.isSome_map, Option.isSome_map, hsame]
    · rw [Bool.eq_false_iff.mpr htop]
      rfl
  | @gap k k' cs ds _ _ hgap _ =>
    obtain ⟨rfl, hne, hsize⟩ := hgap
    obtain ⟨c, k, rfl⟩ := List.exists_cons_of_ne_nil hne
    obtain rfl : c = '/' := by
      refine Decidable.byContradiction fun hc => ?_
      rw [List.cons_append, commentSize_of_ne hc] at hsize
      cases hsize
    rw [List.singleton_append, hblank ' ' ds before' (by decide), List.cons_append, hblank '/' _ before (by decide)]

/-- The scan passes the character as it passes a space. -/
def isSilent (c : Char) : Bool := isHarmless c && !isOpening c

theorem run_silent {depth : Nat} (h : ∀ c ∈ cs, isSilent c = true) :
    Scanner.run ⟨.outside, depth⟩ cs = ⟨.outside, depth⟩ := by
  induction cs with
  | nil => rfl
  | cons c cs ih =>
    have hc := h c (by simp)
    simp only [isSilent, isHarmless, Bool.and_eq_true, Bool.not_eq_true'] at hc
    have hstep : Scanner.step ⟨.outside, depth⟩ c = ⟨.outside, depth⟩ := by
      simp [Scanner.step, Mode.step, Mode.shows, depthAfter, hc]
    show Scanner.run (Scanner.step ⟨.outside, depth⟩ c) cs = _
    rw [hstep]
    exact ih fun d hd => h d (by simp [hd])

/-- Behind a comment words begin where they begin behind a space. -/
theorem isWordStart_of_comment {k : List Char} (hne : k ≠ []) (h : commentSize (k ++ cs) = k.length) :
    ∀ c ∈ cs.head?, isWordStart (some ' ') c = isWordStart (k.getLast?.or before) c := by
  intro c hc
  obtain ⟨more, hmore⟩ := Nat.exists_eq_succ_of_ne_zero (mt List.length_eq_zero_iff.mp hne)
  obtain ⟨comment, rest, hsplit, hlength, -, hlast⟩ := exists_comment (h.trans hmore)
  obtain ⟨rfl, rfl⟩ := List.append_inj hsplit (hmore.trans hlength.symm)
  rcases hlast with hslash | hline
  · have hafter : isIdentifierChar ' ' = isIdentifierChar '/' := by decide
    simp [hslash, isWordStart, hafter]
  · -- The line ends here, and no word begins.
    have hc' : c.isAlpha = false := by
      have hends := hline c hc
      simp only [endsLine, Bool.or_eq_true, beq_iff_eq] at hends
      rcases hends with rfl | rfl <;> decide
    simp [isWordStart, hc']

/-- What a search for one word passes in a text it passes in the cleared text, if the scan passes the
comments. -/
theorem Clears.quiet (hkeyword : SingleWord keyword) (h : Clears m after front front' l)
    (hafter : Clears l [] after after' .outside)
    (hsilent : ∀ c ∈ commentsFrom 0 m front, isSilent c = true) (hs : s.mode = m)
    (hstart : ∀ c ∈ (front ++ after).head?, isWordStart before' c = isWordStart before c)
    (hquiet : Quiet [keyword] s before front after) :
    Quiet [keyword] s before' front' after' ∧ s.run front' = s.run front ∧ (s.run front).mode = l ∧
      ∀ c ∈ after.head?, isWordStart (front'.getLast?.or before') c =
        isWordStart (front.getLast?.or before) c := by
  induction h generalizing s before before' with
  | nil => exact ⟨trivial, rfl, hs, hstart⟩
  | @keep m n c cs ds after hadmits hrest ih =>
    rw [commentsFrom_keep fun hm => commentSize_append_eq_zero (hadmits.outside hm)] at hsilent
    obtain ⟨hlater, hrun, hmode, hends⟩ := @ih (s.step c) (some c) (some c)
      hafter hsilent (by rw [← hs]; rfl) (fun _ _ => rfl) hquiet.2
    have hwhole : Clears m [] (c :: (cs ++ after)) (c :: (ds ++ after')) .outside := by
      rw [← List.append_nil after] at hadmits hrest
      exact (Respaced.keep hadmits hrest).append hafter
    refine ⟨⟨?_, hlater⟩, hrun, hmode, ?_⟩
    · rw [Clears.isHit hkeyword hwhole hs hstart]
      exact hquiet.1
    · rw [getLast?_cons_or, getLast?_cons_or]
      exact hends
  | @gap k k' cs ds after n hgap hrest ih =>
    obtain ⟨rfl, hne, hsize⟩ := hgap
    rw [List.singleton_append]
    rw [commentsFrom_comment hne (commentSize_left hne hsize)] at hsilent
    obtain ⟨mode, depth⟩ := s
    obtain rfl : mode = .outside := hs
    have hk := @run_silent k depth fun c hc => hsilent c (by simp [hc])
    have hcs := (quiet_append.mp hquiet).2
    rw [hk] at hcs
    obtain ⟨hlater, hrun, hmode, hends⟩ := @ih _ _ (some ' ') hafter
      (fun c hc => hsilent c (by simp [hc])) rfl (isWordStart_of_comment hne hsize) hcs
    refine ⟨⟨by simp [Text.isHit, isWordStart], hlater⟩, ?_, ?_, ?_⟩
    · rw [Scanner.run_append, hk]
      exact hrun
    · rwa [Scanner.run_append, hk]
    · rw [getLast?_cons_or, List.getLast?_append, Option.or_assoc]
      exact hends

/-! ## The clause -/

/-- What stands behind a `RETURN`, cut into its lists. -/
def listsOf (rest : List Char) : Returns :=
  let boundary := findKeyword boundarySearch.keywords rest
  let projection := trimClause (upTo boundary rest)
  ⟨(stripKeywordPrefix "DISTINCT".toList projection).getD projection, orderByAt boundary rest⟩

theorem returns?_eq (source : List Char) : returns? source =
    (findKeyword ["RETURN"] source).map fun found => listsOf (source.drop found.stop) := rfl

/-- In the text behind a `RETURN`, a keyword ends the list, and the sort keys if there are any. -/
def endsLists (cs : List Char) : Bool :=
  (findKeyword boundarySearch.keywords cs).any fun hit => hit.keyword != "ORDER BY" ||
    (findKeyword sortSearch.keywords (cs.drop hit.stop)).isSome

theorem upTo_append {hit : Hit} (h : hit.start ≤ cs.length) :
    upTo (some hit) (cs ++ ds) = upTo (some hit) cs :=
  List.take_append_of_le_length h

/-- Where keywords end the lists, it does not matter what stands behind. -/
theorem listsOf_append (h : endsLists cs = true) (hds : Text.startsInsideWord ds = false) :
    listsOf (cs ++ ds) = listsOf cs := by
  have hwords : ∀ k ∈ boundarySearch.keywords, words k.toList ≠ [] := fun k => words_ne_nil_of_boundary
  have hsub : ∀ k ∈ sortSearch.keywords, k ∈ boundarySearch.keywords := by decide
  obtain ⟨hit, hfound, hend⟩ := (Option.any_eq_true _ _).mp h
  obtain ⟨hlt, hle⟩ := of_mem_findKeywords hwords (List.mem_of_head? hfound)
  have hsame := findKeyword_append (fun k hk => hk) hfound hds
  have hkeys : orderByAt (some hit) (cs ++ ds) = orderByAt (some hit) cs := by
    simp only [orderByAt]
    split
    · rename_i horder
      rw [horder] at hend
      obtain ⟨hit', hfound'⟩ := Option.isSome_iff_exists.mp hend
      obtain ⟨hlt', hle'⟩ := of_mem_findKeywords (fun k hk => hwords k (hsub k hk))
        (List.mem_of_head? hfound')
      have hsame' := findKeyword_append hsub hfound' hds
      rw [show ["SKIP", "LIMIT", "UNION"] = sortSearch.keywords from rfl,
        List.drop_append_of_le_length hle, hsame', hfound',
        upTo_append (Nat.le_trans (Nat.le_of_lt hlt') hle')]
    · rfl
  rw [listsOf, listsOf, hsame, hfound, upTo_append (Nat.le_trans (Nat.le_of_lt hlt) hle), hkeys]

/-- **`ListsBare source front lists back`** -- the text is cut at its first `RETURN`; the scan passes
the comments before it, and the lists behind it end before the next comment. -/
structure ListsBare (source front lists back : List Char) : Prop where
  text : source = front ++ (lists ++ back)
  /-- No comment before the clause is taken for its `RETURN`. -/
  found : (findKeyword ["RETURN"] source).map Hit.start = some front.length
  /-- No comment before the clause holds a quote mark or a bracket. -/
  silent : ∀ c ∈ commentCharacters front, isSilent c = true
  /-- No comment begins in the lists. -/
  bare : lists <+: (uncommented source).drop front.length
  /-- A keyword ends the lists, or the text does. -/
  closed : back = [] ∨ endsLists (lists.drop 6) = true ∧ Text.startsInsideWord back = false

instance (source front lists back : List Char) : Decidable (ListsBare source front lists back) :=
  decidable_of_iff (source = front ++ (lists ++ back) ∧
      ((findKeyword ["RETURN"] source).map Hit.start == some front.length) = true ∧
      (commentCharacters front).all isSilent = true ∧
      lists.isPrefixOf ((uncommented source).drop front.length) = true ∧
      (back = [] ∨ endsLists (lists.drop 6) = true ∧ Text.startsInsideWord back = false))
    ⟨fun ⟨h₁, h₂, h₃, h₄, h₅⟩ =>
        ⟨h₁, eq_of_beq h₂, List.all_eq_true.mp h₃, List.isPrefixOf_iff_prefix.mp h₄, h₅⟩,
      fun h => ⟨h.text, beq_iff_eq.mpr h.found, List.all_eq_true.mpr h.silent,
        List.isPrefixOf_iff_prefix.mpr h.bare, h.closed⟩⟩

theorem singleWord_return : SingleWord "RETURN" := ⟨by decide, List.all_eq_true.mp (by decide)⟩

theorem length_of_spells {word ws : List Char} (h : word.map asciiLower = ws.map asciiLower) :
    word.length = ws.length := by
  simpa using congrArg List.length h

/-- The lists begin with their `RETURN`, which is the first that a search finds. -/
theorem ListsBare.exists_word {source lists : List Char} (h : ListsBare source front lists back) :
    ∃ word list, lists = word ++ list ∧ word.map asciiLower = "RETURN".toList.map asciiLower ∧
      Text.startsInsideWord (list ++ back) = false ∧
        Quiet ["RETURN"] {} none front (word ++ (list ++ back)) ∧
          Text.isHit ["RETURN"] (Scanner.run {} front) front.getLast? (word ++ (list ++ back)) = true := by
  obtain ⟨hit, hfound, hstart⟩ := Option.map_eq_some_iff.mp h.found
  obtain ⟨front₁, rest, hsplit, hsize, hquiet, hhit⟩ := exists_quiet_of_findKeyword hfound
  obtain ⟨rfl, rfl⟩ := List.append_inj (hsplit.symm.trans h.text) (hsize.symm.trans hstart)
  obtain ⟨keyword, size, hfirst, -⟩ := findKeyword_of_quiet hquiet hhit
  rw [firstKeyword_singleton] at hfirst
  obtain ⟨later, hlater, -⟩ := Option.map_eq_some_iff.mp hfirst
  obtain ⟨word, hrest, hspell, hstop⟩ := singleWord_return.strip.mp hlater
  have hsix : word.length = 6 := length_of_spells hspell
  -- The end of the lists is looked for behind the six letters.
  have hlong : word.length ≤ lists.length := by
    rcases h.closed with rfl | ⟨hends, -⟩
    · have hlength := congrArg List.length hrest
      simp only [List.append_nil, List.length_append] at hlength
      omega
    · refine Decidable.byContradiction fun hshort => ?_
      rw [List.drop_eq_nil_of_le (by omega)] at hends
      cases hends
  obtain ⟨list, rfl, rfl⟩ : ∃ list, lists = word ++ list ∧ later = list ++ back := by
    rcases List.append_eq_append_iff.mp hrest with ⟨more, rfl, hmore⟩ | hinside
    · obtain rfl : more = [] := by
        rw [List.length_append] at hlong
        exact List.length_eq_zero_iff.mp (by omega)
      exact ⟨[], by simp, hmore.symm⟩
    · exact hinside
  rw [hrest] at hquiet hhit
  exact ⟨word, list, rfl, hspell, hstop, hquiet, hhit⟩

/-- What a text lists behind the first `RETURN`. -/
theorem returns?_of_word {word : List Char} (hspell : word.map asciiLower = "RETURN".toList.map asciiLower)
    (hstop : Text.startsInsideWord rest = false) (hquiet : Quiet ["RETURN"] {} none front (word ++ rest))
    (hhit : Text.isHit ["RETURN"] (Scanner.run {} front) front.getLast? (word ++ rest) = true) :
    returns? (front ++ (word ++ rest)) = some (listsOf rest) := by
  rw [returns?_eq, findKeyword_of_word singleWord_return hquiet hhit hspell hstop, Option.map_some,
    ← List.append_assoc, ← List.length_append, List.drop_left]

/-- **The same clause is cut out of the cleared text.** -/
theorem returns?_cleared {source lists : List Char} (h : ListsBare source front lists back)
    (hbeside : Beside clearing source (cleared source)) : returns? (cleared source) = returns? source := by
  obtain ⟨word, list, rfl, hspell, hstop, hquiet, hhit⟩ := h.exists_word
  have hbare := h.bare
  have hclosed := h.closed
  rw [h.text] at hbeside hbare ⊢
  rw [List.append_assoc] at hbeside hbare ⊢
  generalize cleared (front ++ (word ++ (list ++ back))) = target at hbeside ⊢
  -- The cleared text is cut where the text is, before the `RETURN` and behind the lists.
  have hkept : ((uncommented (front ++ (word ++ (list ++ back)))).drop front.length).head? ≠ some ' ' := by
    obtain ⟨w, word, rfl⟩ := List.exists_cons_of_ne_nil (singleWord_return.ne_nil hspell)
    have hletter := isAlpha_of_mem hspell singleWord_return.alpha w (by simp)
    obtain ⟨more, hmore⟩ := hbare
    rw [← hmore]
    rintro hw
    obtain rfl := Option.some.inj hw
    cases hletter
  obtain ⟨l, front', ds', rfl, hfront, hrest, hsame⟩ := Clears.exists_cut hbeside hkept
  rw [show uncommented (front ++ (word ++ (list ++ back))) =
    uncommentFrom 0 .outside (front ++ (word ++ (list ++ back))) from rfl, hsame] at hbare
  rw [← List.append_assoc] at hbare hrest
  obtain ⟨l', back', rfl, hback⟩ := Clears.of_bare hrest hbare
  simp only [List.append_assoc] at hrest ⊢
  obtain ⟨hquiet', hrun, hmode, hstart⟩ := Clears.quiet singleWord_return hfront hrest h.silent rfl
    (fun _ _ => rfl) hquiet
  have hhit' : Text.isHit ["RETURN"] (Scanner.run {} front') front'.getLast? (word ++ (list ++ back')) =
      true := by
    rw [hrun, ← hhit]
    exact Clears.isHit singleWord_return hrest hmode (by simpa using hstart)
  have hstop' : Text.startsInsideWord (list ++ back') = false := by
    cases list with
    | nil => exact (Clears.startsInsideWord hback).trans hstop
    | cons c list => exact hstop
  rw [returns?_of_word hspell hstop hquiet hhit, returns?_of_word hspell hstop' hquiet' hhit']
  rcases hclosed with rfl | ⟨hends, hapart⟩
  · rw [hback.eq_nil]
  · have hsix : word.length = 6 := length_of_spells hspell
    rw [← hsix, List.drop_left] at hends
    rw [listsOf_append hends hapart, listsOf_append hends (hback.startsInsideWord.trans hapart)]

/-- All that is read off the returned lists is the same where they are. -/
theorem returned_of_returns? {source target : List Char} (h : returns? target = returns? source) :
    returnColumns target = returnColumns source ∧ orderings target = orderings source ∧
      groupingKeys target = groupingKeys source := by
  have hitems : returnItems target = returnItems source := by rw [returnItems, returnItems, h]
  exact ⟨by rw [returnColumns, returnColumns, hitems], by rw [orderings, orderings, h],
    by rw [groupingKeys, groupingKeys, hitems]⟩

/-! ## The structure -/

/-- No condition that the walk comes to holds a comment. -/
def ConditionsBare (tree : Tree Rule) : Prop := ∀ e ∈ conditionsOf tree, commentCharacters e.text = []

/-- No list of items that the walk comes to holds a comment. -/
def ProjectionsBare (tree : Tree Rule) : Prop :=
  ∀ list ∈ projectionsOf tree, commentCharacters list.text = []

instance (tree : Tree Rule) : Decidable (ConditionsBare tree) :=
  inferInstanceAs (Decidable (∀ e ∈ conditionsOf tree, commentCharacters e.text = []))

instance (tree : Tree Rule) : Decidable (ProjectionsBare tree) :=
  inferInstanceAs (Decidable (∀ list ∈ projectionsOf tree, commentCharacters list.text = []))

/-- **What a query asks for stays the same without its comments**, as far as no comment stands in
what is cut out of the text: labels, attributes and relations always, filters where no condition
holds one, aggregate functions where no projection does, and columns, sort keys and grouping keys
where none stands in the lists and the scan passes those before. -/
theorem structure_cleared {source : List Char} {tree : Tree Rule} (h : parse source = .ok tree)
    (hguard : (∀ c ∈ commentCharacters source, isHarmless c = true) ∨
      nesting (uncommented source) ≤ maxNesting)
    (hnames : hasBareNames .outside (uncommented source) = true) :
    ∃ found, structure? (cleared source) = .ok found ∧
      found.entities = (structureOf source tree).entities ∧
      found.attributes = (structureOf source tree).attributes ∧
      found.relations = (structureOf source tree).relations ∧
      (ConditionsBare tree → found.filters = (structureOf source tree).filters) ∧
      (ProjectionsBare tree →
        found.aggregation.functions = (structureOf source tree).aggregation.functions) ∧
      (∀ front lists back, ListsBare source front lists back →
        found.returnColumns = (structureOf source tree).returnColumns ∧
        found.orderings = (structureOf source tree).orderings ∧
        found.aggregation.groupBy = (structureOf source tree).aggregation.groupBy) ∧
      ∀ front lists back, ConditionsBare tree → ProjectionsBare tree →
        ListsBare source front lists back → found = structureOf source tree := by
  have hdepth : nesting (uncommented source) ≤ maxNesting := by
    rcases hguard with hharmless | hdepth
    · exact Nat.le_trans (nesting_uncommented_le hharmless) (reads_of_parse h).1
    · exact hdepth
  obtain ⟨tree', hparse, hsimilar⟩ := parse_cleared h hdepth hnames
  obtain ⟨f, p, hwalk⟩ := walkTree_similar (grows_of_parse h) hsimilar
  have hentities : (walkTree tree').entities = (walkTree tree).entities := by rw [hwalk]; rfl
  have hattributes : (walkTree tree').attributes = (walkTree tree).attributes := by rw [hwalk]; rfl
  have hrelations : (walkTree tree').relations = (walkTree tree).relations := by rw [hwalk]; rfl
  have hfilters (hbare : ConditionsBare tree) : (walkTree tree').filters = (walkTree tree).filters :=
    filters_similar hsimilar hbare
  have hfunctions (hbare : ProjectionsBare tree) : aggregateFunctions (walkTree tree').projections =
      aggregateFunctions (walkTree tree).projections := by
    rw [projections_similar hsimilar hbare]
  have hlists {front lists back : List Char} (hbare : ListsBare source front lists back) :=
    returned_of_returns? (returns?_cleared hbare (beside_cleared h hnames))
  refine ⟨structureOf (cleared source) tree', by rw [structure?, hparse]; rfl, hentities, hattributes,
    hrelations, hfilters, hfunctions, fun _ _ _ => hlists, fun _ _ _ hconditions hprojections hbare => ?_⟩
  obtain ⟨hcolumns, horderings, hgroups⟩ := hlists hbare
  simp only [structureOf, hentities, hattributes, hrelations, hfilters hconditions,
    hfunctions hprojections, hcolumns, horderings, hgroups]

/-- Clauses with comments in and behind a pattern. -/
def commentedClauses : List Char :=
  "MATCH (n:P /* a person */) // the driver\n WHERE n.x = 1 ".toList

/-- A `RETURN` and its lists, up to their end. -/
def bareLists : List Char := "RETURN n.x AS x, count(n) AS k ORDER BY n.x DESC LIMIT".toList

/-- A limit behind a comment with a quote mark and brackets. -/
def commentedLimit : List Char := " /* it's few (five) */ 5".toList

theorem structure_commentedLimit : ∃ tree,
    parse (commentedClauses ++ (bareLists ++ commentedLimit)) = .ok tree ∧
    nesting (uncommented (commentedClauses ++ (bareLists ++ commentedLimit))) ≤ maxNesting ∧
    hasBareNames .outside (uncommented (commentedClauses ++ (bareLists ++ commentedLimit))) = true ∧
    ConditionsBare tree ∧ ProjectionsBare tree ∧
    ListsBare (commentedClauses ++ (bareLists ++ commentedLimit)) commentedClauses bareLists
      commentedLimit ∧
    structure? (cleared (commentedClauses ++ (bareLists ++ commentedLimit))) =
      .ok (structureOf (commentedClauses ++ (bareLists ++ commentedLimit)) tree) := by
  obtain ⟨tree, hparse, hall⟩ := exists_tree_of_any (commentedClauses ++ (bareLists ++ commentedLimit))
    (fun tree => decide (ConditionsBare tree ∧ ProjectionsBare tree)) (by decide +kernel)
  obtain ⟨hconditions, hprojections⟩ := of_decide_eq_true hall
  have hdepth : nesting (uncommented (commentedClauses ++ (bareLists ++ commentedLimit))) ≤ maxNesting := by
    decide +kernel
  have hnames : hasBareNames .outside
      (uncommented (commentedClauses ++ (bareLists ++ commentedLimit))) = true := by decide +kernel
  have hlists : ListsBare (commentedClauses ++ (bareLists ++ commentedLimit)) commentedClauses bareLists
      commentedLimit := by decide +kernel
  obtain ⟨found, hfound, -, -, -, -, -, -, hsame⟩ := structure_cleared hparse (.inr hdepth) hnames
  rw [hsame _ _ _ hconditions hprojections hlists] at hfound
  exact ⟨tree, hparse, hdepth, hnames, hconditions, hprojections, hlists, hfound⟩

/-- A comment behind the only item. -/
def trailingComment : List Char := "MATCH (n:P) RETURN n.x // the name".toList

/-- The comment is taken for a part of the returned column. -/
theorem returnColumns_trailingComment : ∃ tree tree', parse trailingComment = .ok tree ∧
    cleared trailingComment = "MATCH (n:P) RETURN n.x  ".toList ∧
    parse (cleared trailingComment) = .ok tree' ∧
    (structureOf trailingComment tree).returnColumns = ["n.x // the name"] ∧
    (structureOf (cleared trailingComment) tree').returnColumns = ["n.x"] ∧
    structure? (cleared trailingComment) ≠ structure? trailingComment := by
  obtain ⟨tree, hparse, -⟩ := exists_tree_of_any trailingComment (fun _ => true) (by decide +kernel)
  obtain ⟨tree', hparse', -⟩ := exists_tree_of_any (cleared trailingComment) (fun _ => true)
    (by decide +kernel)
  have hcolumns : returnColumns trailingComment = ["n.x // the name"] := by decide +kernel
  have hcolumns' : returnColumns (cleared trailingComment) = ["n.x"] := by decide +kernel
  refine ⟨tree, tree', hparse, by decide +kernel, hparse', hcolumns, hcolumns', fun hsame => ?_⟩
  rw [structure?, structure?, hparse, hparse'] at hsame
  have hfound := congrArg Structure.returnColumns (Except.ok.inj hsame)
  have hlists : ["n.x"] = ["n.x // the name"] := hcolumns'.symm.trans (hfound.trans hcolumns)
  exact absurd hlists (by decide)

end QueryScore.Cypher
