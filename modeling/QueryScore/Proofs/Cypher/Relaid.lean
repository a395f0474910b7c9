/-
# QueryScore.Proofs.Cypher.Relaid -- what a query lists does not depend on its layout

The returned lists are cut out of the raw text by searches for keywords and separators. In a relaid
text they are cut out at corresponding places (`Relaid.returns?`), so the items, aliases and sort keys
correspond. An expression is compared with its blanks collapsed, and so is a sort key
(`sortKey_eq_of_words`); an alias is not, so it is the same name only if it holds no blank outside
quotes (`Relaid.returnColumns_eq`).
-/

import QueryScore.Proofs.Cypher.Sorted
import QueryScore.Proofs.Cypher.Event
import QueryScore.Proofs.Text.Respelled

namespace QueryScore.Cypher

open Text

variable {m : Mode} {s : Scanner} {b : Char} {bs cs ds : List Char}

/-! ## The guard -/

theorem deepest_blank (h : Blank bs) (depth : Nat) (cs : List Char) :
    Scanner.deepest ⟨.outside, depth⟩ (bs ++ cs) = Scanner.deepest ⟨.outside, depth⟩ cs := by
  induction bs with
  | nil => rfl
  | cons b bs ih =>
    rw [List.cons_append, Scanner.deepest, step_blank (h b (by simp)), ih fun c hc => h c (by simp [hc])]
    exact Nat.max_eq_right (depth_le_deepest ⟨.outside, depth⟩ cs)

theorem deepest_relaid (h : Relaid s.mode cs ds) : s.deepest ds = s.deepest cs := by
  generalize hm : s.mode = m at h
  induction h generalizing s with
  | nil => rfl
  | @keep m c cs ds _ ih =>
    subst hm
    exact congrArg (max s.depth) (ih (s := s.step c) rfl)
  | gap hks hls _ ih =>
    have hs := eq_of_outside hm
    rw [hs, deepest_blank hks.blank, deepest_blank hls.blank, ← hs]
    exact ih hm

/-- **The guard counts the same on relaid texts.** -/
theorem nesting_relaid (h : Relaid .outside cs ds) : nesting ds = nesting cs := by
  have hdepth : maxNestingDepth ds = maxNestingDepth cs := deepest_relaid (s := {}) h
  rw [nesting, nesting, hdepth, h.countWord_eq (by decide)]

/-! ## The clause -/

theorem trimClause_relaid (h : Relaid .outside cs ds) : Relaid .outside (trimClause cs) (trimClause ds) := by
  have hink : ∀ b, isBlank b = true → (b == ';') = false := by
    intro b hb
    rw [beq_eq_false_iff_ne]
    rintro rfl
    exact absurd hb (by decide)
  exact (h.trim.rdropWhile (.inr hink)).trimEnd

theorem upTo_relaid {hit hit' : Option Hit} (hhit : Option.Rel (SameHit cs ds) hit hit')
    (h : Relaid .outside cs ds) : Relaid .outside (upTo hit cs) (upTo hit' ds) := by
  cases hhit with
  | none => exact h
  | some hsame => exact hsame.before

/-- **`SameReturns clause clause'`** -- the lists of two clauses are relaid. -/
structure SameReturns (clause clause' : Returns) : Prop where
  projection : Relaid .outside clause.projection clause'.projection
  orderBy : Option.Rel (Relaid .outside) clause.orderBy clause'.orderBy

theorem lettered_keysEnds : ∀ k ∈ ["SKIP", "LIMIT", "UNION"], Lettered k := by decide

theorem lettered_listEnds : ∀ k ∈ ["ORDER BY", "SKIP", "LIMIT", "UNION"], Lettered k := by decide

theorem orderByAt_relaid {hit hit' : Option Hit} (hhit : Option.Rel (SameHit cs ds) hit hit') :
    Option.Rel (Relaid .outside) (orderByAt hit cs) (orderByAt hit' ds) := by
  cases hhit with
  | none => exact .none
  | some hsame =>
    simp only [orderByAt, hsame.keyword]
    split
    · have hend := hsame.behind.findKeyword lettered_keysEnds
      exact .some (trimClause_relaid (upTo_relaid hend hsame.behind))
    · exact .none

theorem stripKeywordPrefix_relaid {keyword : String} (hkeyword : Lettered keyword) (h : Relaid .outside cs ds) :
    Option.Rel (Relaid .outside) (stripKeywordPrefix keyword.toList cs) (stripKeywordPrefix keyword.toList ds) :=
  rel_map (h.follows_trimStart.relaid.stripKeyword hkeyword) fun _ _ hrest =>
    hrest.1.relaid.follows_trimStart.relaid

/-- **The same clause is cut out of both texts**, blanks aside. -/
theorem returns?_relaid (h : Relaid .outside cs ds) : Option.Rel SameReturns (returns? cs) (returns? ds) := by
  have hreturn : ∀ k ∈ ["RETURN"], Lettered k := by decide
  have hdistinct : Lettered "DISTINCT" := by decide
  refine rel_map (h.findKeyword hreturn) fun found found' hfound => ?_
  have hrest := hfound.behind
  have hend := hrest.findKeyword lettered_listEnds
  have hlist := trimClause_relaid (upTo_relaid hend hrest)
  exact ⟨rel_getD (stripKeywordPrefix_relaid hdistinct hlist) hlist, orderByAt_relaid hend⟩

/-! ## Items -/

/-- **`SameItem item item'`** -- expressions and aliases of two items are relaid. -/
structure SameItem (item item' : ReturnItem) : Prop where
  expression : Relaid .outside item.expression item'.expression
  name : Option.Rel (Relaid .outside) item.name item'.name

theorem splitAlias_relaid (h : Relaid .outside cs ds) : SameItem (splitAlias cs) (splitAlias ds) := by
  have has : ∀ k ∈ ["AS"], Lettered k := by decide
  have hlast := h.getLast?_findKeywords has
  rw [splitAlias, splitAlias]
  generalize (findKeywords ["AS"] cs).getLast? = left at hlast ⊢
  generalize (findKeywords ["AS"] ds).getLast? = right at hlast ⊢
  cases hlast with
  | none => exact ⟨h.trim, .none⟩
  | some hsame => exact ⟨hsame.before.trim, .some hsame.behind.trim⟩

/-- **Both texts return the same items**, blanks aside. -/
theorem returnItems_relaid (h : Relaid .outside cs ds) :
    List.Forall₂ SameItem (returnItems cs) (returnItems ds) := by
  have hclause := returns?_relaid h
  rw [returnItems, returnItems]
  generalize returns? cs = left at hclause ⊢
  generalize returns? ds = right at hclause ⊢
  cases hclause with
  | none => exact .nil
  | some hsame =>
    rw [List.forall₂_map_left_iff, List.forall₂_map_right_iff]
    exact (hsame.projection.splitTopLevel (by decide)).imp fun _ _ => splitAlias_relaid

/-- From mode `m` on, no blank stands outside quotes. -/
def isGapless (m : Mode) : List Char → Bool
  | [] => true
  | c :: cs => !(m == .outside && isBlank c) && isGapless (m.step c) cs

/-- A text without blanks outside quotes is relaid to itself only. -/
theorem eq_of_gapless (h : Relaid m cs ds) (hcs : isGapless m cs = true) : ds = cs := by
  induction h with
  | nil => rfl
  | keep _ ih => rw [ih ((Bool.and_eq_true _ _).mp hcs).2]
  | gap hks =>
    obtain ⟨k, ks, rfl, hk, -⟩ := hks.exists_cons
    rw [List.cons_append, isGapless, hk] at hcs
    cases hcs

/-- **`NamesGapless source`** -- no alias that is cut out of the text holds a blank outside quotes. -/
def NamesGapless (source : List Char) : Prop :=
  ∀ item ∈ returnItems source, ∀ name ∈ item.name, isGapless .outside name = true

instance (source : List Char) : Decidable (NamesGapless source) :=
  inferInstanceAs (Decidable (∀ item ∈ returnItems source, ∀ name ∈ item.name, isGapless .outside name = true))

theorem SameItem.column_eq {item item' : ReturnItem} (h : SameItem item item')
    (hname : ∀ name ∈ item.name, isGapless .outside name = true) : item'.column = item.column := by
  obtain ⟨expression, name⟩ := item
  obtain ⟨expression', name'⟩ := item'
  obtain ⟨hexpression, hnames⟩ := h
  cases hnames with
  | none => exact hexpression.normalizeFragment_eq
  | some hone => exact congrArg Name.normalize (eq_of_gapless hone (hname _ rfl))

/-- **Both texts return the same columns** if aliases hold no blank outside quotes. -/
theorem returnColumns_relaid (h : Relaid .outside cs ds) (hnames : NamesGapless cs) :
    returnColumns ds = returnColumns cs := by
  have hcolumns : (returnItems ds).map ReturnItem.column = (returnItems cs).map ReturnItem.column :=
    map_eq_of_forall₂ (returnItems_relaid h) fun item hitem _ hsame => hsame.column_eq (hnames item hitem)
  rw [returnColumns, returnColumns, hcolumns]

theorem aggregates_relaid (h : Relaid m cs ds) : aggregates ds = aggregates cs := by
  rw [aggregates, aggregates, h.calls_eq (by decide)]

/-- **Both texts have the same grouping keys.** -/
theorem groupingKeys_relaid (h : Relaid .outside cs ds) : groupingKeys ds = groupingKeys cs := by
  have hitems := returnItems_relaid h
  have hsame {item item' : ReturnItem} (hitem : SameItem item item') :
      aggregates item'.expression = aggregates item.expression := aggregates_relaid hitem.expression
  have hany : ((returnItems ds).any fun item => aggregates item.expression) =
      (returnItems cs).any fun item => aggregates item.expression := by
    have hmap := map_eq_of_forall₂ (g := fun item => aggregates item.expression) hitems fun _ _ _ => hsame
    simpa [List.any_map, Function.comp_def] using congrArg (List.any · id) hmap
  have hkept := List.rel_filter (R := SameItem) (p := fun item => !aggregates item.expression)
    (q := fun item => !aggregates item.expression) (fun _ _ hitem => by simp [hsame hitem]) hitems
  simp only [groupingKeys, hany]
  have hkeys := map_eq_of_forall₂ (g := fun item => String.ofList (Name.normalizeFragment item.expression)) hkept
    fun _ _ _ hitem => by rw [hitem.expression.normalizeFragment_eq]
  rw [hkeys]

/-! ## Sort keys -/

/-- A sort key read off the words of a text. -/
def keyOfWords (ws : List (List Char)) : SortKey :=
  let key (ws : List (List Char)) (direction : Direction) : SortKey :=
    ⟨String.ofList (lowercase ([' '].intercalate ws)), direction⟩
  match ws.dropLast, ws.getLast? with
  | w :: front, some last =>
    if isOneOf ["DESC", "DESCENDING"] last then key (w :: front) .descending
    else if isOneOf ["ASC", "ASCENDING"] last then key (w :: front) .ascending
    else key ws .ascending
  | _, _ => key ws .ascending

theorem exists_last_blank (h : ∃ c ∈ cs, isBlank c = true) :
    ∃ head b word, cs = head ++ b :: word ∧ isBlank b = true ∧ ∀ c ∈ word, isBlank c = false := by
  induction cs with
  | nil => simp at h
  | cons c cs ih =>
    by_cases hlater : ∃ d ∈ cs, isBlank d = true
    · obtain ⟨head, b, word, rfl, hb, hword⟩ := ih hlater
      exact ⟨c :: head, b, word, rfl, hb, hword⟩
    · have hnone : ∀ d ∈ cs, isBlank d = false := fun d hd =>
        Bool.eq_false_iff.mpr fun hblank => hlater ⟨d, hd, hblank⟩
      obtain ⟨d, hd, hblank⟩ := h
      rcases List.mem_cons.mp hd with rfl | hd
      · exact ⟨[], d, cs, rfl, hblank, hnone⟩
      · exact absurd ⟨d, hd, hblank⟩ hlater

/-- **A sort key depends on the words of the trimmed text only.** -/
theorem sortKey_eq (htrim : trim cs = cs) : sortKey cs = keyOfWords (words cs) := by
  by_cases hblank : ∃ c ∈ cs, isBlank c = true
  · obtain ⟨head, b, word, rfl, hb, hword⟩ := exists_last_blank hblank
    have hend : word ≠ [] := by
      rintro rfl
      have hlast := getLast_trimEnd (trimStart (head ++ [b])) b (by rw [← trim, htrim]; simp)
      rw [hb] at hlast
      cases hlast
    have hfront : words head ≠ [] := by
      cases head with
      | nil =>
        have hfirst := head_trim (b :: word) b (by rw [← List.nil_append (b :: word), htrim]; rfl)
        rw [hb] at hfirst
        cases hfirst
      | cons c head => exact words_cons_ne_nil (head_trim _ c (by rw [htrim]; rfl)) head
    have hwords : words (head ++ b :: word) = words head ++ [word] := by
      rw [words_append_blank_append hb, words_of_not_blank hend hword]
    have hcollapse : Name.normalizeFragment (head ++ b :: word) =
        lowercase ([' '].intercalate (words head ++ [word])) := by
      rw [Name.normalizeFragment, collapse, hwords]
    rw [sortKey, splitLastBlank_word hb hword, keyOfWords, hwords, List.dropLast_concat, List.getLast?_concat]
    simp only [hcollapse]
    obtain ⟨w, front, hlist⟩ := List.exists_cons_of_ne_nil hfront
    simp only [Name.normalizeFragment, collapse, hlist]
  · have hnone : ∀ c ∈ cs, isBlank c = false := fun c hc =>
      Bool.eq_false_iff.mpr fun hc' => hblank ⟨c, hc, hc'⟩
    have hsplit : splitLastBlank cs = none := by
      have hdrop : cs.reverse.dropWhile (fun c => !isBlank c) = [] := by
        rw [List.dropWhile_eq_nil_iff]
        exact fun c hc => by simp [hnone c (List.mem_reverse.mp hc)]
      rw [splitLastBlank, hdrop]
    have hwords : (words cs).dropLast = [] := by
      cases cs with
      | nil => rfl
      | cons c cs => rw [words_of_not_blank (by simp) hnone, List.dropLast_singleton]
    rw [sortKey, hsplit, keyOfWords, hwords]
    rfl

theorem trim_of_mem_splitTopLevel {separator : Char} {piece : List Char} (h : piece ∈ splitTopLevel separator cs) :
    trim piece = piece := by
  obtain ⟨hpiece, -⟩ := List.mem_filter.mp h
  obtain ⟨_, -, rfl⟩ := List.mem_map.mp hpiece
  exact trim_trim _

/-- **Both texts have the same sort keys.** -/
theorem orderings_relaid (h : Relaid .outside cs ds) : orderings ds = orderings cs := by
  have hlist : Option.Rel (Relaid .outside) ((returns? cs).bind Returns.orderBy)
      ((returns? ds).bind Returns.orderBy) := rel_bind (returns?_relaid h) fun _ _ hsame => hsame.orderBy
  rw [orderings, orderings]
  generalize (returns? cs).bind Returns.orderBy = left at hlist ⊢
  generalize (returns? ds).bind Returns.orderBy = right at hlist ⊢
  cases hlist with
  | none => rfl
  | some hsame =>
    have hkeys (list : List Char) : (splitTopLevel ',' list).map sortKey =
        (splitTopLevel ',' list).map fun piece => keyOfWords (words piece) :=
      List.map_congr_left fun piece hpiece => sortKey_eq (trim_of_mem_splitTopLevel hpiece)
    simp only [hkeys]
    exact map_eq_of_forall₂ (hsame.splitTopLevel (by decide)) fun _ _ _ hone => by rw [hone.words_eq]

end QueryScore.Cypher
