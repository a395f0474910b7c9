/-
# QueryScore.Proofs.Cypher.Sorted -- sort keys, in the text and in the tree

The sort keys of a query are read off the text behind the first `RETURN`: up to the next of `SKIP`,
`LIMIT` and `UNION`, cut at commas, with the last word of a piece for its direction if that is one.
The tree has a clause with a node for each key, and a node for the direction behind its expression.
In a text without comments whose searches are not led astray (`ShowsOrder`) the two agree
(`orderings_of_tree`): a key has a direction in the text exactly if it has one in the tree, as long
as a blank stands before the direction and the expression does not end in such a word itself.
-/

import QueryScore.Proofs.Cypher.Returned

namespace QueryScore.Cypher

open Text Grammar Peg

/-! ## What the tree says -/

/-- The sort keys of the first `RETURN`. -/
def sortItems (tree : Tree Rule) : List (Tree Rule) :=
  match orderClause? tree with
  | some clause => clause.children.filter fun child => child.rule = .sortItem
  | none => []

/-- The direction of a sort key of the tree. -/
def directionOf (item : Tree Rule) : Direction :=
  match childOf? .sortDirection item with
  | some found => if isOneOf ["DESC", "DESCENDING"] found.text then .descending else .ascending
  | none => .ascending

/-- A sort key of the tree. -/
def sortKeyOf (item : Tree Rule) : SortKey :=
  ⟨String.ofList (Name.normalizeFragment (expressionOf item)), directionOf item⟩

/-- The words for directions. -/
def directionWords : List String := ["ASC", "ASCENDING", "DESC", "DESCENDING"]

/-- Behind its last blank a text has a word for a direction. -/
def endsInDirection (cs : List Char) : Bool :=
  (splitLastBlank (trim cs)).any fun parts => isOneOf directionWords parts.2

/-- The character before an index is a blank. -/
def blankBefore (source : List Char) (i : Nat) : Bool := (source.take i).getLast?.any isBlank

/-- **`ShowsDirection source item`** -- the last word of a sort key is its direction if it has one,
and otherwise no word for a direction. -/
structure ShowsDirection (source : List Char) (item : Tree Rule) : Prop where
  none : childOf? .sortDirection item = none → endsInDirection (expressionOf item) = false
  apart : ∀ found ∈ childOf? .sortDirection item, blankBefore source found.start = true

instance (source : List Char) (item : Tree Rule) : Decidable (ShowsDirection source item) :=
  decidable_of_iff ((childOf? .sortDirection item = none → endsInDirection (expressionOf item) = false) ∧
      ∀ found ∈ childOf? .sortDirection item, blankBefore source found.start = true)
    ⟨fun h => ⟨h.1, h.2⟩, fun h => ⟨h.none, h.apart⟩⟩

/-- **`ShowsOrder source tree`** -- the searches that isolate the sort keys are not led astray. -/
structure ShowsOrder (source : List Char) (tree : Tree Rule) : Prop where
  /-- The clause and the end of its list are found. -/
  clause : ShowsClause source tree
  /-- No label, type or key of a sort key is taken for the end of the keys. -/
  keys : ∀ t ∈ sortItems tree, isCalm sortSearch.keywords source t = true
  /-- No letter follows a digit at the end of the keys directly. -/
  stop : ∀ order ∈ orderClause? tree, digitBefore source (stopOf order) = true →
    (source.drop (stopOf order)).head?.any Char.isAlpha = false
  /-- Each last word is what it seems. -/
  directions : ∀ t ∈ sortItems tree, ShowsDirection source t

instance (source : List Char) (tree : Tree Rule) : Decidable (ShowsOrder source tree) :=
  decidable_of_iff (ShowsClause source tree ∧
      (∀ t ∈ sortItems tree, isCalm sortSearch.keywords source t = true) ∧
      (∀ order ∈ orderClause? tree, digitBefore source (stopOf order) = true →
        (source.drop (stopOf order)).head?.any Char.isAlpha = false) ∧
      ∀ t ∈ sortItems tree, ShowsDirection source t)
    ⟨fun ⟨h₁, h₂, h₃, h₄⟩ => ⟨h₁, h₂, h₃, h₄⟩, fun h => ⟨h.clause, h.keys, h.stop, h.directions⟩⟩

variable {source before cs ds after bs word rest : List Char} {tree : Tree Rule}
  {nodes : List (Tree Rule)}

/-! ## One sort key -/

/-- A word behind a blank is what stands behind the last blank. -/
theorem splitLastBlank_word {b : Char} (hb : isBlank b = true) (hword : ∀ c ∈ word, isBlank c = false) :
    splitLastBlank (cs ++ b :: word) = some (cs, word) := by
  have hrev : (cs ++ b :: word).reverse = word.reverse ++ b :: cs.reverse := by simp
  have hall : ∀ c ∈ word.reverse, (!isBlank c) = true := fun c hc => by
    simp [hword c (List.mem_reverse.mp hc)]
  have htake : (word.reverse ++ b :: cs.reverse).takeWhile (fun c => !isBlank c) = word.reverse := by
    rw [List.takeWhile_append_of_pos hall, List.takeWhile_cons_of_neg (by simp [hb]), List.append_nil]
  have hdrop : (word.reverse ++ b :: cs.reverse).dropWhile (fun c => !isBlank c) = b :: cs.reverse := by
    rw [List.dropWhile_append_of_pos hall, List.dropWhile_cons_of_neg (by simp [hb])]
  rw [splitLastBlank, hrev, hdrop, htake]
  simp

theorem isOneOf_append (xs ys : List String) (cs : List Char) :
    isOneOf (xs ++ ys) cs = (isOneOf xs cs || isOneOf ys cs) := by
  simp [isOneOf, List.any_append]

/-- A key with a direction behind a blank. -/
theorem sortKey_of_word {b : Char} (hb : isBlank b = true) (hword : ∀ c ∈ word, isBlank c = false)
    (hdirection : isOneOf directionWords word = true) :
    sortKey (cs ++ b :: word) = ⟨String.ofList (Name.normalizeFragment cs),
      if isOneOf ["DESC", "DESCENDING"] word then .descending else .ascending⟩ := by
  rw [sortKey, splitLastBlank_word hb hword]
  by_cases hdown : isOneOf ["DESC", "DESCENDING"] word = true
  · simp only [hdown, if_true]
  · have hup : isOneOf ["ASC", "ASCENDING"] word = true := by
      rw [show directionWords = ["ASC", "ASCENDING"] ++ ["DESC", "DESCENDING"] from rfl,
        isOneOf_append] at hdirection
      simpa [hdown] using hdirection
    simp only [hdown, hup, if_true, Bool.false_eq_true, if_false]

/-- A key without a direction. -/
theorem sortKey_of_plain (h : endsInDirection cs = false) :
    sortKey (trim cs) = ⟨String.ofList (Name.normalizeFragment cs), .ascending⟩ := by
  rw [endsInDirection] at h
  rw [sortKey]
  cases hsplit : splitLastBlank (trim cs) with
  | none => simp only [Name.normalizeFragment_trim]
  | some parts =>
    rw [hsplit, Option.any_some, show directionWords = ["ASC", "ASCENDING"] ++ ["DESC", "DESCENDING"]
      from rfl, isOneOf_append, Bool.or_eq_false_iff] at h
    simp only [h.1, h.2, Bool.false_eq_true, if_false, Name.normalizeFragment_trim]

/-- The word of a direction. -/
theorem isOneOf_of_direction
    (h : grammar.Reads false (.once (Rule.body .sortDirection)) before cs after nodes) :
    isOneOf directionWords cs = true ∧ (∀ c ∈ cs, c.isAlpha = true) ∧ cs ≠ [] := by
  have hone {w : String} (hw : w ∈ directionWords)
      (hread : grammar.Reads false (.once (wholeWord w)) before cs after nodes) :
      isOneOf directionWords cs = true ∧ (∀ c ∈ cs, c.isAlpha = true) ∧ cs ≠ [] := by
    have hspell := (reads_keyword (hread.of_atomic rfl).2).1
    have hreserved : ∀ w ∈ directionWords, w ∈ reservedWords := by decide
    obtain ⟨hne, hletters⟩ := isAlpha_of_mem_reservedWords w (hreserved w hw)
    refine ⟨List.any_eq_true.mpr ⟨w, hw, ?_⟩, isAlpha_of_mem hspell hletters, ?_⟩
    · rw [equalIgnoringCase, hspell]
      exact beq_self_eq_true _
    · rintro rfl
      exact hne (List.map_eq_nil_iff.mp hspell.symm)
  rcases h.of_alt with h | ⟨-, h⟩
  · exact hone (by decide) h
  rcases h.of_alt with h | ⟨-, h⟩
  · exact hone (by decide) h
  rcases h.of_alt with h | ⟨-, h⟩
  · exact hone (by decide) h
  · exact hone (by decide) h

/-- **`IsSortItem before cs after item`** -- the stretch is read as a sort key. -/
def IsSortItem (before cs after : List Char) (item : Tree Rule) : Prop :=
  grammar.Reads false (.once (.rule .sortItem)) before cs after [item]

theorem IsSortItem.seeks {item : Tree Rule} (h : IsSortItem before cs after item) :
    Seeks itemSearch {} ⟨0, false, true⟩ before cs after [item] :=
  seeks_of_reads itemSearch_closed h (by decide)

/-- A blank before an index is the last character of what stands there. -/
theorem exists_of_blankBefore (hne : cs ≠ [])
    (h : blankBefore (before ++ (cs ++ after)) (before ++ cs).length = true) :
    ∃ front b, cs = front ++ [b] ∧ isBlank b = true := by
  refine ⟨cs.dropLast, cs.getLast hne, (List.dropLast_concat_getLast hne).symm, ?_⟩
  rw [blankBefore, ← List.append_assoc, List.take_left, List.getLast?_append,
    List.getLast?_eq_some_getLast hne, Option.some_or, Option.any_some] at h
  exact h

/-- A blank before the direction is the last blank of the key, so the key is cut there. -/
theorem sortKey_of_direction {es fs ys : List Char} (hes : ∃ c ∈ es.head?, isBlank c = false)
    (hfs : Blank fs) (hlast : ∃ front b, es ++ fs = front ++ [b] ∧ isBlank b = true)
    (hys : ∀ c ∈ ys, isBlank c = false) (hne : ys ≠ []) (hdirection : isOneOf directionWords ys = true) :
    sortKey (trim (es ++ (fs ++ ys))) = ⟨String.ofList (Name.normalizeFragment es),
      if isOneOf ["DESC", "DESCENDING"] ys then .descending else .ascending⟩ := by
  obtain ⟨front, b, hfront, hb⟩ := hlast
  obtain ⟨c, hc, hink⟩ := hes
  have hone : Blank [b] := by simpa [Blank] using hb
  have hsplit : es ++ (fs ++ ys) = front ++ b :: ys := by
    rw [← List.append_assoc, hfront, List.append_assoc, List.singleton_append]
  have htrim : trim (es ++ (fs ++ ys)) = es ++ (fs ++ ys) := by
    refine trim_of_ends (fun d hd => ?_) fun d hd => ?_
    · obtain rfl := Option.mem_unique (head?_append_of_mem hc _) hd
      exact hink
    · rw [← List.append_assoc, List.getLast?_append, List.getLast?_eq_some_getLast hne,
        Option.some_or] at hd
      obtain rfl := Option.some.inj hd
      exact hys _ (List.getLast_mem hne)
  have hcolumn : Name.normalizeFragment front = Name.normalizeFragment es := by
    have hsame : trim front = trim es := by
      rw [← trim_append_blank hone, ← hfront, trim_append_blank hfs]
    rw [← Name.normalizeFragment_trim, hsame, Name.normalizeFragment_trim]
  rw [htrim, hsplit, sortKey_of_word hb hys hdirection, hcolumn]

/-- **A sort key of the text is the sort key of the tree.** -/
theorem IsSortItem.sortKey {item : Tree Rule} (h : IsSortItem before cs after item)
    (hapart : Apart before cs after) (hshow : ShowsDirection (before ++ (cs ++ after)) item) :
    sortKey (trim cs) = sortKeyOf item := by
  obtain ⟨parts, hitem, hbody⟩ := Reads.of_normal rfl h
  obtain ⟨rfl, -⟩ := List.cons.inj hitem
  obtain ⟨es, fs, ys, _, _, _, rfl, rfl, hexpr, hgap, hopt⟩ := hbody.of_loose_seq
  obtain ⟨ns, rfl, -⟩ := hexpr.of_normal rfl
  have hat := hapart.place
  simp only [List.append_assoc] at hat
  have hes : At 0 {} (before ++ es) (fs ++ (ys ++ after)) := ((seeks_expression hexpr).leads hat).top
  obtain ⟨-, hblank⟩ := hes.filler hgap
  have hink : ∃ c ∈ es.head?, isBlank c = false :=
    ((seeks_expression hexpr).ink hat rfl (by simpa using hapart.head)).resolve_left
      fun hno => by cases hno.2
  -- With a direction the last word of the text is the direction; without one it must not look like
  -- one.
  rcases hopt.of_opt with hgiven | ⟨rfl, rfl, -⟩
  · obtain ⟨ms, rfl, hword⟩ := hgiven.of_normal rfl
    obtain ⟨hdirection, hletters, hne⟩ := isOneOf_of_direction hword
    have hesne : es ≠ [] := by
      obtain ⟨c, hc, -⟩ := hink
      rintro rfl
      cases hc
    have hshown := hshow.apart (.node .sortDirection (before ++ es ++ fs).length ys ms) rfl
    have hbefore : blankBefore (before ++ ((es ++ fs) ++ (ys ++ after)))
        (before ++ (es ++ fs)).length = true := by simpa [Tree.start] using hshown
    have hlast := exists_of_blankBefore (List.append_ne_nil_of_left_ne_nil hesne fs) hbefore
    rw [sortKey_of_direction hink hblank hlast (fun c hc => not_isBlank_of_isAlpha (hletters c hc)) hne
      hdirection]
    rfl
  · rw [List.append_nil, trim_append_blank hblank]
    have hplain : endsInDirection es = false := hshow.none rfl
    exact sortKey_of_plain hplain

/-! ## The keys in the text -/

/-- Two of the keywords that may end a returned list never stand at one place. -/
theorem eq_of_strips {keyword other : String} {more : List Char}
    (hkeyword : keyword ∈ boundarySearch.keywords) (hother : other ∈ boundarySearch.keywords)
    (h : stripKeyword keyword.toList cs = some rest) (h' : stripKeyword other.toList cs = some more) :
    keyword = other := by
  have hlead : ∀ k ∈ boundarySearch.keywords, leadWord k ≠ [] := by decide
  have hdistinct : ∀ k ∈ boundarySearch.keywords, ∀ l ∈ boundarySearch.keywords,
      ((leadWord k).map asciiLower).head? = ((leadWord l).map asciiLower).head? → k = l := by
    decide
  have hfirst {k : String} {rest : List Char} (hk : leadWord k ≠ [])
      (h : stripKeyword k.toList cs = some rest) :
      (cs.map asciiLower).head? = ((leadWord k).map asciiLower).head? := by
    obtain ⟨word, tail, rfl, hword, -⟩ := exists_of_stripKeyword hk h
    obtain ⟨l, ls, hlead⟩ := List.exists_cons_of_ne_nil hk
    rw [List.map_append, hword, hlead]
    rfl
  exact hdistinct _ hkeyword _ hother
    ((hfirst (hlead _ hkeyword) h).symm.trans (hfirst (hlead _ hother) h'))

/-- Of those keywords, the one that stands at a place is the first that is found there. -/
theorem firstKeyword_of_strip {keyword : String} (hkeyword : keyword ∈ boundarySearch.keywords)
    (h : stripKeyword keyword.toList cs = some rest) :
    firstKeyword boundarySearch.keywords cs = some (keyword, cs.length - rest.length) := by
  have hsome : (firstKeyword boundarySearch.keywords cs).isSome = true := by
    rw [firstKeyword, List.isSome_findSome?, List.any_eq_true]
    exact ⟨keyword, hkeyword, by simp [h]⟩
  obtain ⟨hit, hhit⟩ := Option.isSome_iff_exists.mp hsome
  obtain ⟨other, hother, hfound⟩ := List.exists_of_findSome?_eq_some hhit
  obtain ⟨more, hmore, rfl⟩ := Option.map_eq_some_iff.mp hfound
  obtain rfl := eq_of_strips hkeyword hother h hmore
  obtain rfl := Option.some.inj (h.symm.trans hmore)
  exact hhit

/-! ### The list of keys -/

section OrderBy

variable {front gap keys : List Char} (h : OrderBy before cs after front gap keys nodes)
include h

theorem OrderBy.at_keys : At 0 {} (before ++ front ++ gap) (keys ++ after) ∧ Blank gap := by
  obtain ⟨_, hgap⟩ := h.reads_gap
  exact h.place.filler hgap

theorem OrderBy.seeks : Seeks sortSearch {} ⟨0, false, true⟩ (before ++ front ++ gap) keys after nodes :=
  seeks_of_reads sortSearch_closed h.reads_keys (by decide)

theorem OrderBy.at_end : At 0 {} (before ++ front ++ gap ++ keys) after :=
  (h.seeks.leads h.at_keys.1).top

/-- The list of keys does not touch what stands around it. -/
theorem OrderBy.apart (hascii : BeginsAscii after) : Apart (before ++ front ++ gap) keys after := by
  obtain ⟨_, hgap⟩ := h.reads_gap
  obtain ⟨hat, hblank⟩ := h.at_keys
  exact ⟨hat, not_isFillerBlank_of_filler hgap, forall_getLast?_append h.digit fun b hb =>
    not_isDigit_of_isBlank (hblank b (List.mem_of_getLast? hb)), hascii⟩

/-- **The text up to what ends the keys is the list of keys.** -/
theorem OrderBy.trimClause (hclosing : Closing sortSearch.keywords after)
    (hcalm : areCalm sortSearch.keywords (before ++ (cs ++ after)) nodes = true)
    (hstop : digitBefore (before ++ (cs ++ after)) (before ++ cs).length = true →
      ((before ++ (cs ++ after)).drop (before ++ cs).length).head?.any Char.isAlpha = false) :
    trimClause (upTo (findKeyword sortSearch.keywords ((gap ++ keys) ++ after)) ((gap ++ keys) ++ after)) =
      trim keys := by
  obtain ⟨_, hgap⟩ := h.reads_gap
  obtain ⟨hat, hblank⟩ := h.at_keys
  have hplace : At 0 {} (before ++ front) ((gap ++ keys) ++ after) := by simpa using h.place
  have hends : At 0 {} (before ++ front ++ (gap ++ keys)) after := by simpa using h.at_end
  have hseeks := (Seeks.filler (q := sortSearch) (s := {}) hgap).append h.seeks
  have hlevel : Level (gap ++ keys) := hplace.between hends
  obtain ⟨c, hc, hink⟩ := (h.seeks.ink hat rfl (not_isFillerBlank_of_filler hgap)).resolve_left
    fun hno => by cases hno.2
  have hfree := hseeks.free hplace
  have hquiet := hseeks.quiet hplace (by simpa [h.text] using hcalm)
  rw [hplace.run] at hfree hquiet
  have hquiet' : Quiet sortSearch.keywords {} none (gap ++ keys) after := by
    refine hquiet.of_head fun d hd => not_isAlpha_of_not_isNameChar (h.stops d ?_)
    rw [← List.append_assoc, List.head?_append, Option.mem_def.mp hd]
    rfl
  -- A keyword behind the keys is apart from them.
  have hapart : ∀ d ∈ after.head?, d.isAlpha = true → ∀ b ∈ (gap ++ keys).getLast?,
      isSticky b = false := by
    intro d hd halpha b hb
    obtain ⟨more, rfl⟩ := List.head?_eq_some_iff.mp hd
    refine (hends.ends rfl rfl).not_isSticky (isNameChar_of_isAlpha halpha) (fun e he => ?_) b ?_
    · rw [← List.append_assoc before cs] at hstop
      exact not_isDigit_of_stop halpha hstop e (by simpa [h.text] using he)
    · rw [List.getLast?_append, Option.mem_def.mp hb]
      rfl
  rw [trimClause_upTo hlevel ⟨c, by simp [List.mem_of_head? hc], hink⟩
    (ne_of_getLast_trimEnd (by decide) (by simp [sortSearch]) hlevel hfree) hquiet' hclosing hapart]
  exact congrArg trimEnd (trimStart_blank hblank keys)

end OrderBy

/-! ### The clause -/

variable {lead gap distinct space list : List Char}

section Clause

variable (h : Clause source tree lead word gap distinct space list after)
  (hbare : uncommented source = source)
include h hbare

/-- The keys of the text are what the search for the end of the list leaves for them. -/
theorem Clause.orderBy (hshow : ShowsClause source tree) : (returns? source).bind Returns.orderBy =
    orderByAt (findKeyword boundarySearch.keywords ((gap ++ (distinct ++ (space ++ list))) ++ after))
      ((gap ++ (distinct ++ (space ++ list))) ++ after) := by
  have hdrop : source.drop (lead.length + word.length) =
      (gap ++ (distinct ++ (space ++ list))) ++ after := by
    rw [h.text, ← List.append_assoc, ← List.length_append, List.drop_left]
    simp
  rw [← hdrop, returns?, h.findReturn hbare hshow]
  rfl

/-- **Without sort keys in the tree there are none in the text.** -/
theorem Clause.orderBy_unsorted (hshow : ShowsClause source tree)
    (hclosing : Closing sortSearch.keywords after) : (returns? source).bind Returns.orderBy = none := by
  obtain ⟨hquiet, hlevel, -⟩ := h.quiet hbare hshow
  have hstop := h.stops hbare hshow
  rw [h.orderBy hbare hshow]
  rcases hclosing.cases with hletters | ⟨bs, rest, rfl, hbs, keyword, hkeyword, later, hstrip, halpha⟩
  · rw [findKeyword_of_not_isAlpha hlevel hquiet hletters, orderByAt]
  · -- What ends the list is a keyword, and not the one before sort keys.
    have hmem : keyword ∈ boundarySearch.keywords := by
      simp only [sortSearch, boundarySearch, List.mem_cons] at hkeyword ⊢
      exact .inr hkeyword
    have hne : keyword ≠ "ORDER BY" := by
      rintro rfl
      exact absurd hkeyword (by decide)
    obtain ⟨found, size, hfirst, hfound⟩ :=
      findKeyword_of_strip hlevel hquiet hbs hmem hstrip halpha hstop
    rw [firstKeyword_of_strip hmem hstrip] at hfirst
    obtain ⟨rfl, -⟩ := Prod.mk.inj (Option.some.inj hfirst)
    rw [hfound, orderByAt, if_neg hne]

/-- The search for the end of the returned list finds the words before the sort keys. -/
theorem Clause.findOrder {fs os words gs keys : List Char} (hshow : ShowsClause source tree)
    (hblank : Blank fs) (hafter : after = fs ++ (os ++ rest))
    (hparts : OrderBy (lead ++ word ++ gap ++ distinct ++ space ++ list ++ fs) os rest words gs keys nodes) :
    (returns? source).bind Returns.orderBy =
      some (Cypher.trimClause (upTo (findKeyword sortSearch.keywords ((gs ++ keys) ++ rest))
        ((gs ++ keys) ++ rest))) := by
  subst hafter
  obtain ⟨hquiet, hlevel, -⟩ := h.quiet hbare hshow
  obtain ⟨c, hc, halpha⟩ := hparts.letter
  have hhead : ∃ c ∈ (os ++ rest).head?, c.isAlpha = true :=
    ⟨c, by rw [List.head?_append, Option.mem_def.mp hc]; rfl, halpha⟩
  obtain ⟨found, size, hfirst, hfound⟩ := findKeyword_of_strip hlevel hquiet hblank
    (by simp [boundarySearch]) hparts.strips hhead (h.stops hbare hshow)
  rw [firstKeyword_of_strip (by simp [boundarySearch]) hparts.strips] at hfirst
  obtain ⟨rfl, hsize⟩ := Prod.mk.inj (Option.some.inj hfirst)
  obtain rfl : words.length = size := by
    rw [← hsize, hparts.text]
    simp only [List.length_append]
    omega
  have hdrop : ((gap ++ (distinct ++ (space ++ list))) ++ (fs ++ (os ++ rest))).drop
      (((gap ++ (distinct ++ (space ++ list))) ++ fs).length + words.length) = (gs ++ keys) ++ rest := by
    rw [hparts.text, show (gap ++ (distinct ++ (space ++ list))) ++ (fs ++ ((words ++ (gs ++ keys)) ++ rest)) =
      ((gap ++ (distinct ++ (space ++ list))) ++ fs ++ words) ++ ((gs ++ keys) ++ rest) by simp,
      ← List.length_append, List.drop_left]
  rw [h.orderBy hbare hshow, hfound, orderByAt, if_pos rfl]
  simp only [hdrop]
  rfl

/-- **The keys that the searches isolate are the keys of the tree.** -/
theorem Clause.orderBy_sorted (hshow : ShowsOrder source tree) {order : Tree Rule}
    (horder : orderClause? tree = some order)
    (hsorting : Sorting (some order) (lead ++ word ++ gap ++ distinct ++ space ++ list) after) :
    ∃ keys front rest, (returns? source).bind Returns.orderBy = some (trim keys) ∧
      source = front ++ (keys ++ rest) ∧
      grammar.Reads false (.once (listed (.rule .sortItem))) front keys rest (sortItems tree) ∧
      Apart front keys rest := by
  have hlist := h.at_list hbare
  have htext : source = lead ++ word ++ gap ++ distinct ++ space ++ list ++ after := by simp [h.text]
  generalize hstart : lead ++ word ++ gap ++ distinct ++ space ++ list = start at hsorting hlist htext
  cases hsorting with
  | @sorted _ fs os rest _ ns hgap hbody hclosing hascii =>
    obtain ⟨hfs, hblank⟩ := hlist.filler hgap
    obtain ⟨words, gs, keys, hparts⟩ := exists_orderBy hbody hfs hascii
    have hitems : sortItems tree = ns.filter fun n => n.rule = .sortItem := by
      rw [sortItems, horder]
      rfl
    rw [← hitems] at hparts
    have htext' : source = start ++ fs ++ (os ++ rest) := by simp [htext]
    have hcalm : areCalm sortSearch.keywords (start ++ fs ++ (os ++ rest)) (sortItems tree) = true := by
      rw [← htext']
      exact areCalm_iff.mpr hshow.keys
    have hstop := hshow.stop _ horder
    rw [stopOf, Tree.start, Tree.text, ← List.length_append, htext'] at hstop
    refine ⟨keys, _, rest, ?_, ?_, hparts.reads_keys, hparts.apart hascii⟩
    · rw [h.findOrder hbare hshow.clause hblank rfl (by rw [hstart]; exact hparts),
        hparts.trimClause hclosing hcalm hstop]
    · simp [htext', hparts.text]

end Clause

/-! ## The orderings -/

/-- **What the text is sorted by is what its tree sorts by**: an entry for each sort key, in order,
of an accepted text without comments whose searches are not led astray, and none where the clause
has no sort keys. -/
theorem orderings_of_tree (h : parse source = .ok tree) (hbare : commentCharacters source = [])
    (hshow : ShowsOrder source tree) :
    (structureOf source tree).orderings = (sortItems tree).map sortKeyOf := by
  obtain ⟨lead, word, gap, distinct, space, list, after, hclause⟩ := exists_clause h
  have hbare' := uncommented_of_commentless hbare
  show orderings source = _
  rw [orderings]
  have hsorting := hclause.sorting (hclause.at_list hbare')
  cases horder : orderClause? tree with
  | none =>
    rw [horder] at hsorting
    cases hsorting with
    | unsorted hclosing =>
      rw [hclause.orderBy_unsorted hbare' hshow.clause hclosing, sortItems, horder]
      rfl
  | some order =>
    rw [horder] at hsorting
    obtain ⟨keys, front, rest, hkeys, rfl, hlisted, hapart⟩ :=
      hclause.orderBy_sorted hbare' hshow horder hsorting
    have hitem {before cs after : List Char} {item : Tree Rule}
        (hread : grammar.Reads false (.once (.rule .sortItem)) before cs after [item]) :
        IsSortItem before cs after item := hread
    obtain ⟨xs, fs, rfl, hitems, hfiller⟩ := exists_items rfl hitem (fun hread => by
      obtain ⟨_, rfl, -⟩ := hread.of_normal rfl
      exact ⟨_, rfl, hread⟩) hlisted
    obtain ⟨hblank, hapart'⟩ := hapart.of_items IsSortItem.seeks hitems hfiller
    rw [hkeys]
    show (splitTopLevel ',' (trim (xs ++ fs))).map sortKey = _
    rw [splitTopLevel_trim (by decide), splitTopLevel_append_blank hblank (by decide)]
    refine splitTopLevel_of_items IsSortItem.seeks hitems hapart' fun hread hmem htext hat => ?_
    refine hread.sortKey hat ?_
    rw [htext]
    simpa using hshow.directions _ hmem

/-- Keys with and without a direction, and what ends them. -/
def sortedQuery : List Char :=
  "MATCH (n:P) RETURN n.x AS x ORDER BY n.x DESCENDING, size([n.skip, 'a desc']) , n.y asc SKIP 1;".toList

theorem orderings_sortedQuery : ∃ tree, parse sortedQuery = .ok tree ∧
    commentCharacters sortedQuery = [] ∧ ShowsOrder sortedQuery tree ∧
    (structureOf sortedQuery tree).orderings = (sortItems tree).map sortKeyOf ∧
    (sortItems tree).map sortKeyOf =
      [⟨"n.x", .descending⟩, ⟨"size([n.skip, 'a desc'])", .ascending⟩, ⟨"n.y", .ascending⟩] := by
  obtain ⟨tree, hparse, hall⟩ := exists_tree_of_any sortedQuery
    (fun tree => decide (ShowsOrder sortedQuery tree ∧ (sortItems tree).map sortKeyOf =
      [⟨"n.x", .descending⟩, ⟨"size([n.skip, 'a desc'])", .ascending⟩, ⟨"n.y", .ascending⟩]))
    (by decide +kernel)
  obtain ⟨hshow, hkeys⟩ := of_decide_eq_true hall
  have hbare : commentCharacters sortedQuery = [] := by decide
  exact ⟨tree, hparse, hbare, hshow, orderings_of_tree hparse hbare hshow, hkeys⟩

/-- A direction right behind the bracket that closes its key. -/
def touchingDirection : List Char := "MATCH (n:P) RETURN n.x ORDER BY (n.x)DESC".toList

/-- The grammar needs no blank before the direction; the text takes it for a part of the key, and
the order is turned around. -/
theorem orderings_touchingDirection : ∃ tree, parse touchingDirection = .ok tree ∧
    commentCharacters touchingDirection = [] ∧
    (structureOf touchingDirection tree).orderings = [⟨"(n.x)desc", .ascending⟩] ∧
    (sortItems tree).map sortKeyOf = [⟨"(n.x)", .descending⟩] := by
  obtain ⟨tree, hparse, hall⟩ := exists_tree_of_any touchingDirection
    (fun tree => decide ((sortItems tree).map sortKeyOf = [⟨"(n.x)", .descending⟩])) (by decide +kernel)
  have hkeys : orderings touchingDirection = [⟨"(n.x)desc", .ascending⟩] := by decide
  exact ⟨tree, hparse, by decide, hkeys, of_decide_eq_true hall⟩

end QueryScore.Cypher
