/-
# QueryScore.Proofs.Filter.Spelling -- a predicate, its atoms, and its text

A predicate is spelled with connectives and parentheses around its atoms (`Spells`). The splitting
of a text knows nothing of the predicate, and still finds exactly its atoms
(`atoms_normalizeFragment`), as long as each atom is whole for it (`Whole`): brackets and quotes in
pairs, no parentheses around all of it, and no keyword at its top level but each `BETWEEN` with its
`AND`. What is split is the comparison form of the text, so the proof first carries the spelling
over to that form (`Spells.normalize`).
-/

import QueryScore.Proofs.Filter.Operand
import QueryScore.Proofs.Text.Wrapped

namespace QueryScore.Filter

open Text Name

variable {word front bs bs' cs ds u l r rest : List Char} {us vs as as' : List (List Char)}

/-! ## Spelled predicates -/

/-- **`Whole cs`** -- an atom that the splitting leaves alone. -/
structure Whole (cs : List Char) : Prop extends Operand cs where
  bare : unwrap? cs = none

instance (cs : List Char) : Decidable (Whole cs) :=
  decidable_of_iff (Operand cs ∧ unwrap? cs = none) ⟨fun h => ⟨h.1, h.2⟩, fun h => ⟨h.toOperand, h.bare⟩⟩

/-- **`Spells cs as`** -- the text of a predicate with these atoms. -/
inductive Spells : List Char → List (List Char) → Prop
  /-- An atom. -/
  | atom {cs : List Char} : Inked cs → Spells cs [cs]
  /-- A predicate in parentheses. -/
  | group {bs cs bs' : List Char} {as : List (List Char)} : Blank bs → Spells cs as → Blank bs' →
    Spells ('(' :: ((bs ++ (cs ++ bs')) ++ [')'])) as
  /-- Two predicates with a connective between them. -/
  | join {l bs word bs' r : List Char} {as as' : List (List Char)} : Spells l as → Link l bs word bs' r →
    Spells r as' → Spells (l ++ (bs ++ (word ++ (bs' ++ r)))) (as ++ as')

theorem inked_wrap (cs : List Char) : Inked ('(' :: (cs ++ [')'])) :=
  ⟨⟨'(', rfl, by decide⟩, ')', by rw [← List.cons_append, List.getLast?_concat]; rfl, by decide⟩

theorem Spells.inked (h : Spells cs as) : Inked cs := by
  induction h with
  | atom h => exact h
  | group => exact inked_wrap _
  | @join _ bs _ bs' _ _ _ _ hlink _ ihl ihr => exact ihl.append bs (hlink.word.inked.append bs' ihr)

/-- An atom with blanks around it. -/
theorem Spells.of_ink (h : ∃ c ∈ cs, isBlank c = false) : Spells (trim cs) [trim cs] := .atom (inked_trim h)

/-- Parentheses around a predicate, with blanks inside. -/
theorem Spells.wrap (h : Spells (trim cs) as) : Spells ('(' :: (cs ++ [')'])) as := by
  obtain ⟨bs, bs', hbs, hbs', hsplit⟩ := exists_trim cs
  rw [hsplit]
  exact .group hbs h hbs'

/-- A character that is no blank ends a text as it ends the trimmed text. -/
theorem getLast?_of_trim {c : Char} (h : Inked (trim cs)) (hsplit : cs = bs ++ (trim cs ++ []))
    (hc : c ∈ cs.getLast?) : c ∈ (trim cs).getLast? := by
  obtain ⟨d, hd, -⟩ := h.last
  have hlast := getLast?_append_of_mem bs hd
  rw [List.append_nil] at hsplit
  rw [← hsplit] at hlast
  obtain rfl := Option.mem_unique hc hlast
  exact hd

theorem head?_of_trim {c : Char} (h : Inked (trim cs)) (hsplit : cs = [] ++ (trim cs ++ bs'))
    (hc : c ∈ cs.head?) : c ∈ (trim cs).head? := by
  obtain ⟨d, hd, -⟩ := h.head
  have hhead := head?_append_of_mem hd bs'
  rw [List.nil_append] at hsplit
  rw [← hsplit] at hhead
  obtain rfl := Option.mem_unique hc hhead
  exact hd

/-- A connective between two predicates: a blank or a bracket stands on either side of it. -/
theorem Spells.connect (hl : Spells (trim l) as) (hword : IsConnective word) (hr : Spells (trim r) as')
    (hleft : ∃ c ∈ l.getLast?, isBlank c = true ∨ isClosing c = true)
    (hright : ∃ c ∈ r.head?, isBlank c = true ∨ isOpening c = true) :
    Spells (trim (l ++ (word ++ r))) (as ++ as') := by
  obtain ⟨bs, gap, hbs, hgap, hl'⟩ := exists_trim l
  obtain ⟨gap', bs', hgap', hbs', hr'⟩ := exists_trim r
  -- Where no blanks stand between the word and an operand, a bracket of the operand does.
  have hlink : Link (trim l) gap word gap' (trim r) := by
    refine ⟨hgap, hword, hgap', fun hnil => ?_, fun hnil => ?_⟩
    · obtain ⟨c, hc, hkind⟩ := hleft
      have hlast := getLast?_of_trim hl.inked (hnil ▸ hl') hc
      refine ⟨c, hlast, hkind.resolve_left ?_⟩
      obtain ⟨d, hd, hink⟩ := hl.inked.last
      obtain rfl := Option.mem_unique hlast hd
      simp [hink]
    · obtain ⟨c, hc, hkind⟩ := hright
      have hhead := head?_of_trim hr.inked (hnil ▸ hr') hc
      refine ⟨c, hhead, hkind.resolve_left ?_⟩
      obtain ⟨d, hd, hink⟩ := hr.inked.head
      obtain rfl := Option.mem_unique hhead hd
      simp [hink]
  have hjoin := Spells.join hl hlink hr
  have hsame : l ++ (word ++ r) = bs ++ ((trim l ++ (gap ++ (word ++ (gap' ++ trim r)))) ++ bs') := by
    rw [hl', hr']
    simp only [trim_append hbs hgap, trim_append hgap' hbs', trim_trim, List.append_assoc]
  rw [hsame, trim_append hbs hbs', hjoin.inked.trim]
  exact hjoin

/-! ## The splitting -/

/-- The splitting, once the wrapping parentheses are off. -/
theorem atoms_eq (cs : List Char) : atoms cs =
    if (operands (stripWrappingParens cs)).length = 1 then
      if (normalizeFragment (stripWrappingParens cs)).isEmpty then []
      else [normalizeFragment (stripWrappingParens cs)]
    else (operands (stripWrappingParens cs)).flatMap atoms := by
  rw [atoms]
  split
  · rfl
  · rw [List.flatMap_def, List.attach_map_val, List.flatMap_def]

theorem atoms_of_cut (cs : List Char) (h : (operands (stripWrappingParens cs)).length ≠ 1) :
    atoms cs = (operands (stripWrappingParens cs)).flatMap atoms := by
  rw [atoms_eq, if_neg h]

theorem atoms_of_uncut (cs : List Char) (h : (operands (stripWrappingParens cs)).length = 1)
    (hne : normalizeFragment (stripWrappingParens cs) ≠ []) :
    atoms cs = [normalizeFragment (stripWrappingParens cs)] := by
  rw [atoms_eq, if_pos h, if_neg (by simpa using hne)]

/-- Only the text inside all wrapping parentheses matters. -/
theorem atoms_congr (h : stripWrappingParens cs = stripWrappingParens ds) : atoms cs = atoms ds := by
  rw [atoms_eq, atoms_eq, h]

theorem stripWrappingParens_of_bare (h : Inked cs) (hbare : unwrap? cs = none) :
    stripWrappingParens cs = cs := by
  rw [stripWrappingParens_of_unwrap?_eq_none (by rwa [h.trim]), h.trim]

theorem stripWrappingParens_of_wrapped {inner : List Char} (h : Inked cs)
    (hwrapped : unwrap? cs = some inner) : stripWrappingParens cs = stripWrappingParens inner :=
  stripWrappingParens_of_unwrap?_eq_some (by rwa [h.trim])

theorem atoms_of_whole (h : Whole cs) : atoms cs = [normalizeFragment cs] := by
  have hstrip := stripWrappingParens_of_bare h.inked h.bare
  have huncut := atoms_of_uncut cs
  rw [hstrip, operands_of_joined (.one h.toOperand)] at huncut
  exact huncut rfl (normalizeFragment_ne_nil h.inked.ink)

theorem atoms_of_group (hbs : Blank bs) (hbs' : Blank bs') (h : Paired (bs ++ (cs ++ bs'))) :
    atoms ('(' :: ((bs ++ (cs ++ bs')) ++ [')'])) = atoms cs := by
  refine atoms_congr ?_
  rw [stripWrappingParens_of_wrapped (inked_wrap _) (unwrap?_wrap h), ← stripWrappingParens_trim,
    trim_append hbs hbs', stripWrappingParens_trim]

/-- A text falls into the atoms of its operands. -/
theorem atoms_of_joined (h : Joined cs us) : atoms cs = us.flatMap atoms := by
  cases h with
  | one => simp
  | @more u bs word bs' rest us hu hlink hrest =>
    obtain ⟨c, hc, -⟩ := hu.inked.head
    have hne : u ≠ [] := by
      rintro rfl
      cases hc
    have hbare : unwrap? (u ++ (bs ++ (word ++ (bs' ++ rest)))) = none :=
      unwrap?_append hu.paired hne (by simp [hlink.word.ne_nil])
    have hall := Joined.more hu hlink hrest
    have hstrip := stripWrappingParens_of_bare hall.inked hbare
    have hcut := atoms_of_cut (u ++ (bs ++ (word ++ (bs' ++ rest))))
    rw [hstrip, operands_of_joined hall] at hcut
    refine hcut ?_
    obtain ⟨v, vs, rfl⟩ := List.exists_cons_of_ne_nil hrest.ne_nil
    simp

/-- A predicate in parentheses is an operand. -/
theorem operand_wrap (h : Paired cs) : Operand ('(' :: (cs ++ [')'])) where
  inked := inked_wrap cs
  paired := h.wrap
  between := by
    have hquiet : Quiet keywords {} none ('(' :: (cs ++ [')'])) [] := by
      refine ⟨rfl, quiet_append.mpr ⟨h.quiet _ _, ?_⟩⟩
      refine Startless.quiet (m := (Scanner.run (Scanner.step {} '(') cs).mode)
        (startless_of_not_isAlpha fun c hc => ?_) (Scanner.run (Scanner.step {} '(') cs).depth
      obtain rfl := List.mem_singleton.mp hc
      decide
    rw [findKeywords_of_quiet hquiet]
    rfl

/-- A spelled predicate is a chain of operands that fall into its atoms. -/
theorem exists_joined (h : Spells cs as) (hwhole : ∀ a ∈ as, Whole a) :
    ∃ us, Joined cs us ∧ us.flatMap atoms = as.map normalizeFragment := by
  induction h with
  | @atom cs =>
    have hone := hwhole cs (by simp)
    exact ⟨_, .one hone.toOperand, by simp [atoms_of_whole hone]⟩
  | @group bs cs bs' as hbs _ hbs' ih =>
    obtain ⟨us, hjoined, hatoms⟩ := ih hwhole
    have hpaired : Paired (bs ++ (cs ++ bs')) :=
      (paired_of_blank hbs).append (hjoined.paired.append (paired_of_blank hbs'))
    refine ⟨_, .one (operand_wrap hpaired), ?_⟩
    rw [List.flatMap_singleton, atoms_of_group hbs hbs' hpaired, atoms_of_joined hjoined, hatoms]
  | join _ hlink _ ihl ihr =>
    obtain ⟨us, hus, hleft⟩ := ihl fun a ha => hwhole a (by simp [ha])
    obtain ⟨vs, hvs, hright⟩ := ihr fun a ha => hwhole a (by simp [ha])
    exact ⟨us ++ vs, hus.append hlink hvs, by simp [hleft, hright]⟩

/-! ## The comparison form -/

/-- Brackets are solid, and have no other case. -/
theorem solid_of_isBracket {c : Char} (h : isOpening c = true ∨ isClosing c = true) :
    Solid c ∧ lowerChar c = [c] := by
  simp only [isOpening, isClosing, Bool.or_eq_true, beq_iff_eq] at h
  rcases h with ((rfl | rfl) | rfl) | ((rfl | rfl) | rfl) <;> decide

/-- A connective stays one. -/
theorem IsConnective.normalize (h : IsConnective word) : IsConnective (normalizeFragment word) := by
  have hform : normalizeFragment word = word.map asciiLower := by
    rw [normalizeFragment, collapse, words_of_not_blank h.ne_nil fun c hc =>
      not_isBlank_of_isAlpha (h.letters c hc), List.intercalate_singleton, lowercase_letters h.letters]
  obtain ⟨k, hk, hword⟩ := h
  refine ⟨k, hk, ?_⟩
  have hlower : ∀ k ∈ ["AND", "OR"], (k.toList.map asciiLower).map asciiLower = k.toList.map asciiLower := by
    decide
  rw [hform, hword, hlower k hk]

theorem eq_nil_of_collapsedGap (h : collapsedGap bs = []) : bs = [] := by
  rw [collapsedGap] at h
  split at h
  · simpa using ‹bs.isEmpty = true›
  · cases h

/-- A connective stays apart. -/
theorem Link.normalize (h : Link l bs word bs' r) : Link (normalizeFragment l) (collapsedGap bs)
    (normalizeFragment word) (collapsedGap bs') (normalizeFragment r) where
  before := blank_collapsedGap bs
  word := h.word.normalize
  behind := blank_collapsedGap bs'
  left hbs := by
    obtain ⟨c, hc, hclose⟩ := h.left (eq_nil_of_collapsedGap hbs)
    obtain ⟨hsolid, hlower⟩ := solid_of_isBracket (.inr hclose)
    exact ⟨c, getLast?_normalizeFragment hsolid (of_isBracket (.inr hclose)).2.2.2 hlower hc, hclose⟩
  right hbs := by
    obtain ⟨c, hc, hopen⟩ := h.right (eq_nil_of_collapsedGap hbs)
    obtain ⟨hsolid, hlower⟩ := solid_of_isBracket (.inl hopen)
    exact ⟨c, head?_normalizeFragment hsolid (of_isBracket (.inl hopen)).2.2.2 hlower hc, hopen⟩

theorem normalizeFragment_group (hbs : Blank bs) (hcs : Inked cs) (hbs' : Blank bs') :
    normalizeFragment ('(' :: ((bs ++ (cs ++ bs')) ++ [')'])) =
      '(' :: ((collapsedGap bs ++ (normalizeFragment cs ++ collapsedGap bs')) ++ [')']) := by
  have hopen : Inked ['('] := ⟨⟨'(', rfl, by decide⟩, '(', rfl, by decide⟩
  have hclose : Inked [')'] := ⟨⟨')', rfl, by decide⟩, ')', rfl, by decide⟩
  have hsolid : Solid '(' ∧ Solid ')' := by decide
  have hparens : normalizeFragment ['('] = ['('] ∧ normalizeFragment [')'] = [')'] := by decide
  have hinner := normalizeFragment_append hcs hbs' hclose fun _ => .inr ⟨')', rfl, hsolid.2⟩
  have hall := normalizeFragment_append hopen hbs (hcs.append bs' hclose)
    fun _ => .inl ⟨'(', rfl, hsolid.1⟩
  rw [hinner, hparens.1, hparens.2] at hall
  simpa using hall

theorem normalizeFragment_join (hl : Inked l) (hlink : Link l bs word bs' r) (hr : Inked r) :
    normalizeFragment (l ++ (bs ++ (word ++ (bs' ++ r)))) =
      normalizeFragment l ++ (collapsedGap bs ++ (normalizeFragment word ++
        (collapsedGap bs' ++ normalizeFragment r))) := by
  have hword := hlink.word.inked
  rw [normalizeFragment_append hl hlink.before (hword.append bs' hr),
    normalizeFragment_append hword hlink.behind hr]
  · intro hbs
    obtain ⟨c, hc, hopen⟩ := hlink.right hbs
    exact .inr ⟨c, hc, (solid_of_isBracket (.inl hopen)).1⟩
  · intro hbs
    obtain ⟨c, hc, hclose⟩ := hlink.left hbs
    exact .inl ⟨c, hc, (solid_of_isBracket (.inr hclose)).1⟩

/-- **The comparison form of a spelled predicate spells the comparison forms of its atoms.** -/
theorem Spells.normalize (h : Spells cs as) : Spells (normalizeFragment cs) (as.map normalizeFragment) := by
  induction h with
  | atom h => exact .atom (inked_normalizeFragment h)
  | group hbs h hbs' ih =>
    rw [normalizeFragment_group hbs h.inked hbs']
    exact .group (blank_collapsedGap _) ih (blank_collapsedGap _)
  | join hl hlink hr ihl ihr =>
    rw [normalizeFragment_join hl.inked hlink hr.inked, List.map_append]
    exact .join ihl hlink.normalize ihr

/-- **The atoms of a predicate are those of its text**, as long as the comparison form of each is
whole. -/
theorem atoms_normalizeFragment (h : Spells cs as) (hwhole : ∀ a ∈ as, Whole (normalizeFragment a)) :
    atoms (normalizeFragment cs) = as.map normalizeFragment := by
  have hforms : ∀ a ∈ as.map normalizeFragment, Whole a := by
    intro a ha
    obtain ⟨b, hb, rfl⟩ := List.mem_map.mp ha
    exact hwhole b hb
  obtain ⟨us, hjoined, hatoms⟩ := exists_joined h.normalize hforms
  rw [atoms_of_joined hjoined, hatoms, List.map_map]
  exact List.map_congr_left fun a _ => normalizeFragment_normalizeFragment a

/-- **`Solitary cs`** -- a text with its brackets in pairs, and no parentheses around all of it. -/
structure Solitary (cs : List Char) : Prop where
  ink : ∃ c ∈ cs, isBlank c = false
  paired : Paired cs
  bare : unwrap? (trim cs) = none

/-- The comparison form of such a text is whole if no keyword cuts it. -/
theorem Solitary.whole (h : Solitary cs)
    (hbetween : closesBetween false (findKeywords keywords (normalizeFragment cs)) = true) :
    Whole (normalizeFragment cs) := by
  have hinked := inked_trim h.ink
  rw [← normalizeFragment_trim] at hbetween ⊢
  exact ⟨⟨inked_normalizeFragment hinked, paired_normalizeFragment hinked h.paired.trim, hbetween⟩,
    unwrap?_normalizeFragment hinked h.bare⟩

/-! ## Predicates of a tree -/

/-- A predicate of a syntax tree: its text, and the texts of its atoms. -/
structure Predicate where
  /-- The text. -/
  text : List Char
  /-- The atoms, in the order of the text. -/
  atoms : List (List Char)
  deriving DecidableEq, Repr

/-- The comparison forms of the atoms of a predicate. -/
def Predicate.forms (p : Predicate) : List (List Char) := p.atoms.map normalizeFragment

/-- **`p.Shown`** -- the text of the predicate spells it, and the splitting leaves its atoms alone. -/
structure Predicate.Shown (p : Predicate) : Prop where
  spells : Spells (trim p.text) (p.atoms.map trim)
  whole : ∀ a ∈ p.atoms, Whole (normalizeFragment a)

/-- The text of a predicate is split into the atoms of the tree, in their order. -/
theorem Predicate.Shown.atoms_eq {p : Predicate} (h : p.Shown) :
    Filter.atoms (normalizeFragment p.text) = p.forms := by
  have hforms := atoms_normalizeFragment h.spells fun a ha => by
    obtain ⟨b, hb, rfl⟩ := List.mem_map.mp ha
    rw [normalizeFragment_trim]
    exact h.whole b hb
  rw [normalizeFragment_trim, List.map_map] at hforms
  rw [hforms]
  exact List.map_congr_left fun a _ => normalizeFragment_trim a

theorem mem_normalize {filters : List String} {x : String} :
    x ∈ normalize filters ↔ ∃ f ∈ filters, x.toList ∈ atoms f.toList := by
  simp only [normalize, SortedSet.mem_ofList, List.mem_flatMap, List.mem_map]
  constructor
  · rintro ⟨f, hf, a, ha, rfl⟩
    exact ⟨f, hf, by rwa [String.toList_ofList]⟩
  · rintro ⟨f, hf, hx⟩
    exact ⟨f, hf, x.toList, hx, String.ofList_toList⟩

/-- **The filters of some predicates, split as texts, are the atoms of the tree.** -/
theorem normalize_of_shown {found : SortedSet String} {predicates : List Predicate}
    (hfound : ∀ f, f ∈ found ↔ ∃ p ∈ predicates, f = String.ofList (normalizeFragment p.text))
    (hshown : ∀ p ∈ predicates, p.Shown) :
    normalize found.toList = .ofList ((predicates.flatMap Predicate.forms).map String.ofList) := by
  refine SortedSet.ext fun f => ?_
  simp only [mem_normalize, SortedSet.mem_ofList, List.mem_flatMap, List.mem_map]
  constructor
  · rintro ⟨filter, hfilter, hatom⟩
    obtain ⟨p, hp, rfl⟩ := (hfound filter).mp hfilter
    rw [String.toList_ofList, (hshown p hp).atoms_eq] at hatom
    exact ⟨f.toList, ⟨p, hp, hatom⟩, String.ofList_toList⟩
  · rintro ⟨atom, ⟨p, hp, hatom⟩, rfl⟩
    refine ⟨_, (hfound _).mpr ⟨p, hp, rfl⟩, ?_⟩
    rwa [String.toList_ofList, String.toList_ofList, (hshown p hp).atoms_eq]

end QueryScore.Filter
