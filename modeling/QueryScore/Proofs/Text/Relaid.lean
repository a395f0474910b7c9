/-
# QueryScore.Proofs.Text.Relaid -- texts that differ in the blanks between their words

Two texts are relaid if each run of blanks outside quotes in one is such a run in the other, and all
else is the same (`Relaid`). A scan is in the same state at corresponding places (`Relaid.run`), so
the two texts are trimmed in corresponding places (`Relaid.trim`), they have the same words
(`Relaid.words_eq`), and a keyword stands at the front of both or of neither (`Relaid.stripKeyword`).
-/

import Mathlib.Data.List.DropRight
import Mathlib.Data.List.Forall2
import QueryScore.Proofs.Text.Lower
import QueryScore.Proofs.Text.Split

namespace QueryScore.Text

variable {m : Mode} {s : Scanner} {b c w : Char} {bs ks ls cs ds xs ys : List Char}

/-- **`Gap bs`** -- a run of blanks, one at least. -/
structure Gap (bs : List Char) : Prop where
  ne_nil : bs ≠ []
  blank : Blank bs

/-- **`Relaid m cs ds`** -- from mode `m` on, the texts are the same but for the runs of blanks outside
quotes. -/
inductive Relaid : Mode → List Char → List Char → Prop
  | nil {m : Mode} : Relaid m [] []
  | keep {m : Mode} {c : Char} {cs ds : List Char} : Relaid (m.step c) cs ds → Relaid m (c :: cs) (c :: ds)
  | gap {ks ls cs ds : List Char} : Gap ks → Gap ls → Relaid .outside cs ds →
      Relaid .outside (ks ++ cs) (ls ++ ds)

/-! ## Runs of blanks -/

theorem Gap.exists_cons (h : Gap bs) : ∃ b more, bs = b :: more ∧ isBlank b = true ∧ Blank more := by
  obtain ⟨b, more, rfl⟩ := List.exists_cons_of_ne_nil h.ne_nil
  exact ⟨b, more, rfl, h.blank b (by simp), fun c hc => h.blank c (by simp [hc])⟩

theorem step_of_isBlank (h : isBlank b = true) : Mode.step .outside b = .outside := by
  simp [Mode.step, (not_mark_of_isBlank h).1]

theorem modeAfter_blank (h : Blank bs) : modeAfter .outside bs = .outside := by
  rw [← mode_run ⟨.outside, 0⟩ bs, run_blank h]

theorem startsInsideWord_gap (h : Gap bs) (cs : List Char) : startsInsideWord (bs ++ cs) = false := by
  obtain ⟨b, more, rfl, hb, -⟩ := h.exists_cons
  exact not_isIdentifierChar_of_isBlank hb

/-! ## Relaid texts -/

theorem Relaid.refl (m : Mode) (cs : List Char) : Relaid m cs cs := by
  induction cs generalizing m with
  | nil => exact .nil
  | cons c cs ih => exact .keep (ih _)

theorem Relaid.of_gaps (hks : Gap ks) (hls : Gap ls) : Relaid .outside ks ls := by
  rw [← List.append_nil ks, ← List.append_nil ls]
  exact .gap hks hls .nil

theorem Relaid.append (h : Relaid m cs ds) (h' : Relaid (modeAfter m cs) xs ys) :
    Relaid m (cs ++ xs) (ds ++ ys) := by
  induction h with
  | nil => exact h'
  | keep _ ih => exact .keep (ih h')
  | gap hks hls _ ih =>
    rw [modeAfter_append, modeAfter_blank hks.blank] at h'
    rw [List.append_assoc, List.append_assoc]
    exact .gap hks hls (ih h')

theorem Relaid.nil_iff (h : Relaid m cs ds) : cs = [] ↔ ds = [] := by
  cases h with
  | nil | keep => simp
  | gap hks hls => simp [hks.ne_nil, hls.ne_nil]

theorem Relaid.isEmpty_eq (h : Relaid m cs ds) : ds.isEmpty = cs.isEmpty := by
  rw [Bool.eq_iff_iff, List.isEmpty_iff, List.isEmpty_iff, h.nil_iff]

/-- A scan is in the same state behind both texts. -/
theorem Relaid.run (h : Relaid s.mode cs ds) : s.run ds = s.run cs := by
  generalize hm : s.mode = m at h
  induction h generalizing s with
  | nil => rfl
  | keep _ ih =>
    subst hm
    exact ih rfl
  | gap hks hls _ ih =>
    rw [Scanner.run_append, Scanner.run_append, eq_of_outside hm, run_blank hks.blank, run_blank hls.blank]
    exact ih rfl

/-- A property that no blank has holds of the first characters of both texts, which are the same, or of
neither. -/
theorem Relaid.head {p : Char → Bool} (hp : ∀ b, isBlank b = true → p b = false) (h : Relaid m cs ds) :
    ((∀ c ∈ cs.head?, p c = false) ∧ ∀ d ∈ ds.head?, p d = false) ∨
      ∃ c cs' ds', cs = c :: cs' ∧ ds = c :: ds' ∧ p c = true ∧ Relaid (m.step c) cs' ds' := by
  cases h with
  | nil => simp
  | @keep _ c cs ds h =>
    by_cases hc : p c = true
    · exact .inr ⟨c, cs, ds, rfl, rfl, hc, h⟩
    · exact .inl (by simpa using hc)
  | gap hks hls =>
    obtain ⟨k, ks, rfl, hk, -⟩ := hks.exists_cons
    obtain ⟨l, ls, rfl, hl, -⟩ := hls.exists_cons
    exact .inl (by simpa using ⟨hp k hk, hp l hl⟩)

/-- Both texts go on with a name, or neither does. -/
theorem Relaid.startsInsideWord_eq (h : Relaid m cs ds) : startsInsideWord ds = startsInsideWord cs := by
  cases h with
  | nil | keep => rfl
  | gap hks hls => rw [startsInsideWord_gap hks, startsInsideWord_gap hls]

/-! ## Words -/

/-- The words are the same, whatever word goes on at the front. -/
theorem Relaid.words_append (h : Relaid m cs ds) (xs : List Char) : words (xs ++ ds) = words (xs ++ cs) := by
  induction h generalizing xs with
  | nil => rfl
  | @keep m c cs ds _ ih =>
    have hmore := ih (xs ++ [c])
    rwa [List.append_assoc, List.append_assoc] at hmore
  | gap hks hls _ ih =>
    obtain ⟨k, ks, rfl, hk, hks⟩ := hks.exists_cons
    obtain ⟨l, ls, rfl, hl, hls⟩ := hls.exists_cons
    have hmore := ih []
    rw [List.nil_append, List.nil_append] at hmore
    rw [List.cons_append, List.cons_append, words_append_blank_append hk, words_append_blank_append hl,
      words_blank_append hks, words_blank_append hls, hmore]

/-- **Both texts have the same words.** -/
theorem Relaid.words_eq (h : Relaid m cs ds) : words ds = words cs := h.words_append []

theorem Relaid.normalizeFragment_eq (h : Relaid m cs ds) :
    Name.normalizeFragment ds = Name.normalizeFragment cs := by
  rw [Name.normalizeFragment, Name.normalizeFragment, collapse, collapse, h.words_eq]

/-! ## Trimmed texts -/

theorem rdropWhile_append (p : Char → Bool) (xs cs : List Char) : (xs ++ cs).rdropWhile p =
    if cs.rdropWhile p = [] then xs.rdropWhile p else xs ++ cs.rdropWhile p := by
  rw [List.rdropWhile, List.rdropWhile, List.rdropWhile, List.reverse_append, List.dropWhile_append]
  by_cases hnil : cs.reverse.dropWhile p = []
  · rw [hnil]
    rfl
  · rw [if_neg (by simpa using hnil), if_neg (by simpa using hnil), List.reverse_append, List.reverse_reverse]

/-- The same is dropped off the ends of both texts, if blanks are all dropped or none of them is. -/
theorem Relaid.rdropWhile {p : Char → Bool} (hp : (∀ b, isBlank b = true → p b = true) ∨
      ∀ b, isBlank b = true → p b = false) (h : Relaid m cs ds) :
    Relaid m (cs.rdropWhile p) (ds.rdropWhile p) := by
  have gapped {ks ls : List Char} (hks : Gap ks) (hls : Gap ls) :
      Relaid .outside (ks.rdropWhile p) (ls.rdropWhile p) := by
    rcases hp with hall | hnone
    · rw [List.rdropWhile_eq_nil_iff.mpr fun b hb => hall b (hks.blank b hb),
        List.rdropWhile_eq_nil_iff.mpr fun b hb => hall b (hls.blank b hb)]
      exact .nil
    · have hsame {bs : List Char} (hbs : Gap bs) : bs.rdropWhile p = bs :=
        List.rdropWhile_eq_self_iff.mpr fun hne => by
          simp [hnone _ (hbs.blank _ (List.getLast_mem hne))]
      rw [hsame hks, hsame hls]
      exact .of_gaps hks hls
  induction h with
  | nil => exact .nil
  | @keep m c cs ds h ih =>
    have hone (es : List Char) : (c :: es).rdropWhile p =
        if es.rdropWhile p = [] then [c].rdropWhile p else c :: es.rdropWhile p := rdropWhile_append p [c] es
    rw [hone cs, hone ds]
    by_cases hnil : cs.rdropWhile p = []
    · rw [if_pos hnil, if_pos (ih.nil_iff.mp hnil)]
      exact .refl m _
    · rw [if_neg hnil, if_neg (mt ih.nil_iff.mpr hnil)]
      exact .keep ih
  | @gap ks ls cs ds hks hls h ih =>
    rw [rdropWhile_append, rdropWhile_append]
    by_cases hnil : cs.rdropWhile p = []
    · rw [if_pos hnil, if_pos (ih.nil_iff.mp hnil)]
      exact gapped hks hls
    · rw [if_neg hnil, if_neg (mt ih.nil_iff.mpr hnil)]
      exact .gap hks hls ih

theorem Relaid.trimEnd (h : Relaid m cs ds) : Relaid m (trimEnd cs) (trimEnd ds) :=
  h.rdropWhile (.inl fun _ hb => hb)

/-! ## Keywords at the front -/

section Rel

variable {α β γ δ : Type} {R : α → β → Prop} {S : γ → δ → Prop} {a : Option α} {a' : Option β}

/-- What is done with corresponding values gives corresponding values. -/
theorem rel_bind {f : α → Option γ} {g : β → Option δ} (h : Option.Rel R a a')
    (hfg : ∀ x y, R x y → Option.Rel S (f x) (g y)) : Option.Rel S (a.bind f) (a'.bind g) := by
  cases h with
  | none => exact .none
  | some hxy => exact hfg _ _ hxy

theorem rel_mono {R' : α → β → Prop} (h : Option.Rel R a a') (hmore : ∀ x y, R x y → R' x y) :
    Option.Rel R' a a' := by
  cases h with
  | none => exact .none
  | some hxy => exact .some (hmore _ _ hxy)

theorem rel_filter {p : α → Bool} {q : β → Bool} (h : Option.Rel R a a')
    (hpq : ∀ x y, R x y → q y = p x) :
    Option.Rel (fun x y => R x y ∧ p x = true) (a.filter p) (a'.filter q) := by
  cases h with
  | none => exact .none
  | @some x y hxy =>
    rw [Option.filter_some, Option.filter_some, hpq x y hxy]
    split
    · exact .some ⟨hxy, ‹_›⟩
    · exact .none

theorem rel_getD {R : α → α → Prop} {a a' : Option α} {d d' : α} (h : Option.Rel R a a') (hd : R d d') :
    R (a.getD d) (a'.getD d') := by
  cases h with
  | none => exact hd
  | some hxy => exact hxy

theorem rel_head? {as : List α} {bs : List β} (h : List.Forall₂ R as bs) : Option.Rel R as.head? bs.head? := by
  cases h with
  | nil => exact .none
  | cons hfirst => exact .some hfirst

theorem rel_map {f : α → γ} {g : β → δ} (h : Option.Rel R a a') (hfg : ∀ x y, R x y → S (f x) (g y)) :
    Option.Rel S (a.map f) (a'.map g) := by
  cases h with
  | none => exact .none
  | some hxy => exact .some (hfg _ _ hxy)

end Rel

/-- **`Follows cs ds rest rest'`** -- the texts `rest` and `rest'` are what is left of `cs` and `ds` when
corresponding stretches are taken off the front. -/
def Follows (cs ds rest rest' : List Char) : Prop :=
  ∃ front front', cs = front ++ rest ∧ ds = front' ++ rest' ∧ Relaid .outside front front' ∧
    modeAfter .outside front = .outside ∧ Relaid .outside rest rest'

variable {rest rest' later later' : List Char}

theorem Relaid.follows (h : Relaid .outside cs ds) : Follows cs ds cs ds := ⟨[], [], rfl, rfl, .nil, rfl, h⟩

theorem Follows.relaid (h : Follows cs ds rest rest') : Relaid .outside rest rest' := by
  obtain ⟨_, _, -, -, -, -, hrest⟩ := h
  exact hrest

theorem Follows.trans (h : Follows cs ds rest rest') (h' : Follows rest rest' later later') :
    Follows cs ds later later' := by
  obtain ⟨front, front', rfl, rfl, hfront, hmode, -⟩ := h
  obtain ⟨more, more', rfl, rfl, hmore, hmode', hlater⟩ := h'
  refine ⟨front ++ more, front' ++ more', by simp, by simp, hfront.append (by rwa [hmode]), ?_, hlater⟩
  rw [modeAfter_append, hmode, hmode']

theorem Follows.of_gap (hks : Gap ks) (hls : Gap ls) (h : Relaid .outside cs ds) :
    Follows (ks ++ cs) (ls ++ ds) cs ds :=
  ⟨ks, ls, rfl, rfl, .of_gaps hks hls, modeAfter_blank hks.blank, h⟩

theorem Follows.of_keep (hstep : Mode.step .outside c = .outside) (h : Relaid (Mode.step .outside c) cs ds) :
    Follows (c :: cs) (c :: ds) cs ds :=
  ⟨[c], [c], rfl, rfl, .refl _ _, hstep, by rwa [hstep] at h⟩

/-- Blanks are taken off the front. -/
theorem Relaid.follows_trimStart (h : Relaid .outside cs ds) :
    Follows cs ds (trimStart cs) (trimStart ds) := by
  generalize hm : Mode.outside = m at h
  induction h with
  | nil => exact Relaid.nil.follows
  | @keep m c cs ds h ih =>
    subst hm
    rw [trimStart, trimStart, List.dropWhile_cons, List.dropWhile_cons]
    by_cases hc : isBlank c = true
    · have hstep := step_of_isBlank hc
      rw [if_pos hc, if_pos hc]
      exact (Follows.of_keep hstep h).trans (ih hstep.symm)
    · rw [if_neg hc, if_neg hc]
      exact (Relaid.keep h).follows
  | gap hks hls h ih =>
    rw [trimStart_blank hks.blank, trimStart_blank hls.blank]
    exact (Follows.of_gap hks hls h).trans (ih rfl)

theorem Relaid.trim (h : Relaid .outside cs ds) : Relaid .outside (trim cs) (trim ds) :=
  h.follows_trimStart.relaid.trimEnd

theorem not_mark_of_sameIgnoringCase (hw : w.isAlpha = true) (h : sameIgnoringCase w c = true) :
    c.isAlpha = true ∧ Mode.step .outside c = .outside := by
  have hc := isAlpha_of_sameIgnoringCase hw h
  exact ⟨hc, by simp [Mode.step, (not_mark_of_isAlpha hc).1]⟩

theorem sameIgnoringCase_of_isBlank (hw : w.isAlpha = true) (hb : isBlank b = true) :
    sameIgnoringCase w b = false := by
  rw [Bool.eq_false_iff]
  intro hsame
  have halpha := isAlpha_of_sameIgnoringCase hw hsame
  rw [not_isAlpha_of_isBlank hb] at halpha
  cases halpha

/-- A word stands at the front of both texts, or of neither. -/
theorem Relaid.stripWord (hxs : ∀ x ∈ xs, x.isAlpha = true) (h : Relaid .outside cs ds) :
    Option.Rel (Follows cs ds) (stripWord xs cs) (stripWord xs ds) := by
  induction xs generalizing cs ds with
  | nil => exact .some h.follows
  | cons x xs ih =>
    have hx := hxs x (by simp)
    rcases h.head fun _ hb => sameIgnoringCase_of_isBlank hx hb with ⟨hcs, hds⟩ | ⟨c, cs', ds', rfl, rfl, hc, hrest⟩
    · have hno {es : List Char} (hes : ∀ e ∈ es.head?, sameIgnoringCase x e = false) :
          Text.stripWord (x :: xs) es = none := by
        cases es with
        | nil => rfl
        | cons e es => rw [Text.stripWord, if_neg (by simp [hes e rfl])]
      rw [hno hcs, hno hds]
      exact .none
    · obtain ⟨-, hstep⟩ := not_mark_of_sameIgnoringCase hx hc
      rw [Text.stripWord, Text.stripWord, if_pos hc, if_pos hc]
      refine rel_mono (ih (fun y hy => hxs y (by simp [hy])) ?_) fun _ _ => (Follows.of_keep hstep hrest).trans
      rwa [hstep] at hrest

theorem Relaid.startsBlank_eq (h : Relaid m cs ds) : ds.head?.any isBlank = cs.head?.any isBlank := by
  cases h with
  | nil | keep => rfl
  | gap hks hls =>
    obtain ⟨k, ks, rfl, hk, -⟩ := hks.exists_cons
    obtain ⟨l, ls, rfl, hl, -⟩ := hls.exists_cons
    exact hl.trans hk.symm

theorem stripSpacedWords_cons (w : List Char) (ws : List (List Char)) (cs : List Char) :
    stripSpacedWords (w :: ws) cs = if cs.head?.any isBlank = true then
      (stripWord w (trimStart cs)).bind (stripSpacedWords ws) else none := by
  cases cs <;> rfl

theorem Relaid.stripSpacedWords {ws : List (List Char)} (hws : ∀ w ∈ ws, ∀ c ∈ w, c.isAlpha = true)
    (h : Relaid .outside cs ds) :
    Option.Rel (Follows cs ds) (stripSpacedWords ws cs) (stripSpacedWords ws ds) := by
  induction ws generalizing cs ds with
  | nil => exact .some h.follows
  | cons w ws ih =>
    rw [stripSpacedWords_cons, stripSpacedWords_cons, h.startsBlank_eq]
    split
    · have htrim := h.follows_trimStart
      refine rel_bind (htrim.relaid.stripWord (hws w (by simp))) fun later later' hword => ?_
      refine rel_mono (ih (fun v hv => hws v (by simp [hv])) hword.relaid) fun _ _ hmore => ?_
      exact (htrim.trans hword).trans hmore
    · exact .none

/-- **`Lettered keyword`** -- the words of the keyword are letters. -/
structure Lettered (keyword : String) : Prop where
  ne_nil : words keyword.toList ≠ []
  alpha : ∀ w ∈ words keyword.toList, ∀ c ∈ w, c.isAlpha = true

instance (keyword : String) : Decidable (Lettered keyword) :=
  decidable_of_iff (words keyword.toList ≠ [] ∧ (words keyword.toList).all (·.all Char.isAlpha) = true)
    ⟨fun h => ⟨h.1, by simpa using h.2⟩, fun h => ⟨h.1, by simpa using h.2⟩⟩

/-- **A keyword stands at the front of both texts, or of neither.** -/
theorem Relaid.stripKeyword {keyword : String} (hkeyword : Lettered keyword) (h : Relaid .outside cs ds) :
    Option.Rel (fun rest rest' => Follows cs ds rest rest' ∧ startsInsideWord rest = false)
      (stripKeyword keyword.toList cs) (stripKeyword keyword.toList ds) := by
  obtain ⟨w, ws, hwords⟩ := List.exists_cons_of_ne_nil hkeyword.ne_nil
  have halpha := hkeyword.alpha
  rw [hwords] at halpha
  rw [Text.stripKeyword, Text.stripKeyword, hwords]
  have hafter : Option.Rel (Follows cs ds) ((Text.stripWord w cs).bind (Text.stripSpacedWords ws))
      ((Text.stripWord w ds).bind (Text.stripSpacedWords ws)) := by
    refine rel_bind (h.stripWord (halpha w (by simp))) fun later later' hword => ?_
    refine rel_mono (hword.relaid.stripSpacedWords fun v hv => halpha v (by simp [hv])) fun _ _ => ?_
    exact hword.trans
  refine rel_mono (rel_filter hafter fun rest rest' hrest => ?_) fun rest rest' hrest => ?_
  · rw [hrest.relaid.startsInsideWord_eq]
  · exact ⟨hrest.1, by simpa using hrest.2⟩

/-- **`SameKeyword cs ds found found'`** -- the same keyword was found at the front of both texts. -/
structure SameKeyword (cs ds : List Char) (found found' : String × Nat) : Prop where
  keyword : found'.1 = found.1
  split : ∃ word word' rest rest', (cs = word ++ rest ∧ ds = word' ++ rest') ∧
    (Relaid .outside word word' ∧ modeAfter .outside word = .outside ∧ Relaid .outside rest rest') ∧
    word ≠ [] ∧ startsInsideWord rest = false ∧ found.2 = word.length ∧ found'.2 = word'.length

theorem Follows.sameKeyword {k : String} (h : Follows cs ds rest rest') (hstop : startsInsideWord rest = false)
    (hshort : rest.length < cs.length) :
    SameKeyword cs ds (k, cs.length - rest.length) (k, ds.length - rest'.length) := by
  obtain ⟨word, word', rfl, rfl, hword, hmode, hrest⟩ := h
  have hne : word ≠ [] := by
    rintro rfl
    exact Nat.lt_irrefl _ hshort
  refine ⟨rfl, word, word', rest, rest', ⟨rfl, rfl⟩, ⟨hword, hmode, hrest⟩, hne, hstop, ?_, ?_⟩ <;> simp

theorem Relaid.firstKeyword {keywords : List String} (hkeywords : ∀ k ∈ keywords, Lettered k)
    (h : Relaid .outside cs ds) :
    Option.Rel (SameKeyword cs ds) (firstKeyword keywords cs) (firstKeyword keywords ds) := by
  induction keywords with
  | nil => exact .none
  | cons k keywords ih =>
    have hk := hkeywords k (by simp)
    have hone := h.stripKeyword hk
    rw [Text.firstKeyword, Text.firstKeyword, List.findSome?_cons, List.findSome?_cons]
    cases hleft : Text.stripKeyword k.toList cs with
    | none =>
      rw [hleft] at hone
      generalize Text.stripKeyword k.toList ds = right at hone ⊢
      cases hone with
      | none => exact ih fun k hk => hkeywords k (by simp [hk])
    | some rest =>
      rw [hleft] at hone
      generalize Text.stripKeyword k.toList ds = right at hone ⊢
      cases hone with
      | some hrest => exact .some (hrest.1.sameKeyword hrest.2 (length_stripKeyword_lt hk.ne_nil hleft))

end QueryScore.Text
