/-
# QueryScore.Proofs.Text.Respelled -- searches of texts that differ in the blanks between their words

In two relaid texts a search finds the same keywords at corresponding places (`Relaid.findKeywords`),
and separators at the top level cut both in corresponding places (`Relaid.splitTopLevel`). The two
searches that know nothing of quotes find the same in both: whole words (`Relaid.countWord_eq`) and
calls of functions (`Relaid.calls_eq`).
-/

import QueryScore.Proofs.Text.Fold
import QueryScore.Proofs.Text.Relaid

namespace QueryScore.Text

variable {m : Mode} {s : Scanner} {b c w : Char} {bs ks ls cs ds xs ys : List Char}

/-! ## Keywords that are found -/

/-- A search passes a stretch before the place where it resumes. -/
theorem hitsFrom_until {keywords : List String} {before : Option Char} {index resume : Nat}
    (h : index + xs.length ≤ resume) : hitsFrom keywords s before index resume (xs ++ cs) =
      hitsFrom keywords (s.run xs) (xs.getLast?.or before) (index + xs.length) resume cs := by
  induction xs generalizing s before index with
  | nil => rfl
  | cons x xs ih =>
    rw [List.length_cons] at h
    rw [List.cons_append, hitsFrom, if_neg (by simp; omega), ih (by omega), getLast?_cons_or, List.length_cons,
      Nat.add_right_comm, Nat.add_assoc]
    rfl

/-- Behind a keyword that is found, the search goes on. -/
theorem hitsFrom_behind {keywords : List String} {index : Nat} {word rest : List Char}
    (hsplit : c :: cs = word ++ rest) (hne : word ≠ []) :
    hitsFrom keywords (s.step c) (some c) (index + 1) (index + word.length) cs =
      hitsFrom keywords (s.run word) word.getLast? (index + word.length) (index + word.length) rest := by
  obtain ⟨d, tail, rfl⟩ := List.exists_cons_of_ne_nil hne
  rw [List.cons_append] at hsplit
  obtain ⟨rfl, rfl⟩ := List.cons.inj hsplit
  have hlength : index + 1 + tail.length = index + (c :: tail).length := by
    rw [List.length_cons]
    omega
  rw [hitsFrom_until (Nat.le_of_eq hlength), hlength, ← getLast?_cons_or c tail none, Option.or_none]
  rfl

theorem not_isWordStart_of_stop {before : Option Char} (h : startsInsideWord cs = false) :
    ∀ c ∈ cs.head?, isWordStart before c = false := by
  intro c hc
  obtain ⟨more, rfl⟩ := List.head?_eq_some_iff.mp hc
  have halpha : c.isAlpha = false := by
    rw [Bool.eq_false_iff]
    intro halpha
    rw [startsInsideWord, isIdentifierChar_of_isAlpha halpha] at h
    cases h
  simp [isWordStart, halpha]

/-- Behind blanks a word may begin. -/
theorem isWordStart_gap {before : Option Char} (h : Gap bs) (c : Char) :
    isWordStart (bs.getLast?.or before) c = c.isAlpha := by
  have hlast := List.getLast?_eq_some_getLast h.ne_nil
  have hblank := not_isSticky_of_isBlank (h.blank _ (List.mem_of_getLast? hlast))
  generalize bs.getLast h.ne_nil = last at hlast hblank
  have hno : (isIdentifierChar last || last == '.' || last == '$') = false := hblank
  rw [hlast, Option.some_or, isWordStart, Option.any_some, hno, Bool.not_false, Bool.and_true]

/-- **`SameHit cs ds hit hit'`** -- the same keyword was found at corresponding places of both texts. -/
structure SameHit (cs ds : List Char) (hit hit' : Hit) : Prop where
  keyword : hit'.keyword = hit.keyword
  before : Relaid .outside (cs.take hit.start) (ds.take hit'.start)
  behind : Relaid .outside (cs.drop hit.stop) (ds.drop hit'.stop)

/-- **`Abreast s front cs front' ds …`** -- a search in each of two texts has passed corresponding
stretches, and the same words may begin where it goes on. -/
structure Abreast (s : Scanner) (front cs front' ds : List Char) (before before' : Option Char)
    (resume resume' : Nat) : Prop where
  passed : Relaid .outside front front'
  ahead : Relaid s.mode cs ds
  mode : s.mode = modeAfter .outside front
  resumed : resume ≤ front.length
  resumed' : resume' ≤ front'.length
  begins : ∀ c ∈ cs.head?, isWordStart before' c = isWordStart before c

section Abreast

variable {front front' word word' rest rest' : List Char} {before before' : Option Char} {resume resume' : Nat}

theorem Abreast.gap (hks : Gap ks) (hls : Gap ls) (hs : s.mode = .outside) (hrest : Relaid .outside cs ds)
    (h : Abreast s front (ks ++ cs) front' (ls ++ ds) before before' resume resume') :
    Abreast s (front ++ ks) cs (front' ++ ls) ds (ks.getLast?.or before) (ls.getLast?.or before') resume resume' where
  passed := h.passed.append (by rw [← h.mode, hs]; exact .of_gaps hks hls)
  ahead := by rwa [hs]
  mode := by rw [modeAfter_append, ← h.mode, hs, modeAfter_blank hks.blank]
  resumed := by
    rw [List.length_append]
    exact Nat.le_add_right_of_le h.resumed
  resumed' := by
    rw [List.length_append]
    exact Nat.le_add_right_of_le h.resumed'
  begins c _ := by rw [isWordStart_gap hks, isWordStart_gap hls]

theorem Abreast.keep (hrest : Relaid (s.mode.step c) cs ds)
    (h : Abreast s front (c :: cs) front' (c :: ds) before before' resume resume') :
    Abreast (s.step c) (front ++ [c]) cs (front' ++ [c]) ds (some c) (some c) resume resume' where
  passed := h.passed.append (.refl _ _)
  ahead := hrest
  mode := by
    rw [modeAfter_append, ← h.mode]
    rfl
  resumed := by
    rw [List.length_append]
    exact Nat.le_add_right_of_le h.resumed
  resumed' := by
    rw [List.length_append]
    exact Nat.le_add_right_of_le h.resumed'
  begins _ _ := rfl

theorem Abreast.behind (hs : s.mode = .outside) (hword : Relaid .outside word word')
    (hmode : modeAfter .outside word = .outside) (hrest : Relaid .outside rest rest')
    (hstop : startsInsideWord rest = false)
    (h : Abreast s front (word ++ rest) front' (word' ++ rest') before before' resume resume') :
    Abreast (s.run word) (front ++ word) rest (front' ++ word') rest' word.getLast? word'.getLast?
      (front ++ word).length (front' ++ word').length where
  passed := h.passed.append (by rwa [← h.mode, hs])
  ahead := by rwa [mode_run, hs, hmode]
  mode := by rw [mode_run, modeAfter_append, h.mode]
  resumed := Nat.le_refl _
  resumed' := Nat.le_refl _
  begins c hc := by rw [not_isWordStart_of_stop hstop c hc, not_isWordStart_of_stop hstop c hc]

/-- Two searches abreast find the same at corresponding places. -/
theorem Abreast.hitsFrom {keywords : List String} (hkeywords : ∀ k ∈ keywords, Lettered k)
    (h : Abreast s front cs front' ds before before' resume resume') :
    List.Forall₂ (SameHit (front ++ cs) (front' ++ ds)) (hitsFrom keywords s before front.length resume cs)
      (hitsFrom keywords s before' front'.length resume' ds) := by
  -- A keyword is passed at once, so the induction is on the length.
  induction hsize : cs.length using Nat.strongRecOn
    generalizing s cs ds front front' before before' resume resume' with
  | ind size ih =>
    have hrelaid := h.ahead
    generalize hm : s.mode = m at hrelaid
    cases hrelaid with
    | nil => exact .nil
    | @gap ks ls cs ds hks hls hrest =>
      have hs := eq_of_outside hm
      have hquiet {bs es : List Char} {before : Option Char} (hbs : Gap bs) : Quiet keywords s before bs es := by
        rw [hs]
        exact hbs.blank.quiet s.depth
      have hrun {bs : List Char} (hbs : Gap bs) : s.run bs = s := by
        rw [hs, run_blank hbs.blank]
      have hlong := List.length_pos_iff.mpr hks.ne_nil
      rw [List.length_append] at hsize
      rw [hitsFrom_of_quiet (hquiet hks), hitsFrom_of_quiet (hquiet hls), hrun hks, hrun hls,
        ← List.length_append, ← List.length_append, ← List.append_assoc, ← List.append_assoc]
      exact ih cs.length (by omega) (h.gap hks hls hm hrest) rfl
    | @keep _ c cs ds hrest =>
      subst hm
      rw [List.length_cons] at hsize
      -- Where nothing is found, the search goes on behind the character.
      have hnext : List.Forall₂ (SameHit (front ++ c :: cs) (front' ++ c :: ds))
          (Text.hitsFrom keywords (s.step c) (some c) (front.length + 1) resume cs)
          (Text.hitsFrom keywords (s.step c) (some c) (front'.length + 1) resume' ds) := by
        simpa using ih cs.length (by omega) (h.keep hrest) rfl
      rw [Text.hitsFrom, Text.hitsFrom, h.begins c rfl]
      simp only [h.resumed, h.resumed', decide_true, Bool.and_true]
      split
      · rename_i htop
        have hmode : s.mode = .outside := by
          simp only [Scanner.isTop, Mode.shows, Bool.and_eq_true, beq_iff_eq] at htop
          exact htop.1.1.1.1.1
        have hfound := Relaid.firstKeyword hkeywords (by rw [← hmode]; exact Relaid.keep hrest)
        generalize Text.firstKeyword keywords (c :: cs) = left at hfound ⊢
        generalize Text.firstKeyword keywords (c :: ds) = right at hfound ⊢
        cases hfound with
        | none => exact hnext
        | @some found found' hfound =>
          obtain ⟨k, size⟩ := found
          obtain ⟨k', size'⟩ := found'
          obtain ⟨hk, word, word', rest, rest', ⟨hword, hword'⟩, ⟨hwords, hclosed, hrest⟩, hne, hstop, hlength,
            hlength'⟩ := hfound
          obtain rfl : k' = k := hk
          obtain rfl : size = word.length := hlength
          obtain rfl : size' = word'.length := hlength'
          have hmore := (hword ▸ hword' ▸ h).behind hmode hwords hclosed hrest hstop
          have hshort : rest.length < cs.length + 1 := by
            rw [← List.length_cons, hword, List.length_append]
            exact Nat.lt_add_of_pos_left (List.length_pos_iff.mpr hne)
          refine .cons ⟨rfl, ?_, ?_⟩ ?_
          · simpa only [List.take_left] using h.passed
          · rwa [hword, hword', ← List.append_assoc, ← List.append_assoc, ← List.length_append,
              ← List.length_append, List.drop_left, List.drop_left]
          · have hrun : s.run word' = s.run word := Relaid.run (by rwa [hmode])
            rw [hitsFrom_behind hword hne, hitsFrom_behind hword' (mt hwords.nil_iff.mpr hne), hrun]
            simpa [hword, hword'] using ih rest.length (by omega) hmore rfl
      · exact hnext

end Abreast

/-- **The same keywords are found at corresponding places.** -/
theorem Relaid.findKeywords {keywords : List String} (hkeywords : ∀ k ∈ keywords, Lettered k)
    (h : Relaid .outside cs ds) :
    List.Forall₂ (SameHit cs ds) (findKeywords keywords cs) (findKeywords keywords ds) := by
  have hstart : Abreast {} [] cs [] ds none none 0 0 :=
    ⟨.nil, h, rfl, Nat.le_refl _, Nat.le_refl _, fun _ _ => rfl⟩
  exact hstart.hitsFrom hkeywords

theorem Relaid.findKeyword {keywords : List String} (hkeywords : ∀ k ∈ keywords, Lettered k)
    (h : Relaid .outside cs ds) :
    Option.Rel (SameHit cs ds) (findKeyword keywords cs) (findKeyword keywords ds) :=
  rel_head? (h.findKeywords hkeywords)

theorem Relaid.getLast?_findKeywords {keywords : List String} (hkeywords : ∀ k ∈ keywords, Lettered k)
    (h : Relaid .outside cs ds) : Option.Rel (SameHit cs ds) (Text.findKeywords keywords cs).getLast?
      (Text.findKeywords keywords ds).getLast? := by
  rw [← List.head?_reverse, ← List.head?_reverse]
  exact rel_head? (List.forall₂_reverse_iff.mpr (h.findKeywords hkeywords))

/-! ## Stretches between separators -/

/-- What splits nowhere joins the first piece behind it. -/
theorem splitWhere_none_append {α : Type} {p : α → Bool} {as bs first : List α} {more : List (List α)}
    (h : ∀ a ∈ as, p a = false) (hbs : splitWhere p bs = first :: more) :
    splitWhere p (as ++ bs) = (as ++ first) :: more := by
  induction as with
  | nil => exact hbs
  | cons a as ih =>
    rw [List.cons_append, splitWhere, if_neg (by simp [h a (by simp)]), ih fun b hb => h b (by simp [hb])]
    rfl

/-- The character is a separator at the top level. -/
def separates (separator : Char) (x : Char × Bool) : Bool := x.2 && x.1 == separator

theorem not_separates_of_blank {separator : Char} (hseparator : isBlank separator = false) (hbs : Blank bs) :
    ∀ x ∈ annotate s bs, separates separator x = false := by
  intro x hx
  have hblank := hbs _ (mem_of_mem_annotate hx)
  have hne : x.1 ≠ separator := by
    intro heq
    rw [heq, hseparator] at hblank
    cases hblank
  simp [separates, hne]

/-- The first stretch begins where the text does, the others outside quotes. -/
theorem Relaid.splitWhere {separator : Char} (hseparator : isBlank separator = false)
    (h : Relaid s.mode cs ds) : ∃ xs xss ys yss,
      splitWhere (separates separator) (annotate s cs) = xs :: xss ∧
      splitWhere (separates separator) (annotate s ds) = ys :: yss ∧
      Relaid s.mode (xs.map Prod.fst) (ys.map Prod.fst) ∧
      List.Forall₂ (fun xs ys => Relaid .outside (xs.map Prod.fst) (ys.map Prod.fst)) xss yss := by
  generalize hm : s.mode = m at h ⊢
  induction h generalizing s with
  | nil => exact ⟨[], [], [], [], rfl, rfl, .nil, .nil⟩
  | @keep m c cs ds _ ih =>
    subst hm
    obtain ⟨xs, xss, ys, yss, hcs, hds, hfirst, hmore⟩ := ih (s := s.step c) rfl
    by_cases hc : separates separator (c, s.isTop c) = true
    · have hstep : s.mode.step c = .outside := by
        simp only [separates, Scanner.isTop, Mode.shows, Bool.and_eq_true, beq_iff_eq, Bool.not_eq_true'] at hc
        obtain ⟨⟨⟨⟨⟨hmode, hquote⟩, -⟩, -⟩, -⟩, -⟩ := hc
        rw [hmode, Mode.step, hquote]
        rfl
      rw [hstep] at hfirst
      refine ⟨[], xs :: xss, [], ys :: yss, ?_, ?_, .nil, .cons hfirst hmore⟩ <;>
      · rw [annotate, Text.splitWhere, if_pos hc]
        simp [hcs, hds]
    · refine ⟨(c, s.isTop c) :: xs, xss, (c, s.isTop c) :: ys, yss, ?_, ?_, .keep hfirst, hmore⟩ <;>
      · rw [annotate, Text.splitWhere, if_neg hc]
        simp [hcs, hds]
  | @gap ks ls cs ds hks hls _ ih =>
    have hrun {bs : List Char} (hbs : Gap bs) : s.run bs = s := by
      rw [eq_of_outside hm, run_blank hbs.blank]
    obtain ⟨xs, xss, ys, yss, hcs, hds, hfirst, hmore⟩ := ih hm
    refine ⟨annotate s ks ++ xs, xss, annotate s ls ++ ys, yss, ?_, ?_, ?_, hmore⟩
    · rw [annotate_append, hrun hks]
      exact splitWhere_none_append (not_separates_of_blank hseparator hks.blank) hcs
    · rw [annotate_append, hrun hls]
      exact splitWhere_none_append (not_separates_of_blank hseparator hls.blank) hds
    · rw [List.map_append, List.map_append, map_fst_annotate, map_fst_annotate]
      exact .gap hks hls hfirst

/-- **Both texts are cut at corresponding separators.** -/
theorem Relaid.splitTopLevel {separator : Char} (hseparator : isBlank separator = false)
    (h : Relaid .outside cs ds) :
    List.Forall₂ (Relaid .outside) (splitTopLevel separator cs) (splitTopLevel separator ds) := by
  obtain ⟨xs, xss, ys, yss, hcs, hds, hfirst, hmore⟩ := Relaid.splitWhere (s := {}) hseparator h
  have hpieces : List.Forall₂ (fun xs ys => Relaid .outside (xs.map Prod.fst) (ys.map Prod.fst))
      (xs :: xss) (ys :: yss) := .cons hfirst hmore
  rw [← hcs, ← hds] at hpieces
  refine List.rel_filter (R := Relaid .outside) (fun _ _ hpiece => ?_) ?_
  · simp only [hpiece.isEmpty_eq]
  · rw [List.forall₂_map_left_iff, List.forall₂_map_right_iff]
    exact hpieces.imp fun _ _ hpiece => hpiece.trim

/-! ## Words that are found by their ends -/

/-- **`IsWord ws`** -- letters, one at least. -/
structure IsWord (ws : List Char) : Prop where
  ne_nil : ws ≠ []
  alpha : ∀ w ∈ ws, w.isAlpha = true

instance (ws : List Char) : Decidable (IsWord ws) :=
  decidable_of_iff (ws ≠ [] ∧ ws.all Char.isAlpha = true)
    ⟨fun h => ⟨h.1, by simpa using h.2⟩, fun h => ⟨h.1, by simpa using h.2⟩⟩

theorem not_foldsTo_of_isBlank (hw : w.isAlpha = true) (hb : isBlank b = true) : foldsTo w b = false := by
  have hlower : asciiLower b ≠ w := by
    rintro rfl
    rw [isAlpha_asciiLower, not_isAlpha_of_isBlank hb] at hw
    cases hw
  have hlong : b ≠ 'ſ' := by
    rintro rfl
    exact absurd hb (by decide)
  simp [foldsTo, hlower, hlong]

theorem not_isWordCharacter_of_isBlank (h : isBlank b = true) : isWordCharacter b = false := by
  have hall : ∀ n ∈ blankCodes, isWordCharacter (Char.ofNat n) = false := by decide +kernel
  have hb := hall _ (toNat_mem_of_isBlank h)
  rwa [Char.ofNat_toNat] at hb

theorem isOpenSide_gap {before : Option Char} (h : Gap bs) : isOpenSide (bs.getLast?.or before) = true := by
  have hlast := List.getLast?_eq_some_getLast h.ne_nil
  rw [hlast, Option.some_or, isOpenSide, not_isWordCharacter_of_isBlank (h.blank _ (List.mem_of_getLast? hlast))]
  rfl

theorem stripFolded_of_isBlank {ws : List Char} (hws : IsWord ws) (hb : isBlank b = true) (cs : List Char) :
    stripFolded ws (b :: cs) = none := by
  obtain ⟨w, ws, rfl⟩ := List.exists_cons_of_ne_nil hws.ne_nil
  rw [stripFolded, not_foldsTo_of_isBlank (hws.alpha w (by simp)) hb]
  rfl

/-- A word stands at the front of both texts as it is written in one of them, or of neither. -/
theorem Relaid.stripFolded {ws : List Char} (hws : ∀ w ∈ ws, w.isAlpha = true) (h : Relaid m cs ds) :
    Option.Rel (fun rest rest' => ∃ word, cs = word ++ rest ∧ ds = word ++ rest' ∧ ∃ m, Relaid m rest rest')
      (stripFolded ws cs) (stripFolded ws ds) := by
  induction ws generalizing m cs ds with
  | nil => exact .some ⟨[], rfl, rfl, m, h⟩
  | cons w ws ih =>
    have hblank (b : Char) (hb : isBlank b = true) := not_foldsTo_of_isBlank (hws w (by simp)) hb
    rcases h.head hblank with ⟨hcs, hds⟩ | ⟨c, cs', ds', rfl, rfl, hc, hrest⟩
    · have hno {es : List Char} (hes : ∀ e ∈ es.head?, foldsTo w e = false) :
          Text.stripFolded (w :: ws) es = none := by
        cases es with
        | nil => rfl
        | cons e es => rw [Text.stripFolded, if_neg (by simp [hes e rfl])]
      rw [hno hcs, hno hds]
      exact .none
    · rw [Text.stripFolded, Text.stripFolded, if_pos hc, if_pos hc]
      refine rel_mono (ih (fun v hv => hws v (by simp [hv])) hrest) fun rest rest' hmore => ?_
      obtain ⟨word, rfl, rfl, hrelaid⟩ := hmore
      exact ⟨c :: word, rfl, rfl, hrelaid⟩

theorem Relaid.isOpenSide_eq (h : Relaid m cs ds) : isOpenSide ds.head? = isOpenSide cs.head? := by
  cases h with
  | nil | keep => rfl
  | gap hks hls =>
    obtain ⟨k, ks, rfl, hk, -⟩ := hks.exists_cons
    obtain ⟨l, ls, rfl, hl, -⟩ := hls.exists_cons
    show (!isWordCharacter l) = !isWordCharacter k
    rw [not_isWordCharacter_of_isBlank hk, not_isWordCharacter_of_isBlank hl]

theorem countWordFrom_blank {word : List Char} (hword : IsWord word) (hbs : Blank bs) (before : Option Char) :
    countWordFrom word before (bs ++ cs) = countWordFrom word (bs.getLast?.or before) cs := by
  induction bs generalizing before with
  | nil => rfl
  | cons b bs ih =>
    rw [List.cons_append, countWordFrom, wordAt, stripFolded_of_isBlank hword (hbs b (by simp)),
      ih (fun c hc => hbs c (by simp [hc])), getLast?_cons_or]
    simp

/-- **A word stands in both texts equally often.** -/
theorem Relaid.countWordFrom_eq {word : List Char} (hword : IsWord word) (h : Relaid m cs ds)
    {before before' : Option Char} (hbefore : isOpenSide before' = isOpenSide before) :
    countWordFrom word before' ds = countWordFrom word before cs := by
  induction h generalizing before before' with
  | nil => rfl
  | @keep m c cs ds h ih =>
    have hhere : wordAt word before' (c :: ds) = wordAt word before (c :: cs) := by
      have hstrip := Relaid.stripFolded hword.alpha (Relaid.keep h)
      rw [wordAt, wordAt, hbefore]
      generalize Text.stripFolded word (c :: cs) = left at hstrip ⊢
      generalize Text.stripFolded word (c :: ds) = right at hstrip ⊢
      cases hstrip with
      | none => rfl
      | some hrest =>
        obtain ⟨_, -, -, _, hrest⟩ := hrest
        rw [Option.any_some, Option.any_some, hrest.isOpenSide_eq]
    rw [countWordFrom, countWordFrom, hhere, ih rfl]
  | gap hks hls _ ih =>
    rw [countWordFrom_blank hword hks.blank, countWordFrom_blank hword hls.blank]
    exact ih (by rw [isOpenSide_gap hks, isOpenSide_gap hls])

theorem Relaid.countWord_eq {word : List Char} (hword : IsWord word) (h : Relaid m cs ds) :
    countWord word ds = countWord word cs := h.countWordFrom_eq hword rfl

/-! ## Calls -/

theorem Relaid.opensCall_eq (h : Relaid m cs ds) : opensCall ds = opensCall cs := by
  have hhead : (trimStart ds).head? = (trimStart cs).head? := by
    induction h with
    | nil => rfl
    | @keep m c cs ds _ ih =>
      rw [trimStart, trimStart, List.dropWhile_cons, List.dropWhile_cons]
      split
      · exact ih
      · rfl
    | gap hks hls _ ih => rwa [trimStart_blank hks.blank, trimStart_blank hls.blank]
  rw [opensCall, opensCall, hhead]

theorem findSome?_congr {α β : Type} {f g : α → Option β} {as : List α} (h : ∀ a ∈ as, f a = g a) :
    as.findSome? f = as.findSome? g := by
  induction as with
  | nil => rfl
  | cons a as ih =>
    rw [List.findSome?_cons, List.findSome?_cons, h a (by simp), ih fun b hb => h b (by simp [hb])]

/-- The same name is called at the front of both texts, or none. -/
theorem Relaid.callAt_eq {names : List String} (hnames : ∀ name ∈ names, IsWord name.toList)
    (h : Relaid m cs ds) {before before' : Option Char} (hbefore : isOpenSide before' = isOpenSide before) :
    callAt names before' ds = callAt names before cs := by
  have hname : ∀ name ∈ names,
      ((Text.stripFolded name.toList ds).filter opensCall).map (fun rest => ds.take (ds.length - rest.length)) =
        ((Text.stripFolded name.toList cs).filter opensCall).map
          fun rest => cs.take (cs.length - rest.length) := by
    intro name hmem
    have hstrip := h.stripFolded (hnames name hmem).alpha
    generalize Text.stripFolded name.toList cs = left at hstrip ⊢
    generalize Text.stripFolded name.toList ds = right at hstrip ⊢
    cases hstrip with
    | none => rfl
    | some hrest =>
      obtain ⟨word, rfl, rfl, _, hrest⟩ := hrest
      rw [Option.filter_some, Option.filter_some, hrest.opensCall_eq]
      split <;> simp
  rw [callAt, callAt, hbefore, findSome?_congr hname]

theorem callAt_of_isBlank {names : List String} (hnames : ∀ name ∈ names, IsWord name.toList)
    (hb : isBlank b = true) (before : Option Char) : callAt names before (b :: cs) = none := by
  rw [callAt]
  split
  · rw [List.findSome?_eq_none_iff]
    intro name hname
    rw [stripFolded_of_isBlank (hnames name hname) hb]
    rfl
  · rfl

theorem callsFrom_blank {names : List String} (hnames : ∀ name ∈ names, IsWord name.toList) (hbs : Blank bs)
    (before : Option Char) :
    callsFrom names before (bs ++ cs) = callsFrom names (bs.getLast?.or before) cs := by
  induction bs generalizing before with
  | nil => rfl
  | cons b bs ih =>
    rw [List.cons_append, callsFrom, callAt_of_isBlank hnames (hbs b (by simp)),
      ih (fun c hc => hbs c (by simp [hc])), getLast?_cons_or]

/-- **Both texts call the same functions.** -/
theorem Relaid.calls_eq {names : List String} (hnames : ∀ name ∈ names, IsWord name.toList)
    (h : Relaid m cs ds) : calls names ds = calls names cs := by
  suffices hall : ∀ before before' : Option Char, isOpenSide before' = isOpenSide before →
      callsFrom names before' ds = callsFrom names before cs from hall none none rfl
  induction h with
  | nil => exact fun _ _ _ => rfl
  | @keep m c cs ds h ih =>
    intro before before' hbefore
    have hhere : callAt names before' (c :: ds) = callAt names before (c :: cs) :=
      Relaid.callAt_eq hnames (.keep h) hbefore
    rw [callsFrom, callsFrom, hhere, ih (some c) (some c) rfl]
  | gap hks hls _ ih =>
    intro before before' _
    rw [callsFrom_blank hnames hks.blank, callsFrom_blank hnames hls.blank]
    exact ih _ _ (by rw [isOpenSide_gap hks, isOpenSide_gap hls])

end QueryScore.Text
