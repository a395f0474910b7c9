/-
# QueryScore.Proofs.Text.Occurrence -- which occurrences a search reports, and where they lie

An occurrence is said here without the search: a stretch that begins at a word start at the top
level, spells the words of a keyword with blanks between them, and ends where no identifier goes on
(`Occurs`). At each place the search reports an occurrence or passes on, and it passes on only below
the place from which it resumes or where nothing occurs (`hitsBehind_cases`). So what it reports are
occurrences, each behind the one before, and each occurrence begins in one that is reported
(`searched_findKeywords`). Between two bounds of what is reported the bytes of the text are whole
characters (`Cut`), so the text can be sliced there.
-/

import Mathlib.Data.String.Basic
import QueryScore.Proofs.Text.Hit
import QueryScore.Proofs.Text.Respelled

namespace QueryScore.Text

variable {keyword : String} {keywords : List String} {s : Scanner} {c : Char} {w : List Char}
  {ws : List (List Char)} {cs front back rest : List Char} {start stop index resume : Nat} {h : Hit}

/-! ## Offsets -/

/-- The size of a text is the size of its bytes. -/
theorem utf8Len_eq (cs : List Char) : String.utf8Len cs = byteSize cs := by
  induction cs with
  | nil => rfl
  | cons c cs ih => rw [String.utf8Len_cons, ih, byteSize, Nat.add_comm]

theorem byteSize_append (as bs : List Char) : byteSize (as ++ bs) = byteSize as + byteSize bs := by
  rw [← utf8Len_eq, String.utf8Len_append, utf8Len_eq, utf8Len_eq]

theorem byteOffset_length (front back : List Char) :
    byteOffset (front ++ back) front.length = byteSize front := by
  rw [byteOffset, List.take_left]

theorem le_of_mem_flaggedOffsets {offset : Nat} {xs : List (Char × Bool)}
    (hoffset : offset ∈ flaggedOffsets start xs) : start ≤ offset := by
  induction xs generalizing start with
  | nil => cases hoffset
  | cons x xs ih =>
    obtain ⟨c, flag⟩ := x
    have hlater (hmem : offset ∈ flaggedOffsets (start + c.utf8Size) xs) : start ≤ offset :=
      Nat.le_trans (Nat.le_add_right _ _) (ih hmem)
    cases flag with
    | false => exact hlater hoffset
    | true =>
      rcases List.mem_cons.mp hoffset with rfl | hmem
      · exact Nat.le_refl _
      · exact hlater hmem

/-- An offset is reported exactly if the character there is at the top level. -/
theorem mem_flaggedOffsets_annotate (s : Scanner) (start : Nat) (front : List Char) (c : Char)
    (back : List Char) : start + byteSize front ∈ flaggedOffsets start (annotate s (front ++ c :: back)) ↔
      (s.run front).isTop c = true := by
  induction front generalizing s start with
  | nil =>
    show start ∈ (if s.isTop c then start :: _ else _) ↔ s.isTop c = true
    by_cases htop : s.isTop c = true
    · rw [if_pos htop]
      exact iff_of_true List.mem_cons_self htop
    · rw [if_neg htop]
      refine iff_of_false (fun hmem => ?_) htop
      have hle := le_of_mem_flaggedOffsets hmem
      have hpos := c.utf8Size_pos
      omega
  | cons a front ih =>
    have hlater := ih (s.step a) (start + a.utf8Size)
    rw [byteSize, ← Nat.add_assoc]
    show _ ∈ (if s.isTop a then start :: _ else _) ↔ ((s.step a).run front).isTop c = true
    split
    · rw [List.mem_cons, or_iff_right]
      · exact hlater
      · have hpos := a.utf8Size_pos
        omega
    · exact hlater

/-- The character behind `front` is at the top level. -/
theorem mem_topLevelOffsets (front : List Char) (c : Char) (back : List Char) :
    byteSize front ∈ topLevelOffsets (front ++ c :: back) ↔ (Scanner.run {} front).isTop c = true := by
  have hmem := mem_flaggedOffsets_annotate {} 0 front c back
  rwa [Nat.zero_add] at hmem

theorem flaggedOffsets_append (start : Nat) (xs ys : List (Char × Bool)) :
    flaggedOffsets start (xs ++ ys) =
      flaggedOffsets start xs ++ flaggedOffsets (start + byteSize (xs.map Prod.fst)) ys := by
  induction xs generalizing start with
  | nil => rfl
  | cons x xs ih =>
    obtain ⟨c, flag⟩ := x
    have hlater := ih (start + c.utf8Size)
    rw [Nat.add_assoc] at hlater
    cases flag with
    | false => exact hlater
    | true => exact congrArg (start :: ·) hlater

theorem flaggedOffsets_add (start size : Nat) (xs : List (Char × Bool)) :
    flaggedOffsets (size + start) xs = (flaggedOffsets start xs).map (size + ·) := by
  induction xs generalizing start with
  | nil => rfl
  | cons x xs ih =>
    obtain ⟨c, flag⟩ := x
    have hlater := ih (start + c.utf8Size)
    rw [← Nat.add_assoc] at hlater
    cases flag with
    | false => exact hlater
    | true => exact congrArg ((size + start) :: ·) hlater

/-- **Behind a level text the offsets are those of what follows, moved by its size.** -/
theorem topLevelOffsets_append (hfront : Level front) (back : List Char) :
    topLevelOffsets (front ++ back) =
      topLevelOffsets front ++ (topLevelOffsets back).map (byteSize front + ·) := by
  rw [topLevelOffsets, annotate_append, flaggedOffsets_append, map_fst_annotate, hfront, Nat.zero_add,
    ← Nat.add_zero (byteSize front), flaggedOffsets_add]
  rfl

/-! ## Words with blanks between them -/

/-- **`Spaced ws cs`** -- the text spells the words, the case of ASCII letters aside, each behind a gap. -/
inductive Spaced : List (List Char) → List Char → Prop
  | nil : Spaced [] []
  | cons {w word gap later : List Char} {ws : List (List Char)} : Gap gap →
      word.map asciiLower = w.map asciiLower → Spaced ws later → Spaced (w :: ws) (gap ++ (word ++ later))

/-- **`Phrased ws cs`** -- the text spells the words, the case of ASCII letters aside, with gaps between
them. -/
inductive Phrased : List (List Char) → List Char → Prop
  | mk {w word later : List Char} {ws : List (List Char)} : word.map asciiLower = w.map asciiLower →
      Spaced ws later → Phrased (w :: ws) (word ++ later)

theorem IsWord.of_same {word : List Char} (hw : IsWord w) (hword : word.map asciiLower = w.map asciiLower) :
    IsWord word where
  ne_nil := by
    rintro rfl
    exact hw.ne_nil (List.map_eq_nil_iff.mp hword.symm)
  alpha := isAlpha_of_mem hword hw.alpha

/-- A word begins with no blank. -/
theorem IsWord.trimStart_append (hw : IsWord w) (cs : List Char) : trimStart (w ++ cs) = w ++ cs := by
  refine trimStart_of_head fun c hc => ?_
  obtain ⟨d, more, rfl⟩ := List.exists_cons_of_ne_nil hw.ne_nil
  obtain rfl : d = c := Option.some.inj hc
  exact not_isBlank_of_isAlpha (hw.alpha d List.mem_cons_self)

theorem Lettered.isWord (hkeyword : Lettered keyword) : ∀ w ∈ words keyword.toList, IsWord w :=
  fun w hw => ⟨ne_nil_of_mem_words hw, hkeyword.alpha w hw⟩

/-- **What is stripped with gaps is what spells the words so.** -/
theorem stripSpacedWords_eq_some (hws : ∀ w ∈ ws, IsWord w) : stripSpacedWords ws cs = some rest ↔
    ∃ stretch, cs = stretch ++ rest ∧ Spaced ws stretch := by
  induction ws generalizing cs with
  | nil =>
    constructor
    · intro h
      cases h
      exact ⟨[], rfl, .nil⟩
    · rintro ⟨stretch, rfl, hspaced⟩
      cases hspaced
      rfl
  | cons w ws ih =>
    have hw := hws w List.mem_cons_self
    have hlater {mid : List Char} := @ih mid fun v hv => hws v (List.mem_cons_of_mem _ hv)
    rw [stripSpacedWords_cons]
    constructor
    · intro h
      split at h
      · rename_i hblank
        obtain ⟨mid, hstrip, hrest⟩ := Option.bind_eq_some_iff.mp h
        obtain ⟨word, hsplit, hword⟩ := stripWord_eq_some.mp hstrip
        obtain ⟨later, rfl, hspaced⟩ := hlater.mp hrest
        obtain ⟨gap, hgap, hcs⟩ := exists_trimStart cs
        have hne : gap ≠ [] := by
          -- the text begins with a blank, but the word does not
          rintro rfl
          rw [List.nil_append] at hcs
          obtain ⟨b, hb, hbblank⟩ := Option.any_eq_true _ _ |>.mp hblank
          have hink := head_trimStart cs b (hcs ▸ hb)
          rw [hbblank] at hink
          cases hink
        refine ⟨gap ++ (word ++ later), ?_, .cons ⟨hne, hgap⟩ hword hspaced⟩
        rw [hcs, hsplit, List.append_assoc, List.append_assoc]
      · cases h
    · rintro ⟨_, rfl, hspaced⟩
      cases hspaced with
      | @cons _ word gap later _ hgap hword hspaced =>
        obtain ⟨b, more, rfl, hb, hmore⟩ := hgap.exists_cons
        have hblank : ((b :: more ++ (word ++ later)) ++ rest).head?.any isBlank = true := hb
        rw [if_pos hblank, List.append_assoc, trimStart_blank hgap.blank, List.append_assoc,
          (hw.of_same hword).trimStart_append]
        apply Option.bind_eq_some_iff.mpr
        exact ⟨later ++ rest, stripWord_eq_some.mpr ⟨word, rfl, hword⟩, hlater.mpr ⟨later, rfl, hspaced⟩⟩

/-- **A keyword is stripped exactly where its words are spelled and no identifier goes on.** -/
theorem stripKeyword_eq_some (hkeyword : Lettered keyword) : stripKeyword keyword.toList cs = some rest ↔
    ∃ stretch, cs = stretch ++ rest ∧ Phrased (words keyword.toList) stretch ∧ startsInsideWord rest = false := by
  have hws := hkeyword.isWord
  obtain ⟨w, ws, hwords⟩ := List.exists_cons_of_ne_nil hkeyword.ne_nil
  rw [hwords] at hws ⊢
  have hlater {mid : List Char} : stripSpacedWords ws mid = some rest ↔ _ :=
    stripSpacedWords_eq_some fun v hv => hws v (List.mem_cons_of_mem _ hv)
  simp only [stripKeyword, hwords]
  rw [Option.filter_eq_some_iff, Option.bind_eq_some_iff, Bool.not_eq_true']
  constructor
  · rintro ⟨⟨mid, hstrip, hrest⟩, hend⟩
    obtain ⟨word, rfl, hword⟩ := stripWord_eq_some.mp hstrip
    obtain ⟨later, rfl, hspaced⟩ := hlater.mp hrest
    exact ⟨word ++ later, (List.append_assoc _ _ _).symm, .mk hword hspaced, hend⟩
  · rintro ⟨_, rfl, hspelled, hend⟩
    cases hspelled with
    | @mk _ word later _ hword hspaced =>
      refine ⟨⟨later ++ rest, ?_, hlater.mpr ⟨later, rfl, hspaced⟩⟩, hend⟩
      exact stripWord_eq_some.mpr ⟨word, List.append_assoc _ _ _, hword⟩

/-! ## What stands in an occurrence -/

/-- **`Plain c`** -- a letter or a blank. -/
def Plain (c : Char) : Prop := c.isAlpha = true ∨ isBlank c = true

theorem Spaced.plain (hws : ∀ w ∈ ws, IsWord w) (h : Spaced ws cs) : ∀ c ∈ cs, Plain c := by
  induction h with
  | nil => exact nofun
  | @cons w word gap later ws hgap hword hlater ih =>
    intro c hc
    rcases List.mem_append.mp hc with hc | hc
    · exact .inr (hgap.blank c hc)
    rcases List.mem_append.mp hc with hc | hc
    · exact .inl (((hws w List.mem_cons_self).of_same hword).alpha c hc)
    · exact ih (fun v hv => hws v (List.mem_cons_of_mem _ hv)) c hc

theorem Phrased.plain (hws : ∀ w ∈ ws, IsWord w) (h : Phrased ws cs) : ∀ c ∈ cs, Plain c := by
  cases h with
  | @mk w word later ws hword hlater =>
    intro c hc
    rcases List.mem_append.mp hc with hc | hc
    · exact .inl (((hws w List.mem_cons_self).of_same hword).alpha c hc)
    · exact hlater.plain (fun v hv => hws v (List.mem_cons_of_mem _ hv)) c hc

theorem Phrased.ne_nil (hws : ∀ w ∈ ws, IsWord w) (h : Phrased ws cs) : cs ≠ [] := by
  cases h with
  | @mk w word later ws hword hlater =>
    exact List.append_ne_nil_of_left_ne_nil ((hws w List.mem_cons_self).of_same hword).ne_nil later

/-- A plain character is at the top level of a level text, and leaves it level. -/
theorem Plain.level (h : Plain c) : Scanner.isTop {} c = true ∧ Level [c] := by
  obtain ⟨hquote, hopen, hclose⟩ := h.elim not_mark_of_isAlpha not_mark_of_isBlank
  simp [Level, Scanner.run, Scanner.isTop, Scanner.step, Mode.shows, Mode.step, depthAfter, hquote,
    hopen, hclose]

theorem level_of_plain (h : ∀ c ∈ cs, Plain c) : Level cs := by
  induction cs with
  | nil => rfl
  | cons c cs ih =>
    have hc := (h c List.mem_cons_self).level.2
    exact hc.append (ih fun d hd => h d (List.mem_cons_of_mem _ hd))

/-- Where a letter is at the top level, the text before it is level. -/
theorem level_of_isTop (h : (Scanner.run {} front).isTop c = true) : Level front := by
  simp only [Scanner.isTop, Mode.shows, Bool.and_eq_true, beq_iff_eq] at h
  have hrun := eq_of_outside h.1.1.1.1
  rw [h.2] at hrun
  exact hrun

/-! ## Occurrences -/

/-- **`Occurrence keyword front stretch rest`** -- between what is before and what is behind it, the
stretch is an occurrence of the keyword. -/
structure Occurrence (keyword : String) (front stretch rest : List Char) : Prop where
  top : byteSize front ∈ topLevelOffsets (front ++ (stretch ++ rest))
  begins : ∃ c ∈ stretch.head?, isWordStart front.getLast? c = true
  spelled : Phrased (words keyword.toList) stretch
  ends : startsInsideWord rest = false

/-- **`Occurs keyword cs start stop`** -- the keyword occurs in the text from one index to the other. -/
def Occurs (keyword : String) (cs : List Char) (start stop : Nat) : Prop :=
  ∃ front stretch rest, cs = front ++ (stretch ++ rest) ∧ start = front.length ∧
    stop = front.length + stretch.length ∧ Occurrence keyword front stretch rest

theorem Occurs.lt (hkeyword : Lettered keyword) (h : Occurs keyword cs start stop) : start < stop := by
  obtain ⟨front, stretch, rest, -, rfl, rfl, hat⟩ := h
  have hpos := List.length_pos_iff.mpr (hat.spelled.ne_nil hkeyword.isWord)
  omega

theorem Occurs.le (h : Occurs keyword cs start stop) : stop ≤ cs.length := by
  obtain ⟨front, stretch, rest, rfl, -, rfl, -⟩ := h
  simp only [List.length_append]
  omega

/-- **Each character of an occurrence is at the top level.** -/
theorem Occurs.top (hkeyword : Lettered keyword) (h : Occurs keyword cs start stop) (hstart : start ≤ index)
    (hstop : index < stop) : byteOffset cs index ∈ topLevelOffsets cs := by
  obtain ⟨front, stretch, rest, rfl, rfl, rfl, hat⟩ := h
  have hplain := hat.spelled.plain hkeyword.isWord
  have hfront : Level front := by
    obtain ⟨c, more, rfl⟩ := List.exists_cons_of_ne_nil (hat.spelled.ne_nil hkeyword.isWord)
    exact level_of_isTop ((mem_topLevelOffsets front c (more ++ rest)).mp hat.top)
  obtain ⟨size, rfl⟩ := Nat.exists_eq_add_of_le hstart
  -- the occurrence is cut at the character
  have hlt : size < stretch.length := by omega
  have hcut : stretch = stretch.take size ++ stretch[size] :: stretch.drop (size + 1) := by
    rw [List.getElem_cons_drop, List.take_append_drop]
  have hlevel : Level (front ++ stretch.take size) :=
    hfront.append (level_of_plain fun c hc => hplain c (List.mem_of_mem_take hc))
  have hall : front ++ (stretch ++ rest) =
      (front ++ stretch.take size) ++ stretch[size] :: (stretch.drop (size + 1) ++ rest) := by
    conv => lhs; rw [hcut]
    simp only [List.append_assoc, List.cons_append]
  have hindex : front.length + size = (front ++ stretch.take size).length := by
    rw [List.length_append, List.length_take, Nat.min_eq_left (Nat.le_of_lt hlt)]
  rw [hindex, hall, byteOffset_length, mem_topLevelOffsets, hlevel]
  exact (hplain _ (List.getElem_mem hlt)).level.1

/-- An occurrence at a place is what the search looks for there. -/
theorem occurs_iff (hkeyword : Lettered keyword) : Occurs keyword (front ++ c :: back) front.length stop ↔
    ((Scanner.run {} front).isTop c = true ∧ isWordStart front.getLast? c = true) ∧
      ∃ rest, stripKeyword keyword.toList (c :: back) = some rest ∧
        stop = front.length + ((c :: back).length - rest.length) := by
  constructor
  · rintro ⟨front', stretch, rest, hcs, hstart, rfl, hat⟩
    obtain ⟨rfl, hback⟩ := List.append_inj hcs hstart
    have htop := hat.top
    obtain ⟨d, more, rfl⟩ := List.exists_cons_of_ne_nil (hat.spelled.ne_nil hkeyword.isWord)
    obtain ⟨rfl, rfl⟩ := List.cons.inj hback
    obtain ⟨_, hc, hbegins⟩ := hat.begins
    cases hc
    refine ⟨⟨(mem_topLevelOffsets _ _ _).mp htop, hbegins⟩, rest, ?_, ?_⟩
    · exact (stripKeyword_eq_some hkeyword).mpr ⟨c :: more, rfl, hat.spelled, hat.ends⟩
    · show _ = front.length + ((c :: more ++ rest).length - rest.length)
      rw [List.length_append, Nat.add_sub_cancel]
  · rintro ⟨⟨htop, hbegins⟩, rest, hstrip, rfl⟩
    obtain ⟨stretch, hback, hspelled, hends⟩ := (stripKeyword_eq_some hkeyword).mp hstrip
    rw [hback]
    have hstop : (stretch ++ rest).length - rest.length = stretch.length := by
      rw [List.length_append, Nat.add_sub_cancel]
    refine ⟨front, stretch, rest, rfl, rfl, by rw [hstop], ?_, ?_, hspelled, hends⟩
    · rw [← hback]
      exact (mem_topLevelOffsets front c back).mpr htop
    · obtain ⟨d, more, rfl⟩ := List.exists_cons_of_ne_nil (hspelled.ne_nil hkeyword.isWord)
      obtain ⟨rfl, -⟩ := List.cons.inj hback
      exact ⟨c, rfl, hbegins⟩

/-! ## The search -/

/-- What is found behind a front, from an index on. -/
def hitsBehind (keywords : List String) (front : List Char) (resume : Nat) (rest : List Char) : List Hit :=
  hitsFrom keywords (Scanner.run {} front) front.getLast? front.length resume rest

theorem hitsBehind_cons (keywords : List String) (front : List Char) (resume : Nat) (c : Char)
    (rest : List Char) : hitsBehind keywords front resume (c :: rest) =
      if (Scanner.run {} front).isTop c && resume ≤ front.length && isWordStart front.getLast? c then
        match firstKeyword keywords (c :: rest) with
        | some (keyword, size) => ⟨front.length, front.length + size, keyword⟩ ::
          hitsBehind keywords (front ++ [c]) (front.length + size) rest
        | none => hitsBehind keywords (front ++ [c]) resume rest
      else hitsBehind keywords (front ++ [c]) resume rest := by
  unfold hitsBehind
  rw [hitsFrom, Scanner.run_append, List.getLast?_concat, List.length_append]
  rfl

/-- **At each place the search reports an occurrence, or there is none, or it comes too early.** -/
theorem hitsBehind_cases (hkeywords : ∀ k ∈ keywords, Lettered k) (front : List Char) (resume : Nat)
    (c : Char) (rest : List Char) :
    (∃ keyword ∈ keywords, ∃ stop, resume ≤ front.length ∧
      Occurs keyword (front ++ c :: rest) front.length stop ∧
      hitsBehind keywords front resume (c :: rest) =
        ⟨front.length, stop, keyword⟩ :: hitsBehind keywords (front ++ [c]) stop rest) ∨
    ((resume ≤ front.length → ∀ keyword ∈ keywords, ∀ stop,
        ¬ Occurs keyword (front ++ c :: rest) front.length stop) ∧
      hitsBehind keywords front resume (c :: rest) = hitsBehind keywords (front ++ [c]) resume rest) := by
  rw [hitsBehind_cons]
  split
  · rename_i hplace
    simp only [Bool.and_eq_true, decide_eq_true_eq] at hplace
    obtain ⟨⟨htop, hresume⟩, hbegins⟩ := hplace
    cases hfound : firstKeyword keywords (c :: rest) with
    | some found =>
      obtain ⟨k, hk, hsome⟩ := List.exists_of_findSome?_eq_some hfound
      obtain ⟨after, hstrip, rfl⟩ := Option.map_eq_some_iff.mp hsome
      refine .inl ⟨k, hk, _, hresume, ?_, rfl⟩
      exact (occurs_iff (hkeywords k hk)).mpr ⟨⟨htop, hbegins⟩, after, hstrip, rfl⟩
    | none =>
      refine .inr ⟨fun _ k hk stop hoccurs => ?_, rfl⟩
      obtain ⟨-, after, hstrip, -⟩ := (occurs_iff (hkeywords k hk)).mp hoccurs
      have hnone := List.findSome?_eq_none_iff.mp hfound k hk
      rw [hstrip] at hnone
      cases hnone
  · rename_i hplace
    refine .inr ⟨fun hresume k hk stop hoccurs => hplace ?_, rfl⟩
    obtain ⟨⟨htop, hbegins⟩, -⟩ := (occurs_iff (hkeywords k hk)).mp hoccurs
    rw [htop, hbegins, decide_eq_true hresume]
    rfl

/-- What is found are occurrences, none of them below the index from which the search resumes. -/
theorem occurs_of_mem_hitsBehind (hkeywords : ∀ k ∈ keywords, Lettered k)
    (hmem : h ∈ hitsBehind keywords front resume rest) :
    resume ≤ h.start ∧ h.keyword ∈ keywords ∧ Occurs h.keyword (front ++ rest) h.start h.stop := by
  induction rest generalizing front resume with
  | nil => cases hmem
  | cons c rest ih =>
    rw [List.append_cons]
    rcases hitsBehind_cases hkeywords front resume c rest with
      ⟨k, hk, stop, hresume, hoccurs, heq⟩ | ⟨-, heq⟩
    · rw [heq] at hmem
      rcases List.mem_cons.mp hmem with rfl | hmem
      · rw [List.append_cons] at hoccurs
        exact ⟨hresume, hk, hoccurs⟩
      · obtain ⟨hstop, hlater⟩ := ih hmem
        have hlt := hoccurs.lt (hkeywords k hk)
        exact ⟨by omega, hlater⟩
    · exact ih (heq ▸ hmem)

/-- What is found next is found behind what was found before. -/
theorem pairwise_hitsBehind (hkeywords : ∀ k ∈ keywords, Lettered k) (front : List Char) (resume : Nat)
    (rest : List Char) :
    (hitsBehind keywords front resume rest).Pairwise fun h h' => h.start < h'.start ∧ h.stop ≤ h'.start := by
  induction rest generalizing front resume with
  | nil => exact .nil
  | cons c rest ih =>
    rcases hitsBehind_cases hkeywords front resume c rest with
      ⟨k, hk, stop, -, hoccurs, heq⟩ | ⟨-, heq⟩
    · rw [heq]
      refine List.pairwise_cons.mpr ⟨fun h hmem => ?_, ih _ _⟩
      have hstop := (occurs_of_mem_hitsBehind hkeywords hmem).1
      exact ⟨Nat.lt_of_lt_of_le (hoccurs.lt (hkeywords k hk)) hstop, hstop⟩
    · rw [heq]
      exact ih _ _

/-- No occurrence is missed: it begins in one that is found. -/
theorem exists_mem_hitsBehind (hkeywords : ∀ k ∈ keywords, Lettered k) (hk : keyword ∈ keywords)
    (hoccurs : Occurs keyword (front ++ rest) start stop) (hfront : front.length ≤ start)
    (hresume : resume ≤ start) :
    ∃ h ∈ hitsBehind keywords front resume rest, h.start ≤ start ∧ start < h.stop := by
  induction rest generalizing front resume with
  | nil =>
    have hlt := hoccurs.lt (hkeywords keyword hk)
    have hle := hoccurs.le
    rw [List.append_nil] at hle
    omega
  | cons c rest ih =>
    have hlater (hne : front.length ≠ start) {resume : Nat} (hresume : resume ≤ start) :
        ∃ h ∈ hitsBehind keywords (front ++ [c]) resume rest, h.start ≤ start ∧ start < h.stop := by
      refine ih (List.append_cons front c rest ▸ hoccurs) ?_ hresume
      rw [List.length_append, List.length_singleton]
      omega
    rcases hitsBehind_cases hkeywords front resume c rest with
      ⟨k, hk', stop', -, hfound, heq⟩ | ⟨hnone, heq⟩
    · rw [heq]
      by_cases hin : start < stop'
      · exact ⟨_, List.mem_cons_self, hfront, hin⟩
      · have hlt := hfound.lt (hkeywords k hk')
        obtain ⟨h, hmem, hstart⟩ := hlater (by omega) (Nat.le_of_not_lt hin)
        exact ⟨h, List.mem_cons_of_mem _ hmem, hstart⟩
    · rw [heq]
      refine hlater ?_ hresume
      rintro rfl
      exact hnone hresume keyword hk stop hoccurs

/-! ## Slices -/

/-- **`Cut cs start stop`** -- the indexes are in range, and from one to the other the bytes of the text
are whole characters. -/
structure Cut (cs : List Char) (start stop : Nat) : Prop where
  within : start ≤ stop ∧ stop ≤ cs.length
  ordered : byteOffset cs start ≤ byteOffset cs stop
  in_range : byteOffset cs stop ≤ (String.ofList cs).utf8ByteSize
  begins : String.Pos.Raw.IsValid (String.ofList cs) ⟨byteOffset cs start⟩
  ends : String.Pos.Raw.IsValid (String.ofList cs) ⟨byteOffset cs stop⟩
  slice : String.Pos.Raw.extract (String.ofList cs) ⟨byteOffset cs start⟩ ⟨byteOffset cs stop⟩ =
    String.ofList ((cs.take stop).drop start)

theorem isValid_byteOffset (cs : List Char) (index : Nat) :
    String.Pos.Raw.IsValid (String.ofList cs) ⟨byteOffset cs index⟩ := by
  refine String.Pos.Raw.isValid_iff_exists_append.mpr
    ⟨String.ofList (cs.take index), String.ofList (cs.drop index), ?_, ?_⟩
  · rw [← String.ofList_append, List.take_append_drop]
  · rw [byteOffset, ← utf8Len_eq, ← String.utf8ByteSize_ofList]
    rfl

/-- Between two indexes, the first of them not behind the second, a text is cut. -/
theorem cut_of_le (hle : start ≤ stop) (hstop : stop ≤ cs.length) : Cut cs start stop := by
  have hfront : cs.take start ++ (cs.take stop).drop start = cs.take stop := by
    have htake : cs.take start = (cs.take stop).take start := by
      rw [List.take_take, Nat.min_eq_left hle]
    rw [htake, List.take_append_drop]
  have hoffset : byteOffset cs stop = byteOffset cs start + byteSize ((cs.take stop).drop start) := by
    rw [byteOffset, byteOffset, ← byteSize_append, hfront]
  have hall : byteSize cs = byteOffset cs stop + byteSize (cs.drop stop) := by
    rw [byteOffset, ← byteSize_append, List.take_append_drop]
  refine ⟨⟨hle, hstop⟩, by omega, ?_, isValid_byteOffset cs start, isValid_byteOffset cs stop, ?_⟩
  · rw [String.utf8ByteSize_ofList, utf8Len_eq]
    omega
  · have hslice := String.extract_of_valid (cs.take start) ((cs.take stop).drop start) (cs.drop stop)
    rw [hfront, List.take_append_drop, utf8Len_eq, utf8Len_eq] at hslice
    rw [hoffset]
    exact hslice

/-- The bounds of what is found, from the front of the text to its end. A slice is taken from the front
or from behind a hit, up to a later hit or to the end. -/
def bounds (cs : List Char) (hits : List Hit) : List Nat :=
  0 :: ((hits.flatMap fun h => [h.start, h.stop]) ++ [cs.length])

/-! ## What a search finds -/

/-- **`Searched keywords cs hits`** -- the hits are occurrences at the top level, one behind the other,
none is missed, and the text may be sliced at their bounds. -/
structure Searched (keywords : List String) (cs : List Char) (hits : List Hit) : Prop where
  apart : hits.Pairwise fun h h' => h.start < h'.start ∧ h.stop ≤ h'.start
  occurs : ∀ h ∈ hits, h.keyword ∈ keywords ∧ Occurs h.keyword cs h.start h.stop
  within : ∀ h ∈ hits, h.start < h.stop ∧ h.stop ≤ cs.length
  top : ∀ h ∈ hits, ∀ index, h.start ≤ index → index < h.stop → byteOffset cs index ∈ topLevelOffsets cs
  complete : ∀ keyword ∈ keywords, ∀ start stop, Occurs keyword cs start stop →
    ∃ h ∈ hits, h.start ≤ start ∧ start < h.stop
  cuts : (bounds cs hits).Pairwise (Cut cs)

/-- The bounds of stretches of a text that lie one behind the other cut it. -/
theorem pairwise_bounds {hits : List Hit} (hapart : hits.Pairwise fun h h' => h.stop ≤ h'.start)
    (hwithin : ∀ h ∈ hits, h.start < h.stop ∧ h.stop ≤ cs.length) : (bounds cs hits).Pairwise (Cut cs) := by
  have hends : ∀ h ∈ hits, ∀ bound ∈ [h.start, h.stop], h.start ≤ bound ∧ bound ≤ h.stop := by
    intro h hmem bound hbound
    have hlt := (hwithin h hmem).1
    rcases List.mem_pair.mp hbound with rfl | rfl
    · exact ⟨Nat.le_refl _, Nat.le_of_lt hlt⟩
    · exact ⟨Nat.le_of_lt hlt, Nat.le_refl _⟩
  have hlength : ∀ bound ∈ (hits.flatMap fun h => [h.start, h.stop]) ++ [cs.length], bound ≤ cs.length := by
    intro bound hbound
    rcases List.mem_append.mp hbound with hbound | hlast
    · obtain ⟨h, hmem, hbound⟩ := List.mem_flatMap.mp hbound
      exact Nat.le_trans (hends h hmem bound hbound).2 (hwithin h hmem).2
    · exact Nat.le_of_eq (List.mem_singleton.mp hlast)
  refine List.pairwise_cons.mpr ⟨fun bound hbound => cut_of_le (Nat.zero_le _) (hlength bound hbound), ?_⟩
  have hordered : ((hits.flatMap fun h => [h.start, h.stop]) ++ [cs.length]).Pairwise (· ≤ ·) := by
    refine List.pairwise_append.mpr ⟨List.pairwise_flatMap.mpr ⟨fun h hmem => ?_, ?_⟩, ?_, ?_⟩
    · exact List.pairwise_pair.mpr (Nat.le_of_lt (hwithin h hmem).1)
    · refine hapart.imp_of_mem fun hh hh' hle bound hbound bound' hbound' => ?_
      have hbefore := (hends _ hh bound hbound).2
      have hbehind := (hends _ hh' bound' hbound').1
      omega
    · exact List.pairwise_singleton _ _
    · intro bound hbound last hlast
      obtain rfl := List.mem_singleton.mp hlast
      exact hlength bound (List.mem_append_left _ hbound)
  exact hordered.imp_of_mem fun _ hstop hle => cut_of_le hle (hlength _ hstop)

/-- **A search reports the occurrences that lie apart, in their order, and misses none; and what is at the
top level behind a level text does not depend on it.** -/
theorem searched_findKeywords (hkeywords : ∀ k ∈ keywords, Lettered k) (cs : List Char) :
    Searched keywords cs (findKeywords keywords cs) ∧ ∀ front back, Level front →
      topLevelOffsets (front ++ back) =
        topLevelOffsets front ++ (topLevelOffsets back).map (byteSize front + ·) := by
  have hsearch : findKeywords keywords cs = hitsBehind keywords [] 0 cs := rfl
  have hoccurs : ∀ h ∈ findKeywords keywords cs, h.keyword ∈ keywords ∧ Occurs h.keyword cs h.start h.stop := by
    intro h hmem
    rw [hsearch] at hmem
    exact (occurs_of_mem_hitsBehind hkeywords hmem).2
  have hwithin : ∀ h ∈ findKeywords keywords cs, h.start < h.stop ∧ h.stop ≤ cs.length := by
    intro h hmem
    obtain ⟨hk, hat⟩ := hoccurs h hmem
    exact ⟨hat.lt (hkeywords _ hk), hat.le⟩
  have hapart : (findKeywords keywords cs).Pairwise fun h h' => h.start < h'.start ∧ h.stop ≤ h'.start :=
    pairwise_hitsBehind hkeywords [] 0 cs
  refine ⟨⟨hapart, hoccurs, hwithin, ?_, ?_, ?_⟩, fun front back hfront => topLevelOffsets_append hfront back⟩
  · intro h hmem index
    obtain ⟨hk, hat⟩ := hoccurs h hmem
    exact hat.top (hkeywords _ hk)
  · intro keyword hk start stop hat
    rw [hsearch]
    exact exists_mem_hitsBehind hkeywords hk hat (Nat.zero_le _) (Nat.zero_le _)
  · exact pairwise_bounds (hapart.imp And.right) hwithin

/-- The keywords in quotes and in the names of properties are no occurrences. -/
theorem searched_findKeywords_orderBy :
    Searched ["ORDER BY", "LIMIT"] "n.order, 'ORDER BY é' Order \t by n.limit LIMIT 5".toList
        [⟨22, 32, "ORDER BY"⟩, ⟨41, 46, "LIMIT"⟩] ∧
      topLevelOffsets ("'é' ".toList ++ "é(a)b".toList) = topLevelOffsets "'é' ".toList ++ [0, 5].map (5 + ·) := by
  have hfound :
      findKeywords ["ORDER BY", "LIMIT"] "n.order, 'ORDER BY é' Order \t by n.limit LIMIT 5".toList =
        [⟨22, 32, "ORDER BY"⟩, ⟨41, 46, "LIMIT"⟩] := by decide +kernel
  have hkeywords : ∀ k ∈ ["ORDER BY", "LIMIT"], Lettered k := by decide
  obtain ⟨hsearched, hlevel⟩ :=
    searched_findKeywords hkeywords "n.order, 'ORDER BY é' Order \t by n.limit LIMIT 5".toList
  rw [hfound] at hsearched
  exact ⟨hsearched, hlevel _ _ rfl⟩

/-- The keywords that are searched for are made of letters. -/
example : ∀ k ∈ ["RETURN", "ORDER BY", "SKIP", "LIMIT", "UNION", "AS", "BETWEEN", "AND", "OR"], Lettered k := by
  decide

end QueryScore.Text
