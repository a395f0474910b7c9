/-
# QueryScore.Proofs.Text.Hit -- what a search finds, seen from the text around it

A keyword is found where it stands whole and apart from the word before it (`isHit_of_strip`).
What a search finds in a stretch is what it finds there in the text around, as long as no word
reaches over the ends of the stretch (`Quiet.of_apart`, `Quiet.cut`), and a search of two parts is
one of each (`exists_hitsFrom_parts`); the last occurrence of a keyword is found whatever was found
before it (`getLast?_findKeywords`).
-/

import QueryScore.Proofs.Text.Quiet
import QueryScore.Proofs.Text.Trim

namespace QueryScore.Text

variable {keyword : String} {keywords : List String} {s : Scanner} {before before' : Option Char}
  {word bs cs ds after rest : List Char}

/-! ## A keyword of one word -/

/-- **`SingleWord keyword`** -- the keyword is one word, and its characters are letters. -/
structure SingleWord (keyword : String) : Prop where
  words : Text.words keyword.toList = [keyword.toList]
  alpha : ∀ c ∈ keyword.toList, c.isAlpha = true

theorem SingleWord.stripKeyword_eq (h : SingleWord keyword) (cs : List Char) :
    stripKeyword keyword.toList cs = (stripWord keyword.toList cs).filter fun rest => !startsInsideWord rest := by
  have hall : (stripWord keyword.toList cs).bind (stripSpacedWords []) = stripWord keyword.toList cs := by
    cases stripWord keyword.toList cs <;> rfl
  simp only [stripKeyword, h.words, hall]

theorem SingleWord.strip (h : SingleWord keyword) : stripKeyword keyword.toList cs = some rest ↔
    ∃ word, cs = word ++ rest ∧ word.map asciiLower = keyword.toList.map asciiLower ∧
      startsInsideWord rest = false := by
  rw [h.stripKeyword_eq, Option.filter_eq_some_iff, stripWord_eq_some, Bool.not_eq_true']
  constructor
  · rintro ⟨⟨word, hsplit, hword⟩, hend⟩
    exact ⟨word, hsplit, hword, hend⟩
  · rintro ⟨word, hsplit, hword, hend⟩
    exact ⟨⟨word, hsplit, hword⟩, hend⟩

theorem SingleWord.ne_nil (h : SingleWord keyword)
    (hword : word.map asciiLower = keyword.toList.map asciiLower) : word ≠ [] := by
  rintro rfl
  have hwords := h.words
  rw [List.map_eq_nil_iff.mp hword.symm] at hwords
  cases hwords

theorem firstKeyword_singleton (keyword : String) (cs : List Char) :
    firstKeyword [keyword] cs =
      (stripKeyword keyword.toList cs).map fun rest => (keyword, cs.length - rest.length) := by
  rw [firstKeyword, List.findSome?_cons]
  cases stripKeyword keyword.toList cs <;> rfl

/-! ## Characters -/

theorem isIdentifierChar_of_isAlpha {c : Char} (h : c.isAlpha = true) :
    isIdentifierChar c = true := by
  have hp := of_isAscii (p := fun c => !c.isAlpha || isIdentifierChar c) (by decide)
    (isAscii_of_isAlphanum (isAlphanum_of_isAlpha h))
  simpa [h] using hp

/-- The codes of the blanks. -/
def blankCodes : List Nat :=
  [9, 10, 11, 12, 13, 32, 0x85, 0xa0, 0x1680, 0x2000, 0x2001, 0x2002, 0x2003, 0x2004, 0x2005,
    0x2006, 0x2007, 0x2008, 0x2009, 0x200a, 0x2028, 0x2029, 0x202f, 0x205f, 0x3000]

theorem toNat_mem_of_isBlank {c : Char} (h : isBlank c = true) : c.toNat ∈ blankCodes := by
  simp only [isBlank, Bool.or_eq_true, Bool.and_eq_true, decide_eq_true_eq, beq_iff_eq] at h
  rcases h with ((((((((((rfl | h) | rfl) | rfl) | rfl) | h) | rfl) | rfl) | rfl) | rfl) | rfl)
  all_goals first | decide | skip
  · have hlow : 9 ≤ c.toNat := h.1
    have hhigh : c.toNat ≤ 13 := h.2
    simp only [blankCodes, List.mem_cons]
    omega
  · have hlow : 0x2000 ≤ c.toNat := h.1
    have hhigh : c.toNat ≤ 0x200a := h.2
    simp only [blankCodes, List.mem_cons]
    omega

/-- A blank ends every word. -/
theorem not_isIdentifierChar_of_isBlank {c : Char} (h : isBlank c = true) :
    isIdentifierChar c = false := by
  have hall : ∀ n ∈ blankCodes, isIdentifierChar (Char.ofNat n) = false := by decide +kernel
  have hc := hall _ (toNat_mem_of_isBlank h)
  rwa [Char.ofNat_toNat] at hc

theorem not_isSticky_of_isBlank {b : Char} (h : isBlank b = true) : isSticky b = false := by
  have hdot : b ≠ '.' := by
    rintro rfl
    exact absurd h (by decide)
  have hdollar : b ≠ '$' := by
    rintro rfl
    exact absurd h (by decide)
  simp [isSticky, not_isIdentifierChar_of_isBlank h, hdot, hdollar]

theorem not_isAlpha_of_isBlank {b : Char} (h : isBlank b = true) : b.isAlpha = false := by
  rw [Bool.eq_false_iff]
  intro halpha
  have hident := isIdentifierChar_of_isAlpha halpha
  rw [not_isIdentifierChar_of_isBlank h] at hident
  cases hident

theorem not_isBlank_of_isAlpha {c : Char} (h : c.isAlpha = true) : isBlank c = false := by
  rw [Bool.eq_false_iff]
  intro hblank
  rw [not_isAlpha_of_isBlank hblank] at h
  cases h

theorem Blank.quiet (h : Blank bs) (depth : Nat) :
    Quiet keywords ⟨.outside, depth⟩ before bs after :=
  (startless_of_not_isAlpha fun b hb => not_isAlpha_of_isBlank (h b hb)).quiet depth

/-- Among letters, behind the first of them, no keyword is found. -/
theorem quiet_of_letters {c : Char} (h : ∀ d ∈ c :: cs, d.isAlpha = true) (s : Scanner) (after : List Char) :
    Quiet keywords s (some c) cs after := by
  have hword : ∀ d ∈ c :: cs, isIdentifierChar d = true := fun d hd => isIdentifierChar_of_isAlpha (h d hd)
  exact (startless_of_isIdentifierChar (hword c List.mem_cons_self) fun d hd =>
    hword d (List.mem_cons_of_mem _ hd)).quiet s.depth

/-! ## Finding one -/

theorem isTop_of_isAlpha {c : Char} (h : c.isAlpha = true) : Scanner.isTop {} c = true := by
  have hp := of_isAscii (p := fun c => !c.isAlpha || Scanner.isTop {} c) (by decide)
    (isAscii_of_isAlphanum (isAlphanum_of_isAlpha h))
  simpa [h] using hp

theorem not_mark_of_isAlpha {c : Char} (h : c.isAlpha = true) :
    isQuote c = false ∧ isOpening c = false ∧ isClosing c = false := by
  have htop := isTop_of_isAlpha h
  simp only [Scanner.isTop, Mode.shows, Bool.and_eq_true, Bool.not_eq_true'] at htop
  exact ⟨htop.1.1.1.2, htop.1.1.2, htop.1.2⟩

/-- A word begins at a letter behind which nothing sticks. -/
theorem isWordStart_of_isAlpha {c : Char} (hc : c.isAlpha = true)
    (hbefore : ∀ b ∈ before, isSticky b = false) : isWordStart before c = true := by
  simp only [isWordStart, hc, Bool.true_and, Bool.not_eq_true']
  cases before with
  | none => rfl
  | some b => exact hbefore b rfl

/-- Where a keyword stands whole and apart at the top level, it is found. -/
theorem isHit_of_strip (hmem : keyword ∈ keywords)
    (hstrip : stripKeyword keyword.toList cs = some rest)
    (halpha : ∃ c ∈ cs.head?, c.isAlpha = true) (hbefore : ∀ b ∈ before, isSticky b = false) :
    isHit keywords {} before cs = true := by
  cases cs with
  | nil => simp at halpha
  | cons c cs =>
    have hc : c.isAlpha = true := by simpa using halpha
    have hfound : (firstKeyword keywords (c :: cs)).isSome = true := by
      rw [firstKeyword, List.isSome_findSome?, List.any_eq_true]
      exact ⟨keyword, hmem, by simp [hstrip]⟩
    simp [isHit, isTop_of_isAlpha hc, isWordStart_of_isAlpha hc hbefore, hfound]

/-- Behind a quiet stretch, the first keyword is the one that stands there whole and apart. -/
theorem findKeyword_of_word (hkeyword : SingleWord keyword) (hquiet : Quiet [keyword] {} none cs
      (word ++ rest)) (hhit : isHit [keyword] (Scanner.run {} cs) cs.getLast? (word ++ rest) = true)
    (hword : word.map asciiLower = keyword.toList.map asciiLower)
    (hstop : startsInsideWord rest = false) :
    findKeyword [keyword] (cs ++ (word ++ rest)) =
      some ⟨cs.length, cs.length + word.length, keyword⟩ := by
  obtain ⟨found, size, hfound, hall⟩ := findKeyword_of_quiet hquiet hhit
  rw [firstKeyword_singleton, hkeyword.strip.mpr ⟨word, rfl, hword, hstop⟩] at hfound
  obtain ⟨rfl, rfl⟩ := Prod.mk.inj (Option.some.inj hfound)
  rw [hall, List.length_append, Nat.add_sub_cancel]

/-! ## The ends of a stretch -/

/-- Behind a character to which nothing sticks a word begins as at the front of a text. -/
theorem isWordStart_of_not_isSticky (hbefore : ∀ b ∈ before, isSticky b = false) (c : Char) :
    isWordStart before c = isWordStart none c := by
  cases before with
  | none => rfl
  | some b =>
    have hb := hbefore b rfl
    rw [isSticky] at hb
    simp [isWordStart, hb]

/-- What stands before a stretch does not matter if words may begin behind it. -/
theorem Quiet.of_apart (h : Quiet keywords s before cs after)
    (hbefore : ∀ b ∈ before, isSticky b = false) : Quiet keywords s none cs after := by
  cases cs with
  | nil => trivial
  | cons c cs =>
    refine ⟨?_, h.2⟩
    have hc := h.1
    rw [isHit] at hc ⊢
    rwa [← isWordStart_of_not_isSticky hbefore]

/-- What stands behind a stretch does not matter if no word reaches into it. -/
theorem Quiet.cut (hkeyword : SingleWord keyword) (h : Quiet [keyword] s before cs after)
    (hend : ∀ c ∈ cs.getLast?, c.isAlpha = true → ∀ d ∈ after.head?, isIdentifierChar d = false) :
    Quiet [keyword] s before cs [] := by
  induction cs generalizing s before with
  | nil => trivial
  | cons c cs ih =>
    refine ⟨?_, ih h.2 fun d hd => hend d ?_⟩
    · have hc := h.1
      rw [List.append_nil]
      rw [isHit, firstKeyword_singleton, Option.isSome_map] at hc ⊢
      cases hstrip : stripKeyword keyword.toList (c :: cs) with
      | none => simp
      | some rest =>
        obtain ⟨word, hsplit, hword, hrest⟩ := hkeyword.strip.mp hstrip
        have hlonger : stripKeyword keyword.toList (c :: (cs ++ after)) = some (rest ++ after) := by
          refine hkeyword.strip.mpr ⟨word, ?_, hword, ?_⟩
          · rw [← List.append_assoc, ← hsplit, List.cons_append]
          · cases rest with
            | cons r rest => exact hrest
            | nil =>
              -- The keyword ends with the stretch, so its last letter does.
              rw [List.append_nil] at hsplit
              cases after with
              | nil => rfl
              | cons d after =>
                have hlast := List.getLast_mem (l := c :: cs) (by simp)
                refine hend _ (List.getLast?_eq_some_getLast (by simp)) ?_ d rfl
                exact isAlpha_of_mem hword hkeyword.alpha _ (hsplit ▸ hlast)
        rw [hlonger] at hc
        simpa using hc
    · cases cs with
      | nil => cases hd
      | cons e cs => rwa [List.getLast?_cons_cons]

/-- Blanks may be cut off the end of a quiet stretch. -/
theorem Quiet.cut_blank (hkeyword : SingleWord keyword) (hbs : Blank bs)
    (h : Quiet [keyword] s before (cs ++ bs) []) : Quiet [keyword] s before cs [] := by
  refine (quiet_append.mp h).1.cut hkeyword fun _ _ _ d hd =>
    not_isIdentifierChar_of_isBlank (hbs d ?_)
  rw [List.append_nil] at hd
  exact List.mem_of_head? hd

/-! ## A search in a part of a text -/

/-- A keyword in the first of two parts is one in the whole, if no word goes on from one part to the
other. -/
theorem SingleWord.strip_append (hkeyword : SingleWord keyword) (hne : cs ≠ [])
    (hend : (∀ c ∈ ds.head?, isIdentifierChar c = false) ∨ ∀ c ∈ cs.getLast?, c.isAlpha = false) :
    stripKeyword keyword.toList (cs ++ ds) = (stripKeyword keyword.toList cs).map (· ++ ds) := by
  have hwhole {word : List Char} (hword : word.map asciiLower = keyword.toList.map asciiLower)
      (hcs : cs <+: word) : ∀ c ∈ ds.head?, isIdentifierChar c = false := by
    refine hend.resolve_right fun hlast => ?_
    have hletter := isAlpha_of_mem hword hkeyword.alpha _ (hcs.subset (List.getLast_mem hne))
    rw [hlast _ (List.getLast?_eq_some_getLast hne)] at hletter
    cases hletter
  cases hstrip : stripKeyword keyword.toList cs with
  | some rest =>
    obtain ⟨word, rfl, hword, hstop⟩ := hkeyword.strip.mp hstrip
    refine hkeyword.strip.mpr ⟨word, List.append_assoc _ _ _, hword, ?_⟩
    cases rest with
    | cons r rest => exact hstop
    | nil =>
      cases ds with
      | nil => rfl
      | cons d ds => exact hwhole hword (by simp) d rfl
  | none =>
    refine Option.eq_none_iff_forall_ne_some.mpr fun rest hsome => ?_
    obtain ⟨word, hsplit, hword, hstop⟩ := hkeyword.strip.mp hsome
    -- The word ends in the second part or in the first.
    rcases List.append_eq_append_iff.mp hsplit with ⟨more, rfl, rfl⟩ | ⟨more, rfl, rfl⟩
    · cases more with
      | nil =>
        rw [List.append_nil] at hword
        have hfound := hkeyword.strip.mpr ⟨cs, (List.append_nil cs).symm, hword, rfl⟩
        rw [hfound] at hstrip
        cases hstrip
      | cons m more =>
        have hletter := isAlpha_of_mem hword hkeyword.alpha m (by simp)
        have hno := hwhole hword (List.prefix_append _ _) m rfl
        rw [isIdentifierChar_of_isAlpha hletter] at hno
        cases hno
    · have hfound : stripKeyword keyword.toList (word ++ more) = some more := by
        refine hkeyword.strip.mpr ⟨word, rfl, hword, ?_⟩
        cases more with
        | nil => rfl
        | cons m more => exact hstop
      rw [hfound] at hstrip
      cases hstrip

/-- What is found first in the whole is what is found first in its first part, if each keyword is. -/
theorem firstKeyword_of_strips (hstrips : ∀ k ∈ keywords,
      stripKeyword k.toList (cs ++ ds) = (stripKeyword k.toList cs).map (· ++ ds)) :
    firstKeyword keywords (cs ++ ds) = firstKeyword keywords cs := by
  induction keywords with
  | nil => rfl
  | cons k keywords ih =>
    rw [firstKeyword, firstKeyword, List.findSome?_cons, List.findSome?_cons, hstrips k (by simp)]
    cases stripKeyword k.toList cs with
    | none => exact ih fun k hk => hstrips k (by simp [hk])
    | some rest =>
      simp only [Option.map_some, List.length_append, Option.some.injEq, Prod.mk.injEq, true_and]
      omega

theorem firstKeyword_append (hkeywords : ∀ k ∈ keywords, SingleWord k) (hne : cs ≠ [])
    (hend : (∀ c ∈ ds.head?, isIdentifierChar c = false) ∨ ∀ c ∈ cs.getLast?, c.isAlpha = false) :
    firstKeyword keywords (cs ++ ds) = firstKeyword keywords cs :=
  firstKeyword_of_strips fun k hk => (hkeywords k hk).strip_append hne hend

/-- Behind an index from which a search may resume, it does not matter from where it may. -/
theorem hitsFrom_resume {index resume resume' : Nat} (h : resume ≤ index) (h' : resume' ≤ index) :
    hitsFrom keywords s before index resume cs = hitsFrom keywords s before index resume' cs := by
  induction cs generalizing s before index with
  | nil => rfl
  | cons c cs ih =>
    have hlater := @ih (s.step c) (some c) (index + 1) (by omega) (by omega)
    rw [hitsFrom, hitsFrom]
    simp only [h, h', decide_true, Bool.and_true, hlater]

/-- What stands before a stretch matters to its first word only. -/
theorem hitsFrom_before (h : ∀ c ∈ cs.head?, isWordStart before c = isWordStart before' c)
    (index resume : Nat) :
    hitsFrom keywords s before index resume cs = hitsFrom keywords s before' index resume cs := by
  cases cs with
  | nil => rfl
  | cons c cs => rw [hitsFrom, hitsFrom, h c rfl]

/-- A hit in a text that has more in front of it. -/
def Hit.shift (size : Nat) (h : Hit) : Hit := ⟨h.start + size, h.stop + size, h.keyword⟩

theorem hitsFrom_add (s : Scanner) (before : Option Char) (index resume size : Nat) (cs : List Char) :
    hitsFrom keywords s before (index + size) (resume + size) cs =
      (hitsFrom keywords s before index resume cs).map (Hit.shift size) := by
  induction cs generalizing s before index resume with
  | nil => rfl
  | cons c cs ih =>
    rw [hitsFrom, hitsFrom]
    simp only [Nat.add_le_add_iff_right]
    split
    · cases firstKeyword keywords (c :: cs) with
      | none =>
        simp only [Nat.add_right_comm index size 1]
        exact ih _ _ _ _
      | some found =>
        have hnext := ih (s.step c) (some c) (index + 1) (index + found.2)
        simp only [Nat.add_right_comm index size 1, Nat.add_right_comm index size found.2, hnext]
        rfl
    · rw [Nat.add_right_comm index size 1]
      exact ih _ _ _ _

/-- In the middle of a text a search finds in a stretch what it finds in the stretch alone, moved by the
index. -/
theorem hitsFrom_eq_shift (hstart : ∀ c ∈ cs.head?, isWordStart before c = isWordStart none c)
    {index resume : Nat} (hresume : resume ≤ index) :
    hitsFrom keywords {} before index resume cs = (findKeywords keywords cs).map (Hit.shift index) := by
  have hshift : hitsFrom keywords {} none (0 + index) (0 + index) cs =
      (hitsFrom keywords {} none 0 0 cs).map (Hit.shift index) := hitsFrom_add {} none 0 0 index cs
  rw [Nat.zero_add] at hshift
  rw [hitsFrom_before hstart, hitsFrom_resume hresume (Nat.le_refl index), hshift, findKeywords]

/-- A search of two parts, between which no word goes on, is one of the first and one of the
second. -/
theorem exists_hitsFrom_parts (hkeywords : ∀ k ∈ keywords, SingleWord k)
    (hend : (∀ c ∈ ds.head?, isIdentifierChar c = false) ∨ ∀ c ∈ cs.getLast?, c.isAlpha = false)
    (s : Scanner) (before : Option Char) {index resume : Nat} (hresume : resume ≤ index + cs.length) :
    ∃ resume' ≤ index + cs.length, hitsFrom keywords s before index resume (cs ++ ds) =
      hitsFrom keywords s before index resume cs ++
        hitsFrom keywords (s.run cs) (cs.getLast?.or before) (index + cs.length) resume' ds := by
  induction cs generalizing s before index resume with
  | nil => exact ⟨resume, hresume, rfl⟩
  | cons c cs ih =>
    have hend' : (∀ c ∈ ds.head?, isIdentifierChar c = false) ∨ ∀ d ∈ cs.getLast?, d.isAlpha = false := by
      refine hend.imp_right fun hlast d hd => ?_
      cases cs with
      | nil => cases hd
      | cons e cs => exact hlast d (by rwa [List.getLast?_cons_cons])
    have hlength : index + (c :: cs).length = index + 1 + cs.length := by
      rw [List.length_cons]
      omega
    rw [hlength] at hresume ⊢
    rw [List.cons_append, hitsFrom, hitsFrom, ← List.cons_append,
      firstKeyword_append hkeywords (by simp) hend, getLast?_cons_or]
    split
    · cases hfound : firstKeyword keywords (c :: cs) with
      | none => exact ih hend' (s.step c) (some c) hresume
      | some found =>
        obtain ⟨k, size⟩ := found
        have hsize : size ≤ (c :: cs).length := by
          obtain ⟨k', -, hsome⟩ := List.exists_of_findSome?_eq_some hfound
          obtain ⟨rest, -, heq⟩ := Option.map_eq_some_iff.mp hsome
          have hsize := (Prod.mk.inj heq).2
          omega
        rw [List.length_cons] at hsize
        obtain ⟨resume', hle, hrest⟩ :=
          @ih hend' (s.step c) (some c) (index + 1) (index + size) (by omega)
        refine ⟨resume', hle, ?_⟩
        simp only [hrest, List.cons_append]
        rfl
    · exact ih hend' (s.step c) (some c) hresume

/-! ## The last occurrence -/

/-- Where a word of letters is found, a search takes up behind it. -/
theorem hitsFrom_of_hit (hne : word ≠ []) (hletters : ∀ c ∈ word, c.isAlpha = true)
    (hhit : isHit keywords s before (word ++ rest) = true)
    (hfound : firstKeyword keywords (word ++ rest) = some (keyword, word.length))
    {index resume : Nat} (hresume : resume ≤ index) :
    hitsFrom keywords s before index resume (word ++ rest) =
      ⟨index, index + word.length, keyword⟩ ::
        hitsFrom keywords (s.run word) word.getLast? (index + word.length) (index + word.length) rest := by
  obtain ⟨w, word, rfl⟩ := List.exists_cons_of_ne_nil hne
  rw [List.cons_append] at hhit hfound ⊢
  simp only [isHit, Bool.and_eq_true] at hhit
  obtain ⟨⟨htop, hstart⟩, -⟩ := hhit
  -- no word begins at the further letters
  have hinside : Quiet keywords (s.step w) (some w) word rest := quiet_of_letters hletters _ rest
  have hlater : hitsFrom keywords (s.step w) (some w) (index + 1) (index + (w :: word).length)
      (word ++ rest) = hitsFrom keywords (s.run (w :: word)) (w :: word).getLast?
        (index + (w :: word).length) (index + (w :: word).length) rest := by
    rw [hitsFrom_of_quiet hinside, ← getLast?_cons_or w word none, Option.or_none, List.length_cons,
      Nat.add_right_comm, Nat.add_assoc]
    rfl
  rw [hitsFrom, if_pos (by simp [htop, hstart, hresume]), hfound]
  simp only [hlater]

/-- Behind any front in which no word reaches the end, a keyword after which nothing is found is
the last that is found. -/
theorem getLast?_findKeywords (hkeyword : SingleWord keyword)
    (hend : ∀ c ∈ cs.getLast?, c.isAlpha = false)
    (hhit : isHit [keyword] (Scanner.run {} cs) cs.getLast? (word ++ rest) = true)
    (hword : word.map asciiLower = keyword.toList.map asciiLower)
    (hstop : startsInsideWord rest = false)
    (hquiet : Quiet [keyword] (Scanner.run {} (cs ++ word)) word.getLast? rest []) :
    (findKeywords [keyword] (cs ++ (word ++ rest))).getLast? =
      some ⟨cs.length, cs.length + word.length, keyword⟩ := by
  have hsingle : ∀ k ∈ [keyword], SingleWord k := by simpa using hkeyword
  have hapart : (∀ c ∈ (word ++ rest).head?, isIdentifierChar c = false) ∨
      ∀ c ∈ cs.getLast?, c.isAlpha = false := .inr hend
  obtain ⟨resume, hresume, hall⟩ :=
    exists_hitsFrom_parts hsingle hapart {} none (Nat.zero_le (0 + cs.length))
  rw [Nat.zero_add, Option.or_none] at hall
  rw [Nat.zero_add] at hresume
  have hfound : firstKeyword [keyword] (word ++ rest) = some (keyword, word.length) := by
    rw [firstKeyword_singleton, hkeyword.strip.mpr ⟨word, rfl, hword, hstop⟩, Option.map_some,
      List.length_append, Nat.add_sub_cancel]
  have hnone := hitsFrom_of_quiet hquiet (cs.length + word.length) (cs.length + word.length)
  rw [List.append_nil, hitsFrom, Scanner.run_append] at hnone
  rw [findKeywords, hall, hitsFrom_of_hit (hkeyword.ne_nil hword)
    (isAlpha_of_mem hword hkeyword.alpha) hhit hfound hresume, hnone, List.getLast?_concat]

end QueryScore.Text
