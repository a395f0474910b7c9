/-
# QueryScore.Proofs.Text.Recased -- searches of texts that differ in their blanks and in case

Two texts are recased if each run of blanks in one, quoted or not, is such a run in the other, and all
other characters correspond and read the same (`SameSense`): as marks, as characters of a word, and as
letters of a keyword. A search finds the same keywords in both (`Recased.findKeywords`). The letter `k`
is the one that a keyword must not have (`PlainWord`): the sign of the Kelvin is no letter of ASCII, and
its lower case is. A text and its comparison form are recased, one character for one, as long as the
text is without `İ`, whose lower case is two characters of which the second ends a word
(`map_keyword_normalizeFragment`).
-/

import QueryScore.Proofs.Text.Fold
import QueryScore.Proofs.Text.Relaid

namespace QueryScore.Text

variable {c d : Char} {s : Scanner} {before before' : Option Char} {keyword : String} {keywords : List String}
  {bs cs ds ws xs ys : List Char}

/-! ## Characters that read the same -/

/-- **`SameSense c d`** -- a search reads the two characters the same. -/
structure SameSense (c d : Char) : Prop where
  mark : isMark c = true ∨ isMark d = true → c = d
  identifier : isIdentifierChar d = isIdentifierChar c
  sticky : isSticky d = isSticky c
  letter : ∀ w, w.isAlpha = true → asciiLower w ≠ 'k' → sameIgnoringCase w d = sameIgnoringCase w c

theorem SameSense.refl (c : Char) : SameSense c c := ⟨fun _ => rfl, rfl, rfl, fun _ _ _ => rfl⟩

/-- Marks read the same to themselves only, so all others are dull to a scan. -/
theorem SameSense.eq_or_dull (h : SameSense c d) : c = d ∨ isMark c = false ∧ isMark d = false := by
  by_cases hmark : isMark c = true ∨ isMark d = true
  · exact .inl (h.mark hmark)
  · exact .inr (by simpa using hmark)

theorem SameSense.step_eq (h : SameSense c d) (hs : s.mode.IsReal) : s.step d = s.step c := by
  obtain rfl | ⟨hc, hd⟩ := h.eq_or_dull
  · rfl
  · rw [Scanner.step_dull hs hc, Scanner.step_dull hs hd]

theorem SameSense.isTop_eq (h : SameSense c d) : s.isTop d = s.isTop c := by
  obtain rfl | ⟨hc, hd⟩ := h.eq_or_dull
  · rfl
  · simp only [isMark, Bool.or_eq_false_iff] at hc hd
    simp [Scanner.isTop, Mode.shows, hc, hd]

/-! ## Recased texts -/

/-- **`Recased cs ds`** -- the texts are the same but for the runs of blanks and for characters that read
the same. -/
inductive Recased : List Char → List Char → Prop
  | nil : Recased [] []
  | char {c d : Char} {cs ds : List Char} : SameSense c d → Recased cs ds → Recased (c :: cs) (d :: ds)
  | gap {ks ls cs ds : List Char} : Gap ks → Gap ls → Recased cs ds → Recased (ks ++ cs) (ls ++ ds)

theorem Recased.refl (cs : List Char) : Recased cs cs := by
  induction cs with
  | nil => exact .nil
  | cons c cs ih => exact .char (.refl c) ih

theorem Recased.append (h : Recased cs ds) (h' : Recased xs ys) : Recased (cs ++ xs) (ds ++ ys) := by
  induction h with
  | nil => exact h'
  | char hsame _ ih => exact .char hsame ih
  | gap hks hls _ ih =>
    rw [List.append_assoc, List.append_assoc]
    exact .gap hks hls ih

theorem Recased.startsInsideWord_eq (h : Recased cs ds) : startsInsideWord ds = startsInsideWord cs := by
  cases h with
  | nil => rfl
  | char hsame => exact hsame.identifier
  | gap hks hls => rw [startsInsideWord_gap hks, startsInsideWord_gap hls]

/-! ## Keywords at the front -/

/-- **`PlainWord keyword`** -- a keyword of one word in which no `k` is. -/
structure PlainWord (keyword : String) : Prop extends SingleWord keyword where
  plain : ∀ c ∈ keyword.toList, asciiLower c ≠ 'k'

/-- A keyword takes as many characters as it has. -/
theorem SingleWord.length_sub (h : SingleWord keyword) {rest : List Char}
    (hstrip : stripKeyword keyword.toList cs = some rest) : cs.length - rest.length = keyword.toList.length := by
  rw [h.stripKeyword_eq] at hstrip
  have hlength := length_stripWord (Option.filter_eq_some_iff.mp hstrip).1
  omega

/-- A word stands at the front of both texts, or of neither. -/
theorem Recased.stripWord (hws : ∀ w ∈ ws, w.isAlpha = true ∧ asciiLower w ≠ 'k') (h : Recased cs ds) :
    Option.Rel Recased (stripWord ws cs) (stripWord ws ds) := by
  induction ws generalizing cs ds with
  | nil => exact .some h
  | cons w ws ih =>
    obtain ⟨hletter, hplain⟩ := hws w List.mem_cons_self
    cases h with
    | nil => exact .none
    | char hsame h =>
      rw [Text.stripWord, Text.stripWord, hsame.letter w hletter hplain]
      split
      · exact ih (fun v hv => hws v (List.mem_cons_of_mem _ hv)) h
      · exact .none
    | gap hks hls =>
      obtain ⟨k, ks, rfl, hk, -⟩ := hks.exists_cons
      obtain ⟨l, ls, rfl, hl, -⟩ := hls.exists_cons
      rw [List.cons_append, List.cons_append, Text.stripWord, Text.stripWord,
        sameIgnoringCase_of_isBlank hletter hk, sameIgnoringCase_of_isBlank hletter hl]
      exact .none

theorem Recased.stripKeyword (hkeyword : PlainWord keyword) (h : Recased cs ds) :
    Option.Rel Recased (stripKeyword keyword.toList cs) (stripKeyword keyword.toList ds) := by
  have hword := h.stripWord fun w hw => ⟨hkeyword.alpha w hw, hkeyword.plain w hw⟩
  rw [hkeyword.stripKeyword_eq, hkeyword.stripKeyword_eq]
  refine rel_mono (rel_filter hword fun rest rest' hrest => ?_) fun _ _ hrest => hrest.1
  rw [hrest.startsInsideWord_eq]

/-- The same keyword stands first at the front of both texts. -/
theorem Recased.firstKeyword_eq (hkeywords : ∀ k ∈ keywords, PlainWord k) (h : Recased cs ds) :
    firstKeyword keywords ds = firstKeyword keywords cs := by
  induction keywords with
  | nil => rfl
  | cons k keywords ih =>
    have hk := hkeywords k List.mem_cons_self
    have hrest := ih fun l hl => hkeywords l (List.mem_cons_of_mem _ hl)
    have hstrip := h.stripKeyword hk
    rw [firstKeyword] at hrest ⊢
    rw [firstKeyword, List.findSome?_cons, List.findSome?_cons]
    generalize hcs : Text.stripKeyword k.toList cs = left at hstrip
    generalize hds : Text.stripKeyword k.toList ds = right at hstrip
    cases hstrip with
    | none => exact hrest
    | some => simp only [Option.map_some, hk.length_sub hcs, hk.length_sub hds]

/-- Where a keyword stands, it begins with a letter, and no other one begins inside it. -/
theorem exists_of_firstKeyword (hkeywords : ∀ k ∈ keywords, SingleWord k) {size : Nat}
    (h : firstKeyword keywords (c :: cs) = some (keyword, size)) :
    c.isAlpha = true ∧ ∃ word rest, cs = word ++ rest ∧ size = word.length + 1 ∧
      ∀ s, Quiet keywords s (some c) word rest := by
  obtain ⟨k, hk, hfound⟩ := List.exists_of_findSome?_eq_some h
  obtain ⟨rest, hstrip, heq⟩ := Option.map_eq_some_iff.mp hfound
  obtain ⟨word, hsplit, hword, -⟩ := (hkeywords k hk).strip.mp hstrip
  have hletters := isAlpha_of_mem hword (hkeywords k hk).alpha
  obtain ⟨w, word, rfl⟩ := List.exists_cons_of_ne_nil ((hkeywords k hk).ne_nil hword)
  rw [List.cons_append] at hsplit
  obtain ⟨rfl, rfl⟩ := List.cons.inj hsplit
  refine ⟨hletters c List.mem_cons_self, word, rest, rfl, ?_, fun s => quiet_of_letters hletters s rest⟩
  rw [← (Prod.mk.inj heq).2, List.length_cons, List.length_append]
  omega

/-! ## Keywords that are found -/

/-- The keyword that is found at the front of a text. -/
def keywordAt (keywords : List String) (s : Scanner) (before : Option Char) (cs : List Char) : Option String :=
  if isHit keywords s before cs then (firstKeyword keywords cs).map Prod.fst else none

/-- The keywords that a search finds, in the order of the text. -/
def keywordsFrom (keywords : List String) (s : Scanner) (before : Option Char) (cs : List Char) : List String :=
  (hitsFrom keywords s before 0 0 cs).map Hit.keyword

/-- It does not matter where the text begins, nor from where the search may resume. -/
theorem map_keyword_hitsFrom {index resume : Nat} (h : resume ≤ index) :
    (hitsFrom keywords s before index resume cs).map Hit.keyword = keywordsFrom keywords s before cs := by
  have hshift : hitsFrom keywords s before (0 + index) (0 + index) cs =
      (hitsFrom keywords s before 0 0 cs).map (Hit.shift index) := hitsFrom_add s before 0 0 index cs
  rw [Nat.zero_add] at hshift
  rw [hitsFrom_resume h (Nat.le_refl index), hshift, List.map_map]
  rfl

/-- A search passes a quiet stretch. -/
theorem keywordsFrom_of_quiet (h : Quiet keywords s before cs ds) :
    keywordsFrom keywords s before (cs ++ ds) = keywordsFrom keywords (s.run cs) (cs.getLast?.or before) ds := by
  rw [keywordsFrom, hitsFrom_of_quiet h, map_keyword_hitsFrom (Nat.zero_le _)]

/-- What a search finds is what it finds at the first character and behind it. -/
theorem keywordsFrom_cons (hkeywords : ∀ k ∈ keywords, SingleWord k) (s : Scanner) (before : Option Char) :
    keywordsFrom keywords s before (c :: cs) =
      (keywordAt keywords s before (c :: cs)).toList ++ keywordsFrom keywords (s.step c) (some c) cs := by
  cases hhit : isHit keywords s before (c :: cs) with
  | false =>
    have hquiet : Quiet keywords s before [c] cs := ⟨hhit, trivial⟩
    have hpassed := keywordsFrom_of_quiet hquiet
    rw [keywordAt, hhit]
    exact hpassed
  | true =>
    rw [keywordAt, hhit]
    simp only [isHit, Bool.and_eq_true] at hhit
    obtain ⟨⟨htop, hstart⟩, hsome⟩ := hhit
    obtain ⟨⟨k, size⟩, hfound⟩ := Option.isSome_iff_exists.mp hsome
    obtain ⟨-, word, rest, rfl, rfl, hquiet⟩ := exists_of_firstKeyword hkeywords hfound
    -- The rest of the word is passed, from wherever the search may resume.
    have hbehind : (hitsFrom keywords (s.step c) (some c) 1 (word.length + 1) (word ++ rest)).map Hit.keyword =
        keywordsFrom keywords (s.step c) (some c) (word ++ rest) := by
      rw [hitsFrom_of_quiet (hquiet _), map_keyword_hitsFrom (by omega), keywordsFrom_of_quiet (hquiet _)]
    rw [keywordsFrom, hitsFrom, if_pos (by simp [htop, hstart]), hfound]
    simp only [Nat.zero_add, List.map_cons, hbehind]
    rfl

/-- Nothing is found in a run of blanks. -/
theorem keywordsFrom_gap (hs : s.mode.IsReal) (hbs : Gap bs) (before : Option Char) (cs : List Char) :
    keywordsFrom keywords s before (bs ++ cs) =
      keywordsFrom keywords ⟨s.mode.settle, s.depth⟩ (bs.getLast?.or before) cs := by
  have hquiet : Quiet keywords s before bs cs :=
    (startless_of_not_isAlpha fun b hb => not_isAlpha_of_isBlank (hbs.blank b hb)).quiet s.depth
  rw [keywordsFrom_of_quiet hquiet, Scanner.run_dull hs (dull_of_blank hbs.blank hbs.ne_nil)]

theorem any_isSticky_gap (hbs : Gap bs) (before : Option Char) : (bs.getLast?.or before).any isSticky = false := by
  have hlast := List.getLast?_eq_some_getLast hbs.ne_nil
  rw [hlast, Option.some_or, Option.any_some]
  exact not_isSticky_of_isBlank (hbs.blank _ (List.mem_of_getLast? hlast))

/-- The same keyword is found at the front of both texts. -/
theorem Recased.keywordAt_eq (hkeywords : ∀ k ∈ keywords, PlainWord k) (hsame : SameSense c d) (h : Recased cs ds)
    (hbefore : before'.any isSticky = before.any isSticky) :
    keywordAt keywords s before' (d :: ds) = keywordAt keywords s before (c :: cs) := by
  have hfirst := (Recased.char hsame h).firstKeyword_eq hkeywords
  have hsingle : ∀ k ∈ keywords, SingleWord k := fun k hk => (hkeywords k hk).toSingleWord
  cases hfound : firstKeyword keywords (c :: cs) with
  | none => simp [keywordAt, hfirst, hfound]
  | some found =>
    obtain ⟨hc, -⟩ := exists_of_firstKeyword hsingle hfound
    obtain ⟨hd, -⟩ := exists_of_firstKeyword hsingle (hfirst.trans hfound)
    have hstart : isWordStart before' d = isWordStart before c := by
      rw [isWordStart, isWordStart, hc, hd]
      exact congrArg (true && !·) hbefore
    rw [keywordAt, keywordAt, isHit, isHit, hsame.isTop_eq, hstart, hfirst]

theorem Recased.keywordsFrom_eq (hkeywords : ∀ k ∈ keywords, PlainWord k) (h : Recased cs ds) (hs : s.mode.IsReal)
    (hbefore : before'.any isSticky = before.any isSticky) :
    keywordsFrom keywords s before' ds = keywordsFrom keywords s before cs := by
  have hsingle : ∀ k ∈ keywords, SingleWord k := fun k hk => (hkeywords k hk).toSingleWord
  induction h generalizing s before before' with
  | nil => rfl
  | @char c d cs ds hsame h ih =>
    rw [keywordsFrom_cons hsingle, keywordsFrom_cons hsingle, Recased.keywordAt_eq hkeywords hsame h hbefore,
      hsame.step_eq hs]
    exact congrArg _ (ih (s := s.step c) (hs.step c) hsame.sticky)
  | gap hks hls _ ih =>
    -- Inside quotes a gap ends what a backslash hides, however long it is.
    rw [keywordsFrom_gap hs hks, keywordsFrom_gap hs hls]
    exact ih hs.settle ((any_isSticky_gap hls _).trans (any_isSticky_gap hks _).symm)

/-- **The same keywords are found in both texts.** -/
theorem Recased.findKeywords (hkeywords : ∀ k ∈ keywords, PlainWord k) (h : Recased cs ds) :
    (findKeywords keywords ds).map Hit.keyword = (findKeywords keywords cs).map Hit.keyword :=
  h.keywordsFrom_eq hkeywords .outside rfl

/-! ## Lower case -/

/-- Some of the ascending ranges hold all codes from `first` to `last`. -/
def spans : List CodeRange → Nat → Nat → Bool
  | [], _, _ => false
  | (low, high) :: ranges, first, last =>
    Nat.ble low first && (Nat.ble last high || (Nat.blt high first && spans ranges first last))

theorem covers_of_spans {ranges : List CodeRange} {first last n : Nat} (h : spans ranges first last = true)
    (hfirst : first ≤ n) (hlast : n ≤ last) : covers ranges n = true := by
  induction ranges with
  | nil => cases h
  | cons r ranges ih =>
    obtain ⟨low, high⟩ := r
    simp only [spans, Bool.and_eq_true, Bool.or_eq_true, Nat.ble_eq, Nat.blt_eq] at h
    obtain ⟨hlow, hhigh⟩ := h
    rw [covers, if_neg (by omega)]
    rcases hhigh with hhigh | ⟨hbeyond, hrest⟩
    · rw [if_pos (by omega)]
    · rw [if_neg (by omega), ih hrest]

/-- The codes that a run moves. -/
def CaseRun.codes (r : CaseRun) : List Nat := List.range' r.first ((r.last - r.first) / r.step + 1) r.step

theorem CaseRun.mem_codes {r : CaseRun} {n : Nat} (h : r.moves n = true) : n ∈ r.codes := by
  obtain ⟨hfirst, hlast, hstep⟩ := of_moves h
  refine List.mem_range'.mpr ⟨(n - r.first) / r.step, ?_, ?_⟩
  · exact Nat.lt_succ_of_le (Nat.div_le_div_right (by omega))
  · rw [Nat.mul_div_cancel' (Nat.dvd_of_mod_eq_zero hstep)]
    omega

/-- The run moves letters beyond ASCII to such letters. -/
def CaseRun.movesLetters (r : CaseRun) : Bool :=
  Nat.ble 128 r.firstImage && spans alphabeticRanges r.firstImage r.lastImage &&
    (spans alphabeticRanges r.first r.last || r.codes.all (covers alphabeticRanges))

/-- The run of ASCII and the sign of the Kelvin apart, all runs do. -/
theorem lowerRuns_letters : ∀ r ∈ lowerRuns,
    r.last < 128 ∨ (r.first = 0x212a ∧ r.last = 0x212a) ∨ r.movesLetters = true := by
  have hall : (lowerRuns.all fun r =>
      Nat.blt r.last 128 || (r.first == 0x212a && r.last == 0x212a || r.movesLetters)) = true := by decide +kernel
  simpa only [List.all_eq_true, Bool.or_eq_true, Bool.and_eq_true, Nat.blt_eq, beq_iff_eq] using hall

theorem toNat_ofNat_of_covers {n : Nat} (h : covers alphabeticRanges n = true) : (Char.ofNat n).toNat = n := by
  have hall : (alphabeticRanges.all fun r =>
      Nat.blt r.2 0xd800 || Nat.blt 0xdfff r.1 && Nat.blt r.2 0x110000) = true := by decide +kernel
  obtain ⟨r, hr, hlow, hhigh⟩ := exists_mem_of_covers h
  have hvalid := List.all_eq_true.mp hall r hr
  simp only [Bool.or_eq_true, Bool.and_eq_true, Nat.blt_eq] at hvalid
  rw [toNat_ofNat, if_pos]
  rw [Nat.isValidChar]
  omega

/-- Letters beyond ASCII read the same. -/
theorem sameSense_of_letters (hc : isAlphabetic c = true) (hd : isAlphabetic d = true) (hc' : isAscii c = false)
    (hd' : isAscii d = false) : SameSense c d := by
  have hword {e : Char} (he : isAlphabetic e = true) : isIdentifierChar e = true := by
    rw [isIdentifierChar, isAlphanumeric, he]
    rfl
  have hdull {e : Char} (he : isAscii e = false) : isMark e = false := by
    have hmarks : (marks.all isAscii) = true := by decide
    rw [Bool.eq_false_iff]
    intro hmark
    rw [List.all_eq_true.mp hmarks e (mem_marks.mpr hmark)] at he
    cases he
  have hno {e : Char} (he : isAscii e = false) (w : Char) (hw : w.isAlpha = true) : sameIgnoringCase w e = false := by
    rw [Bool.eq_false_iff]
    intro hsame
    have halpha := isAlpha_of_sameIgnoringCase hw hsame
    rw [isAscii_of_isAlphanum (isAlphanum_of_isAlpha halpha)] at he
    cases he
  refine ⟨fun hmark => ?_, ?_, ?_, fun w hw _ => ?_⟩
  · rw [hdull hc', hdull hd'] at hmark
    simp at hmark
  · rw [hword hc, hword hd]
  · rw [isSticky, isSticky, hword hc, hword hd]
    rfl
  · rw [hno hc' w hw, hno hd' w hw]

/-- A letter of ASCII reads the same in lower case. -/
theorem sameSense_asciiLower (c : Char) : SameSense c (asciiLower c) where
  mark hmark := by
    rw [isMark_asciiLower, or_self] at hmark
    exact (asciiLower_of_isMark hmark).symm
  identifier := eq_of_asciiLower (by decide +kernel) c
  sticky := eq_of_asciiLower (by decide +kernel) c
  letter w _ _ := sameIgnoringCase_asciiLower w c

/-- The sign of the Kelvin reads the same in lower case but for keywords with a `k`. -/
theorem sameSense_kelvin : SameSense '\u212a' 'k' where
  mark := by decide
  identifier := by decide +kernel
  sticky := by decide +kernel
  letter w hw hplain := by
    have hno : sameIgnoringCase w '\u212a' = false := by
      rw [Bool.eq_false_iff]
      intro hsame
      exact absurd (isAlpha_of_sameIgnoringCase hw hsame) (by decide)
    have hno' : sameIgnoringCase w 'k' = false := beq_false_of_ne hplain
    rw [hno, hno']

theorem isAscii_ofNat {n : Nat} (hn : 128 ≤ n) (h : covers alphabeticRanges n = true) :
    isAscii (Char.ofNat n) = false := by
  rw [isAscii, toNat_ofNat_of_covers h]
  exact decide_eq_false (Nat.not_lt.mpr hn)

/-- Beyond ASCII a character that a run moves is a letter, and so is its image. -/
theorem sameSense_of_moves {r : CaseRun} (hr : r.movesLetters = true) (hmoves : r.moves c.toNat = true)
    (hc : isAscii c = false) : SameSense c (Char.ofNat (c.toNat + r.offset).toNat) := by
  obtain ⟨hfirst, hlast, -⟩ := of_moves hmoves
  simp only [CaseRun.movesLetters, Bool.and_eq_true, Bool.or_eq_true, Nat.ble_eq, List.all_eq_true] at hr
  obtain ⟨⟨hlow, himages⟩, hcodes⟩ := hr
  have himage : covers alphabeticRanges (c.toNat + r.offset).toNat = true := by
    refine covers_of_spans himages ?_ ?_
    · rw [CaseRun.firstImage]
      omega
    · rw [CaseRun.lastImage]
      omega
  have hletter : isAlphabetic c = true := by
    rcases hcodes with hspan | hall
    · exact covers_of_spans hspan hfirst hlast
    · exact hall _ (CaseRun.mem_codes hmoves)
  refine sameSense_of_letters hletter ?_ hc (isAscii_ofNat ?_ himage)
  · rw [isAlphabetic, toNat_ofNat_of_covers himage, himage]
  · rw [CaseRun.firstImage] at hlow
    omega

/-- The lower case of any other character than `İ` is one that reads the same. -/
theorem exists_lowerChar (hdot : c ≠ 'İ') : ∃ d, lowerChar c = [d] ∧ SameSense c d := by
  by_cases hc : isAscii c = true
  · have hlower := of_isAscii (p := fun c => lowerChar c == [asciiLower c]) (by decide) hc
    exact ⟨_, eq_of_beq hlower, sameSense_asciiLower c⟩
  · rw [Bool.not_eq_true] at hc
    cases hshift : shift lowerRuns c.toNat with
    | none =>
      have hne : c.toNat ≠ 0x130 := by
        intro hcode
        rw [← Char.ofNat_toNat c, hcode] at hdot
        exact hdot rfl
      have hsame := lowerChar_of_shift hshift hne
      rw [Char.ofNat_toNat] at hsame
      exact ⟨c, hsame, .refl c⟩
    | some m =>
      obtain ⟨r, hr, hmoves, rfl⟩ := exists_of_shift hshift
      have hlower : lowerChar c = [Char.ofNat (c.toNat + r.offset).toNat] := by
        rw [lowerChar, mapCase, hshift]
      obtain ⟨hfirst, hlast, -⟩ := of_moves hmoves
      -- The run of ASCII is excluded, and of the others only one leads back to ASCII.
      rcases lowerRuns_letters r hr with hascii | ⟨hone, hone'⟩ | hletters
      · have hbeyond : ¬ c.toNat < 128 := of_decide_eq_false hc
        omega
      · have hcode : c.toNat = 0x212a := by omega
        obtain rfl : c = '\u212a' := by rw [← Char.ofNat_toNat c, hcode]
        exact ⟨'k', by decide, sameSense_kelvin⟩
      · exact ⟨_, hlower, sameSense_of_moves hletters hmoves hc⟩

/-- A text and its lower case are recased. -/
theorem recased_lowercase (hdot : 'İ' ∉ cs) : Recased cs (lowercase cs) := by
  suffices hall : ∀ before, Recased cs (lowercaseFrom before cs) from hall []
  induction cs with
  | nil => exact fun _ => .nil
  | cons c cs ih =>
    intro before
    obtain ⟨hc, hcs⟩ := not_or.mp (mt List.mem_cons.mpr hdot)
    by_cases hsigma : c = 'Σ'
    · subst hsigma
      rw [lowercaseFrom, if_pos rfl]
      refine .char ?_ (ih hcs _)
      split <;> exact sameSense_of_letters (by decide +kernel) (by decide +kernel) (by decide) (by decide)
    · obtain ⟨d, hlower, hsame⟩ := exists_lowerChar (Ne.symm hc)
      rw [lowercaseFrom, if_neg hsigma, hlower]
      exact .char hsame (ih hcs _)

/-! ## The comparison form -/

theorem recased_collapsedGap (h : Blank bs) : Recased bs (collapsedGap bs) := by
  cases bs with
  | nil => exact .nil
  | cons b bs =>
    have hall := Recased.gap ⟨List.cons_ne_nil b bs, h⟩ ⟨List.cons_ne_nil ' ' [], blank_collapsedGap [b]⟩ .nil
    rwa [List.append_nil] at hall

/-- A text and its words with a space between two of them are recased. -/
theorem recased_collapse (h : Inked cs) : Recased cs (collapse cs) := by
  refine collapse_induction (fun c _ => .refl [c]) (fun c bs ys hbs _ ih => ?_) h
  exact .char (.refl c) ((recased_collapsedGap hbs).append ih)

/-- Collapsing brings in spaces only. -/
theorem mem_of_mem_collapse (h : Inked cs) : ∀ d ∈ collapse cs, d = ' ' ∨ d ∈ cs := by
  refine collapse_induction (fun c _ d hd => .inr hd) (fun c bs ys _ _ ih d hd => ?_) h
  rcases List.mem_cons.mp hd with rfl | hd
  · exact .inr List.mem_cons_self
  · rcases List.mem_append.mp hd with hd | hd
    · rw [collapsedGap] at hd
      split at hd
      · cases hd
      · exact .inl (List.mem_singleton.mp hd)
    · exact (ih d hd).imp_right fun hmem => List.mem_cons_of_mem _ (List.mem_append_right _ hmem)

/-- **The same keywords are found in a text and in its comparison form.** -/
theorem map_keyword_normalizeFragment (hkeywords : ∀ k ∈ keywords, PlainWord k) (h : Inked cs) (hdot : 'İ' ∉ cs) :
    (findKeywords keywords (Name.normalizeFragment cs)).map Hit.keyword =
      (findKeywords keywords cs).map Hit.keyword := by
  have hdot' : 'İ' ∉ collapse cs := fun hmem => (mem_of_mem_collapse h _ hmem).elim (by decide) hdot
  rw [Name.normalizeFragment, (recased_lowercase hdot').findKeywords hkeywords,
    (recased_collapse h).findKeywords hkeywords]

end QueryScore.Text
