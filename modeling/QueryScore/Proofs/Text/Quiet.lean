/-
# QueryScore.Proofs.Text.Quiet -- stretches in which a search for keywords finds nothing

A search for keywords looks at one place after the other. A stretch is quiet if it finds nothing
at any place of the stretch; quiet stretches join (`quiet_append`), a search passes them
(`hitsFrom_of_quiet`), and a word is quiet unless it is one of the keywords
(`not_isHit_of_word`). What a search says of a whole text follows from what it says of the
stretches that make up the text.
-/

import QueryScore.Proofs.Text.Letter
import QueryScore.Proofs.Text.Shown
import QueryScore.Text.Keyword

namespace QueryScore.Text

/-! ## Places and stretches -/

/-- A keyword is found at the front of a text. -/
def isHit (keywords : List String) (s : Scanner) (before : Option Char) : List Char → Bool
  | [] => false
  | c :: cs => s.isTop c && isWordStart before c && (firstKeyword keywords (c :: cs)).isSome

/-- **`Quiet keywords s before cs after`** -- no keyword is found in `cs`, which `after` follows. -/
def Quiet (keywords : List String) (s : Scanner) (before : Option Char) :
    List Char → List Char → Prop
  | [], _ => True
  | c :: cs, after =>
    isHit keywords s before (c :: (cs ++ after)) = false ∧
      Quiet keywords (s.step c) (some c) cs after

variable {keywords : List String} {s : Scanner} {before : Option Char} {cs ds after : List Char}

theorem quiet_append : Quiet keywords s before (cs ++ ds) after ↔
    Quiet keywords s before cs (ds ++ after) ∧
      Quiet keywords (s.run cs) (cs.getLast?.or before) ds after := by
  induction cs generalizing s before with
  | nil => simp [Quiet, Scanner.run]
  | cons c cs ih =>
    rw [getLast?_cons_or]
    show _ ∧ Quiet _ _ _ (cs ++ ds) after ↔ (_ ∧ Quiet _ _ _ cs _) ∧ _
    rw [ih, and_assoc, show cs.append ds ++ after = cs ++ (ds ++ after) from
      List.append_assoc cs ds after]
    rfl

/-- A search passes a quiet stretch. -/
theorem hitsFrom_of_quiet (h : Quiet keywords s before cs ds) (index resume : Nat) :
    hitsFrom keywords s before index resume (cs ++ ds) =
      hitsFrom keywords (s.run cs) (cs.getLast?.or before) (index + cs.length) resume ds := by
  induction cs generalizing s before index with
  | nil => rfl
  | cons c cs ih =>
    obtain ⟨hc, h⟩ := h
    have hnone : firstKeyword keywords (c :: (cs ++ ds)) = none ∨
        ¬ (s.isTop c && resume ≤ index && isWordStart before c) = true := by
      by_cases hstart : (s.isTop c && isWordStart before c) = true
      · refine .inl ?_
        rw [isHit, hstart, Bool.true_and] at hc
        simpa using hc
      · refine .inr fun hall => hstart ?_
        simp only [Bool.and_eq_true] at hall ⊢
        exact ⟨hall.1.1, hall.2⟩
    have hstep : hitsFrom keywords s before index resume (c :: (cs ++ ds)) =
        hitsFrom keywords (s.step c) (some c) (index + 1) resume (cs ++ ds) := by
      rw [hitsFrom]
      rcases hnone with hnone | hnone
      · rw [hnone]
        split <;> rfl
      · rw [if_neg hnone]
    rw [List.cons_append, hstep, ih h, getLast?_cons_or, List.length_cons]
    congr 1
    omega

theorem findKeywords_of_quiet (h : Quiet keywords {} none cs []) : findKeywords keywords cs = [] := by
  have hits := hitsFrom_of_quiet h 0 0
  rw [List.append_nil] at hits
  rw [findKeywords, hits]
  rfl

/-- Behind a quiet stretch, the first keyword is the one that is found there. -/
theorem findKeyword_of_quiet (hquiet : Quiet keywords {} none cs ds)
    (hhit : isHit keywords (Scanner.run {} cs) cs.getLast? ds = true) :
    ∃ keyword size, firstKeyword keywords ds = some (keyword, size) ∧
      findKeyword keywords (cs ++ ds) = some ⟨cs.length, cs.length + size, keyword⟩ := by
  cases ds with
  | nil => cases hhit
  | cons d ds =>
    simp only [isHit, Bool.and_eq_true] at hhit
    obtain ⟨⟨htop, hstart⟩, hfound⟩ := hhit
    obtain ⟨⟨keyword, size⟩, hfound⟩ := Option.isSome_iff_exists.mp hfound
    refine ⟨keyword, size, hfound, ?_⟩
    rw [findKeyword, findKeywords, hitsFrom_of_quiet hquiet, Option.or_none, hitsFrom,
      if_pos (by simp [htop, hstart]), hfound, Nat.zero_add]
    rfl

/-- **`isSticky b`** -- behind this character no word begins. -/
def isSticky (b : Char) : Bool := isIdentifierChar b || b == '.' || b == '$'

theorem not_isWordStart_of_isSticky {b c : Char} (h : isSticky b = true) :
    isWordStart (some b) c = false := by
  have hb : (isIdentifierChar b || b == '.' || b == '$') = true := h
  simp only [isWordStart, Option.any_some, hb]
  simp

/-- What stands before a stretch does not matter where no word can begin. -/
theorem Quiet.of_head {other : Option Char} (h : Quiet keywords s before cs after)
    (hhead : ∀ c ∈ cs.head?, c.isAlpha = false) : Quiet keywords s other cs after := by
  cases cs with
  | nil => trivial
  | cons c cs =>
    refine ⟨?_, h.2⟩
    have hc := hhead c rfl
    simp [isHit, isWordStart, hc]

/-! ## Stretches without word starts -/

/-- **`Startless m before cs`** -- from mode `m` on, no word begins outside quotes. -/
def Startless (m : Mode) (before : Option Char) : List Char → Prop
  | [] => True
  | c :: cs => (m.shows c = true → isWordStart before c = false) ∧ Startless (m.step c) (some c) cs

theorem startless_append {m : Mode} : Startless m before (cs ++ ds) ↔
    Startless m before cs ∧ Startless (modeAfter m cs) (cs.getLast?.or before) ds := by
  induction cs generalizing m before with
  | nil => simp [Startless, modeAfter]
  | cons c cs ih =>
    rw [getLast?_cons_or]
    show _ ∧ Startless _ _ (cs ++ ds) ↔ (_ ∧ Startless _ _ cs) ∧ _
    rw [ih, and_assoc]
    rfl

theorem Startless.quiet {m : Mode} (h : Startless m before cs) (depth : Nat) :
    Quiet keywords ⟨m, depth⟩ before cs after := by
  induction cs generalizing m before depth with
  | nil => trivial
  | cons c cs ih =>
    refine ⟨?_, ih h.2 _⟩
    by_cases hshows : m.shows c = true
    · simp [isHit, h.1 hshows]
    · simp [isHit, Scanner.isTop, hshows]

/-- A stretch whose characters are no letters holds no word. -/
theorem startless_of_not_isAlpha {m : Mode} (h : ∀ c ∈ cs, c.isAlpha = false) :
    Startless m before cs := by
  induction cs generalizing m before with
  | nil => trivial
  | cons c cs ih =>
    exact ⟨fun _ => by simp [isWordStart, h c (by simp)], ih fun d hd => h d (by simp [hd])⟩

/-- A stretch of characters of identifiers, behind such a character, holds no beginning of a
word. -/
theorem startless_of_isIdentifierChar {m : Mode} {b : Char} (hb : isIdentifierChar b = true)
    (h : ∀ c ∈ cs, isIdentifierChar c = true) : Startless m (some b) cs := by
  induction cs generalizing m b with
  | nil => trivial
  | cons c cs ih =>
    exact ⟨fun _ => by simp [isWordStart, hb], ih (h c (by simp)) fun d hd => h d (by simp [hd])⟩

/-! ## Words -/

/-- The first word of a keyword. -/
def leadWord (keyword : String) : List Char := (words keyword.toList).headD []

/-- Where a keyword is stripped, its first word stands, and behind it another word or the end of
one. -/
theorem exists_of_stripKeyword {keyword : String} {rest : List Char} (hne : leadWord keyword ≠ [])
    (h : stripKeyword keyword.toList cs = some rest) :
    ∃ word tail, cs = word ++ tail ∧ word.map asciiLower = (leadWord keyword).map asciiLower ∧
      (startsInsideWord tail = false ∨ ∃ c ∈ tail.head?, isBlank c = true) := by
  obtain ⟨hafter, hend⟩ := Option.filter_eq_some_iff.mp h
  rw [leadWord] at hne ⊢
  split at hafter
  · rename_i hwords
    rw [hwords] at hne
    exact absurd rfl hne
  · rename_i w ws hwords
    rw [hwords, List.headD_cons]
    obtain ⟨tail, htail, hrest⟩ := Option.bind_eq_some_iff.mp hafter
    obtain ⟨word, hsplit, hword⟩ := stripWord_eq_some.mp htail
    refine ⟨word, tail, hsplit, hword, ?_⟩
    cases ws with
    | nil =>
      obtain rfl := Option.some.inj hrest
      exact .inl (by simpa using hend)
    | cons v vs =>
      cases tail with
      | nil => cases hrest
      | cons c tail =>
        simp only [stripSpacedWords] at hrest
        split at hrest
        · rename_i hc
          exact .inr ⟨c, rfl, hc⟩
        · cases hrest

/-- Letters that end where a word does are the whole word that stands there. -/
theorem eq_of_wholeWord {letters tail : List Char} (hsplit : cs ++ after = letters ++ tail)
    (hcs : ∀ c ∈ cs, isIdentifierChar c = true ∧ isBlank c = false)
    (hafter : ∀ c ∈ after.head?, c.isAlpha = false)
    (hletters : ∀ c ∈ letters, c.isAlpha = true)
    (hend : startsInsideWord tail = false ∨ ∃ c ∈ tail.head?, isBlank c = true) :
    letters = cs := by
  rcases List.append_eq_append_iff.mp hsplit with ⟨more, rfl, htail⟩ | ⟨more, rfl, htail⟩
  · cases more with
    | nil => simp
    | cons d more =>
      have hd := hletters d (by simp)
      rw [htail] at hafter
      rw [hafter d rfl] at hd
      cases hd
  · cases more with
    | nil => simp
    | cons d more =>
      obtain ⟨hident, hblank⟩ := hcs d (by simp)
      rw [htail] at hend
      rcases hend with hend | ⟨c, hc, hend⟩
      · rw [List.cons_append, startsInsideWord, hident] at hend
        cases hend
      · obtain rfl := Option.some.inj hc
        rw [hblank] at hend
        cases hend

/-- A word that begins none of the keywords is no hit. -/
theorem not_isHit_of_word (hcs : ∀ c ∈ cs, isIdentifierChar c = true ∧ isBlank c = false)
    (hafter : ∀ c ∈ after.head?, c.isAlpha = false)
    (hkeywords : ∀ keyword ∈ keywords, leadWord keyword ≠ [] ∧
      (∀ c ∈ leadWord keyword, c.isAlpha = true) ∧
        cs.map asciiLower ≠ (leadWord keyword).map asciiLower) :
    isHit keywords s before (cs ++ after) = false := by
  cases hall : cs ++ after with
  | nil => rfl
  | cons c rest =>
    rw [isHit]
    suffices hnone : firstKeyword keywords (c :: rest) = none by simp [hnone]
    rw [← hall, firstKeyword, List.findSome?_eq_none_iff]
    intro keyword hmem
    obtain ⟨hne, halpha, hdiff⟩ := hkeywords keyword hmem
    rw [Option.map_eq_none_iff]
    cases hstrip : stripKeyword keyword.toList (cs ++ after) with
    | none => rfl
    | some rest =>
      obtain ⟨word, tail, hsplit, hword, hend⟩ := exists_of_stripKeyword hne hstrip
      obtain rfl := eq_of_wholeWord hsplit hcs hafter (isAlpha_of_mem hword halpha) hend
      exact absurd hword hdiff

end QueryScore.Text
