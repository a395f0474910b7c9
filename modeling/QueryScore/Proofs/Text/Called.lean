/-
# QueryScore.Proofs.Text.Called -- calls that are found in the pieces of a text

The search for calls of functions reads raw text, but a text can be cut for it: the calls of a text
are those that begin in its front, with the rest behind it, and those that begin in the rest
(`callsWithin_append`). Of what stands behind a piece only matters whether it opens a call, if no letter
continues the piece (`callsWithin_congr`), and nothing at all where the piece ends with a mark that is
no letter (`callsWithin_concat`). A plain word in front of such a rest is a call, or holds none
(`callsWithin_word`).
-/

import QueryScore.Proofs.Text.Respelled

namespace QueryScore.Text

variable {names : List String} {before : Option Char} {b c w : Char} {bs ws cs ds rest tail tail' : List Char}

/-! ## Names that can be called -/

/-- **`Callable names`** -- the names are lower-case words, and none has an `s` behind its first letter;
so no other character than a letter of ASCII continues one that has begun. -/
def Callable (names : List String) : Prop :=
  ∀ name ∈ names, IsWord name.toList ∧ name.toList.map asciiLower = name.toList ∧ 's' ∉ name.toList.tail

instance (names : List String) : Decidable (Callable names) :=
  inferInstanceAs (Decidable (∀ name ∈ names, _ ∧ _ ∧ _))

theorem Callable.isWord (h : Callable names) : ∀ name ∈ names, IsWord name.toList := fun name hname =>
  (h name hname).1

/-- No letter of ASCII begins the text. -/
def Halts (cs : List Char) : Prop := ∀ c ∈ cs.head?, c.isAlpha = false

theorem Halts.nil : Halts [] := fun _ hc => nomatch hc

theorem Halts.cons (h : c.isAlpha = false) (cs : List Char) : Halts (c :: cs) := fun d hd => by
  obtain rfl := Option.some.inj hd
  exact h

theorem isAlpha_of_foldsTo (hw : w.isAlpha = true) (h : foldsTo w c = true) : c.isAlpha = true ∨ w = 's' := by
  rw [foldsTo, Bool.or_eq_true, Bool.and_eq_true, beq_iff_eq, beq_iff_eq] at h
  rcases h with rfl | ⟨rfl, -⟩
  · exact .inl (by rwa [isAlpha_asciiLower] at hw)
  · exact .inr rfl

/-- In ASCII a letter has no other form than its two cases. -/
theorem foldsTo_of_isAscii (h : isAscii c = true) : foldsTo w c = (asciiLower c == w) := by
  have hlong : (c == 'ſ') = false := by
    rw [beq_eq_false_iff_ne]
    rintro rfl
    exact absurd h (by decide)
  rw [foldsTo, hlong, Bool.and_false, Bool.or_false]

theorem not_foldsTo_of_isAscii (hw : w.isAlpha = true) (hascii : isAscii c = true) (hc : c.isAlpha = false) :
    foldsTo w c = false := by
  rw [foldsTo_of_isAscii hascii, beq_eq_false_iff_ne]
  rintro rfl
  rw [isAlpha_asciiLower, hc] at hw
  cases hw

/-! ## Names at the end of a piece -/

theorem stripFolded_append_of_stop (hstop : ∀ c ∈ tail.head?, ∀ w ∈ ws, foldsTo w c = false) :
    stripFolded ws (cs ++ tail) = (stripFolded ws cs).map (· ++ tail) := by
  induction ws generalizing cs with
  | nil => rfl
  | cons w ws ih =>
    cases cs with
    | nil =>
      cases tail with
      | nil => rfl
      | cons c tail =>
        show (if foldsTo w c then _ else none) = none
        rw [hstop c rfl w (by simp)]
        rfl
    | cons c cs =>
      rw [List.cons_append, stripFolded, stripFolded]
      split
      · exact ih fun d hd v hv => hstop d hd v (by simp [hv])
      · rfl

/-- What halts continues no name that has begun before it. -/
theorem stripFolded_append_of_halts {name : String} (hnames : Callable names) (hname : name ∈ names)
    (htail : Halts tail) (c : Char) (cs : List Char) :
    stripFolded name.toList (c :: (cs ++ tail)) = (stripFolded name.toList (c :: cs)).map (· ++ tail) := by
  obtain ⟨hword, -, hno⟩ := hnames name hname
  obtain ⟨w, ws, hsplit⟩ := List.exists_cons_of_ne_nil hword.ne_nil
  rw [hsplit, List.tail_cons] at hno
  have hstop : ∀ d ∈ tail.head?, ∀ v ∈ ws, foldsTo v d = false := by
    intro d hd v hv
    rw [Bool.eq_false_iff]
    intro hfold
    have halpha : v.isAlpha = true := hword.alpha v (by rw [hsplit]; simp [hv])
    rcases isAlpha_of_foldsTo halpha hfold with hd' | rfl
    · rw [htail d hd] at hd'
      cases hd'
    · exact hno hv
  rw [hsplit, stripFolded, stripFolded]
  split
  · exact stripFolded_append_of_stop hstop
  · rfl

theorem opensCall_blank (hbs : Blank bs) (cs : List Char) : opensCall (bs ++ cs) = opensCall cs := by
  rw [opensCall, opensCall, trimStart_blank hbs]

theorem opensCall_of_ink (h : isBlank c = false) (cs : List Char) : opensCall (c :: cs) = (c == '(') := by
  rw [opensCall, trimStart_of_head fun d hd => by obtain rfl := Option.some.inj hd; exact h]
  rfl

theorem opensCall_append (h : opensCall tail' = opensCall tail) (cs : List Char) :
    opensCall (cs ++ tail') = opensCall (cs ++ tail) := by
  induction cs with
  | nil => exact h
  | cons c cs ih =>
    cases hc : isBlank c with
    | true =>
      have hblank : Blank [c] := by simpa [Blank] using hc
      exact (opensCall_blank hblank _).trans (ih.trans (opensCall_blank hblank _).symm)
    | false => rw [List.cons_append, List.cons_append, opensCall_of_ink hc, opensCall_of_ink hc]

theorem length_le_of_stripFolded (h : stripFolded ws cs = some rest) : rest.length ≤ cs.length := by
  induction ws generalizing cs with
  | nil =>
    obtain rfl := Option.some.inj h
    exact Nat.le_refl _
  | cons w ws ih =>
    cases cs with
    | nil => cases h
    | cons c cs =>
      rw [stripFolded] at h
      split at h
      · exact Nat.le_succ_of_le (ih h)
      · cases h

/-- The name of a call at the front of a piece, if only blanks and `tail` follow the piece. -/
theorem callAt_append (hnames : Callable names) (htail : Halts tail) (c : Char) (cs : List Char) :
    callAt names before (c :: (cs ++ tail)) =
      if isOpenSide before then
        names.findSome? fun name =>
          ((stripFolded name.toList (c :: cs)).filter fun rest => opensCall (rest ++ tail)).map fun rest =>
            (c :: cs).take ((c :: cs).length - rest.length)
      else none := by
  rw [callAt]
  split
  · refine findSome?_congr fun name hname => ?_
    rw [stripFolded_append_of_halts hnames hname htail]
    cases hstrip : stripFolded name.toList (c :: cs) with
    | none => rfl
    | some rest =>
      have hlength := length_le_of_stripFolded hstrip
      rw [Option.map_some, Option.filter_some, Option.filter_some]
      split
      · rw [Option.map_some, Option.map_some, ← List.cons_append, List.length_append, List.length_append,
          Nat.add_sub_add_right, List.take_append_of_le_length (Nat.sub_le _ _)]
      · rfl
  · rfl

theorem callAt_of_closed (h : isOpenSide before = false) (cs : List Char) :
    callAt names before cs = none := by
  rw [callAt, h]
  rfl

/-- No call begins with a character of ASCII that is no letter. -/
theorem callAt_of_not_isAlpha (hnames : ∀ name ∈ names, IsWord name.toList) (hascii : isAscii c = true)
    (hc : c.isAlpha = false) (cs : List Char) : callAt names before (c :: cs) = none := by
  rw [callAt]
  split
  · rw [List.findSome?_eq_none_iff]
    intro name hname
    obtain ⟨w, ws, hsplit⟩ := List.exists_cons_of_ne_nil (hnames name hname).ne_nil
    have hw : w.isAlpha = true := (hnames name hname).alpha w (by rw [hsplit]; simp)
    rw [hsplit, stripFolded, not_foldsTo_of_isAscii hw hascii hc]
    rfl
  · rfl

/-! ## The calls of a piece -/

/-- **`callsWithin names before cs tail`** -- the names of the calls that begin in `cs`, in a text that
follows `before` and goes on with `tail`. -/
def callsWithin (names : List String) (before : Option Char) : List Char → List Char → List (List Char)
  | [], _ => []
  | c :: cs, tail => (callAt names before (c :: (cs ++ tail))).toList ++ callsWithin names (some c) cs tail

theorem callsFrom_cons (c : Char) (cs : List Char) : callsFrom names before (c :: cs) =
    (callAt names before (c :: cs)).toList ++ callsFrom names (some c) cs := by
  rw [callsFrom]
  split
  · rename_i hcall
    rw [hcall]
    rfl
  · rename_i hcall
    rw [hcall]
    rfl

theorem callsFrom_eq_callsWithin (cs : List Char) :
    callsFrom names before cs = callsWithin names before cs [] := by
  induction cs generalizing before with
  | nil => rfl
  | cons c cs ih => rw [callsFrom_cons, ih, callsWithin, List.append_nil]

/-- **The calls of a text are found piece by piece.** -/
theorem callsWithin_append (cs ds tail : List Char) : callsWithin names before (cs ++ ds) tail =
    callsWithin names before cs (ds ++ tail) ++ callsWithin names (cs.getLast?.or before) ds tail := by
  induction cs generalizing before with
  | nil => rfl
  | cons c cs ih =>
    rw [List.cons_append, callsWithin, callsWithin, ih, List.append_assoc, List.append_assoc,
      getLast?_cons_or]

/-- **Of what stands behind a piece only matters whether it opens a call**, if it halts. -/
theorem callsWithin_congr (hnames : Callable names) (htail : Halts tail) (htail' : Halts tail')
    (h : opensCall tail' = opensCall tail) (cs : List Char) :
    callsWithin names before cs tail' = callsWithin names before cs tail := by
  induction cs generalizing before with
  | nil => rfl
  | cons c cs ih =>
    have hsame (rest : List Char) : opensCall (rest ++ tail') = opensCall (rest ++ tail) :=
      opensCall_append h rest
    rw [callsWithin, callsWithin, ih, callAt_append hnames htail, callAt_append hnames htail']
    simp only [hsame]

/-- Behind a last character that is no letter and no blank nothing matters. -/
theorem callsWithin_concat (hnames : Callable names) (hascii : isAscii c = true) (hc : c.isAlpha = false)
    (hink : isBlank c = false) (cs tail tail' : List Char) :
    callsWithin names before (cs ++ [c]) tail' = callsWithin names before (cs ++ [c]) tail := by
  induction cs generalizing before with
  | nil =>
    have hnone (tail : List Char) : callAt names before (c :: tail) = none :=
      callAt_of_not_isAlpha hnames.isWord hascii hc tail
    simp only [List.nil_append, callsWithin, hnone]
  | cons d cs ih =>
    have hopens (rest : List Char) : opensCall (rest ++ c :: tail') = opensCall (rest ++ c :: tail) :=
      opensCall_append (by rw [opensCall_of_ink hink, opensCall_of_ink hink]) rest
    rw [List.cons_append, callsWithin, callsWithin, ih, List.append_assoc, List.append_assoc,
      List.singleton_append, List.singleton_append, callAt_append hnames (.cons hc _),
      callAt_append hnames (.cons hc _)]
    simp only [hopens]

/-- Where a word may begin, or none does, what stands before a piece does not matter. -/
theorem callsWithin_before (hnames : ∀ name ∈ names, IsWord name.toList)
    (h : isOpenSide before = true ∨ ∀ c ∈ cs.head?, isAscii c = true ∧ c.isAlpha = false) (tail : List Char) :
    callsWithin names before cs tail = callsWithin names none cs tail := by
  cases cs with
  | nil => rfl
  | cons c cs =>
    rw [callsWithin, callsWithin]
    refine congrArg (Option.toList · ++ _) ?_
    rcases h with hopen | hhead
    · rw [callAt, callAt, hopen]
      rfl
    · obtain ⟨hascii, hc⟩ := hhead c rfl
      rw [callAt_of_not_isAlpha hnames hascii hc, callAt_of_not_isAlpha hnames hascii hc]

/-- A sign holds no call. -/
theorem callsWithin_sign (hnames : ∀ name ∈ names, IsWord name.toList)
    (h : ∀ c ∈ cs, isAscii c = true ∧ c.isAlpha = false) (tail : List Char) :
    callsWithin names before cs tail = [] := by
  induction cs generalizing before with
  | nil => rfl
  | cons c cs ih =>
    obtain ⟨hascii, hc⟩ := h c (by simp)
    rw [callsWithin, callAt_of_not_isAlpha hnames hascii hc, ih fun d hd => h d (by simp [hd])]
    rfl

theorem callsWithin_blank (hnames : ∀ name ∈ names, IsWord name.toList) (hcs : Blank cs) (tail : List Char) :
    callsWithin names before cs tail = [] := by
  induction cs generalizing before with
  | nil => rfl
  | cons c cs ih =>
    rw [callsWithin, callAt_of_isBlank hnames (hcs c (by simp)), ih fun d hd => hcs d (by simp [hd])]
    rfl

/-- Inside a word no call begins. -/
theorem callsWithin_closed (hbefore : isOpenSide before = false) (h : ∀ c ∈ cs, isWordCharacter c = true)
    (tail : List Char) : callsWithin names before cs tail = [] := by
  induction cs generalizing before with
  | nil => rfl
  | cons c cs ih =>
    have hclosed : isOpenSide (some c) = false := by simp [isOpenSide, h c (by simp)]
    rw [callsWithin, callAt_of_closed hbefore, ih hclosed fun d hd => h d (by simp [hd])]
    rfl

/-! ## Plain words -/

/-- **`Wordy cs`** -- characters of ASCII that stand in words, one at least. -/
structure Wordy (cs : List Char) : Prop where
  ne_nil : cs ≠ []
  ascii : ∀ c ∈ cs, isAscii c = true
  inner : ∀ c ∈ cs, isWordCharacter c = true

theorem stripFolded_eq_some (hascii : ∀ c ∈ cs, isAscii c = true) :
    stripFolded ws cs = some rest ↔ ∃ word, cs = word ++ rest ∧ word.map asciiLower = ws := by
  induction ws generalizing cs with
  | nil =>
    simp only [stripFolded, Option.some.injEq, List.map_eq_nil_iff]
    constructor
    · rintro rfl
      exact ⟨[], rfl, rfl⟩
    · rintro ⟨word, rfl, rfl⟩
      rfl
  | cons w ws ih =>
    cases cs with
    | nil =>
      simp only [stripFolded, reduceCtorEq, false_iff]
      rintro ⟨word, hsplit, hword⟩
      obtain ⟨rfl, -⟩ := List.append_eq_nil_iff.mp hsplit.symm
      cases hword
    | cons c cs =>
      have hmore : ∀ d ∈ cs, isAscii d = true := fun d hd => hascii d (by simp [hd])
      rw [stripFolded, foldsTo_of_isAscii (hascii c (by simp))]
      constructor
      · intro h
        split at h
        · rename_i hw
          obtain ⟨word, rfl, hword⟩ := (ih hmore).mp h
          exact ⟨c :: word, rfl, by rw [List.map_cons, eq_of_beq hw, hword]⟩
        · cases h
      · rintro ⟨word, hsplit, hword⟩
        cases word with
        | nil => cases hword
        | cons d word =>
          obtain ⟨rfl, rfl⟩ := List.cons.inj hsplit
          obtain ⟨hd, hword⟩ := List.cons.inj hword
          rw [if_pos (beq_iff_eq.mpr hd)]
          exact (ih hmore).mpr ⟨word, rfl, hword⟩

theorem not_isBlank_of_isWordCharacter (h : isWordCharacter c = true) : isBlank c = false := by
  rw [Bool.eq_false_iff]
  intro hblank
  rw [not_isWordCharacter_of_isBlank hblank] at h
  cases h

/-- Inside a word no call opens. -/
theorem opensCall_of_isWordCharacter (h : isWordCharacter c = true) (cs : List Char) :
    opensCall (c :: cs) = false := by
  rw [opensCall_of_ink (not_isBlank_of_isWordCharacter h), beq_eq_false_iff_ne]
  rintro rfl
  exact absurd h (by decide +kernel)

/-- **A plain word is a call, or holds none**: it has to be one of the names as a whole, with an open side
before it and an opening parenthesis behind it. -/
theorem callsWithin_word (hnames : Callable names) (hcs : Wordy cs) (htail : Halts tail) :
    callsWithin names before cs tail =
      if isOpenSide before = true ∧ opensCall tail = true ∧ cs.map asciiLower ∈ names.map String.toList
      then [cs] else [] := by
  obtain ⟨c, cs, rfl⟩ := List.exists_cons_of_ne_nil hcs.ne_nil
  have hclosed : isOpenSide (some c) = false := by simp [isOpenSide, hcs.inner c (by simp)]
  have hinner : callsWithin names (some c) cs tail = [] :=
    callsWithin_closed hclosed (fun d hd => hcs.inner d (by simp [hd])) tail
  -- A name that leaves a part of the word is not followed by a parenthesis.
  have hwhole {name : String} {rest : List Char} (hstrip : stripFolded name.toList (c :: cs) = some rest)
      (hopens : opensCall (rest ++ tail) = true) : rest = [] := by
    obtain ⟨word, hsplit, -⟩ := (stripFolded_eq_some hcs.ascii).mp hstrip
    cases rest with
    | nil => rfl
    | cons d rest =>
      rw [List.cons_append, opensCall_of_isWordCharacter (hcs.inner d (by simp [hsplit]))] at hopens
      cases hopens
  -- So a name leads to a call only if it is the word.
  have hcall {name : String} {found : List Char} (hfound :
      ((stripFolded name.toList (c :: cs)).filter fun rest => opensCall (rest ++ tail)).map
        (fun rest => (c :: cs).take ((c :: cs).length - rest.length)) = some found) :
      found = c :: cs ∧ opensCall tail = true ∧ name.toList = (c :: cs).map asciiLower := by
    obtain ⟨rest, hrest, rfl⟩ := Option.map_eq_some_iff.mp hfound
    obtain ⟨hstrip, hopens⟩ := Option.filter_eq_some_iff.mp hrest
    obtain rfl := hwhole hstrip hopens
    obtain ⟨word, hsplit, hspell⟩ := (stripFolded_eq_some hcs.ascii).mp hstrip
    rw [List.append_nil] at hsplit
    exact ⟨by simp, hopens, by rw [hsplit, hspell]⟩
  rw [callsWithin, hinner, List.append_nil, callAt_append hnames htail]
  cases hopen : isOpenSide before with
  | false => simp
  | true =>
    rw [if_pos rfl]
    cases hfound : names.findSome? _ with
    | none =>
      rw [if_neg]
      · rfl
      rintro ⟨-, hopens, hmem⟩
      obtain ⟨name, hname, hspell⟩ := List.mem_map.mp hmem
      have hno := List.findSome?_eq_none_iff.mp hfound name hname
      have hstrip : stripFolded name.toList (c :: cs) = some [] :=
        (stripFolded_eq_some hcs.ascii).mpr ⟨c :: cs, (List.append_nil _).symm, hspell.symm⟩
      rw [hstrip, Option.filter_some, if_pos (by simpa using hopens)] at hno
      cases hno
    | some found =>
      obtain ⟨name, hname, hfound⟩ := List.exists_of_findSome?_eq_some hfound
      obtain ⟨rfl, hopens, hspell⟩ := hcall hfound
      rw [if_pos ⟨rfl, hopens, List.mem_map.mpr ⟨name, hname, hspell⟩⟩]
      rfl

end QueryScore.Text
