/-
# QueryScore.Proofs.Text.Wrapped -- the parentheses that wrap a text, and the text without them

Two parentheses at the ends of a text wrap it if they are a pair among the parentheses outside quotes
(`Wraps`): up to the last one the first one stays open, and the last one closes it. The scan that looks
for the end of the first group finds just these (`unwrap?_eq_some_iff`). So what is left of a text is the
text without some layers, each a pair that wraps and the blanks around it (`Layered`), and no pair wraps
it; no other text is left of it (`stripWrappingParens_eq_iff`). A pair takes two characters, which bounds
the rounds, and the text between them is cut out of the bytes of whole characters (`Sliced`).
-/

import QueryScore.Proofs.Text.Occurrence
import QueryScore.Proofs.Text.Pairing
import QueryScore.Proofs.Text.Trim

namespace QueryScore.Text

variable {m : Mode} {depth k : Nat} {c : Char} {cs r text inner : List Char}

/-! ## What a scan sees -/

/-- **`seen m cs`** -- the characters of a text that stand outside quotes, from mode `m` on. -/
def seen (m : Mode) : List Char → List Char
  | [] => []
  | c :: cs => if m.shows c then c :: seen (m.step c) cs else seen (m.step c) cs

theorem seen_append (m : Mode) (cs ds : List Char) :
    seen m (cs ++ ds) = seen m cs ++ seen (modeAfter m cs) ds := by
  induction cs generalizing m with
  | nil => rfl
  | cons c cs ih =>
    rw [List.cons_append, seen, seen, ih]
    show _ = _ ++ seen (modeAfter (m.step c) cs) ds
    split
    · rfl
    · rfl

theorem count_seen_cons (m : Mode) (c d : Char) (cs : List Char) :
    (seen m (c :: cs)).count d = (seen (m.step c) cs).count d + if m.shows c && c == d then 1 else 0 := by
  rw [seen]
  by_cases hshows : m.shows c = true
  · rw [if_pos hshows, List.count_cons, hshows, Bool.true_and]
  · rw [if_neg hshows, Bool.eq_false_iff.mpr hshows]
    rfl

/-! ## Parentheses in pairs, by counts -/

/-- **`Matched m depth cs`** -- from mode `m` on, with `depth` parentheses open, no prefix of a text closes
more parentheses than are open, and at its end none is open, nor a quote. -/
structure Matched (m : Mode) (depth : Nat) (cs : List Char) : Prop where
  unquoted : modeAfter m cs = .outside
  sane : ∀ front, front <+: cs → (seen m front).count ')' ≤ (seen m front).count '(' + depth
  settled : (seen m cs).count ')' = (seen m cs).count '(' + depth

theorem matched_nil : Matched m depth [] ↔ m = .outside ∧ depth = 0 := by
  constructor
  · intro h
    have hsettled := h.settled
    simp only [seen, List.count_nil] at hsettled
    exact ⟨h.unquoted, by omega⟩
  · rintro ⟨rfl, rfl⟩
    refine ⟨rfl, fun front hfront => ?_, rfl⟩
    rw [List.prefix_nil.mp hfront]
    exact Nat.le_refl _

/-- What the first character closes was open before it, and the rest is matched behind it. -/
theorem matched_cons {opened closed : Nat}
    (hopened : (if m.shows c && c == '(' then 1 else 0) = opened)
    (hclosed : (if m.shows c && c == ')' then 1 else 0) = closed) :
    Matched m depth (c :: cs) ↔
      closed ≤ depth + opened ∧ Matched (m.step c) (depth + opened - closed) cs := by
  constructor
  · intro h
    have hfirst := h.sane [c] (by simp)
    rw [count_seen_cons, count_seen_cons, hopened, hclosed] at hfirst
    simp only [seen, List.count_nil] at hfirst
    refine ⟨by omega, h.unquoted, fun front hfront => ?_, ?_⟩
    · have hsane := h.sane (c :: front) (by simpa using hfront)
      rw [count_seen_cons, count_seen_cons, hopened, hclosed] at hsane
      omega
    · have hsettled := h.settled
      rw [count_seen_cons, count_seen_cons, hopened, hclosed] at hsettled
      omega
  · rintro ⟨hfirst, h⟩
    refine ⟨h.unquoted, fun front hfront => ?_, ?_⟩
    · rcases List.prefix_cons_iff.mp hfront with rfl | ⟨front, rfl, hlater⟩
      · exact Nat.zero_le _
      · have hsane := h.sane front hlater
        rw [count_seen_cons, count_seen_cons, hopened, hclosed]
        omega
    · have hsettled := h.settled
      rw [count_seen_cons, count_seen_cons, hopened, hclosed]
      omega

/-- The pairing of parentheses, as counts over prefixes. -/
theorem pairsUp_iff_matched : pairsUp isOpeningParen isClosingParen m depth cs = true ↔ Matched m depth cs := by
  induction cs generalizing m depth with
  | nil => simp [pairsUp, matched_nil]
  | cons c cs ih =>
    rw [matched_cons rfl rfl, pairsUp, isOpeningParen, isClosingParen]
    by_cases hopen : (m.shows c && c == '(') = true
    · have hclose : ¬ (m.shows c && c == ')') = true := by
        simp only [Bool.and_eq_true, beq_iff_eq] at hopen
        simp [hopen.2]
      rw [if_pos hopen, if_pos hopen, if_neg hclose, ih]
      simp
    · rw [if_neg hopen, if_neg hopen]
      by_cases hclose : (m.shows c && c == ')') = true
      · rw [if_pos hclose, if_pos hclose, Bool.and_eq_true, ih, bne_iff_ne, Nat.add_zero, Nat.one_le_iff_ne_zero]
      · rw [if_neg hclose, if_neg hclose, ih]
        simp

/-! ## Pairs that wrap a text -/

/-- **`Wraps inner`** -- the parentheses at the ends of `'(' :: (inner ++ [')'])` stand outside quotes and
are a pair: the first one is open at every place before the last one, and behind that no parenthesis is. -/
structure Wraps (inner : List Char) : Prop where
  unquoted : modeAfter .outside ('(' :: inner) = .outside
  opens : ∀ front, front <+: inner →
    (seen .outside ('(' :: front)).count ')' < (seen .outside ('(' :: front)).count '('
  closes : (seen .outside ('(' :: (inner ++ [')']))).count ')' =
    (seen .outside ('(' :: (inner ++ [')']))).count '('

theorem wraps_iff_matched : Wraps inner ↔ Matched .outside 0 inner := by
  have hopens (front : List Char) : (seen .outside ('(' :: front)).count ')' <
      (seen .outside ('(' :: front)).count '(' ↔
        (seen .outside front).count ')' ≤ (seen .outside front).count '(' + 0 := by
    rw [count_seen_cons, count_seen_cons]
    exact Nat.lt_succ_iff
  have hcloses (hunquoted : modeAfter .outside inner = .outside) :
      (seen .outside ('(' :: (inner ++ [')']))).count ')' =
          (seen .outside ('(' :: (inner ++ [')']))).count '(' ↔
        (seen .outside inner).count ')' = (seen .outside inner).count '(' + 0 := by
    rw [count_seen_cons, count_seen_cons]
    show (seen .outside (inner ++ [')'])).count ')' + 0 = (seen .outside (inner ++ [')'])).count '(' + 1 ↔ _
    rw [seen_append, hunquoted, List.count_append, List.count_append]
    exact Nat.succ_inj
  constructor
  · intro h
    exact ⟨h.unquoted, fun front hfront => (hopens front).mp (h.opens front hfront),
      (hcloses h.unquoted).mp h.closes⟩
  · intro h
    exact ⟨h.unquoted, fun front hfront => (hopens front).mpr (h.sane front hfront),
      (hcloses h.unquoted).mpr h.settled⟩

/-- A group that closes at the end of a text is paired up to the last parenthesis. -/
theorem exists_of_closesAtEnd (h : closesAtEnd m (depth + 1) cs = true) :
    ∃ inner, cs = inner ++ [')'] ∧ pairsUp isOpeningParen isClosingParen m depth inner = true := by
  induction cs generalizing m depth with
  | nil => cases h
  | cons c cs ih =>
    rw [closesAtEnd] at h
    by_cases hclose : (m.shows c && c == ')') = true
    · rw [if_pos hclose] at h
      simp only [Bool.and_eq_true, beq_iff_eq] at hclose
      obtain ⟨hshows, rfl⟩ := hclose
      cases depth with
      | zero =>
        rw [if_pos (Nat.le_refl 1), List.isEmpty_iff] at h
        simp only [Mode.shows, Bool.and_eq_true, beq_iff_eq] at hshows
        exact ⟨[], by rw [h]; rfl, by rw [hshows.1]; rfl⟩
      | succ depth =>
        rw [if_neg (by omega)] at h
        obtain ⟨inner, rfl, hinner⟩ := ih h
        refine ⟨')' :: inner, rfl, ?_⟩
        rw [pairsUp, hshows]
        exact hinner
    · rw [if_neg hclose] at h
      by_cases hopen : (m.shows c && c == '(') = true
      · rw [if_pos hopen] at h
        obtain ⟨inner, rfl, hinner⟩ := ih h
        refine ⟨c :: inner, rfl, ?_⟩
        rw [pairsUp, isOpeningParen, if_pos hopen]
        exact hinner
      · rw [if_neg hopen] at h
        obtain ⟨inner, rfl, hinner⟩ := ih h
        refine ⟨c :: inner, rfl, ?_⟩
        rw [pairsUp, isOpeningParen, if_neg hopen, isClosingParen, if_neg hclose]
        exact hinner

/-- **The scan finds the parentheses that wrap a text**, and no others. -/
theorem unwrap?_eq_some_iff : unwrap? cs = some inner ↔ cs = '(' :: (inner ++ [')']) ∧ Wraps inner := by
  rw [wraps_iff_matched, ← pairsUp_iff_matched]
  constructor
  · intro h
    rw [unwrap?.eq_def] at h
    split at h
    · rename_i rest
      split at h
      · rename_i hcloses
        replace hcloses : closesAtEnd .outside (0 + 1) rest = true := hcloses
        obtain ⟨inner', rfl, hinner⟩ := exists_of_closesAtEnd hcloses
        rw [List.dropLast_concat, Option.some_inj] at h
        obtain rfl := h
        exact ⟨rfl, hinner⟩
      · cases h
    · cases h
  · rintro ⟨rfl, hinner⟩
    have hcloses : closesAtEnd .outside 1 (inner ++ [')']) = true :=
      (closesAtEnd_append hinner 0 [')']).trans rfl
    rw [unwrap?, if_pos hcloses, List.dropLast_concat]

theorem unwrap?_eq_none_iff : unwrap? cs = none ↔ ∀ inner, cs = '(' :: (inner ++ [')']) → ¬ Wraps inner := by
  rw [Option.eq_none_iff_forall_ne_some]
  constructor
  · intro h inner hcs hwraps
    exact h inner (unwrap?_eq_some_iff.mpr ⟨hcs, hwraps⟩)
  · intro h inner hunwrap
    obtain ⟨hcs, hwraps⟩ := unwrap?_eq_some_iff.mp hunwrap
    exact h inner hcs hwraps

/-- **`Sliced text inner`** -- the bytes of a text but the first and the last are whole characters, and
they spell `inner`. -/
structure Sliced (text inner : List Char) : Prop where
  starts : byteOffset text 1 = 1
  stops : byteOffset text (text.length - 1) = byteSize text - 1
  cut : Cut text 1 (text.length - 1)
  between : (text.take (text.length - 1)).drop 1 = inner

theorem sliced_of_unwrap? (h : unwrap? text = some inner) : Sliced text inner := by
  obtain ⟨rfl, -⟩ := unwrap?_eq_some_iff.mp h
  have hlength : ('(' :: (inner ++ [')'])).length - 1 = ('(' :: inner).length := by simp
  have htake : ('(' :: (inner ++ [')'])).take ('(' :: inner).length = '(' :: inner := by
    rw [← List.cons_append, List.take_left]
  refine ⟨rfl, ?_, ?_, ?_⟩
  · rw [hlength, ← List.cons_append, byteOffset_length, byteSize_append]
    rfl
  · refine cut_of_le ?_ (Nat.sub_le _ _)
    rw [hlength]
    exact Nat.succ_le_succ (Nat.zero_le _)
  · rw [hlength, htake]
    rfl

/-! ## Without the layers -/

/-- Parentheses are taken off once a pair wraps all of the text. -/
theorem stripWrappingParens_of_unwrap?_eq_some (h : unwrap? (trim cs) = some inner) :
    stripWrappingParens cs = stripWrappingParens inner := by
  rw [stripWrappingParens]
  split
  · rename_i hinner
    rw [h] at hinner
    rw [Option.some.inj hinner]
  · rename_i hno
    rw [h] at hno
    cases hno

/-- Where no pair does, only the blanks at the ends are taken off. -/
theorem stripWrappingParens_of_unwrap?_eq_none (h : unwrap? (trim cs) = none) : stripWrappingParens cs = trim cs := by
  rw [stripWrappingParens]
  split
  · rename_i hwrapped
    rw [h] at hwrapped
    cases hwrapped
  · rfl

theorem stripWrappingParens_trim (cs : List Char) :
    stripWrappingParens (trim cs) = stripWrappingParens cs := by
  rw [stripWrappingParens, stripWrappingParens, trim_trim]

/-- **`Layered k cs r`** -- the text `cs` is `r` inside `k` layers: pairs of parentheses, each with blanks
around what it wraps and around itself. -/
inductive Layered : Nat → List Char → List Char → Prop
  | bare {bs bs' r : List Char} (hbs : Blank bs) (hbs' : Blank bs') : Layered 0 (bs ++ (r ++ bs')) r
  | wrapped {k : Nat} {bs bs' inner r : List Char} (hbs : Blank bs) (hbs' : Blank bs') (hwraps : Wraps inner)
      (hinner : Layered k inner r) : Layered (k + 1) (bs ++ ('(' :: (inner ++ [')']) ++ bs')) r

/-- Each layer takes two characters. -/
theorem Layered.length_le (h : Layered k cs r) : 2 * k + r.length ≤ cs.length := by
  induction h with
  | bare hbs hbs' =>
    simp only [List.length_append]
    omega
  | wrapped hbs hbs' hwraps hinner ih =>
    simp only [List.length_append, List.length_cons, List.length_nil]
    omega

theorem trim_wrapped (inner : List Char) : trim ('(' :: (inner ++ [')'])) = '(' :: (inner ++ [')']) := by
  have hlast : ('(' :: (inner ++ [')'])).getLast? = some ')' := by
    rw [← List.cons_append, List.getLast?_concat]
  apply trim_of_ends
  · rintro c ⟨⟩
    rfl
  · rw [hlast]
    rintro c ⟨⟩
    rfl

/-- What layers hold is left as if it stood alone. -/
theorem Layered.stripWrappingParens_eq (h : Layered k cs r) : stripWrappingParens cs = stripWrappingParens r := by
  induction h with
  | bare hbs hbs' => rw [← stripWrappingParens_trim, trim_append hbs hbs', stripWrappingParens_trim]
  | wrapped hbs hbs' hwraps hinner ih =>
    rename_i bs bs' inner _
    have hunwrap : unwrap? ('(' :: (inner ++ [')'])) = some inner := unwrap?_eq_some_iff.mpr ⟨rfl, hwraps⟩
    have hwrapped : unwrap? (trim (bs ++ ('(' :: (inner ++ [')']) ++ bs'))) = some inner := by
      rw [trim_append hbs hbs', trim_wrapped, hunwrap]
    rw [stripWrappingParens_of_unwrap?_eq_some hwrapped, ih]

/-- Every round takes a layer off. -/
theorem exists_layered (cs : List Char) : ∃ k, Layered k cs (stripWrappingParens cs) := by
  induction cs using stripWrappingParens.induct with
  | case1 cs inner hwrapped ih =>
    obtain ⟨k, hinner⟩ := ih
    obtain ⟨bs, bs', hbs, hbs', hsplit⟩ := exists_trim cs
    obtain ⟨htrim, hwraps⟩ := unwrap?_eq_some_iff.mp hwrapped
    rw [htrim] at hsplit
    rw [stripWrappingParens_of_unwrap?_eq_some hwrapped, hsplit]
    exact ⟨k + 1, .wrapped hbs hbs' hwraps hinner⟩
  | case2 cs hbare =>
    obtain ⟨bs, bs', hbs, hbs', hsplit⟩ := exists_trim cs
    have hlayered : Layered 0 (bs ++ (trim cs ++ bs')) (trim cs) := .bare hbs hbs'
    rw [← hsplit] at hlayered
    rw [stripWrappingParens_of_unwrap?_eq_none hbare]
    exact ⟨0, hlayered⟩

/-- What is left of a text has no blanks at its ends, and nothing wraps it. -/
theorem unwrap?_stripWrappingParens (cs : List Char) :
    trim (stripWrappingParens cs) = stripWrappingParens cs ∧ unwrap? (stripWrappingParens cs) = none := by
  induction cs using stripWrappingParens.induct with
  | case1 cs inner hwrapped ih => rwa [stripWrappingParens_of_unwrap?_eq_some hwrapped]
  | case2 cs hbare =>
    rw [stripWrappingParens_of_unwrap?_eq_none hbare]
    exact ⟨trim_trim cs, hbare⟩

/-- **`Stripped cs r`** -- the text `r` is `cs` without some layers of parentheses that wrap it, and no pair
wraps `r`. -/
structure Stripped (cs r : List Char) : Prop where
  layers : ∃ k, 2 * k ≤ cs.length ∧ Layered k cs r
  trimmed : trim r = r
  bare : ∀ inner, r = '(' :: (inner ++ [')']) → ¬ Wraps inner

theorem stripWrappingParens_eq_iff : stripWrappingParens cs = r ↔ Stripped cs r := by
  constructor
  · rintro rfl
    obtain ⟨k, hlayered⟩ := exists_layered cs
    obtain ⟨htrim, hbare⟩ := unwrap?_stripWrappingParens cs
    have hlength := hlayered.length_le
    exact ⟨⟨k, by omega, hlayered⟩, htrim, unwrap?_eq_none_iff.mp hbare⟩
  · rintro ⟨⟨k, -, hlayered⟩, htrim, hbare⟩
    have hnone : unwrap? (trim r) = none := by rwa [htrim, unwrap?_eq_none_iff]
    rw [hlayered.stripWrappingParens_eq, stripWrappingParens_of_unwrap?_eq_none hnone, htrim]

/-- **What is left of a text is the text without the layers that wrap it**: it is the only such text,
nothing more is taken off it, and each round slices its text at whole characters. -/
theorem stripWrappingParens_stripped (cs : List Char) :
    (∀ r, stripWrappingParens cs = r ↔ Stripped cs r) ∧
      stripWrappingParens (stripWrappingParens cs) = stripWrappingParens cs ∧
      ∀ text inner, unwrap? text = some inner → Sliced text inner := by
  refine ⟨fun r => stripWrappingParens_eq_iff, ?_, fun text inner => sliced_of_unwrap?⟩
  obtain ⟨k, hlayered⟩ := exists_layered cs
  exact hlayered.stripWrappingParens_eq.symm

/-- A quoted parenthesis, an empty group and groups side by side inside two layers. -/
theorem stripWrappingParens_stripped_quoted :
    Stripped "( ( f(')') OR (a) () ) )".toList "f(')') OR (a) ()".toList ∧
      stripWrappingParens "f(')') OR (a) ()".toList = "f(')') OR (a) ()".toList ∧
      Sliced "(é)".toList "é".toList := by
  have hstrip : stripWrappingParens "( ( f(')') OR (a) () ) )".toList = "f(')') OR (a) ()".toList := by
    decide +kernel
  obtain ⟨hiff, hagain, hsliced⟩ := stripWrappingParens_stripped "( ( f(')') OR (a) () ) )".toList
  rw [hstrip] at hagain
  exact ⟨(hiff _).mp hstrip, hagain, hsliced _ _ (by decide +kernel)⟩

end QueryScore.Text
