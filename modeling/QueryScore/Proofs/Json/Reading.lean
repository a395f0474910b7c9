/-
# QueryScore.Proofs.Json.Reading -- what is written is read back

The compact and the indented layout write a value alike, up to blanks (`Layout`, `laid`). The reader
takes the text of a value to its document, which holds numbers as they are written (`Json.document`),
whatever stands behind it (`readValue_laid`, by induction on the value). Strings come back for all of
Unicode: an escape stands for its character, and no character is half of a surrogate pair.
-/

import QueryScore.Proofs.Json.Numeral
import Mathlib.Tactic.FinCases

namespace QueryScore.Json

/-! ## Strings -/

variable {cs rest : List Char}

theorem codeUnit_control : ∀ n : Fin 32,
    codeUnit? '0' '0' (hexDigit (n.val / 16)) (hexDigit (n.val % 16)) = some n.val := by
  decide

/-- An escape letter stands for its character; a character without one may stand for itself. -/
theorem escapeLetter_cases (c : Char) :
    (∃ letter, escapeLetter? c = some letter ∧ letter ≠ 'u' ∧ unescape? letter = some c) ∨
      escapeLetter? c = none ∧ c ≠ '"' ∧ c ≠ '\\' := by
  by_cases h : c ∈ ['"', '\\', '\x08', '\x0c', '\n', '\r', '\t']
  · left
    fin_cases h <;> exact ⟨_, rfl, by decide, by decide⟩
  · right
    simp only [List.mem_cons, List.not_mem_nil, or_false, not_or] at h
    refine ⟨List.lookup_eq_none_iff.mpr fun p hp => ?_, h.1, h.2.1⟩
    fin_cases hp <;> simp [h]

/-- An escaped character is read as its code point. -/
theorem readUnits_escapeChar (c : Char) :
    readUnits (escapeChar c ++ rest) = (readUnits rest).map fun (units, after) => (c.toNat :: units, after) := by
  rcases escapeLetter_cases c with ⟨letter, hletter, hne, hchar⟩ | ⟨hnone, hquote, hslash⟩
  · simp only [escapeChar, hletter, List.cons_append, List.nil_append]
    rw [readUnits]
    · rw [hchar]
      cases readUnits rest <;> rfl
    · simp_all
  · simp only [escapeChar, hnone]
    split
    · next hcontrol =>
      have hunit := codeUnit_control ⟨c.toNat, hcontrol⟩
      simp only [List.cons_append, List.nil_append, readUnits]
      rw [hunit]
      cases readUnits rest <;> rfl
    · next hplain =>
      have hrefused : (decide (c < ' ') || c == '\\') = false := by simp [hplain, hslash]
      rw [List.singleton_append, readUnits, hrefused]
      · cases readUnits rest <;> rfl
      all_goals simp_all

theorem readUnits_escaped (cs : List Char) :
    readUnits (cs.flatMap escapeChar ++ '"' :: rest) = some (cs.map Char.toNat, rest) := by
  induction cs with
  | nil => rfl
  | cons c cs ih => simp [readUnits_escapeChar, ih]

/-- No character is half of a surrogate pair. -/
theorem not_half (c : Char) : isHighHalf c.toNat = false ∧ isLowHalf c.toNat = false := by
  have hvalid : c.toNat < 0xd800 ∨ 0xdfff < c.toNat ∧ c.toNat < 0x110000 := c.valid
  simp only [isHighHalf, isLowHalf, Bool.and_eq_false_iff, decide_eq_false_iff_not]
  omega

theorem joinUnits_map (cs : List Char) : joinUnits (cs.map Char.toNat) = some cs := by
  induction cs with
  | nil => rfl
  | cons c cs ih =>
    obtain ⟨hhigh, hlow⟩ := not_half c
    cases cs with
    | nil => simp [joinUnits, hhigh, hlow]
    | cons d cs => simp_all [joinUnits]

/-- **A written string is read back.** -/
theorem readString_quoted (s : String) :
    readString (s.toList.flatMap escapeChar ++ '"' :: rest) = some (some s, rest) := by
  simp [readString, readUnits_escaped, joinUnits_map]

/-! ## Documents of values -/

/-- The numeral that a text begins with. -/
def numeralOf (cs : List Char) : Numeral := ((readNumeral cs).map Prod.fst).getD ⟨false, [], [], none⟩

theorem numeralOf_text {n : Numeral} (h : n.IsProper) : numeralOf n.text = n := by
  have hread : readNumeral (n.text ++ []) = some (n, []) := readNumeral_text h rfl
  rw [List.append_nil] at hread
  simp [numeralOf, hread]

mutual

/-- **`v.document`** -- the document of a value: numbers as they are written, members as they come. -/
def document : Json → Document
  | .null => .null
  | .bool b => .bool b
  | .int n => .number (numeralOf (intText n))
  | .float x => if isFinite x then .number (numeralOf (floatText x)) else .null
  | .str s => .string (some s)
  | .arr items => .array (documents items)
  | .obj members => .object (memberDocuments members)

/-- The documents of some values. -/
def documents : List Json → List Document
  | [] => []
  | item :: rest => document item :: documents rest

/-- The documents of some members. -/
def memberDocuments : List (String × Json) → List (Option String × Document)
  | [] => []
  | (key, value) :: rest => (some key, document value) :: memberDocuments rest

end

/-! ## Layouts -/

/-- Where a writer puts blanks: before an item at a nesting level, and before the value of a member. -/
structure Layout where
  /-- Before an item, or before the closing bracket. -/
  gap : Nat → List Char
  /-- Behind the colon of a member. -/
  colonGap : List Char
  gap_space : ∀ level, ∀ c ∈ gap level, isSpace c = true
  colonGap_space : ∀ c ∈ colonGap, isSpace c = true

/-- The compact layout. -/
def Layout.compact : Layout := ⟨fun _ => [], [], by simp, by simp⟩

/-- The indented layout. -/
def Layout.indented : Layout where
  gap := newLine
  colonGap := [' ']
  gap_space := by
    intro level c hc
    rcases List.mem_cons.mp hc with rfl | hc
    · rfl
    · rw [List.eq_of_mem_replicate hc]
      rfl
  colonGap_space := by simp [isSpace]

variable (l : Layout)

mutual

/-- **`laid l level v`** -- a value at a nesting level, written in a layout. -/
def laid (level : Nat) : Json → List Char
  | .null => "null".toList
  | .bool b => if b then "true".toList else "false".toList
  | .int n => intText n
  | .float x => floatText x
  | .str s => quoted s
  | .arr [] => "[]".toList
  | .arr (item :: rest) => '[' :: (laidItems (level + 1) (item :: rest) ++ (l.gap level ++ [']']))
  | .obj [] => ['\x7b', '\x7d']
  | .obj (member :: rest) =>
    '\x7b' :: (laidMembers (level + 1) (member :: rest) ++ (l.gap level ++ ['\x7d']))

/-- The items of an array, with commas between them. -/
def laidItems (level : Nat) : List Json → List Char
  | [] => []
  | [item] => l.gap level ++ laid level item
  | item :: next :: rest => l.gap level ++ (laid level item ++ ',' :: laidItems level (next :: rest))

/-- The members of an object, with commas between them. -/
def laidMembers (level : Nat) : List (String × Json) → List Char
  | [] => []
  | [(key, value)] => l.gap level ++ (quoted key ++ ':' :: (l.colonGap ++ laid level value))
  | (key, value) :: next :: rest =>
    l.gap level ++ (quoted key ++ ':' ::
      (l.colonGap ++ (laid level value ++ ',' :: laidMembers level (next :: rest))))

end

mutual

theorem compact_eq_laid (level : Nat) : ∀ v : Json, compact v = laid .compact level v
  | .null | .bool _ | .int _ | .float _ | .str _ | .arr [] | .obj [] => by simp [compact, laid, compactItems, compactMembers]
  | .arr (item :: rest) => by
    simp [compact, laid, compactItems_eq_laid (level + 1) (item :: rest), Layout.compact]
  | .obj (member :: rest) => by
    simp [compact, laid, compactMembers_eq_laid (level + 1) (member :: rest), Layout.compact]

theorem compactItems_eq_laid (level : Nat) : ∀ items : List Json,
    compactItems items = laidItems .compact level items
  | [] => rfl
  | [item] => by simp [compactItems, laidItems, compact_eq_laid level item, Layout.compact]
  | item :: next :: rest => by
    simp [compactItems, laidItems, compact_eq_laid level item, compactItems_eq_laid level (next :: rest),
      Layout.compact]

theorem compactMembers_eq_laid (level : Nat) : ∀ members : List (String × Json),
    compactMembers members = laidMembers .compact level members
  | [] => rfl
  | [(key, value)] => by simp [compactMembers, laidMembers, compact_eq_laid level value, Layout.compact]
  | (key, value) :: next :: rest => by
    simp [compactMembers, laidMembers, compact_eq_laid level value, compactMembers_eq_laid level (next :: rest),
      Layout.compact]

end

mutual

theorem indented_eq_laid : ∀ (v : Json) (level : Nat), indented level v = laid .indented level v
  | .null, _ | .bool _, _ | .int _, _ | .float _, _ | .str _, _ | .arr [], _ | .obj [], _ => by simp [indented, laid]
  | .arr (item :: rest), level => by
    simp [indented, laid, indentedItems_eq_laid (item :: rest) (level + 1), Layout.indented]
  | .obj (member :: rest), level => by
    simp [indented, laid, indentedMembers_eq_laid (member :: rest) (level + 1), Layout.indented]

theorem indentedItems_eq_laid : ∀ (items : List Json) (level : Nat),
    indentedItems level items = laidItems .indented level items
  | [], _ => rfl
  | [item], level => by simp [indentedItems, laidItems, indented_eq_laid item level, Layout.indented]
  | item :: next :: rest, level => by
    rw [indentedItems, indentedItems_eq_laid (next :: rest) level, indented_eq_laid item level]
    simp [laidItems, Layout.indented]

theorem indentedMembers_eq_laid : ∀ (members : List (String × Json)) (level : Nat),
    indentedMembers level members = laidMembers .indented level members
  | [], _ => rfl
  | [(key, value)], level => by simp [indentedMembers, laidMembers, indented_eq_laid value level, Layout.indented]
  | (key, value) :: next :: rest, level => by
    rw [indentedMembers, indentedMembers_eq_laid (next :: rest) level, indented_eq_laid value level]
    simp [laidMembers, Layout.indented]

end

/-! ## Reading a layout -/

theorem skipSpace_append {sp : List Char} (h : ∀ c ∈ sp, isSpace c = true) :
    skipSpace (sp ++ cs) = skipSpace cs := by
  induction sp with
  | nil => rfl
  | cons c sp ih =>
    have hc := h c (by simp)
    rw [List.cons_append, skipSpace, List.dropWhile_cons_of_pos hc]
    exact ih fun d hd => h d (by simp [hd])

theorem skipSpace_cons {c : Char} (h : isSpace c = false) : skipSpace (c :: cs) = c :: cs :=
  List.dropWhile_cons_of_neg (by simp [h])

theorem skipSpace_skipSpace : skipSpace (skipSpace cs) = skipSpace cs := by
  induction cs with
  | nil => rfl
  | cons c cs ih =>
    cases hc : isSpace c with
    | true => simpa [skipSpace, hc] using ih
    | false => rw [skipSpace_cons hc, skipSpace_cons hc]

theorem readValue_skipSpace (fuel : Nat) : readValue fuel (skipSpace cs) = readValue fuel cs := by
  cases fuel with
  | zero => rfl
  | succ fuel => rw [readValue, readValue, skipSpace_skipSpace]

theorem readItems_skipSpace (fuel : Nat) : readItems fuel (skipSpace cs) = readItems fuel cs := by
  cases fuel with
  | zero => rfl
  | succ fuel => rw [readItems, readItems, readValue_skipSpace]

theorem readMembers_skipSpace (fuel : Nat) : readMembers fuel (skipSpace cs) = readMembers fuel cs := by
  cases fuel with
  | zero => rfl
  | succ fuel => rw [readMembers, readMembers, skipSpace_skipSpace]

theorem endsNumeral_append {sp : List Char} (h : ∀ c ∈ sp, isSpace c = true) (hcs : endsNumeral cs = true) :
    endsNumeral (sp ++ cs) = true := by
  cases sp with
  | nil => exact hcs
  | cons c sp =>
    have hc := h c (by simp)
    simp only [isSpace, Bool.or_eq_true, beq_iff_eq] at hc
    rcases hc with ((rfl | rfl) | rfl) | rfl <;> rfl

/-- A number begins with a digit or a minus sign. -/
theorem head_text {n : Numeral} (h : n.IsProper) : ∃ c cs, n.text = c :: cs ∧ (c = '-' ∨ c.isDigit = true) := by
  obtain ⟨c, cs, hwhole, hc⟩ := h.whole.head
  rw [Numeral.text, hwhole]
  cases n.negative with
  | true => exact ⟨_, _, rfl, .inl rfl⟩
  | false => exact ⟨_, _, rfl, .inr hc⟩

theorem isSpace_of_numeral {c : Char} (h : c = '-' ∨ c.isDigit = true) : isSpace c = false := by
  cases hc : isSpace c with
  | false => rfl
  | true =>
    simp only [isSpace, Bool.or_eq_true, beq_iff_eq] at hc
    rcases hc with ((rfl | rfl) | rfl) | rfl <;> rcases h with h | h <;> cases h

/-- A number is read as the numeral that it is written from. -/
theorem readValue_text {n : Numeral} (h : n.IsProper) (hrest : endsNumeral rest = true) (fuel : Nat) :
    readValue (fuel + 1) (n.text ++ rest) = some (.number (numeralOf n.text), rest) := by
  have hread := readNumeral_text h hrest
  obtain ⟨c, cs, htext, hc⟩ := head_text h
  rw [numeralOf_text h]
  rw [htext, List.cons_append] at hread ⊢
  rw [readValue, skipSpace_cons (isSpace_of_numeral hc)]
  split <;> simp_all

/-- A value begins with a character that is no blank and closes no bracket. -/
theorem head_laid (level : Nat) (v : Json) :
    ∃ c cs, laid l level v = c :: cs ∧ isSpace c = false ∧ c ≠ ']' := by
  have hnumeral {n : Numeral} (h : n.IsProper) :
      ∃ c cs, n.text = c :: cs ∧ isSpace c = false ∧ c ≠ ']' := by
    obtain ⟨c, cs, htext, hc⟩ := head_text h
    refine ⟨c, cs, htext, isSpace_of_numeral hc, ?_⟩
    rintro rfl
    rcases hc with hc | hc <;> cases hc
  rcases v with _ | b | n | x | s | items | members
  · exact ⟨_, _, rfl, by decide⟩
  · cases b <;> exact ⟨_, _, rfl, by decide⟩
  · obtain ⟨m, hproper, -, htext⟩ := exists_intNumeral n
    rw [laid, htext]
    exact hnumeral hproper
  · rw [laid]
    cases hx : isFinite x with
    | true =>
      obtain ⟨m, hproper, -, htext⟩ := exists_floatNumeral hx
      rw [htext]
      exact hnumeral hproper
    | false =>
      rw [floatText_of_not_isFinite hx]
      exact ⟨_, _, rfl, by decide⟩
  · exact ⟨_, _, rfl, by decide⟩
  · cases items <;> exact ⟨_, _, rfl, by decide⟩
  · cases members <;> exact ⟨_, _, rfl, by decide⟩

/-- Items begin with the first of them. -/
theorem skipSpace_laidItems (level : Nat) (item : Json) (more : List Json) (cs : List Char) :
    ∃ c cs', skipSpace (laidItems l level (item :: more) ++ cs) = c :: cs' ∧ c ≠ ']' := by
  obtain ⟨c, tail, hhead, hspace, hne⟩ := head_laid l level item
  have hfirst : ∃ tail', laidItems l level (item :: more) = l.gap level ++ c :: tail' := by
    cases more with
    | nil => exact ⟨tail, by rw [laidItems, hhead]⟩
    | cons next more => exact ⟨_, by rw [laidItems, hhead]; rfl⟩
  obtain ⟨tail', hfirst⟩ := hfirst
  refine ⟨c, tail' ++ cs, ?_, hne⟩
  rw [hfirst, List.append_assoc, skipSpace_append (l.gap_space level)]
  exact skipSpace_cons hspace

/-- Members begin with the quotes of a key. -/
theorem skipSpace_laidMembers (level : Nat) (member : String × Json) (more : List (String × Json))
    (cs : List Char) : ∃ cs', skipSpace (laidMembers l level (member :: more) ++ cs) = '"' :: cs' := by
  have hfirst : ∃ tail, laidMembers l level (member :: more) = l.gap level ++ '"' :: tail := by
    cases more <;> exact ⟨_, rfl⟩
  obtain ⟨tail, hfirst⟩ := hfirst
  refine ⟨tail ++ cs, ?_⟩
  rw [hfirst, List.append_assoc, skipSpace_append (l.gap_space level)]
  exact skipSpace_cons rfl

mutual

/-- **The text of a value is read as its document**, whatever stands behind it. -/
theorem readValue_laid : ∀ (v : Json) (level fuel : Nat) (rest : List Char),
    2 * (laid l level v).length ≤ fuel → endsNumeral rest = true →
      readValue fuel (laid l level v ++ rest) = some (document v, rest)
  | v, level, 0, rest, hfuel, _ => by
    obtain ⟨c, cs, hlaid, -⟩ := head_laid l level v
    simp [hlaid] at hfuel
  | .null, level, fuel + 1, rest, _, _ => rfl
  | .bool true, level, fuel + 1, rest, _, _ => rfl
  | .bool false, level, fuel + 1, rest, _, _ => rfl
  | .int n, level, fuel + 1, rest, _, hrest => by
    obtain ⟨m, hproper, -, htext⟩ := exists_intNumeral n
    rw [laid, document, htext]
    exact readValue_text hproper hrest fuel
  | .float x, level, fuel + 1, rest, _, hrest => by
    rw [laid, document]
    cases hx : isFinite x with
    | true =>
      obtain ⟨m, hproper, -, htext⟩ := exists_floatNumeral hx
      rw [htext]
      exact readValue_text hproper hrest fuel
    | false =>
      rw [floatText_of_not_isFinite hx]
      rfl
  | .str s, level, fuel + 1, rest, _, _ => by
    rw [laid, quoted, List.cons_append, readValue, skipSpace_cons (by rfl)]
    simp [readString_quoted, document]
  | .arr [], level, fuel + 1, rest, _, _ => rfl
  | .arr (item :: more), level, fuel + 1, rest, hfuel, _ => by
    have hitems := readItems_laid (item :: more) (level + 1) fuel (l.gap level) rest (by simp)
      (by simp [laid] at hfuel; omega) (l.gap_space level)
    obtain ⟨c, cs', hhead, hne⟩ := skipSpace_laidItems l (level + 1) item more (l.gap level ++ ']' :: rest)
    rw [← readItems_skipSpace, hhead] at hitems
    have hlaid : laid l level (.arr (item :: more)) ++ rest =
        '[' :: (laidItems l (level + 1) (item :: more) ++ (l.gap level ++ ']' :: rest)) := by simp [laid]
    rw [hlaid, readValue, skipSpace_cons (by rfl)]
    simp [hhead, hitems, document, hne]
  | .obj [], level, fuel + 1, rest, _, _ => rfl
  | .obj (member :: more), level, fuel + 1, rest, hfuel, _ => by
    have hmembers := readMembers_laid (member :: more) (level + 1) fuel (l.gap level) rest (by simp)
      (by simp [laid] at hfuel; omega) (l.gap_space level)
    obtain ⟨cs', hhead⟩ := skipSpace_laidMembers l (level + 1) member more (l.gap level ++ '\x7d' :: rest)
    rw [← readMembers_skipSpace, hhead] at hmembers
    have hlaid : laid l level (.obj (member :: more)) ++ rest =
        '\x7b' :: (laidMembers l (level + 1) (member :: more) ++ (l.gap level ++ '\x7d' :: rest)) := by
      simp [laid]
    rw [hlaid, readValue, skipSpace_cons (by rfl)]
    simp [hhead, hmembers, document]

/-- The items of an array are read up to its bracket. -/
theorem readItems_laid : ∀ (items : List Json) (level fuel : Nat) (sp rest : List Char), items ≠ [] →
    2 * (laidItems l level items).length < fuel → (∀ c ∈ sp, isSpace c = true) →
      readItems fuel (laidItems l level items ++ (sp ++ ']' :: rest)) = some (documents items, rest)
  | [], _, _, _, _, hne, _, _ => absurd rfl hne
  | _, _, 0, _, _, _, hfuel, _ => absurd hfuel (Nat.not_lt_zero _)
  | [item], level, fuel + 1, sp, rest, _, hfuel, hsp => by
    have hitem := readValue_laid item level fuel (sp ++ ']' :: rest)
      (by simp [laidItems] at hfuel; omega) (endsNumeral_append hsp rfl)
    rw [readItems, laidItems, List.append_assoc, ← readValue_skipSpace, skipSpace_append (l.gap_space level),
      readValue_skipSpace, hitem]
    simp [skipSpace_append hsp, skipSpace_cons, isSpace, documents]
  | item :: next :: more, level, fuel + 1, sp, rest, _, hfuel, hsp => by
    have hlength : 2 * (laid l level item).length ≤ fuel ∧
        2 * (laidItems l level (next :: more)).length < fuel := by
      simp [laidItems] at hfuel
      omega
    have hitem := readValue_laid item level fuel
      (',' :: (laidItems l level (next :: more) ++ (sp ++ ']' :: rest))) hlength.1 rfl
    have hmore := readItems_laid (next :: more) level fuel sp rest (by simp) hlength.2 hsp
    rw [readItems, laidItems, List.append_assoc, ← readValue_skipSpace, skipSpace_append (l.gap_space level),
      readValue_skipSpace, List.append_assoc, List.cons_append, hitem]
    simp [skipSpace_cons, isSpace, hmore, documents]

/-- The members of an object are read up to its brace. -/
theorem readMembers_laid : ∀ (members : List (String × Json)) (level fuel : Nat) (sp rest : List Char),
    members ≠ [] → 2 * (laidMembers l level members).length < fuel → (∀ c ∈ sp, isSpace c = true) →
      readMembers fuel (laidMembers l level members ++ (sp ++ '\x7d' :: rest)) =
        some (memberDocuments members, rest)
  | [], _, _, _, _, hne, _, _ => absurd rfl hne
  | _, _, 0, _, _, _, hfuel, _ => absurd hfuel (Nat.not_lt_zero _)
  | [(key, value)], level, fuel + 1, sp, rest, _, hfuel, hsp => by
    have hvalue := readValue_laid value level fuel (sp ++ '\x7d' :: rest)
      (by simp [laidMembers] at hfuel; omega) (endsNumeral_append hsp rfl)
    rw [← readValue_skipSpace, ← skipSpace_append l.colonGap_space, readValue_skipSpace] at hvalue
    rw [readMembers, laidMembers, List.append_assoc, skipSpace_append (l.gap_space level)]
    simp [quoted, skipSpace_cons, isSpace, readString_quoted, hvalue, skipSpace_append hsp, memberDocuments]
  | (key, value) :: next :: more, level, fuel + 1, sp, rest, _, hfuel, hsp => by
    have hlength : 2 * (laid l level value).length ≤ fuel ∧
        2 * (laidMembers l level (next :: more)).length < fuel := by
      simp [laidMembers] at hfuel
      omega
    have hvalue := readValue_laid value level fuel
      (',' :: (laidMembers l level (next :: more) ++ (sp ++ '\x7d' :: rest))) hlength.1 rfl
    have hmore := readMembers_laid (next :: more) level fuel sp rest (by simp) hlength.2 hsp
    rw [← readValue_skipSpace, ← skipSpace_append l.colonGap_space, readValue_skipSpace] at hvalue
    rw [readMembers, laidMembers, List.append_assoc, skipSpace_append (l.gap_space level)]
    simp [quoted, skipSpace_cons, isSpace, readString_quoted, hvalue, hmore, memberDocuments]

end

/-- **A text in either layout is read as the document of its value**, with blanks behind it or not. -/
theorem read_laid (v : Json) (sp : List Char) (hsp : ∀ c ∈ sp, isSpace c = true) :
    Document.read (laid l 0 v ++ sp) = some (document v) := by
  have hends : endsNumeral sp = true := by
    have happend : endsNumeral (sp ++ []) = true := endsNumeral_append hsp rfl
    rwa [List.append_nil] at happend
  have hread := readValue_laid l v 0 (2 * (laid l 0 v ++ sp).length + 2) sp (by simp; omega)
    hends
  have hspace : skipSpace sp = [] := by
    have happend : skipSpace (sp ++ []) = [] := skipSpace_append hsp
    rwa [List.append_nil] at happend
  rw [Document.read, hread]
  simp [hspace]

theorem read_compact (v : Json) : Document.read (compact v) = some (document v) := by
  simpa [compact_eq_laid 0 v] using read_laid .compact v [] (by simp)

theorem read_indented (v : Json) (sp : List Char) (hsp : ∀ c ∈ sp, isSpace c = true) :
    Document.read (indented 0 v ++ sp) = some (document v) := by
  rw [indented_eq_laid v 0]
  exact read_laid .indented v sp hsp

end QueryScore.Json
