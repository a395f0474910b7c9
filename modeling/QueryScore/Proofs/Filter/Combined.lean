/-
# QueryScore.Proofs.Filter.Combined -- predicates put together

Two predicates with a connective between them have the atoms of either, and parentheses around a
predicate change nothing (`normalize_combined`). That holds for all texts in which brackets match and
quotes end, whatever they look like inside: wrapped, empty, or full of quoted keywords. One thing has to
be asked of the first: that it does not end while a `BETWEEN` waits for its `AND` (`awaitsAnd`), for
then the connective would be that `AND`. So the order of predicates and their grouping do not matter.
-/

import QueryScore.Proofs.Filter.Spelling
import QueryScore.Proofs.Text.Nested

namespace QueryScore.Filter

open Text Name

variable {a b word bs bs' cs ds front : List Char} {hits : List Hit} {pending : Bool} {start : Nat}

/-! ## Waiting for an `AND` -/

/-- **`waitsAfter pending hits`** -- behind these keywords a `BETWEEN` waits for its `AND`; `pending` is
true if one waits before them. -/
def waitsAfter : Bool → List Hit → Bool
  | pending, [] => pending
  | pending, h :: hits =>
    if h.keyword = "BETWEEN" then waitsAfter true hits
    else if h.keyword = "AND" && pending then waitsAfter false hits
    else waitsAfter pending hits

/-- **`awaitsAnd cs`** -- at the end of the text a `BETWEEN` of its top level still waits for its `AND`. -/
def awaitsAnd (cs : List Char) : Bool := waitsAfter false (findKeywords keywords cs)

/-! ## Stretches between hits -/

theorem operandsFrom_ne_nil (cs : List Char) (start : Nat) (pending : Bool) (hits : List Hit) :
    operandsFrom cs start pending hits ≠ [] := by
  induction hits generalizing start pending with
  | nil => simp [operandsFrom]
  | cons h hits ih =>
    rw [operandsFrom]
    split
    · exact ih _ _
    · split
      · exact ih _ _
      · simp

/-- A single stretch is the rest of the text. -/
theorem operandsFrom_of_length (h : (operandsFrom cs start pending hits).length = 1) :
    operandsFrom cs start pending hits = [trim (cs.drop start)] := by
  induction hits generalizing pending with
  | nil => rfl
  | cons hit hits ih =>
    rw [operandsFrom] at h ⊢
    split at h
    case isTrue hbetween =>
      rw [if_pos hbetween]
      exact ih h
    case isFalse hbetween =>
      rw [if_neg hbetween]
      split at h
      case isTrue hand =>
        rw [if_pos hand]
        exact ih h
      case isFalse =>
        have hlater := List.length_pos_iff.mpr (operandsFrom_ne_nil cs hit.stop pending hits)
        rw [List.length_cons] at h
        omega

/-- Where a connective cuts, the stretches before it are those of the text up to it. -/
theorem operandsFrom_cut {cut : Hit} (hcut : cut.keyword ∈ ["AND", "OR"]) (hwaits : waitsAfter pending hits = false)
    (hbefore : ∀ h ∈ hits, h.start ≤ cut.start) (later : List Hit) :
    operandsFrom cs start pending (hits ++ cut :: later) =
      operandsFrom (cs.take cut.start) start pending hits ++ operandsFrom cs cut.stop false later := by
  induction hits generalizing start pending with
  | nil =>
    obtain rfl : pending = false := hwaits
    have hne : cut.keyword ≠ "BETWEEN" := fun heq => absurd (heq ▸ hcut) (by decide)
    rw [List.nil_append, operandsFrom, operandsFrom, if_neg hne, if_neg (by simp)]
    rfl
  | cons h hits ih =>
    have hrest : ∀ k ∈ hits, k.start ≤ cut.start := fun k hk => hbefore k (List.mem_cons_of_mem _ hk)
    rw [waitsAfter] at hwaits
    rw [List.cons_append, operandsFrom, operandsFrom]
    split
    case isTrue hbetween => exact ih (by rwa [if_pos hbetween] at hwaits) hrest
    case isFalse hbetween =>
      rw [if_neg hbetween] at hwaits
      split
      case isTrue hand => exact ih (by rwa [if_pos hand] at hwaits) hrest
      case isFalse hand =>
        rw [if_neg hand] at hwaits
        rw [ih hwaits hrest, List.take_take, Nat.min_eq_left (hbefore h List.mem_cons_self), List.cons_append]

/-- Blanks behind the last hit do not count. -/
theorem operandsFrom_append_blank (hbs : Blank bs) (hhits : ∀ h ∈ hits, h.start ≤ cs.length ∧ h.stop ≤ cs.length)
    (hstart : start ≤ cs.length) :
    operandsFrom (cs ++ bs) start pending hits = operandsFrom cs start pending hits := by
  induction hits generalizing start pending with
  | nil => rw [operandsFrom, operandsFrom, List.drop_append_of_le_length hstart, trim_append_blank hbs]
  | cons h hits ih =>
    have hrest : ∀ k ∈ hits, k.start ≤ cs.length ∧ k.stop ≤ cs.length := fun k hk =>
      hhits k (List.mem_cons_of_mem _ hk)
    obtain ⟨hhead, hstop⟩ := hhits h List.mem_cons_self
    rw [operandsFrom, operandsFrom, ih hrest hstart, ih hrest hstart, ih hrest hstop,
      List.take_append_of_le_length hhead]

/-- In a longer text the stretches are the same, from the place where the text begins. -/
theorem operandsFrom_shift (front cs : List Char) (start : Nat) (pending : Bool) (hits : List Hit) :
    operandsFrom (front ++ cs) (front.length + start) pending (hits.map (Hit.shift front.length)) =
      operandsFrom cs start pending hits := by
  induction hits generalizing start pending with
  | nil => rw [List.map_nil, operandsFrom, operandsFrom, List.drop_length_add_append]
  | cons h hits ih =>
    have htake : (front ++ cs).take (h.start + front.length) = front ++ cs.take h.start := by
      rw [Nat.add_comm, List.take_length_add_append]
    have hstop := ih h.stop pending
    rw [Nat.add_comm front.length h.stop] at hstop
    rw [List.map_cons, operandsFrom, operandsFrom, ih, ih]
    simp only [Hit.shift, hstop, htake, List.drop_length_add_append]
    rfl

/-- Blanks before the first hit do not count. -/
theorem operandsFrom_blank_append (hbs : Blank bs) (cs : List Char) (pending : Bool) (hits : List Hit) :
    operandsFrom (bs ++ cs) 0 pending (hits.map (Hit.shift bs.length)) = operandsFrom cs 0 pending hits := by
  have htrim (ds : List Char) : trim (bs ++ ds) = trim ds := by simpa using trim_append hbs .nil ds
  induction hits generalizing pending with
  | nil => rw [List.map_nil, operandsFrom, operandsFrom, List.drop_zero, List.drop_zero, htrim]
  | cons h hits ih =>
    have htake : (bs ++ cs).take (h.start + bs.length) = bs ++ cs.take h.start := by
      rw [Nat.add_comm, List.take_length_add_append]
    have hlater := operandsFrom_shift bs cs h.stop pending hits
    rw [Nat.add_comm bs.length h.stop] at hlater
    rw [List.map_cons, operandsFrom, operandsFrom, ih, ih]
    simp only [Hit.shift, hlater, htake, List.drop_zero, htrim]
    rfl

/-! ## Blanks around a predicate -/

/-- With blanks around a text a search finds the same, moved by those in front. -/
theorem findKeywords_pad (hbs : Blank bs) (hbs' : Blank bs') (cs : List Char) :
    findKeywords keywords (bs ++ (cs ++ bs')) = (findKeywords keywords cs).map (Hit.shift bs.length) := by
  have hend : (∀ c ∈ bs'.head?, isIdentifierChar c = false) ∨ ∀ c ∈ cs.getLast?, c.isAlpha = false :=
    .inl fun c hc => not_isIdentifierChar_of_isBlank (hbs' c (List.mem_of_head? hc))
  obtain ⟨resume, -, hparts⟩ := exists_hitsFrom_parts singleWord_keywords hend {} bs.getLast?
    (Nat.zero_le (bs.length + cs.length))
  have hnone : hitsFrom keywords (Scanner.run {} cs) (cs.getLast?.or bs.getLast?) (bs.length + cs.length) resume bs' =
      [] := by
    have hquiet : Quiet keywords (Scanner.run {} cs) (cs.getLast?.or bs.getLast?) bs' [] :=
      (startless_of_not_isAlpha fun c hc => not_isAlpha_of_isBlank (hbs' c hc)).quiet _
    have hpassed := hitsFrom_of_quiet hquiet (bs.length + cs.length) resume
    rwa [List.append_nil, hitsFrom] at hpassed
  have hstart : ∀ c ∈ cs.head?, isWordStart bs.getLast? c = isWordStart none c := fun c _ =>
    isWordStart_of_not_isSticky (fun b hb => not_isSticky_of_isBlank (hbs b (List.mem_of_getLast? hb))) c
  have hblank := hitsFrom_blank hbs [] (cs ++ bs') 0 0
  rw [List.nil_append, List.getLast?_nil, Nat.zero_add] at hblank
  rw [findKeywords, hblank, hparts, hnone, List.append_nil, hitsFrom_eq_shift hstart (Nat.zero_le _)]

theorem le_length_of_mem_findKeywords :
    ∀ h ∈ findKeywords keywords cs, h.start ≤ cs.length ∧ h.stop ≤ cs.length := by
  intro h hh
  obtain ⟨hlt, hle⟩ := of_mem_findKeywords (by decide) hh
  exact ⟨by omega, hle⟩

theorem operands_pad (hbs : Blank bs) (hbs' : Blank bs') (cs : List Char) :
    operands (bs ++ (cs ++ bs')) = operands cs := by
  rw [operands, findKeywords_pad hbs hbs', operandsFrom_blank_append hbs,
    operandsFrom_append_blank hbs' le_length_of_mem_findKeywords (Nat.zero_le _), operands]

theorem operands_trim (cs : List Char) : operands (trim cs) = operands cs := by
  obtain ⟨bs, bs', hbs, hbs', hsplit⟩ := exists_trim cs
  calc operands (trim cs) = operands (bs ++ (trim cs ++ bs')) := (operands_pad hbs hbs' _).symm
    _ = operands cs := by rw [← hsplit]

/-- A predicate that is not cut is its only operand. -/
theorem operands_of_length (h : (operands cs).length = 1) : operands cs = [trim cs] :=
  operandsFrom_of_length h

/-! ## A connective between two predicates -/

theorem blank_space : Blank [' '] := by
  intro c hc
  obtain rfl := List.mem_singleton.mp hc
  rfl

/-- What a search finds in two predicates and the connective between them. -/
theorem exists_findKeywords_connective (hword : IsConnective word) (ha : Paired a) (b : List Char) :
    ∃ k ∈ ["AND", "OR"], findKeywords keywords (a ++ ' ' :: (word ++ ' ' :: b)) =
      findKeywords keywords a ++ ⟨a.length + 1, a.length + 1 + word.length, k⟩ ::
        (findKeywords keywords b).map (Hit.shift (a.length + 1 + word.length + 1)) := by
  have hapart : (∀ c ∈ (' ' :: (word ++ ' ' :: b)).head?, isIdentifierChar c = false) ∨
      ∀ c ∈ a.getLast?, c.isAlpha = false := .inl fun c hc => by
    obtain rfl := Option.some.inj hc
    decide
  obtain ⟨resume, hresume, hparts⟩ :=
    exists_hitsFrom_parts singleWord_keywords hapart {} none (Nat.zero_le (0 + a.length))
  rw [Nat.zero_add, ha.run, Option.or_none] at hparts
  rw [Nat.zero_add] at hresume
  have hspace : ∀ c ∈ some ' ', isSticky c = false := by
    intro c hc
    obtain rfl := Option.some.inj hc
    decide
  have hbefore : ∀ c ∈ (a ++ [' ']).getLast?, isSticky c = false := by rwa [List.getLast?_concat]
  have hstop : startsInsideWord (' ' :: b) = false := show isIdentifierChar ' ' = false by decide
  obtain ⟨k, hk, hfound⟩ := hitsFrom_connective hword hstop hbefore (show resume ≤ a.length + 1 by omega)
  have hstart : ∀ c ∈ b.head?, isWordStart (word ++ [' ']).getLast? c = isWordStart none c := fun c _ => by
    rw [List.getLast?_concat]
    exact isWordStart_of_not_isSticky hspace c
  have hfirst := hitsFrom_blank blank_space a (word ++ ' ' :: b) a.length resume
  have hsecond := hitsFrom_blank blank_space word b (a.length + 1 + word.length) (a.length + 1 + word.length)
  rw [hitsFrom_eq_shift hstart (Nat.le_add_right _ _)] at hsecond
  refine ⟨k, hk, ?_⟩
  rw [findKeywords, hparts]
  exact congrArg _ (hfirst.trans (hfound.trans (congrArg _ hsecond)))

/-- **A predicate of two with a connective between them is cut there**, and each where it is cut alone. -/
theorem operands_connective (hword : IsConnective word) (ha : Paired a) (hwaits : awaitsAnd a = false)
    (b : List Char) : operands (a ++ ' ' :: (word ++ ' ' :: b)) = operands a ++ operands b := by
  obtain ⟨k, hk, hfound⟩ := exists_findKeywords_connective hword ha b
  have hfirst : operandsFrom ((a ++ ' ' :: (word ++ ' ' :: b)).take (a.length + 1)) 0 false (findKeywords keywords a) =
      operands a := by
    rw [List.take_length_add_append]
    exact operandsFrom_append_blank blank_space le_length_of_mem_findKeywords (Nat.zero_le _)
  have hsecond : operandsFrom (a ++ ' ' :: (word ++ ' ' :: b)) (a.length + 1 + word.length) false
      ((findKeywords keywords b).map (Hit.shift (a.length + 1 + word.length + 1))) = operands b := by
    have hshift := operandsFrom_shift (a ++ ' ' :: word) ([' '] ++ b) 0 false
      ((findKeywords keywords b).map (Hit.shift 1))
    have hlength : (a ++ ' ' :: word).length = a.length + 1 + word.length := by
      rw [List.length_append, List.length_cons]
      omega
    have htext : a ++ ' ' :: word ++ ([' '] ++ b) = a ++ ' ' :: (word ++ ' ' :: b) := by simp
    have hhits : ((findKeywords keywords b).map (Hit.shift 1)).map (Hit.shift (a.length + 1 + word.length)) =
        (findKeywords keywords b).map (Hit.shift (a.length + 1 + word.length + 1)) := by
      rw [List.map_map]
      refine List.map_congr_left fun h _ => ?_
      simp only [Function.comp_apply, Hit.shift]
      congr 1 <;> omega
    rw [hlength, htext, hhits] at hshift
    exact hshift.trans (operandsFrom_blank_append blank_space b false _)
  rw [operands, hfound, operandsFrom_cut hk hwaits, hfirst, hsecond]
  intro h hh
  exact Nat.le_succ_of_le (le_length_of_mem_findKeywords h hh).1

/-! ## Atoms of well-bracketed predicates -/

/-- A well-bracketed predicate falls into the atoms of its operands. -/
theorem atoms_eq_flatMap_operands (h : WellBracketed cs) : atoms cs = (operands cs).flatMap atoms := by
  by_cases hlength : (operands cs).length = 1
  · rw [operands_of_length hlength, List.flatMap_singleton]
    exact atoms_congr (stripWrappingParens_trim cs).symm
  · -- A predicate that is cut is not wrapped.
    have hbare : unwrap? (trim cs) = none := by
      refine Option.eq_none_iff_forall_ne_some.mpr fun inner hwrapped => hlength ?_
      have hnone : findKeywords keywords (trim cs) = [] := findKeywords_of_unwrap? h.trim hwrapped
      rw [← operands_trim, operands, hnone]
      rfl
    have hstrip := stripWrappingParens_of_unwrap?_eq_none hbare
    have hoperands : operands (stripWrappingParens cs) = operands cs := by rw [hstrip, operands_trim]
    rw [atoms_of_cut cs (by rwa [hoperands]), hoperands]

/-- Parentheses around a predicate change nothing. -/
theorem atoms_wrap (h : Paired cs) : atoms ('(' :: (cs ++ [')'])) = atoms cs :=
  atoms_congr (stripWrappingParens_of_wrapped (inked_wrap cs) (unwrap?_wrap h))

theorem unwrap?_connective (hword : IsConnective word) (ha : Paired a) (b : List Char) :
    unwrap? (trim (a ++ ' ' :: (word ++ ' ' :: b))) = none := by
  obtain ⟨w, rest, rfl⟩ := List.exists_cons_of_ne_nil hword.ne_nil
  have hw : w.isAlpha = true := hword.letters w List.mem_cons_self
  have hink : isBlank w = false := not_isBlank_of_isAlpha hw
  by_cases hblank : Blank a
  · have hparen : w ≠ '(' := by
      rintro rfl
      cases hw
    have hfront : Blank (a ++ [' ']) := hblank.append blank_space
    have htext : a ++ ' ' :: (w :: rest ++ ' ' :: b) = (a ++ [' ']) ++ (w :: (rest ++ ' ' :: b) ++ []) := by simp
    rw [htext, trim_append hfront .nil]
    exact unwrap?_trim_cons hparen hink _
  · have hsome : ∃ c ∈ a, isBlank c = false := by simpa [Blank] using hblank
    exact unwrap?_trim_append ha hsome ⟨w, by simp, hink⟩

/-- Two well-bracketed predicates with a connective between them have the atoms of either. -/
theorem atoms_connective (hword : IsConnective word) (ha : WellBracketed a) (hb : WellBracketed b)
    (hwaits : awaitsAnd a = false) : atoms (a ++ ' ' :: (word ++ ' ' :: b)) = atoms a ++ atoms b := by
  have hstrip := stripWrappingParens_of_unwrap?_eq_none (unwrap?_connective hword ha.paired b)
  have hoperands : operands (stripWrappingParens (a ++ ' ' :: (word ++ ' ' :: b))) = operands a ++ operands b := by
    rw [hstrip, operands_trim, operands_connective hword ha.paired hwaits]
  have hlength : (operands a ++ operands b).length ≠ 1 := by
    have hposa : 0 < (operands a).length := List.length_pos_iff.mpr (operandsFrom_ne_nil _ _ _ _)
    have hposb : 0 < (operands b).length := List.length_pos_iff.mpr (operandsFrom_ne_nil _ _ _ _)
    rw [List.length_append]
    omega
  rw [atoms_of_cut _ (by rwa [hoperands]), hoperands, List.flatMap_append, ← atoms_eq_flatMap_operands ha,
    ← atoms_eq_flatMap_operands hb]

/-! ## Sets of atoms -/

theorem normalize_singleton (f : String) : normalize [f] = .ofList ((atoms f.toList).map String.ofList) := by
  rw [normalize, List.flatMap_singleton]

/-- A predicate with the atoms of two others has the set of both. -/
theorem normalize_eq_union {f a b : String} (h : atoms f.toList = atoms a.toList ++ atoms b.toList) :
    normalize [f] = (normalize [a]).union (normalize [b]) := by
  refine SortedSet.ext fun x => ?_
  simp only [SortedSet.mem_union, mem_normalize, List.mem_singleton, exists_eq_left, h, List.mem_append]

/-- **Order and grouping of predicates do not matter.** Parentheses around a well-bracketed predicate leave
its atoms as they are, and two of them with a connective between them, `AND` or `OR`, have the atoms of
either. Only the first must not end in a `BETWEEN` without its `AND`; of the second nothing more is asked. -/
theorem normalize_combined {a b : String} (ha : WellBracketed a.toList) (hb : WellBracketed b.toList) :
    normalize ["(" ++ a ++ ")"] = normalize [a] ∧
      (awaitsAnd a.toList = false →
        normalize [a ++ " AND " ++ b] = (normalize [a]).union (normalize [b]) ∧
          normalize [a ++ " OR " ++ b] = (normalize [a]).union (normalize [b])) := by
  constructor
  · have htext : ("(" ++ a ++ ")").toList = '(' :: (a.toList ++ [')']) := by simp
    rw [normalize_singleton, normalize_singleton, htext, atoms_wrap ha.paired]
  · intro hwaits
    have hand : (a ++ " AND " ++ b).toList = a.toList ++ ' ' :: ("AND".toList ++ ' ' :: b.toList) := by simp
    have hor : (a ++ " OR " ++ b).toList = a.toList ++ ' ' :: ("OR".toList ++ ' ' :: b.toList) := by simp
    have hword : IsConnective "AND".toList := ⟨"AND", by decide, rfl⟩
    have hword' : IsConnective "OR".toList := ⟨"OR", by decide, rfl⟩
    constructor
    · exact normalize_eq_union (hand ▸ atoms_connective hword ha hb hwaits)
    · exact normalize_eq_union (hor ▸ atoms_connective hword' ha hb hwaits)

/-- A predicate whose `AND` belongs to a `BETWEEN`. -/
def rangePredicate : String := "x BETWEEN [1] AND (2)"

/-- A predicate in parentheses, with a bracket and a keyword in quotes and a `BETWEEN` that waits. -/
def wrappedPredicate : String := "(y = ' OR ) ' OR z BETWEEN \x7ba\x7d)"

theorem normalize_rangePredicate : WellBracketed rangePredicate.toList ∧ WellBracketed wrappedPredicate.toList ∧
    awaitsAnd rangePredicate.toList = false ∧
    normalize ["(" ++ rangePredicate ++ ")"] = normalize [rangePredicate] ∧
    normalize [rangePredicate ++ " AND " ++ wrappedPredicate] =
      (normalize [rangePredicate]).union (normalize [wrappedPredicate]) ∧
    normalize [rangePredicate ++ " OR " ++ wrappedPredicate] =
      (normalize [rangePredicate]).union (normalize [wrappedPredicate]) := by
  have hrange : WellBracketed rangePredicate.toList := by decide +kernel
  have hwrapped : WellBracketed wrappedPredicate.toList := by decide +kernel
  have hwaits : awaitsAnd rangePredicate.toList = false := by decide +kernel
  obtain ⟨hparens, hconnected⟩ := normalize_combined hrange hwrapped
  exact ⟨hrange, hwrapped, hwaits, hparens, hconnected hwaits⟩

/-- Behind a `BETWEEN` that waits the connective is no cut. -/
example : awaitsAnd "x BETWEEN 1".toList = true ∧ operands "x BETWEEN 1 AND y".toList = ["x BETWEEN 1 AND y".toList] := by
  decide +kernel

end QueryScore.Filter
