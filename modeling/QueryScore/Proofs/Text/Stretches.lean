/-
# QueryScore.Proofs.Text.Stretches -- the pieces of a text, by the offsets of its separators

The pieces of a text are said here without the scan that finds them: separators stand at offsets of the
top level (`cuts`), and the pieces are what stands between one of them and the next (`stretches`),
trimmed, the empty ones left out (`splitTopLevel_eq_stretches`). Behind a separator the scan is as at the
front of a text, whatever brackets were closed too often before (`splitWhere_annotate`). So each stretch is
scanned as if it stood alone, and a piece that is split again stays whole.
-/

import QueryScore.Proofs.Text.Occurrence
import QueryScore.Proofs.Text.Split

namespace QueryScore.Text

variable {α β : Type} {p : α → Bool} {xs : List α} {separator : Char} {marks piece cs : List Char}

/-! ## Stretches between cuts -/

/-- **`stretches xs start cuts`** -- what stands from `start` up to the first cut, from behind each cut up
to the next, and from behind the last one to the end. -/
def stretches (xs : List α) (start : Nat) : List Nat → List (List α)
  | [] => [xs.drop start]
  | cut :: cuts => (xs.take cut).drop start :: stretches xs (cut + 1) cuts

/-- The indexes of the elements that `p` holds of, in ascending order. -/
def indexes (p : α → Bool) (xs : List α) : List Nat := (List.range xs.length).filter fun i => xs[i]?.any p

/-- **`cuts separator cs`** -- the indexes at which the separator stands at a top-level offset, in ascending
order. -/
def cuts (separator : Char) (cs : List Char) : List Nat :=
  (List.range cs.length).filter fun i => cs[i]? = some separator ∧ byteOffset cs i ∈ topLevelOffsets cs

theorem map_stretches (f : α → β) (xs : List α) (start : Nat) (cuts : List Nat) :
    (stretches xs start cuts).map (List.map f) = stretches (xs.map f) start cuts := by
  induction cuts generalizing start with
  | nil => simp [stretches]
  | cons cut cuts ih => simp [stretches, ih]

theorem stretches_cons (x : α) (xs : List α) (start : Nat) (cuts : List Nat) :
    stretches (x :: xs) (start + 1) (cuts.map (· + 1)) = stretches xs start cuts := by
  induction cuts generalizing start with
  | nil => simp [stretches]
  | cons cut cuts ih => simp [stretches, ih]

theorem indexes_cons (p : α → Bool) (x : α) (xs : List α) :
    indexes p (x :: xs) = (if p x then [0] else []) ++ (indexes p xs).map (· + 1) := by
  rw [indexes, List.length_cons, List.range_succ_eq_map, List.filter_cons, List.filter_map, indexes]
  have hlater : (fun i => (x :: xs)[i]?.any p) ∘ Nat.succ = fun i => xs[i]?.any p := by
    funext i
    simp
  rw [hlater]
  by_cases hx : p x = true
  · simp [hx]
  · simp [hx]

/-- **A list is split where its elements are cut off.** -/
theorem splitWhere_eq_stretches (p : α → Bool) (xs : List α) :
    splitWhere p xs = stretches xs 0 (indexes p xs) := by
  induction xs with
  | nil => rfl
  | cons x xs ih =>
    rw [splitWhere, indexes_cons, ih]
    by_cases hx : p x = true
    · rw [if_pos hx, if_pos hx, List.singleton_append, stretches, stretches_cons]
      rfl
    · rw [if_neg hx, if_neg hx, List.nil_append]
      cases indexes p xs with
      | nil => rfl
      | cons cut cuts => simp [stretches, stretches_cons]

/-! ## Separators at top-level offsets -/

theorem getElem?_annotate (s : Scanner) (cs : List Char) (i : Nat) :
    (annotate s cs)[i]? = cs[i]?.map fun c => (c, (s.run (cs.take i)).isTop c) := by
  induction cs generalizing s i with
  | nil => rfl
  | cons c cs ih =>
    cases i with
    | zero => rfl
    | succ i => exact ih (s.step c) i

theorem length_annotate (s : Scanner) (cs : List Char) : (annotate s cs).length = cs.length := by
  rw [← List.length_map (f := Prod.fst), map_fst_annotate]

/-- A character is at a top-level offset exactly if it is marked as such. -/
theorem byteOffset_mem_topLevelOffsets {i : Nat} {c : Char} (h : cs[i]? = some c) :
    byteOffset cs i ∈ topLevelOffsets cs ↔ (Scanner.run {} (cs.take i)).isTop c = true := by
  obtain ⟨hi, rfl⟩ := List.getElem?_eq_some_iff.mp h
  have hsplit : cs = cs.take i ++ cs[i] :: cs.drop (i + 1) := by
    rw [List.getElem_cons_drop, List.take_append_drop]
  have hmem := mem_topLevelOffsets (cs.take i) cs[i] (cs.drop (i + 1))
  rwa [← hsplit] at hmem

theorem cuts_eq_indexes (separator : Char) (cs : List Char) :
    cuts separator cs = indexes (fun x => x.2 && x.1 == separator) (annotate {} cs) := by
  rw [cuts, indexes, length_annotate]
  refine List.filter_congr fun i hi => ?_
  rw [getElem?_annotate]
  cases hc : cs[i]? with
  | none => simp
  | some c =>
    rw [Bool.eq_iff_iff, decide_eq_true_iff, byteOffset_mem_topLevelOffsets hc]
    simp [and_comm]

/-- The scan splits a text where a separator stands at a top-level offset. -/
theorem stretches_cuts (separator : Char) (cs : List Char) :
    stretches cs 0 (cuts separator cs) =
      (splitWhere (fun x => x.2 && x.1 == separator) (annotate {} cs)).map (List.map Prod.fst) := by
  rw [splitWhere_eq_stretches, map_stretches, map_fst_annotate, cuts_eq_indexes]

/-- **The pieces of a text are its stretches between separators**, trimmed, the empty ones left out. -/
theorem splitTopLevel_eq_stretches (separator : Char) (cs : List Char) :
    splitTopLevel separator cs =
      ((stretches cs 0 (cuts separator cs)).map trim).filter fun piece => !piece.isEmpty := by
  rw [stretches_cuts, List.map_map]
  rfl

/-! ## Where a piece begins -/

/-- A character at the top level leaves the scan as it is at the front of a text. -/
theorem step_of_isTop {s : Scanner} {c : Char} (h : s.isTop c = true) : s.step c = {} := by
  simp only [Scanner.isTop, Mode.shows, Bool.and_eq_true, Bool.not_eq_true', beq_iff_eq] at h
  obtain ⟨⟨⟨⟨hmode, hquote⟩, hopen⟩, hclose⟩, hdepth⟩ := h
  simp [Scanner.step, Mode.step, Mode.shows, depthAfter, hmode, hquote, hopen, hclose, hdepth]

/-- **Behind each separator the scan begins anew**: all stretches but the first are scanned from the state
at the front of a text. -/
theorem splitWhere_annotate (separator : Char) (s : Scanner) (cs : List Char) :
    ∃ (first : List Char) (rest : List (List Char)), splitWhere (fun x => x.2 && x.1 == separator) (annotate s cs) =
      annotate s first :: rest.map (annotate {}) := by
  induction cs generalizing s with
  | nil => exact ⟨[], [], rfl⟩
  | cons c cs ih =>
    rw [annotate, splitWhere]
    split
    · rename_i hcut
      obtain ⟨first, rest, hlater⟩ := ih {}
      rw [step_of_isTop (Bool.and_eq_true_iff.mp hcut).1, hlater]
      exact ⟨[], first :: rest, rfl⟩
    · obtain ⟨first, rest, hlater⟩ := ih (s.step c)
      rw [hlater]
      exact ⟨c :: first, rest, rfl⟩

/-- The stretches of a text are free of the separator, each scanned by itself. -/
theorem free_of_mem_stretches (h : piece ∈ stretches cs 0 (cuts separator cs)) : Free [separator] {} piece := by
  rw [stretches_cuts] at h
  obtain ⟨marked, hmarked, rfl⟩ := List.mem_map.mp h
  obtain ⟨first, rest, hall⟩ := splitWhere_annotate separator {} cs
  have hnone := not_of_mem_splitWhere hmarked
  obtain ⟨stretch, rfl⟩ : ∃ stretch, marked = annotate {} stretch := by
    rw [hall, List.mem_cons] at hmarked
    rcases hmarked with rfl | hmarked
    · exact ⟨first, rfl⟩
    · obtain ⟨stretch, -, rfl⟩ := List.mem_map.mp hmarked
      exact ⟨stretch, rfl⟩
  rw [map_fst_annotate]
  intro x hx htop
  have hx := hnone x hx
  simpa [htop] using hx

theorem Free.trim (h : Free marks {} cs) : Free marks {} (trim cs) := by
  obtain ⟨bs, bs', hbs, -, hsplit⟩ := exists_trim cs
  rw [hsplit, free_append, hbs.level, free_append] at h
  exact h.2.1

/-! ## Pieces -/

/-- **A text is split into its stretches between top-level separators; a piece that is split again stays
whole; and behind a level text and a separator the pieces are those of what follows.** -/
theorem splitTopLevel_pieces (separator : Char) (cs : List Char) :
    splitTopLevel separator cs =
        ((stretches cs 0 (cuts separator cs)).map trim).filter (fun piece => !piece.isEmpty) ∧
      (∀ piece ∈ splitTopLevel separator cs, splitTopLevel separator piece = [piece]) ∧
      ∀ front back, (Scanner.run {} front).mode = .outside → (Scanner.run {} front).depth = 0 →
        isQuote separator = false → isOpening separator = false → isClosing separator = false →
        splitTopLevel separator (front ++ separator :: back) =
          splitTopLevel separator front ++ splitTopLevel separator back := by
  refine ⟨splitTopLevel_eq_stretches separator cs, fun piece hpiece => ?_, ?_⟩
  · rw [splitTopLevel_eq_stretches] at hpiece
    obtain ⟨hpiece, hne⟩ := List.mem_filter.mp hpiece
    obtain ⟨stretch, hstretch, rfl⟩ := List.mem_map.mp hpiece
    have hagain : trim (trim stretch) = trim stretch := trim_trim stretch
    have hfree := (free_of_mem_stretches hstretch).trim
    rw [splitTopLevel_of_free hfree (by rw [hagain]; simpa using hne), hagain]
  · intro front back hmode hdepth hquote hopen hclose
    have hlevel : Level front := by rw [Level, eq_of_outside hmode, hdepth]
    refine splitTopLevel_append hlevel ?_ back
    simp [Scanner.isTop, Mode.shows, hquote, hopen, hclose]

/-- Brackets that are closed too often and quotes that do not end. -/
theorem splitTopLevel_pieces_unbalanced :
    splitTopLevel ',' "é), 'x, \\', y' ,, [1, 2], \"z, ".toList =
        ["é)".toList, "'x, \\', y'".toList, "[1, 2]".toList, "\"z,".toList] ∧
      splitTopLevel ',' "'x, \\', y'".toList = ["'x, \\', y'".toList] ∧
      splitTopLevel ',' ("é) ".toList ++ ',' :: "'x, ".toList) = ["é)".toList] ++ ["'x,".toList] := by
  have hpieces : splitTopLevel ',' "é), 'x, \\', y' ,, [1, 2], \"z, ".toList =
      ["é)".toList, "'x, \\', y'".toList, "[1, 2]".toList, "\"z,".toList] := by decide +kernel
  obtain ⟨-, hagain, happend⟩ := splitTopLevel_pieces ',' "é), 'x, \\', y' ,, [1, 2], \"z, ".toList
  refine ⟨hpieces, hagain _ (by rw [hpieces]; simp), ?_⟩
  rw [happend "é) ".toList "'x, ".toList (by decide) (by decide) (by decide) (by decide) (by decide)]
  decide +kernel

end QueryScore.Text
