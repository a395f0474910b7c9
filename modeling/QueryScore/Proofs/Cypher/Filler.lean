/-
# QueryScore.Proofs.Cypher.Filler -- what the grammar skips

Between two tokens the grammar skips blanks and comments (`Filled`), and it stops where neither of
them begins (`Settled`). So what it skips at a place is determined (`Filled.unique`), and it skips
whatever filler begins there (`Filled.drop`).

A comment is skipped wherever it stands, so a text that is to be read without its tree must not have
one. If a stretch of a text holds no comment (`Bare`), neither do its parts, as far as the quotes before
them are closed, and the filler in it is blanks (`blank_of_filler`).
-/

import QueryScore.Proofs.Cypher.Search
import QueryScore.Proofs.Peg.Node

namespace QueryScore.Cypher

open Text Grammar Peg

variable {c : Char} {before cs ds after fs : List Char} {nodes : List (Tree Rule)}

/-! ## Bare stretches -/

/-- **`Bare cs`** -- the stretch stands at the front of some text without comments. -/
def Bare (cs : List Char) : Prop := ∃ ds, uncommented (cs ++ ds) = cs ++ ds

theorem Bare.left (h : Bare (cs ++ ds)) : Bare cs := by
  obtain ⟨es, h⟩ := h
  exact ⟨ds ++ es, by simpa using h⟩

theorem Bare.right (h : Bare (cs ++ ds)) (hmode : modeAfter .outside cs = .outside) : Bare ds := by
  obtain ⟨es, h⟩ := h
  rw [List.append_assoc] at h
  have hrest := uncommentFrom_append h
  rw [hmode] at hrest
  exact ⟨es, hrest⟩

/-! ## Filler without comments -/

theorem isSome_splitOnce (mark cs after : List Char) : (splitOnce mark (cs ++ (mark ++ after))).isSome := by
  have hmark (c : Char) (rest : List Char) (h : mark ++ after = c :: rest) :
      stripStart mark (c :: rest) = some after := stripStart_eq_some.mpr h.symm
  induction cs with
  | nil =>
    rw [List.nil_append]
    cases hrest : mark ++ after with
    | nil =>
      obtain ⟨rfl, rfl⟩ := List.append_eq_nil_iff.mp hrest
      rfl
    | cons c rest =>
      rw [splitOnce, hmark c rest hrest]
      rfl
  | cons c cs ih =>
    rw [List.cons_append, splitOnce]
    split
    · rfl
    · simpa using ih

/-- A comment is one before any text. -/
theorem commentSize_of_comment (h : grammar.Reads true (.once comment) before cs after nodes)
    (ds : List Char) : cs.head? = some '/' ∧ commentSize (cs ++ ds) ≠ 0 := by
  rcases h.of_alt with h | ⟨-, h⟩
  · obtain ⟨xs, ys, _, _, rfl, -, hmark, -⟩ := h.of_tight_seq
    obtain ⟨rfl, -⟩ := hmark.of_text
    exact ⟨rfl, by simp [commentSize]⟩
  · obtain ⟨xs, zs, _, _, rfl, -, hmark, hrest⟩ := h.of_tight_seq
    obtain ⟨ys, ends, _, _, rfl, -, -, hend⟩ := hrest.of_tight_seq
    obtain ⟨rfl, -⟩ := hmark.of_text
    obtain ⟨rfl, -⟩ := hend.of_text
    refine ⟨rfl, ?_⟩
    obtain ⟨⟨inside, rest⟩, hsplit⟩ := Option.isSome_iff_exists.mp (isSome_splitOnce commentEnd ys ds)
    show commentSize ('/' :: '*' :: ((ys ++ commentEnd) ++ ds)) ≠ 0
    rw [List.append_assoc, commentSize_block hsplit]
    simp

/-- Without comments, filler is blanks. -/
theorem blank_of_filler (hbare : Bare fs) (h : grammar.Reads true (.once filler) before fs after nodes) :
    Blank fs := by
  obtain ⟨xs, ys, _, _, rfl, -, hblanks, hcomments⟩ := h.of_tight_seq
  have hxs := reads_blanks hblanks
  have hblank : Blank xs := fun c hc => (isBlank_of_isFillerBlank (hxs c hc)).1
  have hys := hcomments.rounds
  obtain ⟨ds, hbare⟩ := hbare.right (shown_of_blanks hxs).2
  cases hys with
  | done => simpa using hblank
  | @more _ _ rest _ _ hone _ =>
    -- The first comment would turn blank.
    obtain ⟨us, vs, _, _, rfl, -, hcomment, -⟩ := hone.of_tight_seq
    obtain ⟨hslash, hsize⟩ := commentSize_of_comment hcomment (vs ++ rest ++ ds)
    obtain ⟨more, rfl⟩ := List.head?_eq_some_iff.mp hslash
    simp only [List.append_assoc, List.cons_append] at hbare hsize
    rw [uncommented, uncommentFrom] at hbare
    split at hbare
    · rename_i hzero
      exact absurd hzero (by simpa using hsize)
    · cases hbare

theorem blank_of_fills (hbare : Bare fs) (h : grammar.Fills before fs after) : Blank fs := by
  rcases h with rfl | ⟨_, h⟩
  · exact .nil
  · exact blank_of_filler hbare h

/-! ## Filler at a place -/

/-- **`Filled fs after`** -- before `after`, the stretch is blanks and comments. -/
inductive Filled : List Char → List Char → Prop
  | nil {after : List Char} : Filled [] after
  | blank {c : Char} {fs after : List Char} : isFillerBlank c = true → Filled fs after →
      Filled (c :: fs) after
  | comment {k fs after : List Char} : k ≠ [] → commentSize (k ++ (fs ++ after)) = k.length →
      Filled fs after → Filled (k ++ fs) after

/-- **`Settled cs`** -- neither a blank nor a comment begins here. -/
structure Settled (cs : List Char) : Prop where
  inked : ∀ c ∈ cs.head?, isFillerBlank c = false
  bare : commentSize cs = 0

theorem Filled.append {gs : List Char} (hfs : Filled fs (gs ++ after)) (hgs : Filled gs after) :
    Filled (fs ++ gs) after := by
  generalize hrest : gs ++ after = rest at hfs
  induction hfs with
  | nil => exact hgs
  | blank hc _ ih =>
    subst hrest
    exact .blank hc (ih rfl)
  | comment hne hsize _ ih =>
    subst hrest
    rw [List.append_assoc]
    exact .comment hne (by simpa using hsize) (ih rfl)

theorem filled_of_blanks (h : ∀ c ∈ cs, isFillerBlank c = true) : Filled cs after := by
  induction cs with
  | nil => exact .nil
  | cons c cs ih => exact .blank (h c (by simp)) (ih fun d hd => h d (by simp [hd]))

theorem ne_slash_of_isFillerBlank (h : isFillerBlank c = true) : c ≠ '/' := by
  rintro rfl
  cases h

theorem filled_of_comments {before : List Char}
    (h : grammar.Rounds (.seq comment (.many blank)) before cs after) : Filled cs after := by
  induction h with
  | done => exact .nil
  | more hone _ ih =>
    obtain ⟨us, vs, _, _, rfl, -, hcomment, hblanks⟩ := hone.of_tight_seq
    obtain ⟨hne, hsize⟩ := reads_comment hcomment
    rw [List.append_assoc]
    refine .comment hne (by simpa using hsize) ?_
    exact (filled_of_blanks (reads_blanks hblanks)).append ih

/-- What the grammar skips is filled, and where it stops nothing more is to be skipped. -/
theorem filled_of_reads {before : List Char} {nodes : List (Tree Rule)}
    (h : grammar.Reads true (.once filler) before cs after nodes) : Filled cs after ∧ Settled after := by
  refine ⟨?_, not_isFillerBlank_of_filler h, (reads_filler h).1⟩
  obtain ⟨xs, ys, _, _, rfl, -, hblanks, hcomments⟩ := h.of_tight_seq
  exact (filled_of_blanks (reads_blanks hblanks)).append (filled_of_comments hcomments.rounds)

/-- Filler may be empty, so it is never refused. -/
theorem not_refuses_filler {before : List Char} : ¬ grammar.Refuses true filler before after := by
  intro h
  rcases h.seq with h | ⟨_, _, _, _, _, h⟩ <;> exact not_refuses_many h

/-- Where a text is settled, no filler begins. -/
theorem Filled.eq_nil (h : Filled fs after) (hsettled : Settled (fs ++ after)) : fs = [] := by
  cases h with
  | nil => rfl
  | blank hc =>
    have hink := hsettled.inked _ rfl
    rw [hc] at hink
    cases hink
  | @comment k fs _ hne hsize =>
    have hbare := hsettled.bare
    rw [List.append_assoc, hsize] at hbare
    exact absurd (List.length_eq_zero_iff.mp hbare) hne

/-- A blank begins no comment. -/
theorem commentSize_of_isFillerBlank (h : isFillerBlank c = true) : commentSize (c :: cs) = 0 :=
  commentSize_of_ne (ne_slash_of_isFillerBlank h)

/-- Filler that begins where other filler ends at a settled place is the front of that. -/
theorem Filled.drop {k rest : List Char} (hk : Filled k rest) (hfs : Filled fs after)
    (hafter : Settled after) (h : fs ++ after = k ++ rest) :
    ∃ fs', fs = k ++ fs' ∧ rest = fs' ++ after ∧ Filled fs' after := by
  induction hk generalizing fs with
  | nil => exact ⟨fs, rfl, h.symm, hfs⟩
  | @blank c k rest hc hmore ih =>
    cases hfs with
    | nil =>
      cases (Filled.blank hc hmore).eq_nil (h ▸ hafter)
    | blank _ hfs =>
      obtain ⟨rfl, htail⟩ := List.cons.inj h
      obtain ⟨fs', rfl, rfl, hrest⟩ := ih hfs htail
      exact ⟨fs', rfl, rfl, hrest⟩
    | comment hne hsize =>
      rw [List.append_assoc, List.cons_append] at h
      rw [h, commentSize_of_isFillerBlank hc, eq_comm, List.length_eq_zero_iff] at hsize
      exact absurd hsize hne
  | @comment k more rest hne hsize hmore ih =>
    cases hfs with
    | nil =>
      have hnil := (Filled.comment hne hsize hmore).eq_nil (h ▸ hafter)
      exact absurd (List.append_eq_nil_iff.mp hnil).1 hne
    | blank hd =>
      rw [List.append_assoc, List.cons_append] at h
      rw [← h, commentSize_of_isFillerBlank hd, eq_comm, List.length_eq_zero_iff] at hsize
      exact absurd hsize hne
    | comment _ hsize' hfs =>
      rw [List.append_assoc, List.append_assoc] at h
      rw [h] at hsize'
      obtain ⟨rfl, htail⟩ := List.append_inj h (hsize'.symm.trans hsize)
      obtain ⟨fs', rfl, rfl, hrest⟩ := ih hfs htail
      exact ⟨fs', (List.append_assoc _ _ _).symm, rfl, hrest⟩

/-- Filler at a place goes to one place only. -/
theorem Filled.unique {gs rest : List Char} (hfs : Filled fs after) (hgs : Filled gs rest)
    (hafter : Settled after) (hrest : Settled rest) (h : fs ++ after = gs ++ rest) :
    fs = gs ∧ after = rest := by
  obtain ⟨more, rfl, rfl, hmore⟩ := hgs.drop hfs hafter h
  obtain rfl := hmore.eq_nil hrest
  exact ⟨List.append_nil _, rfl⟩

end QueryScore.Cypher
