/-
# QueryScore.Proofs.Cypher.Comment -- a query text without its comments

The guard and the readers of raw text know no comments; the grammar skips them as filler. This
module says what the guard would have to look at: the text in which every character of a comment
is a space (`uncommented`). A comment begins outside quotes, with two slashes or with a slash and
a star; the second kind is one only where its end follows. Filler, as the grammar skips it, is
exactly what turns blank there, and where it ends no comment begins (`reads_filler`).
-/

import QueryScore.Cypher.Grammar
import QueryScore.Proofs.Peg.Refusal
import QueryScore.Proofs.Text.Shown

namespace QueryScore.Cypher

open Text Grammar

/-! ## Comments in a text -/

/-- The character ends a line. -/
def endsLine (c : Char) : Bool := c == '\n' || c == '\r'

/-- The length of the comment at the front of a text; zero if none begins there. -/
def commentSize : List Char → Nat
  | '/' :: '/' :: cs => (cs.takeWhile fun c => !endsLine c).length + 2
  | '/' :: '*' :: cs =>
    match splitOnce ['*', '/'] cs with
    | some (inside, _) => inside.length + 4
    | none => 0
  | _ => 0

/-- The text with spaces for comments, from a place on where `hidden` more characters belong to
a comment. -/
def uncommentFrom (hidden : Nat) (m : Mode) : List Char → List Char
  | [] => []
  | c :: cs =>
    match (if hidden = 0 ∧ m = .outside then commentSize (c :: cs) else hidden) with
    | 0 => c :: uncommentFrom 0 (m.step c) cs
    | more + 1 => ' ' :: uncommentFrom more m cs

/-- The text with a space for each character of a comment. -/
def uncommented (cs : List Char) : List Char := uncommentFrom 0 .outside cs

theorem commentSize_of_ne {c : Char} {cs : List Char} (h : c ≠ '/') : commentSize (c :: cs) = 0 := by
  unfold commentSize
  split <;> simp_all

theorem uncommentFrom_keep {m : Mode} {c : Char} {cs : List Char}
    (h : m = .outside → commentSize (c :: cs) = 0) :
    uncommentFrom 0 m (c :: cs) = c :: uncommentFrom 0 (m.step c) cs := by
  have hsize : (if 0 = 0 ∧ m = .outside then commentSize (c :: cs) else 0) = 0 := by
    split
    · rename_i hm
      exact h hm.2
    · rfl
  rw [uncommentFrom, hsize]

/-- A stretch without slashes outside quotes holds no comment. -/
theorem uncommentFrom_of_shown {m : Mode} {cs after : List Char} (h : Shown (· ≠ '/') m cs) :
    uncommentFrom 0 m (cs ++ after) = cs ++ uncommentFrom 0 (modeAfter m cs) after := by
  induction cs generalizing m with
  | nil => rfl
  | cons c cs ih =>
    obtain ⟨hc, h⟩ := h
    have hsize (hm : m = .outside) : commentSize (c :: (cs ++ after)) = 0 := by
      refine commentSize_of_ne ?_
      rintro rfl
      exact hc (by simp [Mode.shows, hm, isQuote]) rfl
    rw [List.cons_append, uncommentFrom_keep hsize, ih h]
    rfl

theorem uncommentFrom_hidden {m : Mode} {cs after : List Char} :
    uncommentFrom cs.length m (cs ++ after) =
      List.replicate cs.length ' ' ++ uncommentFrom 0 m after := by
  induction cs with
  | nil => rfl
  | cons c cs ih =>
    rw [List.cons_append, uncommentFrom, if_neg (by simp)]
    simp only [List.length_cons, List.replicate_succ, List.cons_append, List.cons.injEq, true_and]
    exact ih

theorem uncommented_of_commentSize {cs after : List Char} (hne : cs ≠ [])
    (h : commentSize (cs ++ after) = cs.length) :
    uncommented (cs ++ after) = List.replicate cs.length ' ' ++ uncommented after := by
  cases cs with
  | nil => exact absurd rfl hne
  | cons c cs =>
    rw [List.cons_append] at h
    rw [uncommented, List.cons_append, uncommentFrom, if_pos ⟨rfl, rfl⟩, h]
    simp only [List.length_cons, List.replicate_succ, List.cons_append, List.cons.injEq, true_and]
    exact uncommentFrom_hidden

theorem length_uncommentFrom (hidden : Nat) (m : Mode) (cs : List Char) :
    (uncommentFrom hidden m cs).length = cs.length := by
  induction cs generalizing hidden m with
  | nil => rfl
  | cons c cs ih =>
    rw [uncommentFrom]
    split <;> simp [ih]

/-- Blanking comments keeps the size of a text, so places stay where they are. -/
theorem length_uncommented (cs : List Char) : (uncommented cs).length = cs.length :=
  length_uncommentFrom 0 .outside cs

/-! ## What a stretch of a text becomes -/

/-- **`Bares cs after bare`** -- before `after`, the stretch `cs` without its comments is `bare`,
and no comment runs from it into `after`. -/
def Bares (cs after bare : List Char) : Prop :=
  bare.length = cs.length ∧ uncommented (cs ++ after) = bare ++ uncommented after

theorem Bares.nil {after : List Char} : Bares [] after [] := ⟨rfl, rfl⟩

theorem Bares.append {cs ds after bare₁ bare₂ : List Char} (h₁ : Bares cs (ds ++ after) bare₁)
    (h₂ : Bares ds after bare₂) : Bares (cs ++ ds) after (bare₁ ++ bare₂) := by
  refine ⟨by simp [h₁.1, h₂.1], ?_⟩
  rw [List.append_assoc, h₁.2, h₂.2, List.append_assoc]

theorem Bares.of_shown {cs after : List Char} (h : Shown (· ≠ '/') .outside cs)
    (hmode : modeAfter .outside cs = .outside) : Bares cs after cs := by
  refine ⟨rfl, ?_⟩
  rw [uncommented, uncommentFrom_of_shown h, hmode]
  rfl

theorem Bares.comment {cs after : List Char} (hne : cs ≠ [])
    (h : commentSize (cs ++ after) = cs.length) :
    Bares cs after (List.replicate cs.length ' ') :=
  ⟨by simp, uncommented_of_commentSize hne h⟩

/-- Before a place where no comment begins, a slash stays a slash. -/
theorem Bares.slash {after : List Char} (h : commentSize ('/' :: after) = 0) :
    Bares ['/'] after ['/'] := by
  refine ⟨rfl, ?_⟩
  rw [uncommented, List.singleton_append, uncommentFrom, if_pos ⟨rfl, rfl⟩, h]
  rfl

/-! ## Filler -/

/-- The blanks that the grammar skips. -/
def isFillerBlank (c : Char) : Bool := c == ' ' || c == '\t' || c == '\r' || c == '\n'

theorem shown_of_blanks {cs : List Char} (h : ∀ c ∈ cs, isFillerBlank c = true) :
    Shown (· ≠ '/') .outside cs ∧ modeAfter .outside cs = .outside := by
  induction cs with
  | nil => exact ⟨trivial, rfl⟩
  | cons c cs ih =>
    have hc : c ≠ '/' ∧ Mode.step .outside c = .outside := by
      have := h c (by simp)
      simp only [isFillerBlank, Bool.or_eq_true, beq_iff_eq] at this
      rcases this with ((rfl | rfl) | rfl) | rfl <;> decide
    obtain ⟨hs, hm⟩ := ih fun d hd => h d (by simp [hd])
    exact ⟨⟨fun _ => hc.1, by rwa [hc.2]⟩, by rw [modeAfter, List.foldl_cons, hc.2]; exact hm⟩

variable {before cs after : List Char} {nodes : List (Tree Rule)}

theorem reads_blank (h : grammar.Reads true (.once blank) before cs after nodes) :
    ∃ c, cs = [c] ∧ isFillerBlank c = true := by
  rcases h.of_alt with h | ⟨-, h⟩
  · exact ⟨' ', h.of_text.1, by decide⟩
  rcases h.of_alt with h | ⟨-, h⟩
  · exact ⟨'\t', h.of_text.1, by decide⟩
  rcases h.of_alt with h | ⟨-, h⟩
  · exact ⟨'\r', h.of_text.1, by decide⟩
  · exact ⟨'\n', h.of_text.1, by decide⟩

theorem reads_blanks (h : grammar.Reads true (.once (.many blank)) before cs after nodes) :
    ∀ c ∈ cs, isFillerBlank c = true := by
  refine h.rounds.all (P := fun cs => ∀ c ∈ cs, isFillerBlank c = true) (by simp)
    (fun hcs hds c hc => (List.mem_append.mp hc).elim (hcs c) (hds c)) fun hread => ?_
  obtain ⟨c, rfl, hc⟩ := reads_blank hread
  simpa using hc

/-- A character that does not begin `closing`. -/
theorem reads_allBut {closing : Peg Rule}
    (h : grammar.Reads true (.once (allBut closing)) before cs after nodes) :
    ∃ c, cs = [c] ∧ grammar.Refuses true closing before (c :: after) := by
  obtain ⟨xs, ys, ns, ms, rfl, -, hno, hany⟩ := h.of_tight_seq
  obtain ⟨rfl, -, hno⟩ := hno.of_absent
  cases hany with
  | any => exact ⟨_, rfl, hno⟩

theorem not_endsLine_of_refuses (h : grammar.Refuses true lineEnd before after) :
    ∀ c ∈ after.head?, endsLine c = false := by
  intro c hc
  obtain ⟨rest, rfl⟩ : ∃ rest, after = c :: rest := by
    cases after with
    | nil => cases hc
    | cons d rest =>
      obtain rfl := Option.some.inj hc
      exact ⟨rest, rfl⟩
  have hn : c ≠ '\n' := by
    rintro rfl
    exact h.alt.1.text ⟨rest, rfl⟩
  have hr : c ≠ '\r' := by
    rintro rfl
    exact h.alt.2.alt.2.text ⟨rest, rfl⟩
  simp [endsLine, hn, hr]

/-- The body of a comment to the end of the line. -/
theorem reads_lineBody
    (h : grammar.Reads true (.once (.many (allBut lineEnd))) before cs after nodes) :
    (∀ c ∈ cs, endsLine c = false) ∧ ∀ c ∈ after.head?, endsLine c = true := by
  have hrounds := h.rounds
  constructor
  · refine hrounds.all (P := fun cs => ∀ c ∈ cs, endsLine c = false) (by simp)
      (fun hcs hds c hc => (List.mem_append.mp hc).elim (hcs c) (hds c)) fun hread => ?_
    obtain ⟨c, rfl, hc⟩ := reads_allBut hread
    simpa using not_endsLine_of_refuses hc c rfl
  · intro c hc
    rcases hrounds.refuses.seq with hno | ⟨xs, rest, ns, rfl, hno, hany⟩
    · obtain ⟨xs, rest, ns, rfl, hread⟩ := hno.absent
      rcases hread.of_alt with hread | ⟨-, hread⟩
      · obtain ⟨rfl, -⟩ := hread.of_text
        obtain rfl := Option.some.inj hc
        decide
      rcases hread.of_alt with hread | ⟨-, hread⟩
      · obtain ⟨rfl, -⟩ := hread.of_text
        obtain rfl := Option.some.inj hc
        decide
      · obtain ⟨rfl, -⟩ := hread.of_text
        obtain rfl := Option.some.inj hc
        decide
    · obtain ⟨rfl, -, -⟩ := hno.of_absent
      obtain rfl := hany.any
      cases hc

/-- The end of a comment between marks. -/
def commentEnd : List Char := ['*', '/']

theorem commentSize_block {cs inside rest : List Char}
    (h : splitOnce commentEnd cs = some (inside, rest)) :
    commentSize ('/' :: '*' :: cs) = inside.length + 4 := by
  rw [commentSize, show ['*', '/'] = commentEnd from rfl, h]

theorem commentSize_unclosed {cs : List Char} (h : splitOnce commentEnd cs = none) :
    commentSize ('/' :: '*' :: cs) = 0 := by
  rw [commentSize, show ['*', '/'] = commentEnd from rfl, h]

/-- The body of a comment between marks holds no end mark. -/
theorem splitOnce_of_rounds (h : grammar.Rounds (allBut (sign "*/")) before cs after) :
    splitOnce commentEnd (cs ++ after) =
      (splitOnce commentEnd after).map fun (inside, rest) => (cs ++ inside, rest) := by
  induction h with
  | @done before after _ =>
    rw [List.nil_append]
    cases splitOnce commentEnd after <;> rfl
  | @more before cs ds after nodes hone _ ih =>
    obtain ⟨c, rfl, hno⟩ := reads_allBut hone
    have hstrip : stripStart commentEnd (c :: (ds ++ after)) = none := by
      cases hs : stripStart commentEnd (c :: (ds ++ after)) with
      | none => rfl
      | some rest => exact absurd ⟨rest, (stripStart_eq_some.mp hs).symm⟩ hno.text
    rw [List.append_assoc, List.singleton_append, splitOnce, hstrip, ih]
    cases splitOnce commentEnd after <;> rfl

theorem splitOnce_commentEnd_append (after : List Char) :
    splitOnce commentEnd (commentEnd ++ after) = some ([], after) := rfl

/-- A comment that the grammar reads is the comment that stands there. -/
theorem reads_comment (h : grammar.Reads true (.once comment) before cs after nodes) :
    cs ≠ [] ∧ commentSize (cs ++ after) = cs.length := by
  rcases h.of_alt with h | ⟨-, h⟩
  · obtain ⟨xs, ys, ns, ms, rfl, -, hmark, hbody⟩ := h.of_tight_seq
    obtain ⟨rfl, -⟩ := hmark.of_text
    obtain ⟨hys, hafter⟩ := reads_lineBody hbody
    have htake : (ys ++ after).takeWhile (fun c => !endsLine c) = ys := by
      rw [List.takeWhile_append_of_pos (by simpa using hys)]
      cases after with
      | nil => simp
      | cons c rest => simp [hafter c rfl]
    refine ⟨by simp, ?_⟩
    show ((ys ++ after).takeWhile _).length + 2 = _
    rw [htake]
    simp
  · obtain ⟨xs, zs, ns, ms, rfl, -, hmark, hrest⟩ := h.of_tight_seq
    obtain ⟨ys, ends, ns', ms', rfl, -, hbody, hend⟩ := hrest.of_tight_seq
    obtain ⟨rfl, -⟩ := hmark.of_text
    obtain ⟨rfl, -⟩ := hend.of_text
    have hsplit : splitOnce commentEnd (ys ++ (commentEnd ++ after)) = some (ys, after) := by
      have h := splitOnce_of_rounds hbody.rounds
      rw [show "*/".toList ++ after = commentEnd ++ after from rfl,
        splitOnce_commentEnd_append] at h
      simpa using h
    refine ⟨by simp, ?_⟩
    show commentSize ('/' :: '*' :: ((ys ++ commentEnd) ++ after)) = _
    rw [List.append_assoc, commentSize_block hsplit]
    simp

/-- Where the grammar refuses a comment, none begins. -/
theorem commentSize_of_refuses (h : grammar.Refuses true comment before after) :
    commentSize after = 0 := by
  obtain ⟨hline, hblock⟩ := h.alt
  have hslashes : ¬ "//".toList <+: after := by
    rcases hline.seq with h | ⟨_, _, _, _, _, h⟩
    · exact h.text
    · exact absurd h not_refuses_many
  rcases hblock.seq with h | ⟨xs, rest, ns, rfl, hmark, h⟩
  · have hstar := h.text
    unfold commentSize
    split
    · exact absurd ⟨_, rfl⟩ hslashes
    · exact absurd ⟨_, rfl⟩ hstar
    · rfl
  obtain ⟨rfl, -⟩ := hmark.of_text
  rcases h.seq with h | ⟨ys, rest, ns, rfl, hbody, hend⟩
  · exact absurd h not_refuses_many
  have hnone : splitOnce commentEnd (ys ++ rest) = none := by
    rw [splitOnce_of_rounds hbody.rounds]
    rcases hbody.rounds.refuses.seq with hno | ⟨_, _, _, rfl, hno, hany⟩
    · obtain ⟨zs, rest', _, rfl, hread⟩ := hno.absent
      obtain ⟨rfl, -⟩ := hread.of_text
      exact absurd ⟨rest', rfl⟩ hend.text
    · obtain ⟨rfl, -, -⟩ := hno.of_absent
      obtain rfl := hany.any
      rfl
  exact commentSize_unclosed hnone

theorem bares_of_blanks (h : grammar.Reads true (.once (.many blank)) before cs after nodes) :
    ∃ bare, Bares cs after bare ∧ ∀ c ∈ bare, isFillerBlank c = true := by
  have hcs := reads_blanks h
  obtain ⟨hs, hm⟩ := shown_of_blanks hcs
  exact ⟨cs, .of_shown hs hm, hcs⟩

theorem bares_of_comments
    (h : grammar.Rounds (.seq comment (.many blank)) before cs after) :
    ∃ bare, Bares cs after bare ∧ ∀ c ∈ bare, isFillerBlank c = true := by
  induction h with
  | done => exact ⟨[], .nil, by simp⟩
  | more hone _ ih =>
    obtain ⟨us, vs, _, _, rfl, -, hcomment, hblanks⟩ := hone.of_tight_seq
    obtain ⟨hne, hsize⟩ := reads_comment hcomment
    obtain ⟨bare₁, hbare₁, hb₁⟩ := bares_of_blanks hblanks
    obtain ⟨bare₂, hbare₂, hb₂⟩ := ih
    refine ⟨(List.replicate us.length ' ' ++ bare₁) ++ bare₂,
      ((Bares.comment hne (by simpa using hsize)).append hbare₁).append hbare₂, ?_⟩
    intro c hc
    simp only [List.mem_append, List.mem_replicate] at hc
    rcases hc with (⟨-, rfl⟩ | hc) | hc
    · decide
    · exact hb₁ c hc
    · exact hb₂ c hc

/-- **The filler of the grammar is what turns blank.** Where it ends, no comment begins. -/
theorem reads_filler (h : grammar.Reads true (.once filler) before cs after nodes) :
    commentSize after = 0 ∧
      ∃ bare, Bares cs after bare ∧ ∀ c ∈ bare, isFillerBlank c = true := by
  obtain ⟨xs, ys, ns, ms, rfl, -, hblanks, hcomments⟩ := h.of_tight_seq
  constructor
  · rcases hcomments.rounds.refuses.seq with h | ⟨_, _, _, _, _, h⟩
    · exact commentSize_of_refuses h
    · exact absurd h not_refuses_many
  · obtain ⟨bare₁, hbare₁, hb₁⟩ := bares_of_blanks hblanks
    obtain ⟨bare₂, hbare₂, hb₂⟩ := bares_of_comments hcomments.rounds
    exact ⟨bare₁ ++ bare₂, hbare₁.append hbare₂,
      fun c hc => (List.mem_append.mp hc).elim (hb₁ c) (hb₂ c)⟩

theorem not_isFillerBlank_of_refuses (h : grammar.Refuses true blank before after) :
    ∀ c ∈ after.head?, isFillerBlank c = false := by
  intro c hc
  obtain ⟨rest, rfl⟩ := List.head?_eq_some_iff.mp hc
  obtain ⟨hspace, h⟩ := h.alt
  obtain ⟨htab, h⟩ := h.alt
  obtain ⟨hreturn, hline⟩ := h.alt
  rw [Bool.eq_false_iff]
  intro hblank
  simp only [isFillerBlank, Bool.or_eq_true, beq_iff_eq] at hblank
  rcases hblank with ((rfl | rfl) | rfl) | rfl
  · exact hspace.text ⟨rest, rfl⟩
  · exact htab.text ⟨rest, rfl⟩
  · exact hreturn.text ⟨rest, rfl⟩
  · exact hline.text ⟨rest, rfl⟩

/-- Where filler ends, no blank follows: each comment takes the blanks behind it. -/
theorem not_isFillerBlank_of_filler (h : grammar.Reads true (.once filler) before cs after nodes) :
    ∀ c ∈ after.head?, isFillerBlank c = false := by
  obtain ⟨xs, ys, _, _, rfl, -, hblanks, hcomments⟩ := h.of_tight_seq
  have hstart := not_isFillerBlank_of_refuses hblanks.rounds.refuses
  have hrounds := hcomments.rounds
  clear h hblanks hcomments
  generalize before ++ xs = front at hrounds
  induction hrounds with
  | done => exact hstart
  | more hone _ ih =>
    obtain ⟨us, vs, _, _, rfl, -, -, hblanks⟩ := hone.of_tight_seq
    exact ih (not_isFillerBlank_of_refuses hblanks.rounds.refuses)

end QueryScore.Cypher
