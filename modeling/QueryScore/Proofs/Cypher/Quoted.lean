/-
# QueryScore.Proofs.Cypher.Quoted -- what the grammar reads between quote marks

Behind a quote mark the grammar reads up to the mark that closes the stretch, whatever stands
behind it: a string, in which a backslash hides a character (`yields_string`), and a name between
back quotes (`yields_backQuoted`). A balanced group is looked at with filler skipped between its
characters, and a back-quoted name in it is passed as a whole only if nothing in it looks like a
comment (`yields_backQuoted_loose`).
-/

import QueryScore.Proofs.Cypher.Spacing
import QueryScore.Proofs.Peg.Answer

namespace QueryScore.Cypher

open Text Grammar Peg

variable {q c : Char} {i : Nat} {body rest fs after : List Char} {nodes : List (Tree Rule)}

/-! ## One character -/

theorem yields_sign_of_ne {w d : Char} {atomic : Bool} (h : d ≠ w) (i : Nat) (rest : List Char) :
    grammar.Yields atomic (.text [w]) ⟨i, d :: rest⟩ .failed :=
  yields_text_failed (by simpa using h)

theorem yields_sign_nil {w : Char} {atomic : Bool} (i : Nat) :
    grammar.Yields atomic (.text [w]) ⟨i, []⟩ .failed :=
  yields_text_failed (by simp)

theorem yields_sign (w : Char) {atomic : Bool} (i : Nat) (rest : List Char) :
    grammar.Yields atomic (.text [w]) ⟨i, w :: rest⟩ (.matched ⟨i + 1, rest⟩ []) :=
  yields_text

/-- A character that is not the mark, where nothing is skipped. -/
theorem yields_allBut {closing : Peg Rule} {atomic : Bool}
    (hno : grammar.Yields atomic closing ⟨i, c :: rest⟩ .failed)
    (hskip : grammar.Skips atomic ⟨i, c :: rest⟩ ⟨i, c :: rest⟩) :
    grammar.Yields atomic (allBut closing) ⟨i, c :: rest⟩ (.matched ⟨i + 1, rest⟩ []) :=
  hno.absent.seq hskip yields_any

theorem yields_allBut_failed {closing : Peg Rule} {atomic : Bool} {at' later : Cursor}
    (h : grammar.Yields atomic closing at' (.matched later nodes)) :
    grammar.Yields atomic (allBut closing) at' .failed :=
  h.absent_failed.seq_failed

/-! ## Between two marks -/

/-- **`Passes q a`** -- inside an atomic rule, each round of `a` takes what may stand between marks
`q`, one character or one that a backslash hides, and the closing mark takes none. -/
structure Passes (q : Char) (a : Peg Rule) : Prop where
  closing : ∀ i rest, grammar.Yields true a ⟨i, q :: rest⟩ .failed
  plain : ∀ {c} i rest, c ≠ q → (c = '\\' → q = '`') →
    grammar.Yields true a ⟨i, c :: rest⟩ (.matched ⟨i + 1, rest⟩ [])
  escape : q ≠ '`' → ∀ c i rest,
    grammar.Yields true a ⟨i, '\\' :: c :: rest⟩ (.matched ⟨i + 2, rest⟩ [])

theorem Passes.walks {a : Peg Rule} (ha : Passes q a) (hbody : Inside q false body) (i : Nat)
    (rest : List Char) :
    grammar.Walks true a ⟨i, body ++ q :: rest⟩ ⟨i + body.length, q :: rest⟩ [] := by
  generalize hshown : false = hidden at hbody
  -- A backslash and the character it hides are one round.
  suffices h : (hidden = false → ∀ i, grammar.Walks true a ⟨i, body ++ q :: rest⟩
      ⟨i + body.length, q :: rest⟩ []) ∧ (hidden = true → ∃ c more, body = c :: more ∧
        ∀ i, grammar.Walks true a ⟨i, more ++ q :: rest⟩ ⟨i + more.length, q :: rest⟩ []) from
    h.1 hshown.symm i
  clear hshown i
  induction hbody with
  | nil => exact ⟨fun _ i => .done (skips_atomic _) (ha.closing i rest), nofun⟩
  | @hidden c body _ ih => exact ⟨nofun, fun _ => ⟨c, body, rfl, ih.1 rfl⟩⟩
  | escape hq _ ih =>
    obtain ⟨c, more, rfl, hmore⟩ := ih.2 rfl
    refine ⟨fun _ i => .more (skips_atomic _) (ha.escape hq c i _) ?_, nofun⟩
    have hrest := hmore (i + 2)
    rwa [show i + 2 + more.length = i + ('\\' :: c :: more).length by simp; omega] at hrest
  | @plain c body hne hslash _ _ ih =>
    refine ⟨fun _ i => .more (skips_atomic _) (ha.plain i _ hne hslash) ?_, nofun⟩
    have hrest := ih.1 rfl (i + 1)
    rwa [show i + 1 + body.length = i + (c :: body).length by simp; omega] at hrest

theorem Passes.yields_many {a : Peg Rule} (ha : Passes q a) (hbody : Inside q false body) (i : Nat)
    (rest : List Char) : grammar.Yields true (.many a) ⟨i, body ++ q :: rest⟩
      (.matched ⟨i + body.length, q :: rest⟩ []) := by
  have hwalks := ha.walks hbody i rest
  -- The first round is one of the others, since nothing is skipped before it.
  generalize hc : (⟨i, body ++ q :: rest⟩ : Cursor) = c at hwalks ⊢
  generalize ([] : List (Tree Rule)) = nodes at hwalks ⊢
  cases hwalks with
  | done hskip hend =>
    obtain rfl := eq_of_skips hskip
    exact yields_many_nil hend
  | more hskip hone hmore =>
    obtain rfl := eq_of_skips hskip
    exact hmore.yields_many hone

/-- A stretch between two marks is read as a whole. -/
theorem Passes.yields_between {a : Peg Rule} (ha : Passes q a) (hbody : Inside q false body)
    (i : Nat) (rest : List Char) :
    grammar.Yields true (seqs [.text [q], .many a, .text [q]]) ⟨i, q :: (body ++ q :: rest)⟩
      (.matched ⟨i + (body.length + 2), rest⟩ []) := by
  have hclose := (ha.yields_many hbody (i + 1) rest).seq (skips_atomic _)
    (yields_sign q (i + 1 + body.length) rest)
  have hall := (yields_sign q i (body ++ q :: rest)).seq (skips_atomic _) hclose
  have hlength : i + 1 + body.length + 1 = i + (body.length + 2) := by omega
  rw [hlength] at hall
  exact hall

/-- A character of a string, or two of them if the first is a backslash. -/
def stringPart (q : Char) : Peg Rule := alts [.seq (sign "\\") .any, allBut (.text [q])]

theorem passes_string (hq : q ≠ '`') (hslash : q ≠ '\\') : Passes q (stringPart q) where
  closing i rest := (yields_sign_of_ne hslash i rest).seq_failed.right
    (yields_allBut_failed (yields_sign q i rest))
  plain i rest hne hc := by
    refine Yields.right (yields_sign_of_ne (fun h => hq (hc h)) i rest).seq_failed ?_
    exact yields_allBut (yields_sign_of_ne hne i rest) (skips_atomic _)
  escape _ c i rest :=
    ((yields_sign '\\' i (c :: rest)).seq (skips_atomic _) yields_any).left

theorem passes_name : Passes '`' (allBut (sign "`")) where
  closing i rest := yields_allBut_failed (yields_sign '`' i rest)
  plain i rest hne _ := yields_allBut (yields_sign_of_ne hne i rest) (skips_atomic _)
  escape h := absurd rfl h

/-- **A string is read up to the mark that closes it.** -/
theorem yields_string (hq : q ≠ '`') (hslash : q ≠ '\\') (hbody : Inside q false body) (i : Nat)
    (rest : List Char) :
    grammar.Yields true (stringBetween (.text [q])) ⟨i, q :: (body ++ q :: rest)⟩
      (.matched ⟨i + (body.length + 2), rest⟩ []) :=
  (passes_string hq hslash).yields_between hbody i rest

/-- **A name between back quotes is read up to the next one.** -/
theorem yields_backQuoted (hbody : Inside '`' false body) (i : Nat) (rest : List Char) :
    grammar.Yields true backQuoted ⟨i, '`' :: (body ++ '`' :: rest)⟩
      (.matched ⟨i + (body.length + 2), rest⟩ []) :=
  passes_name.yields_between hbody i rest

/-! ## Stretches with filler skipped between their parts -/

/-- Filler leads to the place where it ends. -/
theorem skips_of_filled (hfs : Filled fs after) (hsettled : Settled after) (i : Nat) :
    grammar.Skips false ⟨i, fs ++ after⟩ ⟨i + fs.length, after⟩ := by
  refine ⟨[], fun fuel => ?_⟩
  cases fuel with
  | zero => exact .inl rfl
  | succ fuel =>
    show (grammar.run fuel true filler ⟨i, fs ++ after⟩).Settles _
    have hindex : (List.replicate i ' ').length = i := List.length_replicate
    cases hrun : grammar.run fuel true filler ⟨i, fs ++ after⟩ with
    | exhausted => exact .inl rfl
    | failed =>
      rw [← hindex] at hrun
      exact absurd ⟨fuel, hrun⟩ not_refuses_filler
    | matched later nodes =>
      rw [← hindex] at hrun
      have hgives : grammar.Gives true (.once filler) _ (fs ++ after) later nodes :=
        (grammar.runsRead fuel).run hrun
      obtain ⟨gs, rest, hsplit, rfl, hread⟩ := hgives
      obtain ⟨hgs, hrest⟩ := filled_of_reads hread
      obtain ⟨rfl, rfl⟩ := hfs.unique hgs hsettled hrest hsplit
      obtain rfl := hread.nodes_eq_nil
      rw [List.length_append, hindex]
      exact .refl _

/-- Where a text is settled, nothing is skipped. -/
theorem skips_of_settled (h : Settled after) (i : Nat) (atomic : Bool) :
    grammar.Skips atomic ⟨i, after⟩ ⟨i, after⟩ := by
  cases atomic with
  | true => exact skips_atomic _
  | false => exact skips_of_filled .nil h i

theorem commentSize_of_not_opensComment (h : opensComment after = false) : commentSize after = 0 := by
  unfold commentSize
  split <;> first | rfl | cases h

/-- **`Loose close G P a`** -- outside tokens each round of `a` takes a part of a stretch that `G`
tells of, and leaves nodes that `P` tells of; the closing sign takes none. -/
structure Loose (close : Char) (G : List Char → Prop) (P : List (Tree Rule) → Prop) (a : Peg Rule) :
    Prop where
  settled : ∀ rest, Settled (close :: rest)
  closing : ∀ i rest, grammar.Yields false a ⟨i, close :: rest⟩ .failed
  blank : ∀ {c g}, G (c :: g) → isFillerBlank c = true → G g
  bare : ∀ {c g}, G (c :: g) → isFillerBlank c = false → ∀ rest, commentSize (c :: (g ++ close :: rest)) = 0
  round : ∀ {c g}, G (c :: g) → (∀ rest, Settled (c :: (g ++ close :: rest))) → ∀ i,
    ∃ taken more ns, c :: g = taken ++ more ∧ taken ≠ [] ∧ G more ∧ P ns ∧ ∀ rest,
      grammar.Yields false a ⟨i, taken ++ (more ++ close :: rest)⟩
        (.matched ⟨i + taken.length, more ++ close :: rest⟩ ns)
  none : P []
  append : ∀ {ns ms}, P ns → P ms → P (ns ++ ms)

section Loose

variable {close : Char} {G : List Char → Prop} {P : List (Tree Rule) → Prop} {a : Peg Rule} {g : List Char}

/-- The next place that is no blank is the closing sign or a part of the stretch. -/
theorem Loose.exists_skip (ha : Loose close G P a) (hg : G g) :
    ∃ fs more, g = fs ++ more ∧ (∀ c ∈ fs, isFillerBlank c = true) ∧ G more ∧
      ∀ rest, Settled (more ++ close :: rest) := by
  induction g with
  | nil => exact ⟨[], [], rfl, by simp, hg, ha.settled⟩
  | cons c g ih =>
    by_cases hc : isFillerBlank c = true
    · obtain ⟨fs, more, rfl, hfs, hmore, hsettled⟩ := ih (ha.blank hg hc)
      refine ⟨c :: fs, more, rfl, fun d hd => ?_, hmore, hsettled⟩
      rcases List.mem_cons.mp hd with rfl | hd
      · exact hc
      · exact hfs d hd
    · have hc : isFillerBlank c = false := by simpa using hc
      exact ⟨[], c :: g, rfl, by simp, hg, fun rest => ⟨by simpa using hc, ha.bare hg hc rest⟩⟩

/-- The rounds go as far as the blanks before the closing sign. -/
theorem Loose.walks (ha : Loose close G P a) (hg : G g) (i : Nat) :
    ∃ j fs ns, (∀ c ∈ fs, isFillerBlank c = true) ∧ j + fs.length = i + g.length ∧ P ns ∧ ∀ rest,
      grammar.Walks false a ⟨i, g ++ close :: rest⟩ ⟨j, fs ++ close :: rest⟩ ns := by
  -- Several characters are taken at once, so the induction is on the length.
  induction hsize : g.length using Nat.strongRecOn generalizing g i with
  | ind size ih =>
    obtain ⟨fs, more, rfl, hfs, hmore, hsettled⟩ := ha.exists_skip hg
    have hskip (rest : List Char) : grammar.Skips false ⟨i, fs ++ more ++ close :: rest⟩
        ⟨i + fs.length, more ++ close :: rest⟩ := by
      rw [List.append_assoc]
      exact skips_of_filled (filled_of_blanks hfs) (hsettled rest) i
    cases more with
    | nil =>
      refine ⟨i, fs, [], hfs, by simpa using hsize, ha.none, fun rest => ?_⟩
      have hdone := hskip rest
      rw [List.append_nil] at hdone ⊢
      exact .done hdone (ha.closing _ rest)
    | cons c more =>
      obtain ⟨taken, later, ns, hsplit, hne, hlater, hns, hone⟩ := ha.round hmore hsettled (i + fs.length)
      have hlength := congrArg List.length hsplit
      have htaken := List.length_pos_iff.mpr hne
      rw [List.length_append] at hsize hlength
      obtain ⟨j, gs, ms, hgs, hj, hms, hwalks⟩ :=
        ih later.length (by omega) hlater (i + fs.length + taken.length) rfl
      refine ⟨j, gs, ns ++ ms, hgs, by omega, ha.append hns hms, fun rest => .more (hskip rest) ?_ (hwalks rest)⟩
      rw [hsplit, List.append_assoc]
      exact hone rest

/-- Where nothing is to be skipped, the rounds begin at once. -/
theorem Loose.yields_many (ha : Loose close G P a) (hg : G g) (hsettled : ∀ rest, Settled (g ++ close :: rest))
    (i : Nat) : ∃ j fs ns, (∀ c ∈ fs, isFillerBlank c = true) ∧ j + fs.length = i + g.length ∧ P ns ∧
      ∀ rest, grammar.Yields false (.many a) ⟨i, g ++ close :: rest⟩ (.matched ⟨j, fs ++ close :: rest⟩ ns) := by
  cases g with
  | nil => exact ⟨i, [], [], by simp, rfl, ha.none, fun rest => yields_many_nil (ha.closing i rest)⟩
  | cons c g =>
    obtain ⟨taken, later, ns, hsplit, hne, hlater, hns, hone⟩ := ha.round hg hsettled i
    obtain ⟨j, fs, ms, hfs, hj, hms, hwalks⟩ := ha.walks hlater (i + taken.length)
    refine ⟨j, fs, ns ++ ms, hfs, ?_, ha.append hns hms, fun rest => ?_⟩
    · rw [hsplit, List.length_append, hj, Nat.add_assoc]
    · rw [hsplit, List.append_assoc]
      exact (hwalks rest).yields_many (hone rest)

/-- **A stretch is passed as a whole**, up to the sign that closes it, blanks in it included. -/
theorem Loose.yields_between (ha : Loose close G P a) (hg : G g) (w : Char) (i : Nat) :
    ∃ ns, P ns ∧ ∀ rest, grammar.Yields false (seqs [.text [w], .many a, .text [close]])
      ⟨i, w :: (g ++ close :: rest)⟩ (.matched ⟨i + (g.length + 2), rest⟩ ns) := by
  obtain ⟨fs, more, rfl, hfs, hmore, hsettled⟩ := ha.exists_skip hg
  -- The rounds end before the blanks at the end of the stretch, which the sequence then skips.
  obtain ⟨j, gs, ns, hgs, hj, hns, hmany⟩ := ha.yields_many hmore hsettled (i + 1 + fs.length)
  refine ⟨ns, hns, fun rest => ?_⟩
  have hskip := skips_of_filled (filled_of_blanks hfs) (hsettled rest) (i + 1)
  rw [← List.append_assoc] at hskip
  have hclose := (hmany rest).seq (skips_of_filled (filled_of_blanks hgs) (ha.settled rest) j)
    (yields_sign close _ rest)
  have hall := (yields_sign w i (fs ++ more ++ close :: rest)).seq hskip hclose
  have hlength : j + gs.length + 1 = i + ((fs ++ more).length + 2) := by
    rw [hj, List.length_append]
    omega
  rw [hlength] at hall
  rw [← List.append_nil ns]
  exact hall

end Loose

theorem loose_name : Loose '`' (Inside '`' false) (· = []) (allBut (sign "`")) where
  settled rest := ⟨by simp [isFillerBlank], rfl⟩
  closing i rest := yields_allBut_failed (yields_sign '`' i rest)
  blank hg hc := by
    cases hg with
    | escape h => exact absurd rfl h
    | plain _ _ _ hmore => exact hmore
  bare hg _ rest := by
    cases hg with
    | escape h => exact absurd rfl h
    | plain _ _ hopens _ => exact commentSize_of_not_opensComment (hopens rfl rest)
  round {c g} hg hsettled i := by
    cases hg with
    | escape h => exact absurd rfl h
    | plain hne _ _ hmore =>
      refine ⟨[c], g, [], rfl, by simp, hmore, rfl, fun rest => ?_⟩
      exact yields_allBut (yields_sign_of_ne hne i _) (skips_of_settled (hsettled rest) i false)
  none := rfl
  append hns hms := by rw [hns, hms, List.append_nil]

/-- **A name in a balanced group is passed as a whole**, blanks in it included. -/
theorem yields_backQuoted_loose (hbody : Inside '`' false body) (i : Nat) (rest : List Char) :
    grammar.Yields false backQuoted ⟨i, '`' :: (body ++ '`' :: rest)⟩
      (.matched ⟨i + (body.length + 2), rest⟩ []) := by
  obtain ⟨_, rfl, hname⟩ := loose_name.yields_between hbody '`' i
  exact hname rest

end QueryScore.Cypher
