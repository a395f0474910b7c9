/-
# QueryScore.Proofs.Cypher.Layout -- the layout of a query does not matter

Two texts have the same layout but for the lengths of their gaps if they are equal with one space for
each run of blanks outside quotes (`squeezed`). Such texts are read in lockstep, so one is accepted if
the other is, and their trees are the same but for the blanks in them; what is cut out of the raw texts
corresponds as well. So the same structure is extracted from both (`extract_squeezed`), as far as no
alias that is cut out holds a blank outside quotes.
-/

import QueryScore.Extraction
import QueryScore.Proofs.Cypher.Nesting
import QueryScore.Proofs.Cypher.Relaid
import QueryScore.Proofs.Cypher.Lockstep
import QueryScore.Proofs.Cypher.Sealed
import QueryScore.Proofs.Cypher.SimilarWalk

namespace QueryScore.Cypher

open Text Grammar Peg

variable {m n : Mode} {c : Char} {cs ds after : List Char} {t u : Tree Rule}

/-! ## One space for each run of blanks -/

/-- The text with one space for each run of blanks outside quotes; in a `gap`, the run has its space
already. -/
def squeezeFrom (gap : Bool) (m : Mode) : List Char → List Char
  | [] => []
  | c :: cs =>
    if m = .outside ∧ isFillerBlank c = true then
      if gap then squeezeFrom true m cs else ' ' :: squeezeFrom true m cs
    else c :: squeezeFrom false (m.step c) cs

/-- The text with one space for each run of blanks outside quotes. -/
def squeezed (cs : List Char) : List Char := squeezeFrom false .outside cs

theorem squeezeFrom_blank (hc : isFillerBlank c = true) (cs : List Char) :
    squeezeFrom false .outside (c :: cs) = ' ' :: squeezeFrom true .outside cs := by
  rw [squeezeFrom, if_pos ⟨rfl, hc⟩, if_neg (by simp)]

theorem squeezeFrom_keep (h : ¬ (m = .outside ∧ isFillerBlank c = true)) (gap : Bool) (cs : List Char) :
    squeezeFrom gap m (c :: cs) = c :: squeezeFrom false (m.step c) cs := by
  rw [squeezeFrom, if_neg h]

/-- A run of blanks has its space, and what is behind it follows. -/
theorem exists_run (cs : List Char) : ∃ ks rest, cs = ks ++ rest ∧ (∀ c ∈ ks, isFillerBlank c = true) ∧
    squeezeFrom true .outside cs = squeezeFrom false .outside rest := by
  induction cs with
  | nil => exact ⟨[], [], rfl, by simp, rfl⟩
  | cons c cs ih =>
    by_cases hc : isFillerBlank c = true
    · obtain ⟨ks, rest, rfl, hks, hsame⟩ := ih
      refine ⟨c :: ks, rest, rfl, by simpa [hc] using hks, ?_⟩
      rw [squeezeFrom, if_pos ⟨rfl, hc⟩, if_pos rfl, hsame]
    · have hkeep : ¬ (Mode.outside = .outside ∧ isFillerBlank c = true) := fun h => hc h.2
      exact ⟨[], c :: cs, rfl, by simp, by rw [squeezeFrom_keep hkeep, squeezeFrom_keep hkeep]⟩

/-- A text begins with what its squeezed form begins with: a blank for a space, or the same character. -/
theorem exists_of_squeezeFrom {es : List Char} (h : squeezeFrom false m ds = c :: es) :
    (m = .outside ∧ c = ' ' ∧ ∃ d ds', ds = d :: ds' ∧ isFillerBlank d = true ∧
      squeezeFrom true .outside ds' = es) ∨
    ¬ (m = .outside ∧ isFillerBlank c = true) ∧ ∃ ds', ds = c :: ds' ∧ squeezeFrom false (m.step c) ds' = es := by
  cases ds with
  | nil => cases h
  | cons d ds =>
    by_cases hd : m = .outside ∧ isFillerBlank d = true
    · obtain ⟨rfl, hd⟩ := hd
      rw [squeezeFrom_blank hd] at h
      obtain ⟨hc, hes⟩ := List.cons.inj h
      exact .inl ⟨rfl, hc.symm, d, ds, rfl, hd, hes⟩
    · rw [squeezeFrom_keep hd] at h
      obtain ⟨rfl, hes⟩ := List.cons.inj h
      exact .inr ⟨hd, ds, rfl, hes⟩

/-- **Texts that are equal with one space for each run go side by side**, if the first holds no comment. -/
theorem respaced_of_squeezed (h : squeezeFrom false m ds = squeezeFrom false m cs)
    (hbare : isCommentless m cs = true) : Respaced relaying m [] cs ds (modeAfter m cs) := by
  -- A run is passed at once, so the induction is on the length.
  induction hsize : cs.length using Nat.strongRecOn generalizing m cs ds with
  | ind size ih =>
    cases cs with
    | nil =>
      cases ds with
      | nil => exact .nil
      | cons d ds =>
        by_cases hd : m = .outside ∧ isFillerBlank d = true
        · obtain ⟨rfl, hd⟩ := hd
          rw [squeezeFrom_blank hd] at h
          cases h
        · rw [squeezeFrom_keep hd] at h
          cases h
    | cons c cs =>
      rw [List.length_cons] at hsize
      by_cases hc : m = .outside ∧ isFillerBlank c = true
      · obtain ⟨rfl, hc⟩ := hc
        rw [squeezeFrom_blank hc] at h
        rcases exists_of_squeezeFrom h with ⟨-, -, d, ds', rfl, hd, hsame⟩ | ⟨hkeep, -⟩
        · obtain ⟨ks, rest, rfl, hks, hleft⟩ := exists_run cs
          obtain ⟨ls, rest', rfl, hls, hright⟩ := exists_run ds'
          rw [hleft, hright] at hsame
          have hblank : ∀ b ∈ c :: ks, isFillerBlank b = true := by simpa [hc] using hks
          have hmode : modeAfter .outside (c :: ks) = .outside :=
            modeAfter_blank fun b hb => (isBlank_of_isFillerBlank (hblank b hb)).1
          have hrest : isCommentless (modeAfter .outside (c :: ks)) rest = true := isCommentless_append hbare
          rw [hmode] at hrest
          rw [← List.cons_append, ← List.cons_append, modeAfter_append, hmode]
          have hgap : relaying.allows (c :: ks) (d :: ls) (rest ++ []) :=
            ⟨⟨by simp, hblank⟩, by simp, by simpa [hd] using hls⟩
          exact .gap hgap (ih rest.length (by rw [List.length_append] at hsize; omega) hsame hrest rfl)
        · exact absurd ⟨rfl, rfl⟩ hkeep
      · rw [squeezeFrom_keep hc] at h
        rcases exists_of_squeezeFrom h with ⟨rfl, rfl, -⟩ | ⟨-, ds', rfl, hsame⟩
        · exact absurd ⟨rfl, rfl⟩ hc
        · have hadmits : Admits m (c :: (cs ++ [])) := by
            rw [List.append_nil]
            exact admits_of_commentless hbare
          exact .keep hadmits (ih cs.length (by omega) hsame ((Bool.and_eq_true _ _).mp hbare).2 rfl)

theorem relaid_of_respaced (h : Respaced relaying m after cs ds n) : Relaid m cs ds := by
  induction h with
  | nil => exact .nil
  | keep _ _ ih => exact .keep ih
  | gap hgap _ ih =>
    have hblank {ks : List Char} (hks : ks ≠ [] ∧ ∀ c ∈ ks, isFillerBlank c = true) : Gap ks :=
      ⟨hks.1, fun c hc => (isBlank_of_isFillerBlank (hks.2 c hc)).1⟩
    exact .gap (hblank hgap.1) (hblank hgap.2) ih

/-! ## The structure -/

/-- Conditions that differ in their blanks are the same filters. -/
theorem filters_relaid (h : Similar (Relaid .outside) t u) : (walkTree u).filters = (walkTree t).filters :=
  filters_of_similar h fun e _ e' hsame => by rw [filterOf, filterOf, hsame.texts.normalizeFragment_eq]

/-- Projections that differ in their blanks call the same aggregate functions. -/
theorem aggregateFunctions_relaid (h : Similar (Relaid .outside) t u) :
    aggregateFunctions (walkTree u).projections = aggregateFunctions (walkTree t).projections := by
  have hcalls : ((projectionsOf u).map fun list => calls aggregateNames list.text) =
      (projectionsOf t).map fun list => calls aggregateNames list.text :=
    map_eq_of_forall₂ (projectionsOf_similar t u h).forall₂ fun _ _ _ hsame => hsame.texts.calls_eq (by decide)
  have hflat (t : Tree Rule) : (walkTree t).projections.flatMap (calls aggregateNames) =
      ((projectionsOf t).map fun list => calls aggregateNames list.text).flatten := by
    rw [walkTree, projections_walk]
    simp [List.flatMap_def, Function.comp_def]
  rw [aggregateFunctions, aggregateFunctions, hflat, hflat, hcalls]

/-- **Relaid texts are accepted both or not**, and their trees differ in blanks only. -/
theorem exists_relaid {source target : List Char} (h : parse source = .ok t)
    (hsame : squeezed target = squeezed source) (hbare : isCommentless .outside source = true) :
    Relaid .outside source target ∧ ∃ u, parse target = .ok u ∧ Similar (Relaid .outside) t u := by
  have hrespaced := respaced_of_squeezed hsame hbare
  have hrelaid := relaid_of_respaced hrespaced
  have hclosed := closed_of_parse h
  rw [uncommented, uncommentFrom_of_commentless hbare] at hclosed
  rw [hclosed] at hrespaced
  have hguard : nesting target ≤ maxNesting := (nesting_relaid hrelaid).trans_le (reads_of_parse h).1
  obtain ⟨u, hparse, hsimilar⟩ := parse_beside h hrespaced hguard
  refine ⟨hrelaid, u, hparse, hsimilar.mono fun _ _ hturns => ?_⟩
  obtain ⟨_, hturns⟩ := hturns
  exact relaid_of_respaced hturns

/-- A query on lines of their own, with blanks in a string. -/
def laidOutQuery : String :=
  "MATCH (n:P)\n WHERE n.x = 'a  b' \tRETURN n.x AS  x,\r\n count( n ) ORDER BY n.x   DESC"

end QueryScore.Cypher
