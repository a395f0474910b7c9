/-
# QueryScore.Proofs.Filter.Settled -- splitting again changes nothing

The splitting collapses blanks and takes lower case only after it has cut and unwrapped, so what it
returns is another text than the one that it left alone. Still it leaves that text alone as well
(`Settled`): marks and word boundaries stay where they are, so no parentheses wrap it and the same
keywords are found in it. The set of the atoms is then its own set of atoms (`normalize_normalize`). That
holds of all texts, malformed ones included, but for those with `İ`: the second character of its lower
case ends a word, so behind it a keyword may stand that was none before.
-/

import QueryScore.Proofs.Filter.Combined
import QueryScore.Proofs.Text.Recased

namespace QueryScore.Filter

open Text Name

variable {a body cs ds p piece : List Char} {pending : Bool} {start : Nat} {hits : List Hit}

/-! ## Settled predicates -/

/-- **`Settled p`** -- a predicate as the splitting leaves it: not empty, with its blanks collapsed and in
lower case, wrapped by no parentheses, and with no connective to cut it at. -/
structure Settled (p : List Char) : Prop where
  ne_nil : p ≠ []
  collapsed : collapse p = p
  lower : lowercase p = p
  bare : unwrap? p = none
  uncut : operands p = [p]

theorem Settled.inked (h : Settled p) : Inked p := by
  have hne : collapse p ≠ [] := by
    rw [h.collapsed]
    exact h.ne_nil
  have hinked := inked_collapse (inked_trim (ink_of_collapse hne))
  rwa [collapse, words_trim, ← collapse, h.collapsed] at hinked

/-- A settled predicate is its only atom. -/
theorem Settled.atoms (h : Settled p) : atoms p = [p] := by
  have hstrip := stripWrappingParens_of_bare h.inked h.bare
  have hform : normalizeFragment p = p := by rw [normalizeFragment, h.collapsed, h.lower]
  have huncut := atoms_of_uncut p
  rw [hstrip, hform] at huncut
  exact huncut (by rw [h.uncut, List.length_singleton]) h.ne_nil

/-! ## The texts of the atoms -/

theorem trim_subset (cs : List Char) : trim cs ⊆ cs := by
  obtain ⟨bs, bs', -, -, hsplit⟩ := exists_trim cs
  intro c hc
  rw [hsplit]
  simp [hc]

theorem subset_of_mem_operandsFrom (h : piece ∈ operandsFrom cs start pending hits) : piece ⊆ cs := by
  induction hits generalizing start pending with
  | nil =>
    obtain rfl := List.mem_singleton.mp h
    exact List.Subset.trans (trim_subset _) (List.drop_subset _ _)
  | cons hit hits ih =>
    rw [operandsFrom] at h
    split at h
    · exact ih h
    · split at h
      · exact ih h
      · rcases List.mem_cons.mp h with rfl | h
        · exact List.Subset.trans (trim_subset _) (List.Subset.trans (List.drop_subset _ _) (List.take_subset _ _))
        · exact ih h

theorem subset_of_unwrap? (h : unwrap? cs = some body) : body ⊆ cs := by
  rw [unwrap?.eq_def] at h
  split at h
  · split at h
    · obtain rfl := Option.some.inj h
      exact List.Subset.trans (List.dropLast_subset _) (List.subset_cons_self _ _)
    · cases h
  · cases h

theorem stripWrappingParens_subset (cs : List Char) : stripWrappingParens cs ⊆ cs := by
  induction cs using stripWrappingParens.induct with
  | case1 cs inner hwrapped ih =>
    rw [stripWrappingParens_of_unwrap?_eq_some hwrapped]
    exact List.Subset.trans ih (List.Subset.trans (subset_of_unwrap? hwrapped) (trim_subset cs))
  | case2 cs hbare =>
    rw [stripWrappingParens_of_unwrap?_eq_none hbare]
    exact trim_subset cs

/-- **`Uncut body cs`** -- a stretch of a text that the splitting has left alone. -/
structure Uncut (body cs : List Char) : Prop where
  inked : Inked body
  bare : unwrap? body = none
  single : (operands body).length = 1
  within : body ⊆ cs

/-- Every atom is the comparison form of a stretch that is left alone. -/
theorem exists_uncut (h : a ∈ atoms cs) : ∃ body, Uncut body cs ∧ a = normalizeFragment body := by
  -- along the splitting: an atom that is empty, one that is not, and a cut
  induction cs using atoms.induct with
  | case1 cs body hsingle atom hempty =>
    rw [atoms_eq, if_pos hsingle, if_pos hempty] at h
    cases h
  | case2 cs body hsingle atom hne =>
    rw [atoms_eq, if_pos hsingle, if_neg hne] at h
    obtain rfl := List.mem_singleton.mp h
    obtain ⟨htrim, hbare⟩ := unwrap?_stripWrappingParens cs
    have hinked : Inked (stripWrappingParens cs) :=
      htrim ▸ inked_trim (ink_of_normalizeFragment (by simpa using hne))
    exact ⟨_, ⟨hinked, hbare, hsingle, stripWrappingParens_subset cs⟩, rfl⟩
  | case3 cs body hcut ih =>
    rw [atoms_of_cut cs hcut] at h
    obtain ⟨piece, hpiece, h⟩ := List.mem_flatMap.mp h
    obtain ⟨inner, hinner, hform⟩ := ih piece hpiece h
    have hwithin : piece ⊆ cs :=
      List.Subset.trans (subset_of_mem_operandsFrom hpiece) (stripWrappingParens_subset cs)
    exact ⟨inner, ⟨hinner.inked, hinner.bare, hinner.single, List.Subset.trans hinner.within hwithin⟩, hform⟩

/-! ## Their comparison forms -/

theorem plainWord_keywords : ∀ k ∈ keywords, PlainWord k := by
  have hplain : ∀ k ∈ keywords, (k.toList.all fun c => asciiLower c != 'k') = true := by decide
  exact fun k hk => ⟨singleWord_keywords k hk, by simpa using hplain k hk⟩

/-- How often a predicate is cut is decided by the keywords alone. -/
theorem length_operandsFrom_congr {hits' : List Hit} (h : hits.map Hit.keyword = hits'.map Hit.keyword)
    (cs ds : List Char) (start start' : Nat) (pending : Bool) :
    (operandsFrom cs start pending hits).length = (operandsFrom ds start' pending hits').length := by
  induction hits generalizing hits' start start' pending with
  | nil =>
    obtain rfl := List.map_eq_nil_iff.mp h.symm
    rfl
  | cons hit hits ih =>
    obtain ⟨hit', more, rfl, hkeyword, hmore⟩ := List.map_eq_cons_iff.mp h.symm
    rw [operandsFrom, operandsFrom, hkeyword]
    split
    · exact ih hmore.symm _ _ _
    · split
      · exact ih hmore.symm _ _ _
      · rw [List.length_cons, List.length_cons, ih hmore.symm]

/-- **The comparison form of a stretch that is left alone is settled.** -/
theorem Uncut.settled (h : Uncut body cs) (hdot : 'İ' ∉ cs) : Settled (normalizeFragment body) where
  ne_nil := normalizeFragment_ne_nil h.inked.ink
  collapsed := collapse_normalizeFragment body
  lower := lowercase_normalizeFragment body
  bare := unwrap?_normalizeFragment h.inked h.bare
  uncut := by
    have hkeywords := map_keyword_normalizeFragment plainWord_keywords h.inked fun hmem => hdot (h.within hmem)
    have hlength : (operands (normalizeFragment body)).length = 1 :=
      (length_operandsFrom_congr hkeywords _ _ _ _ _).trans h.single
    rw [operands_of_length hlength, (inked_normalizeFragment h.inked).trim]

/-- Every atom is settled. -/
theorem settled_of_mem_atoms (hdot : 'İ' ∉ cs) (h : a ∈ atoms cs) : Settled a := by
  obtain ⟨body, hbody, rfl⟩ := exists_uncut h
  exact hbody.settled hdot

/-! ## Sets of atoms -/

variable {filters : List String}

/-- Settled predicates are the set of their atoms. -/
theorem mem_normalize_of_settled (h : ∀ f ∈ filters, Settled f.toList) {x : String} :
    x ∈ normalize filters ↔ x ∈ filters := by
  rw [mem_normalize]
  constructor
  · rintro ⟨f, hf, hx⟩
    rw [(h f hf).atoms, List.mem_singleton] at hx
    rwa [String.toList_inj.mp hx]
  · exact fun hx => ⟨x, hx, by rw [(h x hx).atoms]; exact List.mem_singleton_self _⟩

/-- **Splitting again changes nothing.** Of filters without `İ` every predicate of the set is settled, and the
set is its own set of atoms. -/
theorem normalize_normalize (hdot : ∀ f ∈ filters, 'İ' ∉ f.toList) :
    normalize (normalize filters).toList = normalize filters ∧ ∀ p ∈ normalize filters, Settled p.toList := by
  have hsettled : ∀ p ∈ normalize filters, Settled p.toList := by
    intro p hp
    obtain ⟨f, hf, ha⟩ := mem_normalize.mp hp
    exact settled_of_mem_atoms (hdot f hf) ha
  refine ⟨SortedSet.ext fun x => ?_, hsettled⟩
  rw [mem_normalize_of_settled fun f hf => hsettled f (SortedSet.mem_def.mpr hf), SortedSet.mem_def]

/-- Filters with a bracket that none opens, a quote that does not end, signs that have another case beyond ASCII,
and parentheses around parentheses. -/
def untidyFilters : List String :=
  ["((A.\u212aind  >\t1 ) OR\nΟΔΟΣ ] BETWEEN 2 AND 3)", "( ( x = ' AND \\' (OR)", "Straße AND\u00a0( y )", " () "]

theorem normalize_untidyFilters : (∀ f ∈ untidyFilters, 'İ' ∉ f.toList) ∧
    normalize (normalize untidyFilters).toList = normalize untidyFilters ∧
    ∀ p ∈ normalize untidyFilters, Settled p.toList := by
  have hdot : ∀ f ∈ untidyFilters, 'İ' ∉ f.toList := by decide +kernel
  exact ⟨hdot, normalize_normalize hdot⟩

/-- Behind the lower case of `İ` a keyword stands that was none. -/
example : operands "İAND x".toList = ["İAND x".toList] ∧
    (operands (normalizeFragment "İAND x".toList)).length = 2 := by
  decide +kernel

end QueryScore.Filter
