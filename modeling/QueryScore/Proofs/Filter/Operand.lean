/-
# QueryScore.Proofs.Filter.Operand -- where a predicate is cut

A predicate is cut at the connectives that stand at its top level. Here the text is given as
operands with connectives between them (`Joined`): each operand has its brackets in pairs and no
keyword at its top level but each `BETWEEN` with its `AND` (`Operand`), and a connective is apart
from its operands (`Link`). Then the cut is at these connectives and nowhere else
(`operands_of_joined`), however the operands look inside.
-/

import QueryScore.Filter
import QueryScore.Proofs.Text.Alike
import QueryScore.Proofs.Text.Hit

namespace QueryScore.Filter

open Text

variable {word front bs bs' cs ds u rest : List Char} {hits later : List Hit} {us vs : List (List Char)}

/-! ## The keywords -/

theorem singleWord_keywords : ∀ k ∈ keywords, SingleWord k := by
  have hwords : ∀ k ∈ keywords, Text.words k.toList = [k.toList] ∧
      (k.toList.all Char.isAlpha) = true := by decide
  exact fun k hk => ⟨(hwords k hk).1, List.all_eq_true.mp (hwords k hk).2⟩

/-- **`IsConnective word`** -- the word is `AND` or `OR`, in any case. -/
def IsConnective (word : List Char) : Prop :=
  ∃ k ∈ ["AND", "OR"], word.map asciiLower = k.toList.map asciiLower

theorem IsConnective.letters (h : IsConnective word) : ∀ c ∈ word, c.isAlpha = true := by
  obtain ⟨k, hk, hword⟩ := h
  exact isAlpha_of_mem hword (singleWord_keywords k (List.mem_cons_of_mem _ hk)).alpha

theorem IsConnective.ne_nil (h : IsConnective word) : word ≠ [] := by
  rintro rfl
  obtain ⟨k, hk, hword⟩ := h
  have hne : ∀ k ∈ ["AND", "OR"], k.toList ≠ [] := by decide
  exact hne k hk (List.map_eq_nil_iff.mp hword.symm)

theorem IsConnective.inked (h : IsConnective word) : Inked word := by
  have hink : ∀ c ∈ word, isBlank c = false := fun c hc => not_isBlank_of_isAlpha (h.letters c hc)
  have hlast := List.getLast?_eq_some_getLast h.ne_nil
  obtain ⟨c, rest, rfl⟩ := List.exists_cons_of_ne_nil h.ne_nil
  exact ⟨⟨c, rfl, hink c (by simp)⟩, _, hlast, hink _ (List.getLast_mem _)⟩

/-- The keyword of the list that a whole word spells is the one that is found. -/
theorem exists_firstKeyword (h : IsConnective word) (hstop : startsInsideWord rest = false) :
    ∃ k ∈ ["AND", "OR"], firstKeyword keywords (word ++ rest) = some (k, word.length) := by
  obtain ⟨k, hk, hword⟩ := h
  have hmem : k ∈ keywords := List.mem_cons_of_mem _ hk
  have hstrip := (singleWord_keywords k hmem).strip.mpr ⟨word, rfl, hword, hstop⟩
  have hsome : (firstKeyword keywords (word ++ rest)).isSome = true := by
    rw [firstKeyword, List.isSome_findSome?, List.any_eq_true]
    exact ⟨k, hmem, by simp [hstrip]⟩
  obtain ⟨found, hfound⟩ := Option.isSome_iff_exists.mp hsome
  obtain ⟨k', hmem', hfound'⟩ := List.exists_of_findSome?_eq_some hfound
  obtain ⟨rest', hstrip', rfl⟩ := Option.map_eq_some_iff.mp hfound'
  obtain ⟨word', hsplit, hword', hstop'⟩ := (singleWord_keywords k' hmem').strip.mp hstrip'
  have hletters := isAlpha_of_mem hword (singleWord_keywords k hmem).alpha
  -- Both are the whole word that stands there.
  have hsame : word' = word := by
    refine eq_of_wholeWord hsplit (fun c hc => ?_) (fun c hc => ?_)
      (isAlpha_of_mem hword' (singleWord_keywords k' hmem').alpha) (.inl hstop')
    · exact ⟨isIdentifierChar_of_isAlpha (hletters c hc), not_isBlank_of_isAlpha (hletters c hc)⟩
    · obtain ⟨more, rfl⟩ := List.head?_eq_some_iff.mp hc
      rw [Bool.eq_false_iff]
      intro halpha
      rw [startsInsideWord, isIdentifierChar_of_isAlpha halpha] at hstop
      cases hstop
  subst hsame
  obtain rfl := List.append_cancel_left hsplit
  have hdistinct : ∀ k ∈ keywords, ∀ l ∈ keywords,
      k.toList.map asciiLower = l.toList.map asciiLower → k = l := by decide
  obtain rfl := hdistinct k' hmem' k hmem (hword'.symm.trans hword)
  exact ⟨k', hk, by rw [hfound, List.length_append, Nat.add_sub_cancel]⟩

/-- Behind a connective that stands whole and apart a search takes up at its end. -/
theorem hitsFrom_connective (h : IsConnective word) (hstop : startsInsideWord rest = false)
    {before : Option Char} (hbefore : ∀ b ∈ before, isSticky b = false) {index resume : Nat}
    (hresume : resume ≤ index) :
    ∃ k ∈ ["AND", "OR"], hitsFrom keywords {} before index resume (word ++ rest) =
      ⟨index, index + word.length, k⟩ ::
        hitsFrom keywords {} word.getLast? (index + word.length) (index + word.length) rest := by
  obtain ⟨k, hk, hfound⟩ := exists_firstKeyword h hstop
  have hhit : isHit keywords {} before (word ++ rest) = true := by
    obtain ⟨w, ws, rfl⟩ := List.exists_cons_of_ne_nil h.ne_nil
    have hw : w.isAlpha = true := h.letters w (by simp)
    rw [List.cons_append] at hfound ⊢
    simp [isHit, isTop_of_isAlpha hw, isWordStart_of_isAlpha hw hbefore, hfound]
  have hrun : Scanner.run {} word = {} :=
    (paired_of_plain fun c hc => not_mark_of_isAlpha (h.letters c hc)).run
  have hall := hitsFrom_of_hit h.ne_nil h.letters hhit hfound hresume
  rw [hrun] at hall
  exact ⟨k, hk, hall⟩

/-! ## Operands -/

/-- **`closesBetween pending hits`** -- the keywords are `BETWEEN`s, each with its `AND`; `pending`
is true while a `BETWEEN` waits. -/
def closesBetween : Bool → List Hit → Bool
  | pending, [] => !pending
  | pending, h :: hits =>
    if h.keyword = "BETWEEN" then closesBetween true hits
    else h.keyword = "AND" && pending && closesBetween false hits

theorem closesBetween_shift (pending : Bool) (size : Nat) :
    closesBetween pending (hits.map (Hit.shift size)) = closesBetween pending hits := by
  induction hits generalizing pending with
  | nil => rfl
  | cons h hits ih =>
    rw [List.map_cons, closesBetween, closesBetween, ih, ih]
    rfl

/-- At such keywords nothing is cut. -/
theorem operandsFrom_append {pending : Bool} (h : closesBetween pending hits = true)
    (later : List Hit) (cs : List Char) (start : Nat) :
    operandsFrom cs start pending (hits ++ later) = operandsFrom cs start false later := by
  induction hits generalizing pending with
  | nil =>
    simp only [closesBetween, Bool.not_eq_true'] at h
    rw [h, List.nil_append]
  | cons hit hits ih =>
    rw [closesBetween] at h
    rw [List.cons_append, operandsFrom]
    split at h
    · rename_i hbetween
      rw [if_pos hbetween]
      exact ih h
    · rename_i hbetween
      obtain ⟨hand, h⟩ := Bool.and_eq_true_iff.mp h
      rw [if_neg hbetween, if_pos hand]
      exact ih h

/-- **`Operand u`** -- a text that is no blank at its ends, whose brackets are in pairs, and which is
not cut. -/
structure Operand (u : List Char) : Prop where
  inked : Inked u
  paired : Paired u
  between : closesBetween false (findKeywords keywords u) = true

instance (u : List Char) : Decidable (Operand u) :=
  decidable_of_iff (Inked u ∧ Paired u ∧ closesBetween false (findKeywords keywords u) = true)
    ⟨fun ⟨h₁, h₂, h₃⟩ => ⟨h₁, h₂, h₃⟩, fun h => ⟨h.inked, h.paired, h.between⟩⟩

/-- **`Link l bs word bs' r`** -- a connective between two texts, with blanks or a bracket on either
side. -/
structure Link (l bs word bs' r : List Char) : Prop where
  before : Blank bs
  word : IsConnective word
  behind : Blank bs'
  left : bs = [] → ∃ c ∈ l.getLast?, isClosing c = true
  right : bs' = [] → ∃ c ∈ r.head?, isOpening c = true

/-- Facts about the brackets. -/
theorem of_isBracket {c : Char} (h : isOpening c = true ∨ isClosing c = true) :
    isSticky c = false ∧ isIdentifierChar c = false ∧ c.isAlpha = false ∧ isBlank c = false := by
  simp only [isOpening, isClosing, Bool.or_eq_true, beq_iff_eq] at h
  rcases h with ((rfl | rfl) | rfl) | ((rfl | rfl) | rfl) <;> decide

/-- Before a connective no word goes on. -/
theorem Link.not_isSticky (h : Link u bs word bs' rest) : ∀ b ∈ (u ++ bs).getLast?, isSticky b = false := by
  intro b hb
  rw [List.getLast?_append] at hb
  cases hbs : bs.getLast? with
  | some d =>
    rw [hbs] at hb
    obtain rfl := Option.some.inj hb
    exact not_isSticky_of_isBlank (h.before _ (List.mem_of_getLast? hbs))
  | none =>
    rw [hbs, Option.none_or] at hb
    obtain ⟨c, hc, hclose⟩ := h.left (List.getLast?_eq_none_iff.mp hbs)
    obtain rfl := Option.mem_unique hc hb
    exact (of_isBracket (.inr hclose)).1

/-- Behind a connective no word goes on. -/
theorem Link.startsInsideWord (h : Link u bs word bs' rest) :
    startsInsideWord (bs' ++ rest) = false := by
  cases hbs : bs' with
  | cons b bs' => exact not_isIdentifierChar_of_isBlank (h.behind b (by simp [hbs]))
  | nil =>
    obtain ⟨c, hc, hopen⟩ := h.right hbs
    obtain ⟨more, rfl⟩ := List.head?_eq_some_iff.mp hc
    exact (of_isBracket (.inl hopen)).2.1

/-- No word goes on from an operand to what follows it before a connective. -/
theorem Link.apart (h : Link u bs word bs' rest) (ds : List Char) :
    (∀ c ∈ (bs ++ ds).head?, isIdentifierChar c = false) ∨ ∀ c ∈ u.getLast?, c.isAlpha = false := by
  cases hbs : bs with
  | cons b bs =>
    refine .inl fun c hc => ?_
    obtain rfl := Option.some.inj hc
    exact not_isIdentifierChar_of_isBlank (h.before _ (by simp [hbs]))
  | nil =>
    refine .inr fun c hc => ?_
    obtain ⟨d, hd, hclose⟩ := h.left hbs
    obtain rfl := Option.mem_unique hd hc
    exact (of_isBracket (.inr hclose)).2.2.1

/-- No word goes on from a connective to what follows it. -/
theorem Link.apart_behind (h : Link u bs word bs' rest) (front : List Char) :
    (∀ b ∈ (front ++ bs').getLast?, isSticky b = false) ∨ ∀ c ∈ rest.head?, c.isAlpha = false := by
  cases hbs : bs'.getLast? with
  | some d =>
    refine .inl fun b hb => ?_
    rw [List.getLast?_append, hbs] at hb
    obtain rfl := Option.some.inj hb
    exact not_isSticky_of_isBlank (h.behind _ (List.mem_of_getLast? hbs))
  | none =>
    obtain ⟨d, hd, hopen⟩ := h.right (List.getLast?_eq_none_iff.mp hbs)
    refine .inr fun c hc => ?_
    obtain rfl := Option.mem_unique hd hc
    exact (of_isBracket (.inl hopen)).2.2.1

/-- **`Joined cs us`** -- operands with connectives between them. -/
inductive Joined : List Char → List (List Char) → Prop
  | one {u : List Char} : Operand u → Joined u [u]
  | more {u bs word bs' rest : List Char} {us : List (List Char)} : Operand u → Link u bs word bs' rest → Joined rest us →
    Joined (u ++ (bs ++ (word ++ (bs' ++ rest)))) (u :: us)

theorem Joined.ne_nil (h : Joined cs us) : us ≠ [] := by cases h <;> simp

theorem Joined.inked (h : Joined cs us) : Inked cs := by
  induction h with
  | one hu => exact hu.inked
  | @more _ bs _ bs' _ _ hu hlink _ ih => exact hu.inked.append bs (hlink.word.inked.append bs' ih)

theorem IsConnective.paired (h : IsConnective word) : Paired word :=
  paired_of_plain fun c hc => not_mark_of_isAlpha (h.letters c hc)

theorem Joined.paired (h : Joined cs us) : Paired cs := by
  induction h with
  | one hu => exact hu.paired
  | more hu hlink _ ih =>
    exact hu.paired.append ((paired_of_blank hlink.before).append
      (hlink.word.paired.append ((paired_of_blank hlink.behind).append ih)))

/-- Two chains with a connective between them are one. -/
theorem Joined.append {l r : List Char} (hl : Joined l us) (hlink : Link l bs word bs' r)
    (hr : Joined r vs) : Joined (l ++ (bs ++ (word ++ (bs' ++ r)))) (us ++ vs) := by
  induction hl with
  | one hu => exact .more hu hlink hr
  | @more u bs₀ word₀ bs₀' rest us hu hfirst hrest ih =>
    have hlast : bs = [] → ∃ c ∈ rest.getLast?, isClosing c = true := by
      intro hbs
      obtain ⟨c, hc, hclose⟩ := hlink.left hbs
      obtain ⟨d, hd, -⟩ := hrest.inked.last
      have hd' := getLast?_append_of_mem u (getLast?_append_of_mem bs₀
        (getLast?_append_of_mem word₀ (getLast?_append_of_mem bs₀' hd)))
      obtain rfl := Option.mem_unique hc hd'
      exact ⟨c, hd, hclose⟩
    have hhead : bs₀' = [] → ∃ c ∈ (rest ++ (bs ++ (word ++ (bs' ++ r)))).head?, isOpening c = true := by
      intro hbs
      obtain ⟨c, hc, hopen⟩ := hfirst.right hbs
      exact ⟨c, head?_append_of_mem hc _, hopen⟩
    have hmore := Joined.more hu ⟨hfirst.before, hfirst.word, hfirst.behind, hfirst.left, hhead⟩
      (ih ⟨hlink.before, hlink.word, hlink.behind, hlast, hlink.right⟩)
    simpa using hmore

/-! ## The cut -/

/-- A search passes an operand: what it finds there cuts nothing. -/
theorem Operand.exists_hits (h : Operand u) {ds : List Char}
    (hend : (∀ c ∈ ds.head?, isIdentifierChar c = false) ∨ ∀ c ∈ u.getLast?, c.isAlpha = false)
    {before : Option Char} (hbefore : (∀ b ∈ before, isSticky b = false) ∨ ∀ c ∈ u.head?, c.isAlpha = false)
    {index resume : Nat} (hresume : resume ≤ index) :
    ∃ hits, closesBetween false hits = true ∧
      hitsFrom keywords {} before index resume (u ++ ds) =
        hits ++ hitsFrom keywords {} u.getLast? (index + u.length) (index + u.length) ds := by
  obtain ⟨resume', hle, hparts⟩ := exists_hitsFrom_parts singleWord_keywords hend {} before
    (show resume ≤ index + u.length by omega)
  have hstart : ∀ c ∈ u.head?, isWordStart before c = isWordStart none c := by
    intro c hc
    rcases hbefore with hbefore | hhead
    · exact isWordStart_of_not_isSticky hbefore c
    · simp [isWordStart, hhead c hc]
  have hsame : hitsFrom keywords {} before index resume u =
      (findKeywords keywords u).map (Hit.shift index) := hitsFrom_eq_shift hstart hresume
  have hlast : u.getLast?.or before = u.getLast? := by
    obtain ⟨c, hc, -⟩ := h.inked.last
    rw [Option.mem_def.mp hc, Option.some_or]
  refine ⟨_, (closesBetween_shift false index).trans h.between, ?_⟩
  rw [hparts, hsame, h.paired.run, hlast, hitsFrom_resume hle (Nat.le_refl _)]

/-- The first operand of a text that is cut behind it. -/
theorem trim_operand (hu : Inked u) (hbs : Blank bs) (hbs' : Blank bs') (rest : List Char)
    {front cs : List Char}
    (hcs : cs = front ++ (bs ++ u ++ bs' ++ rest)) :
    trim ((cs.take (front.length + bs.length + u.length + bs'.length)).drop front.length) = u := by
  have hlength : front.length + bs.length + u.length + bs'.length =
      (front ++ (bs ++ u ++ bs')).length := by
    simp only [List.length_append]
    omega
  rw [hcs, ← List.append_assoc front, hlength, List.take_left, List.drop_left, List.append_assoc,
    trim_append hbs hbs', hu.trim]

/-- A search passes blanks. -/
theorem hitsFrom_blank (h : Blank bs) (front cs : List Char) (index resume : Nat) :
    hitsFrom keywords {} front.getLast? index resume (bs ++ cs) =
      hitsFrom keywords {} (front ++ bs).getLast? (index + bs.length) resume cs := by
  rw [hitsFrom_of_quiet (h.quiet 0), run_blank h, List.getLast?_append]

/-- **A text is cut at the connectives between its operands**, whatever stands in front of it. -/
theorem operandsFrom_of_joined (h : Joined cs us) (hbs : Blank bs)
    (hfront : (∀ b ∈ (front ++ bs).getLast?, isSticky b = false) ∨ ∀ c ∈ cs.head?, c.isAlpha = false) :
    operandsFrom (front ++ (bs ++ cs)) front.length false
      (hitsFrom keywords {} front.getLast? front.length front.length (bs ++ cs)) = us := by
  induction h generalizing front bs with
  -- The last operand: all hits that are left lie in it and cut nothing.
  | @one u hu =>
    have hend : (∀ c ∈ ([] : List Char).head?, isIdentifierChar c = false) ∨
        ∀ c ∈ u.getLast?, c.isAlpha = false := .inl (by simp)
    obtain ⟨hits, hcloses, hhits⟩ := hu.exists_hits hend hfront
      (Nat.le_add_right front.length bs.length)
    rw [List.append_nil, hitsFrom, List.append_nil] at hhits
    have hcut := operandsFrom_append hcloses [] (front ++ (bs ++ u)) front.length
    rw [List.append_nil] at hcut
    rw [hitsFrom_blank hbs, hhits, hcut, operandsFrom, List.drop_left]
    have htrim := trim_append hbs .nil u
    rw [List.append_nil] at htrim
    rw [htrim, hu.inked.trim]
  | @more u gap word gap' rest us hu hlink hrest ih =>
    have hhead : (∀ b ∈ (front ++ bs).getLast?, isSticky b = false) ∨ ∀ c ∈ u.head?, c.isAlpha = false :=
      hfront.imp_right fun hno c hc => hno c (head?_append_of_mem hc _)
    obtain ⟨hits, hcloses, hhits⟩ := hu.exists_hits (hlink.apart (word ++ (gap' ++ rest))) hhead
      (Nat.le_add_right front.length bs.length)
    obtain ⟨k, hk, hword⟩ := hitsFrom_connective hlink.word hlink.startsInsideWord hlink.not_isSticky
      (Nat.le_add_right (front.length + bs.length + u.length) gap.length)
    have hne : k ≠ "BETWEEN" := by
      rintro rfl
      exact absurd hk (by decide)
    -- What follows the connective is cut like a text of its own.
    have hlater : operandsFrom (front ++ (bs ++ (u ++ (gap ++ (word ++ (gap' ++ rest))))))
        (front.length + bs.length + u.length + gap.length + word.length) false
        (hitsFrom keywords {} word.getLast? (front.length + bs.length + u.length + gap.length + word.length)
          (front.length + bs.length + u.length + gap.length + word.length) (gap' ++ rest)) = us := by
      have hcut := ih hlink.behind (hlink.apart_behind (front ++ bs ++ u ++ gap ++ word))
      have hlast : (front ++ bs ++ u ++ gap ++ word).getLast? = word.getLast? := by
        rw [List.getLast?_append, List.getLast?_eq_some_getLast hlink.word.ne_nil, Option.some_or]
      rw [hlast] at hcut
      simpa only [List.append_assoc, List.length_append, Nat.add_assoc] using hcut
    have hfirst : trim (((front ++ (bs ++ (u ++ (gap ++ (word ++ (gap' ++ rest)))))).take
        (front.length + bs.length + u.length + gap.length)).drop front.length) = u :=
      trim_operand hu.inked hbs hlink.before (word ++ (gap' ++ rest)) (by simp)
    rw [hitsFrom_blank hbs, hhits, hitsFrom_blank hlink.before, hword, operandsFrom_append hcloses,
      operandsFrom, if_neg hne, if_neg (by simp), hfirst, hlater]

/-- **The operands of a text are those it is made of.** -/
theorem operands_of_joined (h : Joined cs us) : operands cs = us := by
  have hfront : (∀ b ∈ ([] ++ [] : List Char).getLast?, isSticky b = false) ∨
      ∀ c ∈ cs.head?, c.isAlpha = false := .inl (by simp)
  have hall := operandsFrom_of_joined h .nil hfront
  exact hall

end QueryScore.Filter
