/-
# QueryScore.Proofs.Text.Letter -- characters of ASCII and what stands at the ends of a text

Facts about characters of ASCII are checked on all of them (`of_isAscii`). A text that spells
letters in some case consists of letters, and what is left when a word, a mark or a stretch up to
a mark is taken off the front of a text is the rest of that text.
-/

import QueryScore.Text.Blank

namespace QueryScore.Text

/-! ## ASCII -/

/-- The character belongs to ASCII. -/
def isAscii (c : Char) : Bool := c.toNat < 128

/-- What holds of the first 128 characters holds of the characters of ASCII. -/
theorem of_isAscii {p : Char → Bool} (h : ∀ n < 128, p (Char.ofNat n) = true) {c : Char}
    (hc : isAscii c = true) : p c = true := by
  have hn := h c.toNat (by simpa [isAscii] using hc)
  rwa [Char.ofNat_toNat] at hn

theorem isAscii_of_isAlphanum {c : Char} (h : c.isAlphanum = true) : isAscii c = true := by
  have hcodes : ((decide (65 ≤ c.val ∧ c.val ≤ 90) || (decide (97 ≤ c.val) && decide (c.val ≤ 122))) ||
      (decide (48 ≤ c.val) && decide (c.val ≤ 57))) = true := h
  simp only [Bool.or_eq_true, Bool.and_eq_true, decide_eq_true_eq, UInt32.le_iff_toNat_le] at hcodes
  change ((65 ≤ _ ∧ _ ≤ 90) ∨ (97 ≤ _ ∧ _ ≤ 122)) ∨ (48 ≤ _ ∧ _ ≤ 57) at hcodes
  simp only [isAscii, decide_eq_true_eq, Char.toNat]
  omega

theorem isAlphanum_of_isAlpha {c : Char} (h : c.isAlpha = true) : c.isAlphanum = true := by
  simp [Char.isAlphanum, h]

theorem isAlpha_of_asciiLower_eq {c w : Char} (h : asciiLower c = asciiLower w)
    (hw : w.isAlpha = true) : c.isAlpha = true := by
  have hlower : (asciiLower w).isLower = true := by
    have hp := of_isAscii (p := fun c => !c.isAlpha || (asciiLower c).isLower) (by decide)
      (isAscii_of_isAlphanum (isAlphanum_of_isAlpha hw))
    simpa [hw] using hp
  rw [← h] at hlower
  show (c.isUpper || c.isLower) = true
  by_cases hc : c.isUpper = true
  · rw [hc, Bool.true_or]
  · have hsame : c.toLower = c := dif_neg fun hupper => hc (decide_eq_true hupper)
    rw [asciiLower, hsame] at hlower
    rw [hlower, Bool.or_true]

theorem isAlpha_of_sameIgnoringCase {w c : Char} (hw : w.isAlpha = true) (h : sameIgnoringCase w c = true) :
    c.isAlpha = true :=
  isAlpha_of_asciiLower_eq (beq_iff_eq.mp h).symm hw

/-- A text that spells letters in some case consists of letters. -/
theorem isAlpha_of_mem {cs ws : List Char} (h : cs.map asciiLower = ws.map asciiLower)
    (hws : ∀ w ∈ ws, w.isAlpha = true) : ∀ c ∈ cs, c.isAlpha = true := by
  intro c hc
  have hmem : asciiLower c ∈ ws.map asciiLower := h ▸ List.mem_map_of_mem hc
  obtain ⟨w, hw, heq⟩ := List.mem_map.mp hmem
  exact isAlpha_of_asciiLower_eq heq.symm (hws w hw)

/-! ## The ends of a text -/

theorem head?_append_of_mem {c : Char} {cs : List Char} (h : c ∈ cs.head?) (ds : List Char) :
    c ∈ (cs ++ ds).head? := by
  rw [List.head?_append, Option.mem_def.mp h]
  rfl

theorem getLast?_append_of_mem {c : Char} {ds : List Char} (cs : List Char) (h : c ∈ ds.getLast?) :
    c ∈ (cs ++ ds).getLast? := by
  rw [List.getLast?_append, Option.mem_def.mp h]
  rfl

theorem stripStart_eq_some {ws cs rest : List Char} :
    stripStart ws cs = some rest ↔ cs = ws ++ rest := by
  induction ws generalizing cs with
  | nil => simp [stripStart]
  | cons w ws ih =>
    cases cs with
    | nil => simp [stripStart]
    | cons c cs =>
      simp only [stripStart, List.cons_append, List.cons.injEq]
      split
      · rename_i hw
        simp [ih, hw]
      · rename_i hw
        simp [Ne.symm hw]

theorem stripWord_eq_some {ws cs rest : List Char} :
    stripWord ws cs = some rest ↔
      ∃ word, cs = word ++ rest ∧ word.map asciiLower = ws.map asciiLower := by
  induction ws generalizing cs with
  | nil =>
    simp only [stripWord, Option.some.injEq, List.map_nil, List.map_eq_nil_iff]
    constructor
    · rintro rfl
      exact ⟨[], rfl, rfl⟩
    · rintro ⟨word, rfl, rfl⟩
      rfl
  | cons w ws ih =>
    cases cs with
    | nil =>
      simp only [stripWord, reduceCtorEq, false_iff]
      rintro ⟨word, h, h'⟩
      obtain ⟨rfl, -⟩ := List.append_eq_nil_iff.mp h.symm
      cases h'
    | cons c cs =>
      simp only [stripWord, sameIgnoringCase, beq_iff_eq]
      constructor
      · intro h
        split at h
        · rename_i hw
          obtain ⟨word, rfl, hword⟩ := ih.mp h
          exact ⟨c :: word, rfl, by simp [hw, hword]⟩
        · cases h
      · rintro ⟨word, h, h'⟩
        cases word with
        | nil => cases h'
        | cons d word =>
          obtain ⟨rfl, rfl⟩ := List.cons.inj h
          obtain ⟨hd, htl⟩ := List.cons.inj h'
          rw [if_pos hd.symm]
          exact ih.mpr ⟨word, rfl, htl⟩

theorem splitOnce_eq_some {mark cs inside rest : List Char}
    (h : splitOnce mark cs = some (inside, rest)) : cs = inside ++ (mark ++ rest) := by
  induction cs generalizing inside with
  | nil =>
    obtain ⟨after, hafter, heq⟩ := Option.map_eq_some_iff.mp h
    cases heq
    rw [List.nil_append]
    exact stripStart_eq_some.mp hafter
  | cons c cs ih =>
    unfold splitOnce at h
    split at h
    · rename_i after hafter
      cases h
      rw [List.nil_append]
      exact stripStart_eq_some.mp hafter
    · obtain ⟨⟨before, after⟩, hsplit, heq⟩ := Option.map_eq_some_iff.mp h
      cases heq
      rw [ih hsplit]
      rfl

end QueryScore.Text
