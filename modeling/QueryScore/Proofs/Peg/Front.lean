/-
# QueryScore.Proofs.Peg.Front -- what an expression does where the front of the text is known

At the end of the text, or where a certain word stands, an expression alone often tells what it does
there: it mismatches, or it matches and takes nothing (`Peg.verdict`). Such a verdict holds of every
text with that front and with any fuel (`Grammar.Knows.yields`), if the rules that are
known to mismatch do.
-/

import QueryScore.Proofs.Peg.Answer

namespace QueryScore

/-! ## Fronts -/

namespace Text

/-- **`Fronts front cs`** -- the text begins with `front`; if that is empty, it is empty itself. -/
structure Fronts (front cs : List Char) : Prop where
  begins : front <+: cs
  ends : front = [] → cs = []

/-- Such a text does not begin with `ws`. -/
def clashes (same : Char → Char → Bool) (front ws : List Char) : Bool :=
  front.isEmpty && !ws.isEmpty || (ws.zip front).any fun p => !same p.1 p.2

variable {same : Char → Char → Bool} {strip : List Char → List Char → Option (List Char)}
  {front ws cs : List Char}

theorem Strips.eq_none_of_differ (hstrip : Strips same strip)
    (h : (ws.zip front).any (fun p => !same p.1 p.2) = true) (hbegins : front <+: cs) :
    strip ws cs = none := by
  induction ws generalizing front cs with
  | nil => cases h
  | cons w ws ih =>
    obtain ⟨rest, rfl⟩ := hbegins
    cases front with
    | nil => simp at h
    | cons x front =>
      rw [List.cons_append, hstrip.cons]
      split
      · rename_i hsame
        simp only [List.zip_cons_cons, List.any_cons, hsame, Bool.not_true, Bool.false_or] at h
        exact ih h (List.prefix_append _ _)
      · rfl

theorem Strips.eq_none (hstrip : Strips same strip) (h : clashes same front ws = true)
    (hcs : Fronts front cs) : strip ws cs = none := by
  rcases (Bool.or_eq_true _ _).mp h with h | h
  · obtain ⟨hfront, hws⟩ := (Bool.and_eq_true _ _).mp h
    obtain rfl := hcs.ends (List.isEmpty_iff.mp hfront)
    cases ws with
    | nil => cases hws
    | cons w ws => exact hstrip.short w ws
  · exact hstrip.eq_none_of_differ h hcs.begins

end Text

open Text

variable {ρ : Type} {g : Grammar ρ} {front cs : List Char} {known : ρ → Bool} {a b : Peg ρ}
  {i fuel : Nat} {atomic passes : Bool}

/-! ## Verdicts -/

/-- What a character of the front says. -/
def Text.clashesFirst (p : Char → Bool) (front : List Char) : Bool := front.head?.all fun c => !p c

/-- What the expression does at a text with this front, as far as it can be told: it matches and
takes nothing, or it mismatches. The rules in `known` mismatch. -/
def Peg.verdict (front : List Char) (known : ρ → Bool) : Peg ρ → Option Bool
  | .text ws =>
    if ws.isEmpty then some true else if clashes (· == ·) front ws then some false else none
  | .word ws =>
    if ws.isEmpty then some true else if clashes sameIgnoringCase front ws then some false else none
  | .digit => if clashesFirst Char.isDigit front then some false else none
  | .letter => if clashesFirst Char.isAlpha front then some false else none
  | .any => if front.isEmpty then some false else none
  | .start => none
  | .stop => some front.isEmpty
  | .rule r => if known r then some false else none
  | .seq a b => (verdict front known a).bind fun va => if va then verdict front known b else some false
  | .alt a b => (verdict front known a).bind fun va => if va then some true else verdict front known b
  | .many a => (verdict front known a).bind fun va => if va then none else some true
  | .opt a => (verdict front known a).map fun _ => true
  | .absent a => (verdict front known a).map not
  | .present a => verdict front known a

/-- The outcome of a verdict. -/
def Outcome.idle (c : Cursor) : Bool → Outcome ρ
  | true => .matched c []
  | false => .failed

/-- **`g.Knows front known`** -- at a text with this front nothing is skipped, and the known rules
mismatch, most of them since their bodies do. -/
structure Grammar.Knows (g : Grammar ρ) (front : List Char) (known : ρ → Bool) : Prop where
  still : ∀ {cs}, Fronts front cs → ∀ atomic i, g.Skips atomic ⟨i, cs⟩ ⟨i, cs⟩
  rule : ∀ r, known r = true → (g.body r).verdict front known = some false ∨
    ∀ {cs}, Fronts front cs → ∀ atomic i, g.Yields atomic (.rule r) ⟨i, cs⟩ .failed

namespace Grammar

theorem ofRest_clashing {ws : List Char} {same : Char → Char → Bool}
    {strip : List Char → List Char → Option (List Char)} (hstrip : Strips same strip)
    (hcs : Fronts front cs)
    (h : (if ws.isEmpty then some true else if clashes same front ws then some false else none) =
      some passes) :
    (Outcome.ofRest ⟨i, cs⟩ ws.length (strip ws cs) : Outcome ρ) = Outcome.idle ⟨i, cs⟩ passes := by
  split at h
  · rename_i hempty
    obtain rfl := List.isEmpty_iff.mp hempty
    obtain rfl := Option.some.inj h
    rw [hstrip.nil]
    rfl
  · split at h
    · rename_i hclash
      obtain rfl := Option.some.inj h
      rw [hstrip.eq_none hclash hcs]
      rfl
    · cases h

theorem ofChar_clashing {p : Char → Bool} (hcs : Fronts front cs)
    (h : (if clashesFirst p front then some false else none) = some passes) :
    (Outcome.ofChar p ⟨i, cs⟩ : Outcome ρ) = Outcome.idle ⟨i, cs⟩ passes := by
  split at h
  · rename_i hclash
    obtain rfl := Option.some.inj h
    obtain ⟨hbegins, hends⟩ := hcs
    cases front with
    | nil =>
      obtain rfl := hends rfl
      rfl
    | cons x front =>
      obtain ⟨rest, rfl⟩ := hbegins
      have hx : p x = false := by simpa [clashesFirst] using hclash
      simp [Outcome.ofChar, Outcome.idle, hx]
  · cases h

/-- **A verdict tells what a run does**, whatever the fuel. -/
theorem Knows.settles (hg : g.Knows front known) (hcs : Fronts front cs) {e : Peg ρ}
    (h : e.verdict front known = some passes) :
    (g.run fuel atomic e ⟨i, cs⟩).Settles (Outcome.idle ⟨i, cs⟩ passes) := by
  induction fuel generalizing atomic e passes with
  | zero => exact .inl rfl
  | succ fuel ih =>
    cases e with
    | text ws => exact .inr (ofRest_clashing strips_text hcs h).symm
    | word ws => exact .inr (ofRest_clashing strips_word hcs h).symm
    | digit | letter => exact .inr (ofChar_clashing hcs h).symm
    | any =>
      rw [Peg.verdict] at h
      split at h
      · rename_i hempty
        obtain rfl := Option.some.inj h
        obtain rfl := hcs.ends (List.isEmpty_iff.mp hempty)
        exact .refl _
      · cases h
    | start => cases h
    | rule r =>
      rw [Peg.verdict] at h
      split at h
      · rename_i hknown
        obtain rfl := Option.some.inj h
        rcases hg.rule r hknown with hbody | hother
        · exact (ih hbody).then_failed
        · exact hother hcs atomic i (fuel + 1)
      · cases h
    | stop =>
      obtain rfl := Option.some.inj h
      refine .inr ?_
      rw [Grammar.run]
      cases front with
      | nil =>
        obtain rfl := hcs.ends rfl
        rfl
      | cons x front =>
        obtain ⟨rest, rfl⟩ := hcs.begins
        rfl
    | seq a b =>
      obtain ⟨va, ha, h⟩ := Option.bind_eq_some_iff.mp h
      cases va with
      | true =>
        obtain ⟨skipped, hskip⟩ := hg.still hcs atomic i
        refine (ih ha).then_matched ((hskip fuel).then_matched ?_)
        cases passes with
        | true => exact (ih h).then_matched (.refl _)
        | false => exact (ih h).then_failed
      | false =>
        obtain rfl := Option.some.inj h
        exact (ih ha).then_failed
    | alt a b =>
      obtain ⟨va, ha, h⟩ := Option.bind_eq_some_iff.mp h
      rw [Grammar.run]
      cases va with
      | true =>
        obtain rfl := Option.some.inj h
        exact (ih ha).else_matched
      | false => exact (ih ha).else_failed (ih h)
    | many a =>
      obtain ⟨va, ha, h⟩ := Option.bind_eq_some_iff.mp h
      rw [Grammar.run]
      cases va with
      | true => cases h
      | false =>
        obtain rfl := Option.some.inj h
        exact (ih ha).then_failed.else_failed (.refl _)
    | opt a =>
      obtain ⟨va, ha, rfl⟩ := Option.map_eq_some_iff.mp h
      rw [Grammar.run]
      cases va with
      | true => exact (ih ha).else_matched
      | false => exact (ih ha).else_failed (.refl _)
    | absent a =>
      obtain ⟨va, ha, rfl⟩ := Option.map_eq_some_iff.mp h
      rw [Grammar.run]
      have hinner : (g.run fuel atomic a ⟨i, cs⟩).Settles _ := ih ha
      rcases hinner with hrun | hrun
      · exact .inl (by rw [hrun])
      · rw [← hrun]
        cases va <;> exact .refl _
    | present a =>
      rw [Peg.verdict] at h
      rw [Grammar.run]
      cases passes with
      | true => exact (ih h).then_matched (.refl _)
      | false => exact (ih h).then_failed

theorem Knows.yields (hg : g.Knows front known) (hcs : Fronts front cs) {e : Peg ρ}
    (h : e.verdict front known = some passes) (atomic : Bool) (i : Nat) :
    g.Yields atomic e ⟨i, cs⟩ (Outcome.idle ⟨i, cs⟩ passes) :=
  fun _ => hg.settles hcs h

end Grammar

end QueryScore
