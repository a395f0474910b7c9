/-
# QueryScore.Proofs.Text.Shown -- stretches that a scan passes unchanged

A scan of a text splits into a scan of quotes and a count of brackets. A stretch whose characters
outside quotes are no brackets keeps the count (`run_of_shown`), so what such a stretch does to a
scan is what it does to the quotes.
-/

import QueryScore.Text.Scan

namespace QueryScore.Text

/-- The character before a place, one character later. -/
theorem getLast?_cons_or (c : Char) (cs : List Char) (before : Option Char) :
    (c :: cs).getLast?.or before = cs.getLast?.or (some c) := by
  cases cs with
  | nil => rfl
  | cons d cs => simp [List.getLast?_cons]

/-- What holds of the last characters of two texts holds of the last character of both together. -/
theorem forall_getLast?_append {p : Char → Prop} {cs ds : List Char} (hcs : ∀ c ∈ cs.getLast?, p c)
    (hds : ∀ c ∈ ds.getLast?, p c) : ∀ c ∈ (cs ++ ds).getLast?, p c := by
  intro c hc
  rw [List.getLast?_append] at hc
  cases hlast : ds.getLast? with
  | none =>
    rw [hlast, Option.none_or] at hc
    exact hcs c hc
  | some d =>
    rw [hlast, Option.some_or] at hc
    obtain rfl := Option.some.inj hc
    exact hds d hlast

/-- The mode after a text. -/
def modeAfter (m : Mode) (cs : List Char) : Mode := cs.foldl Mode.step m

theorem modeAfter_append (m : Mode) (cs ds : List Char) :
    modeAfter m (cs ++ ds) = modeAfter (modeAfter m cs) ds :=
  List.foldl_append

theorem mode_run (s : Scanner) (cs : List Char) : (s.run cs).mode = modeAfter s.mode cs := by
  induction cs generalizing s with
  | nil => rfl
  | cons c cs ih => exact ih (s.step c)

/-- **`Shown p m cs`** -- from mode `m` on, the characters outside quotes have a property. -/
def Shown (p : Char → Prop) (m : Mode) : List Char → Prop
  | [] => True
  | c :: cs => (m.shows c = true → p c) ∧ Shown p (m.step c) cs

theorem shown_append {p : Char → Prop} {m : Mode} {cs ds : List Char} :
    Shown p m (cs ++ ds) ↔ Shown p m cs ∧ Shown p (modeAfter m cs) ds := by
  induction cs generalizing m with
  | nil => simp [Shown, modeAfter]
  | cons c cs ih =>
    show _ ∧ Shown p _ (cs ++ ds) ↔ (_ ∧ Shown p _ cs) ∧ Shown p (modeAfter (m.step c) cs) ds
    rw [ih, and_assoc]

theorem Shown.mono {p q : Char → Prop} (hpq : ∀ c, p c → q c) {m : Mode} {cs : List Char}
    (h : Shown p m cs) : Shown q m cs := by
  induction cs generalizing m with
  | nil => trivial
  | cons c cs ih => exact ⟨fun hc => hpq c (h.1 hc), ih h.2⟩

theorem not_shows_quoted {mark : Char} {hidden : Bool} {c : Char} :
    Mode.shows (.quoted mark hidden) c = false := by
  simp [Mode.shows]

/-- A stretch without brackets outside quotes keeps the depth of a scan. -/
theorem run_of_shown {m : Mode} {cs : List Char}
    (h : Shown (fun c => isOpening c = false ∧ isClosing c = false) m cs) (depth : Nat) :
    Scanner.run ⟨m, depth⟩ cs = ⟨modeAfter m cs, depth⟩ := by
  induction cs generalizing m with
  | nil => rfl
  | cons c cs ih =>
    have hstep : Scanner.step ⟨m, depth⟩ c = ⟨m.step c, depth⟩ := by
      by_cases hc : m.shows c = true
      · obtain ⟨hopen, hclose⟩ := h.1 hc
        simp [Scanner.step, hc, depthAfter, hopen, hclose]
      · simp [Scanner.step, hc]
    show Scanner.run (Scanner.step ⟨m, depth⟩ c) cs = _
    rw [hstep]
    exact ih h.2

end QueryScore.Text
