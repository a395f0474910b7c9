/-
# QueryScore.Proofs.CommitMessage.Convention -- the messages that pass the gate

The convention is said here as a form: a subject is a type, a scope in parentheses or none, an
exclamation mark or none, the first colon with a blank behind it, and a description (`Conventional`).
The check takes a subject apart from its ends instead. Each of its cuts finds the part that the form
has there, and no other: the first colon with a blank (`splitOnce_eq_some_iff`), the exclamation mark
(`stripMark_headerText`) and the scope (`headerType_eq_ok_iff`). So a message passes exactly if its
subject, the first line that is neither blank nor a comment, has the form or comes from a tool
(`gateComplaint?_eq_none_iff`).
-/

import Mathlib.Data.List.TakeWhile
import QueryScore.CommandLine.Gate
import QueryScore.Proofs.Text.Letter
import QueryScore.Proofs.Text.Trim

namespace QueryScore.CommitMessage

open Text

variable {cs subject header description mark before after : List Char} {type : List Char}

/-! ## Lines -/

/-- **`IsLines text lines`** -- the lines of a text: line feeds stand between them, and in none of them. -/
structure IsLines (text : List Char) (lines : List (List Char)) : Prop where
  joined : ['\n'].intercalate lines = text
  ne_nil : lines ≠ []
  unbroken : ∀ line ∈ lines, '\n' ∉ line

/-- **`Speaks line`** -- the line is neither blank nor a comment. -/
def Speaks (line : List Char) : Prop := trim line ≠ [] ∧ (trim line).head? ≠ some '#'

/-- **`IsSubject message subject`** -- the first line of a message that speaks, trimmed. -/
def IsSubject (message subject : List Char) : Prop :=
  ∃ earlier line later, IsLines message (earlier ++ line :: later) ∧ (∀ other ∈ earlier, ¬ Speaks other) ∧
    Speaks line ∧ subject = trim line

theorem splitWhere_eq_splitOnP {α : Type} (p : α → Bool) (as : List α) : splitWhere p as = as.splitOnP p := by
  induction as with
  | nil => rfl
  | cons a as ih =>
    rw [splitWhere, List.splitOnP_cons_eq_if_modifyHead, ← ih]
    split
    · rfl
    · cases hpieces : splitWhere p as with
      | nil => exact absurd hpieces (splitWhere_ne_nil p as)
      | cons piece pieces => rfl

theorem isLines_splitWhere (cs : List Char) : IsLines cs (splitWhere (· == '\n') cs) where
  joined := by
    rw [splitWhere_eq_splitOnP]
    exact List.intercalate_splitOn '\n'
  ne_nil := splitWhere_ne_nil _ _
  unbroken line hline hmem := by
    have hnot := not_of_mem_splitWhere hline '\n' hmem
    cases hnot

/-- A text has one list of lines. -/
theorem IsLines.eq_splitWhere {lines : List (List Char)} (h : IsLines cs lines) :
    lines = splitWhere (· == '\n') cs := by
  have hsplit : (['\n'].intercalate lines).splitOn '\n' = lines :=
    List.splitOn_intercalate '\n' h.unbroken h.ne_nil
  rw [h.joined] at hsplit
  rw [splitWhere_eq_splitOnP]
  exact hsplit.symm

instance (line : List Char) : Decidable (Speaks line) := inferInstanceAs (Decidable (_ ∧ _))

/-- **The subject is the first line that speaks.** -/
theorem subject?_eq_some_iff : subject? cs = some subject ↔ IsSubject cs subject := by
  have hspeaks (line : List Char) :
      (!(trim line).isEmpty && (trim line).head? != some '#') = true ↔ Speaks line := by
    simp [Speaks]
  unfold subject?
  rw [List.find?_map, Option.map_eq_some_iff]
  constructor
  · rintro ⟨line, hfind, rfl⟩
    obtain ⟨hline, earlier, later, hlines, hearlier⟩ := List.find?_eq_some_iff_append.mp hfind
    refine ⟨earlier, line, later, hlines ▸ isLines_splitWhere cs, ?_, (hspeaks line).mp hline, rfl⟩
    intro other hother hspeak
    have hsilent := hearlier other hother
    rw [Bool.not_eq_true'] at hsilent
    exact absurd ((hspeaks other).mpr hspeak) (by simpa using hsilent)
  · rintro ⟨earlier, line, later, hlines, hearlier, hline, rfl⟩
    refine ⟨line, List.find?_eq_some_iff_append.mpr ⟨(hspeaks line).mpr hline, earlier, later, ?_, ?_⟩, rfl⟩
    · exact hlines.eq_splitWhere.symm
    · intro other hother
      rw [Bool.not_eq_true', Bool.eq_false_iff]
      exact fun hspeak => hearlier other hother ((hspeaks other).mp hspeak)

/-! ## The first mark -/

/-- **`FirstAt mark before cs`** -- the mark stands behind `before`, and nowhere earlier. -/
def FirstAt (mark before after cs : List Char) : Prop :=
  cs = before ++ (mark ++ after) ∧
    ∀ before' after', cs = before' ++ (mark ++ after') → before.length ≤ before'.length

/-- Where the mark stands, it is found, and not further on. -/
theorem exists_splitOnce (h : cs = before ++ (mark ++ after)) :
    ∃ front back, splitOnce mark cs = some (front, back) ∧ front.length ≤ before.length := by
  induction before generalizing cs with
  | nil =>
    have hstrip : stripStart mark cs = some after := stripStart_eq_some.mpr h
    cases cs with
    | nil => exact ⟨[], after, by rw [splitOnce, hstrip]; rfl, Nat.le_refl _⟩
    | cons c cs => exact ⟨[], after, by rw [splitOnce, hstrip], Nat.le_refl _⟩
  | cons b before ih =>
    subst h
    rw [List.cons_append, splitOnce]
    cases hstrip : stripStart mark (b :: (before ++ (mark ++ after))) with
    | some rest => exact ⟨[], rest, rfl, Nat.zero_le _⟩
    | none =>
      obtain ⟨front, back, hsplit, hle⟩ := ih rfl
      rw [hsplit]
      exact ⟨b :: front, back, rfl, Nat.succ_le_succ hle⟩

/-- **A text is cut at the first mark.** -/
theorem splitOnce_eq_some_iff : splitOnce mark cs = some (before, after) ↔ FirstAt mark before after cs := by
  constructor
  · intro h
    refine ⟨splitOnce_eq_some h, ?_⟩
    intro before' after' hother
    obtain ⟨front, back, hsplit, hle⟩ := exists_splitOnce hother
    rw [h] at hsplit
    cases hsplit
    exact hle
  · rintro ⟨hcs, hfirst⟩
    obtain ⟨front, back, hsplit, hle⟩ := exists_splitOnce hcs
    have hfront := splitOnce_eq_some hsplit
    have hlength := Nat.le_antisymm hle (hfirst front back hfront)
    obtain ⟨rfl, hrest⟩ := List.append_inj (hfront.symm.trans hcs) hlength
    obtain rfl := List.append_cancel_left hrest
    exact hsplit

/-- A text is cut in one way. -/
theorem FirstAt.unique {before' after' : List Char} (h : FirstAt mark before after cs)
    (h' : FirstAt mark before' after' cs) : before = before' ∧ after = after' := by
  have hparts := (splitOnce_eq_some_iff.mpr h).symm.trans (splitOnce_eq_some_iff.mpr h')
  cases hparts
  exact ⟨rfl, rfl⟩

/-! ## Headers -/

/-- The text of a scope, if there is one. -/
def scopeText : Option (List Char) → List Char
  | none => []
  | some scope => '(' :: (scope ++ [')'])

/-- The mark of a breaking change, if it is one. -/
def markText : Bool → List Char
  | true => ['!']
  | false => []

/-- **`headerText type scope breaking`** -- a type, its scope and the mark of a breaking change. -/
def headerText (type : List Char) (scope : Option (List Char)) (breaking : Bool) : List Char :=
  type ++ scopeText scope ++ markText breaking

/-- The mark is the last character, if that is an exclamation mark. -/
theorem exists_stripMark (header : List Char) : ∃ breaking, header = stripMark header ++ markText breaking := by
  unfold stripMark
  split
  · rename_i hmark
    obtain ⟨front, rfl⟩ := List.getLast?_eq_some_iff.mp hmark
    exact ⟨true, by rw [List.dropLast_concat]; rfl⟩
  · exact ⟨false, (List.append_nil header).symm⟩

/-- Behind a type or a scope, the mark is what is stripped. -/
theorem stripMark_headerText {scope : Option (List Char)} (htype : type.getLast? ≠ some '!') (breaking : Bool) :
    stripMark (headerText type scope breaking) = type ++ scopeText scope := by
  unfold stripMark headerText
  cases breaking with
  | true => rw [markText, if_pos List.getLast?_concat, List.dropLast_concat]
  | false =>
    rw [markText, List.append_nil, if_neg]
    cases scope with
    | none => rwa [scopeText, List.append_nil]
    | some scope =>
      rw [scopeText, ← List.cons_append, ← List.append_assoc, List.getLast?_concat]
      decide

/-- **What is left is a type, which holds no parenthesis, and a scope that is not empty, or none.** -/
theorem headerType_eq_ok_iff : headerType header = .ok type ↔
    ∃ scope, scope ≠ some [] ∧ '(' ∉ type ∧ header = type ++ scopeText scope := by
  unfold headerType
  constructor
  · intro h
    split at h
    · rename_i hnone
      cases h
      refine ⟨none, nofun, ?_, (List.append_nil header).symm⟩
      intro hmem
      have hplain := List.dropWhile_eq_nil_iff.mp hnone '(' hmem
      cases hplain
    · rename_i mark scope hsome
      have hmark : mark = '(' := by
        have hhead := List.head?_dropWhile_not (· != '(') header
        rw [hsome] at hhead
        simpa using hhead
      subst hmark
      split at h
      · cases h
      · rename_i hlast
        rw [ne_eq, Decidable.not_not] at hlast
        obtain ⟨front, rfl⟩ := List.getLast?_eq_some_iff.mp hlast
        rw [List.dropLast_concat] at h
        split at h
        · cases h
        · rename_i hfront
          cases h
          refine ⟨some front, ?_, ?_, ?_⟩
          · rintro heq
            cases heq
            exact hfront rfl
          · intro hmem
            have hplain := List.mem_takeWhile_imp hmem
            cases hplain
          · rw [scopeText, ← hsome, List.takeWhile_append_dropWhile]
  · rintro ⟨scope, hscope, htype, rfl⟩
    have hplain : ∀ c ∈ type, (c != '(') = true := by
      intro c hc
      rw [bne_iff_ne]
      rintro rfl
      exact htype hc
    cases scope with
    | none =>
      rw [scopeText, List.append_nil, List.dropWhile_eq_nil_iff.mpr hplain]
    | some scope =>
      have hne : scope ≠ [] := fun hnil => hscope (congrArg some hnil)
      rw [scopeText, List.dropWhile_append_of_pos hplain, List.takeWhile_append_of_pos hplain,
        List.dropWhile_cons_of_neg (by decide), List.takeWhile_cons_of_neg (by decide), List.append_nil]
      show (if (scope ++ [')']).getLast? ≠ some ')' then _ else _) = _
      rw [if_neg (by simp), List.dropLast_concat, if_neg (by simpa using hne)]

/-! ## Subjects -/

/-- **`FromTool subject`** -- the subject begins like those that tools write. -/
def FromTool (subject : List Char) : Prop :=
  ∃ opening ∈ ["Merge ", "Revert \"", "fixup! ", "squash! "], opening.toList <+: subject

/-- **`Conventional subject`** -- the subject is short, ends without a period and has the form of the
convention, whose colon is the first that a blank follows. -/
structure Conventional (subject : List Char) : Prop where
  short : subject.length ≤ 72
  unended : subject.getLast? ≠ some '.'
  form : ∃ type ∈ types, ∃ scope breaking description, scope ≠ some [] ∧ description ≠ [] ∧
    FirstAt ": ".toList (headerText type.toList scope breaking) description subject

theorem fromTool_iff :
    (toolOpenings.any fun opening => opening.toList.isPrefixOf subject) = true ↔ FromTool subject := by
  unfold FromTool toolOpenings
  simp only [List.any_eq_true, List.isPrefixOf_iff_prefix]

theorem types_plain : ∀ type ∈ types, '(' ∉ type.toList ∧ type.toList.getLast? ≠ some '!' := by decide

theorem isType_iff : (types.any fun allowed => allowed.toList == type) = true ↔
    ∃ allowed ∈ types, allowed.toList = type := by
  simp only [List.any_eq_true, beq_iff_eq]

/-- **A header passes exactly if it has the form.** -/
theorem header_passes_iff :
    (match headerType (stripMark header) with
      | .error fault => .error fault
      | .ok type =>
        if types.any (fun allowed => allowed.toList == type) then .ok () else .error (.unknownType type)) =
        (.ok () : Except Fault Unit) ↔
      ∃ type ∈ types, ∃ scope breaking, scope ≠ some [] ∧ header = headerText type.toList scope breaking := by
  constructor
  · intro h
    cases htype : headerType (stripMark header) with
    | error fault =>
      rw [htype] at h
      cases h
    | ok type =>
      simp only [htype] at h
      split at h
      · rename_i hallowed
        obtain ⟨allowed, hmem, rfl⟩ := isType_iff.mp hallowed
        obtain ⟨scope, hscope, -, hbody⟩ := headerType_eq_ok_iff.mp htype
        obtain ⟨breaking, hheader⟩ := exists_stripMark header
        exact ⟨allowed, hmem, scope, breaking, hscope, by rw [headerText, ← hbody, ← hheader]⟩
      · cases h
  · rintro ⟨type, hmem, scope, breaking, hscope, rfl⟩
    obtain ⟨hparen, hmark⟩ := types_plain type hmem
    have htype := headerType_eq_ok_iff.mpr ⟨scope, hscope, hparen, rfl⟩
    rw [stripMark_headerText hmark, htype]
    show (if _ then _ else _) = _
    rw [if_pos (isType_iff.mpr ⟨type, hmem, rfl⟩)]

/-- What ends with no blank is trimmed to nothing only if it is nothing. -/
theorem trim_isEmpty_of_end (h : ∀ c ∈ description.getLast?, isBlank c = false) :
    (trim description).isEmpty = true ↔ description = [] := by
  rw [List.isEmpty_iff]
  constructor
  · intro hnil
    cases hlast : description.getLast? with
    | none => exact List.getLast?_eq_none_iff.mp hlast
    | some c => exact absurd hnil (trim_ne_nil ⟨c, List.mem_of_getLast? hlast, h c hlast⟩)
  · rintro rfl
    rfl

/-- **A trimmed subject passes the check exactly if a tool wrote it or it keeps the convention.** -/
theorem checkSubject_eq_ok_iff (hend : ∀ c ∈ subject.getLast?, isBlank c = false) :
    checkSubject subject = .ok () ↔ FromTool subject ∨ Conventional subject := by
  unfold checkSubject
  by_cases htool : FromTool subject
  · rw [if_pos (fromTool_iff.mpr htool)]
    exact iff_of_true rfl (.inl htool)
  rw [if_neg (mt fromTool_iff.mp htool), or_iff_right htool]
  by_cases hlong : maxLength < subject.length
  · rw [if_pos hlong]
    exact iff_of_false nofun fun h => absurd h.short (Nat.not_le_of_lt hlong)
  rw [if_neg hlong]
  by_cases hperiod : subject.getLast? = some '.'
  · rw [if_pos hperiod]
    exact iff_of_false nofun fun h => h.unended hperiod
  rw [if_neg hperiod]
  cases hsplit : splitOnce [':', ' '] subject with
  | none =>
    refine iff_of_false nofun fun h => ?_
    obtain ⟨type, -, scope, breaking, description, -, -, hfirst⟩ := h.form
    have hsome := splitOnce_eq_some_iff.mpr hfirst
    rw [show ": ".toList = [':', ' '] from rfl, hsplit] at hsome
    cases hsome
  | some parts =>
    obtain ⟨header, description⟩ := parts
    have hfirst := splitOnce_eq_some_iff.mp hsplit
    have hdescription : (trim description).isEmpty = true ↔ description = [] := by
      -- the subject ends with its description
      refine trim_isEmpty_of_end fun c hc => hend c ?_
      rw [hfirst.1]
      exact getLast?_append_of_mem _ (getLast?_append_of_mem _ hc)
    by_cases hempty : description = []
    · show (if (trim description).isEmpty then _ else _) = _ ↔ _
      rw [if_pos (hdescription.mpr hempty)]
      refine iff_of_false nofun fun h => ?_
      obtain ⟨type, -, scope, breaking, rest, -, hrest, hform⟩ := h.form
      exact hrest ((hfirst.unique hform).2 ▸ hempty)
    · show (if (trim description).isEmpty then _ else _) = _ ↔ _
      rw [if_neg (mt hdescription.mp hempty)]
      apply header_passes_iff.trans
      constructor
      · rintro ⟨type, htype, scope, breaking, hscope, rfl⟩
        exact ⟨Nat.le_of_not_lt hlong, hperiod, type, htype, scope, breaking, description, hscope, hempty, hfirst⟩
      · intro h
        obtain ⟨type, htype, scope, breaking, rest, hscope, -, hform⟩ := h.form
        exact ⟨type, htype, scope, breaking, hscope, (hfirst.unique hform).1⟩

end QueryScore.CommitMessage

namespace QueryScore.CommandLine

open CommitMessage Text

/-- **The gate is silent about a message exactly if it has a subject that a tool wrote or that keeps
the convention.** -/
theorem gateComplaint?_eq_none_iff (path message : String) :
    gateComplaint? path (.ok message) = none ↔
      ∃ subject, IsSubject message.toList subject ∧ (FromTool subject ∨ Conventional subject) := by
  have hsilent : gateComplaint? path (.ok message) = none ↔ check message = .ok () := by
    unfold gateComplaint?
    cases hcheck : check message with
    | ok _ => simp only [hcheck]
    | error fault => simp only [hcheck, reduceCtorEq]
  rw [hsilent, check]
  cases hsubject : subject? message.toList with
  | none =>
    refine iff_of_false nofun ?_
    rintro ⟨subject, his, -⟩
    rw [subject?_eq_some_iff.mpr his] at hsubject
    cases hsubject
  | some subject =>
    have his := subject?_eq_some_iff.mp hsubject
    have hend : ∀ c ∈ subject.getLast?, isBlank c = false := by
      obtain ⟨-, line, -, -, -, -, rfl⟩ := his
      exact getLast_trimEnd (trimStart line)
    apply (checkSubject_eq_ok_iff hend).trans
    constructor
    · intro h
      exact ⟨subject, his, h⟩
    · rintro ⟨other, hother, h⟩
      have heq : some other = some subject := (subject?_eq_some_iff.mpr hother).symm.trans hsubject
      cases heq
      exact h

example : gateComplaint? "m" (.ok "# note\n  feat(a(b))!: c: d") = none := by decide

end QueryScore.CommandLine
