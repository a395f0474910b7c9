/-
# QueryScore.Proofs.Evaluation.Coherent -- the parts of a result agree

What an evaluation comes to is settled by two structures and the comparison of the rows, which is
there only if the generated query parses (`Path.of_evaluation`). The decision list is read backwards:
from the category back to what is known of the query. The evidence of an evaluation is consistent
(`Evidence.Consistent`): only a query that parses runs, and only one that runs is accurate. Then each
of the first three categories says exactly one thing, the others say that the rows differ, and each
but `correct` is among the flags. So the scores, the category, the flags and the flat record of every
result tell one story (`TaskResult.Coherent`), whatever the executor does and whatever was evaluated
before.
-/

import QueryScore.Classification
import QueryScore.Evaluation.Assessment
import QueryScore.Proofs.Evaluation.Remembered
import QueryScore.Proofs.Score.Extremes

namespace QueryScore

open Score

/-! ## What the category and the flags say -/

section Judged

variable {α : Type} [Scalar α] {threshold : α} {e : Evidence α}

/-- **`e.Consistent`** -- what is accurate has run, and what has run parses. -/
structure Evidence.Consistent (e : Evidence α) : Prop where
  /-- What is accurate has run. -/
  executed_of_accurate : e.accurate = true → e.executed = true
  /-- What has run parses. -/
  parsed_of_executed : e.executed = true → e.parsed = true

/-- The categories of dimensions are none of the other four. -/
theorem Category.ofDimension_ne (d : Dimension) :
    Category.ofDimension d ≠ .syntaxError ∧ Category.ofDimension d ≠ .runtimeError ∧
      Category.ofDimension d ≠ .correct ∧ Category.ofDimension d ≠ .resultMismatch := by
  cases d <;> decide

/-- Behind the three outcomes of a run: the first dimension that fails, or the rows alone. -/
theorem category_of_differing (hparsed : e.parsed = true) (hexecuted : e.executed = true)
    (haccurate : e.accurate = false) :
    (∃ d ∈ failingDimensions threshold e, primaryCategory threshold e = .ofDimension d) ∨
      primaryCategory threshold e = .resultMismatch := by
  unfold primaryCategory
  rw [hparsed, hexecuted, haccurate]
  cases failingDimensions threshold e with
  | nil => exact .inr rfl
  | cons d rest => exact .inl ⟨d, List.mem_cons_self, rfl⟩

/-- The four cases of the decision list. -/
theorem primaryCategory_cases (threshold : α) (e : Evidence α) :
    (e.parsed = false ∧ primaryCategory threshold e = .syntaxError) ∨
    (e.parsed = true ∧ e.executed = false ∧ primaryCategory threshold e = .runtimeError) ∨
    (e.parsed = true ∧ e.executed = true ∧ e.accurate = true ∧
      primaryCategory threshold e = .correct) ∨
    (e.parsed = true ∧ e.executed = true ∧ e.accurate = false ∧
      ((∃ d ∈ failingDimensions threshold e, primaryCategory threshold e = .ofDimension d) ∨
        primaryCategory threshold e = .resultMismatch)) := by
  cases hparsed : e.parsed with
  | false => exact .inl ⟨rfl, by simp [primaryCategory, hparsed]⟩
  | true =>
    cases hexecuted : e.executed with
    | false => exact .inr (.inl ⟨rfl, rfl, by simp [primaryCategory, hparsed, hexecuted]⟩)
    | true =>
      cases haccurate : e.accurate with
      | true =>
        exact .inr (.inr (.inl ⟨rfl, rfl, rfl, by
          simp [primaryCategory, hparsed, hexecuted, haccurate]⟩))
      | false =>
        exact .inr (.inr (.inr ⟨rfl, rfl, rfl, category_of_differing hparsed hexecuted haccurate⟩))

theorem syntaxError_iff : primaryCategory threshold e = .syntaxError ↔ e.parsed = false := by
  rcases primaryCategory_cases threshold e with ⟨hparsed, hcategory⟩ | ⟨hparsed, -, hcategory⟩ |
    ⟨hparsed, -, -, hcategory⟩ | ⟨hparsed, -, -, ⟨d, -, hcategory⟩ | hcategory⟩ <;>
    rw [hparsed, hcategory]
  · simp
  · simp
  · simp
  · simp [(Category.ofDimension_ne d).1]
  · simp

theorem runtimeError_iff :
    primaryCategory threshold e = .runtimeError ↔ e.parsed = true ∧ e.executed = false := by
  rcases primaryCategory_cases threshold e with ⟨hparsed, hcategory⟩ |
    ⟨hparsed, hexecuted, hcategory⟩ | ⟨hparsed, hexecuted, -, hcategory⟩ |
    ⟨hparsed, hexecuted, -, ⟨d, -, hcategory⟩ | hcategory⟩
  · simp [hparsed, hcategory]
  · simp [hparsed, hexecuted, hcategory]
  · simp [hparsed, hexecuted, hcategory]
  · simp [hparsed, hexecuted, hcategory, (Category.ofDimension_ne d).2.1]
  · simp [hparsed, hexecuted, hcategory]

theorem correct_iff (h : e.Consistent) :
    primaryCategory threshold e = .correct ↔ e.accurate = true := by
  have hrun : e.accurate = true → e.parsed = true ∧ e.executed = true := fun haccurate =>
    ⟨h.parsed_of_executed (h.executed_of_accurate haccurate), h.executed_of_accurate haccurate⟩
  rcases primaryCategory_cases threshold e with ⟨hparsed, hcategory⟩ |
    ⟨hparsed, hexecuted, hcategory⟩ | ⟨hparsed, hexecuted, haccurate, hcategory⟩ |
    ⟨hparsed, hexecuted, haccurate, ⟨d, -, hcategory⟩ | hcategory⟩
  · simpa [hcategory, hparsed] using hrun
  · simpa [hcategory, hexecuted] using hrun
  · simp [hcategory, haccurate]
  · simp [hcategory, haccurate, (Category.ofDimension_ne d).2.2.1]
  · simp [hcategory, haccurate]

/-! ## Flags -/

theorem mem_flags {c : Category} :
    c ∈ (classify threshold e).flags ↔
      (c = .syntaxError ∧ e.parsed = false) ∨
      (c = .runtimeError ∧ e.parsed = true ∧ e.executed = false) ∨
      (∃ d ∈ failingDimensions threshold e, c = .ofDimension d) ∨
      (c = .resultMismatch ∧ e.accurate = false) := by
  rw [classify, SortedSet.mem_ofList, applicableFlags, List.mem_append, List.mem_append,
    List.mem_map]
  have hdimension : (∃ d ∈ failingDimensions threshold e, Category.ofDimension d = c) ↔
      ∃ d ∈ failingDimensions threshold e, c = .ofDimension d := by
    simp only [eq_comm]
  rw [hdimension]
  cases e.parsed <;> cases e.executed <;> cases e.accurate <;> simp [or_assoc]

theorem correct_not_mem_flags : Category.correct ∉ (classify threshold e).flags := by
  rw [mem_flags]
  rintro (⟨h, -⟩ | ⟨h, -⟩ | ⟨d, -, h⟩ | ⟨h, -⟩)
  · cases h
  · cases h
  · exact (Category.ofDimension_ne d).2.2.1 h.symm
  · cases h

theorem resultMismatch_mem_flags :
    Category.resultMismatch ∈ (classify threshold e).flags ↔ e.accurate = false := by
  rw [mem_flags]
  constructor
  · rintro (⟨h, -⟩ | ⟨h, -⟩ | ⟨d, -, h⟩ | ⟨-, h⟩)
    · cases h
    · cases h
    · exact absurd h.symm (Category.ofDimension_ne d).2.2.2
    · exact h
  · exact fun h => .inr (.inr (.inr ⟨rfl, h⟩))

/-- **Every category but `correct` is among the flags.** -/
theorem category_mem_flags (h : (classify threshold e).category ≠ .correct) :
    (classify threshold e).category ∈ (classify threshold e).flags := by
  rw [mem_flags]
  rcases primaryCategory_cases threshold e with ⟨hparsed, hcategory⟩ |
    ⟨hparsed, hexecuted, hcategory⟩ | ⟨-, -, -, hcategory⟩ |
    ⟨-, -, haccurate, ⟨d, hd, hcategory⟩ | hcategory⟩
  · exact .inl ⟨hcategory, hparsed⟩
  · exact .inr (.inl ⟨hcategory, hparsed, hexecuted⟩)
  · exact absurd hcategory h
  · exact .inr (.inr (.inl ⟨d, hd, hcategory⟩))
  · exact .inr (.inr (.inr ⟨hcategory, haccurate⟩))

/-- Where nothing fails and the rows are the same there is no flag. -/
theorem flags_eq_empty (hparsed : e.parsed = true) (hexecuted : e.executed = true)
    (haccurate : e.accurate = true) (hfailing : failingDimensions threshold e = []) :
    (classify threshold e).flags = .empty := by
  simp only [classify, applicableFlags, hparsed, hexecuted, haccurate, hfailing]
  rfl

end Judged

/-! ## What an evaluation comes to -/

theorem parsed_extract (language : Language) (text : String) :
    (extract language text).parsed = isValid language text := by
  unfold extract isValid structureOf?
  cases language with
  | sql => cases Sql.parse text.toList <;> rfl
  | cypher =>
    simp only [Cypher.structure?]
    cases Cypher.parse text.toList <;> rfl

/-- A text that does not parse has no components. -/
theorem extract_of_invalid {language : Language} {text : String}
    (h : isValid language text = false) : extract language text = .unparsed := by
  unfold isValid at h
  unfold extract
  cases hfound : structureOf? language text with
  | ok found => rw [hfound] at h; cases h
  | error _ => rfl

section Paths

variable {α β : Type} [Scalar α]

/-- The comparison of two answers, if both are rows. -/
def compareAnswers : Answer → Answer → Option (RowComparison α)
  | .ok expected, .ok generated => some (compareRows expected generated)
  | _, _ => none

/-- What a comparison does with the answer of the reference query. -/
def afterReference (item : Item) (next : Option (RowComparison α) → Plan β) : Answer → Plan β
  | .error _ => next none
  | .ok expected => .answerOf item.script fun
    | .error _ => next none
    | .ok generated => next (some (compareRows expected generated))

theorem comparison_eq (config : Config α) (language : Language) (item : Item)
    (next : Option (RowComparison α) → Plan β) : comparison config language item next =
      referenceAnswer config language item.task (afterReference item next) := rfl

/-- The generated query is asked if the reference query has rows. -/
theorem Plan.Path.of_afterReference {item : Item} {next : Option (RowComparison α) → Plan β}
    {expected : Answer} {asked : List (String × Answer)} {value : β}
    (h : (afterReference item next expected).Path asked value) :
    ∃ generated rest, (next (compareAnswers expected generated)).Path rest value ∧
      (∀ rows, expected = .ok rows → (item.script, generated) ∈ asked) := by
  cases expected with
  | error _ => exact ⟨.ok [], asked, h, fun rows hrows => by cases hrows⟩
  | ok expected =>
    cases h with
    | @answerOf _ _ generated rest _ hpath =>
      refine ⟨generated, rest, ?_, fun _ _ => List.mem_cons_self⟩
      cases generated with
      | error _ => exact hpath
      | ok rows => exact hpath

/-- The answer for the reference query is the recorded one, or that of the executor; if it is rows,
the generated query is answered too. The plan goes on with the comparison of the two. -/
theorem Plan.Path.of_comparison {config : Config α} {language : Language} {item : Item}
    {next : Option (RowComparison α) → Plan β} {asked : List (String × Answer)} {value : β}
    (h : (comparison config language item next).Path asked value) :
    ∃ expected generated rest, (next (compareAnswers expected generated)).Path rest value ∧
      (∀ text, recordedReference? config language item.task = some text →
        expected = (readRecordedRows text).mapError RecordedRowsFault.toError) ∧
      (recordedReference? config language item.task = none →
        (item.task.reference language, expected) ∈ asked) ∧
      (∀ rows, expected = .ok rows → (item.script, generated) ∈ asked) := by
  rw [comparison_eq, referenceAnswer] at h
  split at h
  · next text hrecorded =>
    obtain ⟨generated, rest, hpath, hgenerated⟩ := h.of_afterReference
    refine ⟨_, generated, rest, hpath, fun text' htext => ?_, fun hnone => ?_, hgenerated⟩
    · rw [hrecorded] at htext
      cases htext
      rfl
    · rw [hrecorded] at hnone
      cases hnone
  · next hrecorded =>
    cases h with
    | @answerOf _ _ expected asked _ hpath =>
      obtain ⟨generated, rest, hpath, hgenerated⟩ := hpath.of_afterReference
      refine ⟨expected, generated, rest, hpath, fun text htext => ?_, fun _ => List.mem_cons_self,
        fun rows hrows => List.mem_cons_of_mem _ (hgenerated rows hrows)⟩
      rw [hrecorded] at htext
      cases htext

/-- **An evaluation refuses a task without a reference query, or gives the assessment of two
structures and of the comparison of two answers**; without a parse nothing is asked and nothing
compared. -/
theorem Plan.Path.of_evaluation {config : Config α} {language : Language} {item : Item}
    {asked : List (String × Answer)} {outcome : Evaluated α}
    (h : (evaluation config language item).Path asked outcome) :
    (item.task.hasReference language = false ∧
      outcome = .error ⟨item.task.question, language⟩) ∨
    ∃ compared, outcome = .ok (assess config language item
        (extract language (item.task.reference language)) (extract language item.script) compared) ∧
      (isValid language item.script = false → compared = none ∧ asked = []) ∧
      (isValid language item.script = true → ∃ expected generated,
        compared = compareAnswers expected generated ∧
        (∀ text, recordedReference? config language item.task = some text →
          expected = (readRecordedRows text).mapError RecordedRowsFault.toError) ∧
        (recordedReference? config language item.task = none →
          (item.task.reference language, expected) ∈ asked) ∧
        (∀ rows, expected = .ok rows → (item.script, generated) ∈ asked)) := by
  unfold evaluation at h
  cases hreference : item.task.hasReference language with
  | false =>
    rw [hreference, if_neg (by simp)] at h
    cases h
    exact .inl ⟨rfl, rfl⟩
  | true =>
    rw [hreference, if_pos rfl] at h
    cases h with
    | structureOf h =>
      cases h with
      | structureOf h =>
        change Plan.Path (if (extract language item.script).parsed = true then
          comparison config language item _ else _) asked _ at h
        rw [parsed_extract] at h
        cases hvalid : isValid language item.script with
        | false =>
          rw [hvalid] at h
          cases h
          exact .inr ⟨none, rfl, fun _ => ⟨rfl, rfl⟩, fun hno => by cases hno⟩
        | true =>
          rw [hvalid, if_pos rfl] at h
          obtain ⟨expected, generated, rest, hpath, hfacts⟩ := Plan.Path.of_comparison h
          cases hpath
          exact .inr ⟨_, rfl, fun hno => (by cases hno), fun _ => ⟨expected, generated, rfl, hfacts⟩⟩

end Paths

/-! ## One story -/

/-- The F1 of a dimension among the scores; nothing where it is not scored. -/
def ScoreVector.f1? {α : Type} (scores : ScoreVector α) : Dimension → Option α
  | .entities => some scores.entities
  | .attributes => some scores.attributes
  | .relations => scores.relations
  | .filters => some scores.filters
  | .aggregation => some scores.aggregation
  | .returnColumns => some scores.returnColumns

/-- A score of a dimension is that of the comparison of the two structures. -/
theorem f1?_assess {α : Type} [Scalar α] {config : Config α} {language : Language} {item : Item}
    {expected generated : Structure} {compared : Option (RowComparison α)} {d : Dimension} {f1 : α}
    (h : (assess config language item expected generated compared).scores.f1? d = some f1) :
    f1 = ((compareStructures expected generated).get d).f1 := by
  cases d with
  | relations =>
    cases language with
    | sql => cases h
    | cypher => exact (Option.some.inj h).symm
  | entities | attributes | filters | aggregation | returnColumns => exact (Option.some.inj h).symm

/-- **`r.Coherent`** -- the parts of a result agree with each other. -/
structure TaskResult.Coherent (r : TaskResult Float) : Prop where
  /-- The structure tells whether the text parses. -/
  parsed : r.generated.parsed = isValid r.language r.script
  /-- What is accurate has run. -/
  executed_of_accurate : r.scores.accurate = true → r.scores.executed = true
  /-- What has run parses. -/
  parsed_of_executed : r.scores.executed = true → r.generated.parsed = true
  /-- A syntax error is a text that does not parse. -/
  syntaxError : r.classification.category = .syntaxError ↔ isValid r.language r.script = false
  /-- A runtime error is a text that parses and did not run. -/
  runtimeError : r.classification.category = .runtimeError ↔
    isValid r.language r.script = true ∧ r.scores.executed = false
  /-- Correct is what is accurate. -/
  correct : r.classification.category = .correct ↔ r.scores.accurate = true
  /-- Correct is no flag. -/
  correct_not_flag : .correct ∉ r.classification.flags
  /-- Any other category is a flag. -/
  category_flag : r.classification.category ≠ .correct →
    r.classification.category ∈ r.classification.flags
  /-- The flag for other rows stands wherever the query is not accurate. -/
  mismatch_flag : .resultMismatch ∈ r.classification.flags ↔ r.scores.accurate = false
  /-- Without a run the rows score zero. -/
  rows_zero : r.scores.executed = false → r.scores.rows = .zero
  /-- Without a parse every dimension is zero. -/
  dimensions_zero : isValid r.language r.script = false → ∀ d : Dimension,
    ((compareStructures r.expected r.generated : ComponentScores Float).get d).f1 = Scalar.zero ∧
      ∀ f1, r.scores.f1? d = some f1 → f1 = Scalar.zero
  /-- The flat record still tells whether both queries ran. -/
  record_executed : r.toRecord.executed = r.scores.executed

/-- The category tells whether a query that parses has run. -/
theorem executed_toRecord {r : TaskResult Float}
    (hrun : r.scores.executed = true → r.generated.parsed = true)
    (hcategory : r.classification.category = .runtimeError ↔
      r.generated.parsed = true ∧ r.scores.executed = false) :
    r.toRecord.executed = r.scores.executed := by
  show (r.generated.parsed && r.classification.category != .runtimeError) = r.scores.executed
  cases hexecuted : r.scores.executed with
  | true =>
    have hother : r.classification.category ≠ .runtimeError := fun h => by
      rw [(hcategory.mp h).2] at hexecuted
      cases hexecuted
    rw [hrun hexecuted, Bool.true_and, bne_iff_ne]
    exact hother
  | false =>
    cases hparsed : r.generated.parsed with
    | false => rfl
    | true => rw [hcategory.mpr ⟨hparsed, hexecuted⟩, Bool.true_and, bne_self_eq_false]

/-- **An assessment is coherent** where nothing is compared without a parse. -/
theorem coherent_assess (config : Config Float) (language : Language) (item : Item)
    (expected : Structure) (compared : Option (RowComparison Float))
    (hcompared : isValid language item.script = false → compared = none) :
    (assess config language item expected (extract language item.script) compared).Coherent := by
  have hparsed := parsed_extract language item.script
  -- By the hypothesis nothing is compared without a parse.
  have hrun : compared.isSome = true → (extract language item.script).parsed = true := by
    intro hsome
    cases hvalid : isValid language item.script with
    | true => rw [hparsed, hvalid]
    | false =>
      rw [hcompared hvalid] at hsome
      cases hsome
  have haccurate : compared.any RowComparison.same = true → compared.isSome = true := by
    cases compared with
    | none => exact id
    | some _ => exact fun _ => rfl
  refine
    { parsed := hparsed
      executed_of_accurate := haccurate
      parsed_of_executed := hrun
      syntaxError := ?_
      runtimeError := ?_
      correct := correct_iff ⟨haccurate, hrun⟩
      correct_not_flag := correct_not_mem_flags
      category_flag := category_mem_flags
      mismatch_flag := resultMismatch_mem_flags
      rows_zero := ?_
      dimensions_zero := ?_
      record_executed := ?_ }
  · show _ ↔ isValid language item.script = false
    rw [← hparsed]
    exact syntaxError_iff
  · show _ ↔ isValid language item.script = true ∧ _
    rw [← hparsed]
    exact runtimeError_iff
  · intro hnot
    cases compared with
    | none => rfl
    | some _ => cases hnot
  · intro hinvalid d
    have hnothing : extract language item.script = .unparsed := extract_of_invalid hinvalid
    have hzero := f1_compareStructures_unparsed expected d
    refine ⟨?_, fun f1 hf1 => ?_⟩
    · show ((compareStructures expected (extract language item.script)).get d).f1 = _
      rw [hnothing]
      exact hzero
    · rw [f1?_assess hf1, hnothing]
      exact hzero
  · -- of a failed run the record only keeps the category
    exact executed_toRecord hrun runtimeError_iff

/-- The session after some evaluations, one after the other. -/
def Session.after {σ α : Type} [Scalar α] (executor : Executor σ) (store : σ) (config : Config α)
    (before : List (Language × Item)) : Session σ :=
  (runAll executor (before.map fun past => evaluation config past.1 past.2)
    (.start config.cacheCapacity store)).2

theorem Session.faithful_after {σ α : Type} [Scalar α] (executor : Executor σ) (store : σ)
    (config : Config α) (before : List (Language × Item)) :
    (Session.after executor store config before).Faithful :=
  faithful_runAll executor _ (Session.faithful_start config.cacheCapacity store)

/-- **Every result is coherent**, whatever the executor does, and whatever was evaluated before with
the same cache; without a parse the executor is not asked. -/
theorem evaluation_coherent {σ : Type} (executor : Executor σ) (store : σ) (config : Config Float)
    (before : List (Language × Item)) (language : Language) (item : Item) (r : TaskResult Float)
    (hresult : ((evaluation config language item).run executor
      (.after executor store config before)).1 = .ok r) :
    (r.task = item.task ∧ r.language = language ∧ r.script = item.script) ∧ r.Coherent ∧
    (isValid language item.script = false →
      ((evaluation config language item).run executor (.after executor store config before)).2.calls =
        (Session.after executor store config before).calls ∧
      ((evaluation config language item).run executor (.after executor store config before)).2.store =
        (Session.after executor store config before).store) := by
  obtain ⟨asked, hpath, hanswers, hcalls, -⟩ := (evaluation config language item).exists_path
    executor (Session.faithful_after executor store config before)
  rw [hresult] at hpath
  obtain ⟨-, herror⟩ | ⟨compared, hok, hinvalid, -⟩ := hpath.of_evaluation
  · cases herror
  cases hok
  refine ⟨⟨rfl, rfl, rfl⟩, coherent_assess _ _ _ _ _ fun h => (hinvalid h).1, fun h => ?_⟩
  obtain rfl : asked = [] := (hinvalid h).2
  exact ⟨hcalls, hanswers⟩

/-- An executor that answers once and fails from then on. -/
def flaky : Executor Nat := fun _ asked =>
  (if asked = 0 then .ok [] else .error (.query "busy"), asked + 1)

def flakyItem : Item := ⟨⟨"a", "", "RETURN 1", none⟩, "RETURN 2"⟩

theorem evaluation_coherent_flaky : ∃ r : TaskResult Float,
    ((evaluation Config.standard .cypher flakyItem).run flaky
      (.after flaky 0 .standard [(.cypher, flakyItem)])).1 = .ok r ∧
    r.classification.category = .runtimeError ∧ r.Coherent := by
  have hruns : (((evaluation Config.standard .cypher flakyItem).run flaky
      (.after flaky 0 .standard [(.cypher, flakyItem)])).1.toOption.any
        fun r => r.classification.category == .runtimeError) = true := by
    decide +kernel
  obtain ⟨r, hr, hcategory⟩ := (Option.any_eq_true _ _).mp hruns
  have hresult : ((evaluation Config.standard .cypher flakyItem).run flaky
      (.after flaky 0 .standard [(.cypher, flakyItem)])).1 = .ok r := by
    cases hrun : ((evaluation Config.standard .cypher flakyItem).run flaky
      (.after flaky 0 .standard [(.cypher, flakyItem)])).1 with
    | ok found => rw [hrun] at hr; cases hr; rfl
    | error _ => rw [hrun] at hr; cases hr
  exact ⟨r, hresult, eq_of_beq hcategory,
    (evaluation_coherent flaky 0 .standard [(.cypher, flakyItem)] .cypher flakyItem r hresult).2.1⟩

end QueryScore
