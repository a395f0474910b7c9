/-
# QueryScore.Proofs.Evaluation.Reference -- a reference query as its own answer

A text that parses is not blank (`hasReference_of_isValid`): a blank SQL text holds no statement,
and an accepted Cypher text holds the word `RETURN`. So a reference query that parses is evaluated,
and given back as the generated query it is compared with itself: the same structure twice, and the
same rows twice, because the executor answers both times alike.
-/

import QueryScore.Proofs.Cypher.ReturnClause
import QueryScore.Proofs.Evaluation.Coherent

namespace QueryScore

open Score Text

/-! ## What parses is not blank -/

/-- Blanks are no tokens. -/
theorem Sql.lexFrom_blank {cs : List Char} (h : Blank cs) (fuel : Nat) (afterWord : Bool)
    (hfuel : cs.length ≤ fuel) : Sql.lexFrom fuel afterWord cs = some [] := by
  induction cs generalizing fuel afterWord with
  | nil => cases fuel <;> rfl
  | cons c cs ih =>
    cases fuel with
    | zero => cases hfuel
    | succ fuel =>
      have hblank : isBlank c = true := h c List.mem_cons_self
      have hrest := ih (fun d hd => h d (List.mem_cons_of_mem _ hd)) fuel false
        (Nat.le_of_succ_le_succ hfuel)
      unfold Sql.lexFrom
      split
      · rfl
      · next heq =>
        cases heq
        exact absurd hblank (by decide)
      · next heq =>
        cases heq
        exact absurd hblank (by decide)
      · next heq =>
        cases heq
        rw [if_pos hblank]
        exact hrest

theorem Sql.parse_blank {cs : List Char} (h : Blank cs) : Sql.parse cs = .error .noStatement := by
  have hlex : Sql.lex cs = some [] := Sql.lexFrom_blank h _ _ (Nat.le_refl _)
  have hnone : Sql.statements cs = some [] := by
    unfold Sql.statements
    rw [hlex]
    rfl
  unfold Sql.parse
  rw [hnone]

/-- An accepted text holds the letters of `RETURN`. -/
theorem Cypher.not_blank_of_parse {cs : List Char} {tree : Tree Cypher.Rule}
    (h : Cypher.parse cs = .ok tree) : ¬ Blank cs := by
  intro hblank
  obtain ⟨lead, word, gap, distinct, space, list, after, hclause⟩ := Cypher.exists_clause h
  have hword : word.map asciiLower = "RETURN".toList.map asciiLower :=
    (Cypher.reads_keyword hclause.reads_word).1
  cases word with
  | nil => cases hword
  | cons c word =>
    have halpha : c.isAlpha = true :=
      isAlpha_of_mem hword (Cypher.isAlpha_of_mem_reservedWords "RETURN" (by decide)).2 c
        List.mem_cons_self
    have hmem : c ∈ cs := by
      rw [hclause.text]
      simp
    rw [not_isAlpha_of_isBlank (hblank c hmem)] at halpha
    cases halpha

/-- **A reference query that parses is there.** -/
theorem hasReference_of_isValid {task : Task} {language : Language}
    (h : isValid language (task.reference language) = true) : task.hasReference language = true := by
  cases hreference : task.hasReference language with
  | true => rfl
  | false =>
    have hblank : Blank (task.reference language).toList := by
      simpa [Task.hasReference, Blank] using hreference
    unfold isValid structureOf? at h
    cases language with
    | sql =>
      rw [Sql.parse_blank hblank] at h
      cases h
    | cypher =>
      cases hparse : Cypher.parse (task.reference .cypher).toList with
      | ok tree => exact absurd hblank (Cypher.not_blank_of_parse hparse)
      | error _ =>
        simp only [Cypher.structure?, hparse] at h
        cases h

/-! ## The reference query given back -/

/-- No dimension of a structure compared with itself fails. -/
theorem failingDimensions_self {threshold : ℚ} (hthreshold : threshold ≤ 1) (s : Structure)
    (language : Language) (parsed executed accurate : Bool) :
    failingDimensions threshold ⟨language, parsed, executed, accurate, compareStructures s s⟩ = [] := by
  apply List.filter_eq_nil_iff.mpr
  intro d _ hfails
  rw [Bool.and_eq_true, decide_eq_true_eq] at hfails
  obtain ⟨happlies, hlow⟩ := hfails
  rw [f1_compareStructures_self s d happlies] at hlow
  exact absurd hlow (not_lt.mpr hthreshold)

/-- **A reference query that parses is correct as its own answer**: whatever was evaluated before,
if the executor answers it with the same rows each time, the result is accurate, correct and without
flags; every dimension that applies scores one, and so do the rows unless there are none. -/
theorem evaluation_reference {σ : Type} (executor : Executor σ) (store : σ) (config : Config ℚ)
    (before : List (Language × Item)) (language : Language) (task : Task) (rows : Rows)
    (hvalid : isValid language (task.reference language) = true)
    (hanswers : ∀ s, (executor (task.reference language) s).1 = .ok rows)
    (hrecorded : recordedReference? config language task = none)
    (hthreshold : 0 < config.threshold ∧ config.threshold ≤ 1) :
    ∃ r, ((evaluation config language ⟨task, task.reference language⟩).run executor
        (.after executor store config before)).1 = .ok r ∧
      r.scores.executed = true ∧ r.scores.accurate = true ∧
      r.classification.category = .correct ∧ r.classification.flags = .empty ∧
      (∀ d : Dimension,
        ((compareStructures r.expected r.generated : ComponentScores ℚ).get d).applicable = true →
          ((compareStructures r.expected r.generated : ComponentScores ℚ).get d).f1 = 1 ∧
          ∀ f1, r.scores.f1? d = some f1 → f1 = 1) ∧
      (rows ≠ [] → r.scores.rows = ⟨1, 1, 1⟩) := by
  obtain ⟨asked, hpath, hanswered, -, -⟩ :=
    (evaluation config language ⟨task, task.reference language⟩).exists_path executor
      (Session.faithful_after executor store config before)
  have hrule := hanswered.keeps
    (fun query found => query = task.reference language → found = .ok rows)
    fun query s hquery => by rw [hquery, hanswers]
  obtain ⟨hnone, -⟩ | ⟨compared, hok, -, hcompared⟩ := hpath.of_evaluation
  · rw [hasReference_of_isValid hvalid] at hnone
    cases hnone
  obtain ⟨expected, generated, hpair, -, hexpected, hgenerated⟩ := hcompared hvalid
  -- both answers are the answer to the one text
  obtain rfl : expected = .ok rows := hrule _ (hexpected hrecorded) rfl
  obtain rfl : generated = .ok rows := hrule _ (hgenerated rows rfl) rfl
  obtain rfl : compared = some (compareRows rows rows) := hpair
  have hsame : (compareRows rows rows : RowComparison ℚ).same = true := sameRows_self rows
  have hparsed : (extract language (task.reference language)).parsed = true := by
    rw [parsed_extract, hvalid]
  refine ⟨_, hok, rfl, hsame, ?_, ?_, fun d happlies => ?_, fun hrows => ?_⟩
  · exact (correct_iff ⟨fun _ => rfl, fun _ => hparsed⟩).mpr hsame
  · exact flags_eq_empty hparsed rfl hsame (failingDimensions_self hthreshold.2 _ _ _ _ _)
  · have hone := f1_compareStructures_self (extract language (task.reference language)) d happlies
    exact ⟨hone, fun f1 hf1 => (f1?_assess hf1).trans hone⟩
  · show (compareRows rows rows : RowComparison ℚ).scores = _
    rw [compareRows_self hrows]

/-- A query with a join, nested filters, groups and a sort key. -/
def countingTask : Task where
  question := "How many people live where?"
  sql := "SELECT c.name, COUNT(*) FROM person p JOIN city c ON p.city = c.id WHERE p.age > 3 AND " ++
    "(c.name = 'x' OR c.size BETWEEN 1 AND 2) GROUP BY c.name ORDER BY c.name DESC"
  cypher := ""
  recorded := none

/-- Exact settings: half of the structure has to be right. -/
def exactSettings : Config ℚ := ⟨30000, 1000, 1 / 2, .exactly 1, 8, false⟩

/-- An executor with the same row for every query. -/
def steady : Executor Nat := fun _ asked => (.ok [.arr [.str "x", .int 1]], asked + 1)

theorem evaluation_reference_countingTask :
    ∃ r, ((evaluation exactSettings .sql ⟨countingTask, countingTask.sql⟩).run steady
        (.after steady 0 exactSettings [])).1 = .ok r ∧
      r.classification.category = .correct ∧ r.classification.flags = .empty ∧
      r.scores.rows = ⟨1, 1, 1⟩ := by
  obtain ⟨r, hok, -, -, hcategory, hflags, -, hrows⟩ :=
    evaluation_reference steady 0 exactSettings [] .sql countingTask [.arr [.str "x", .int 1]]
      (by decide +kernel) (fun _ => rfl) rfl (by decide +kernel)
  exact ⟨r, hok, hcategory, hflags, hrows (by simp)⟩

end QueryScore
