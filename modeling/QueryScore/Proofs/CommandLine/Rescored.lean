/-
# QueryScore.Proofs.CommandLine.Rescored -- a result file that is evaluated again

With an executor that is a function of the query and no recorded results in place of runs, the
outcome of an item depends on nothing but the question and the two queries (`value_evaluation`). A
record keeps these three (`recordOf_toTask`), and the file of records gives them back, because every
score is a moderate float and the text of such a float is read (`moderate_of_recordOf`,
`loadRecords_of_moderate`). So a second evaluation, of what the file of the first gives back, makes
the same records (`rescored`). Which floats the file gives back does not matter: none of them is used.
-/

import QueryScore.CommandLine.Run
import QueryScore.Proofs.Evaluation.Shared
import QueryScore.Proofs.Json.Moderate
import QueryScore.Proofs.Record.ReadBack
import QueryScore.Proofs.Score.SameRows

namespace QueryScore.CommandLine

open Score

variable {config : Config Float} {answer : String → Answer} {language : Language} {item : Item}

/-! ## What an evaluation comes to -/

/-- The comparison of the rows of two queries; nothing is compared if the second does not parse. -/
def comparedRows (answer : String → Answer) (language : Language) (expected generated : String) :
    Option (RowComparison Float) :=
  if isValid language generated then compareAnswers (answer expected) (answer generated) else none

theorem recordedReference?_eq_none (h : config.useRecorded = false) (task : Task) :
    recordedReference? config language task = none := by
  cases language <;> simp [recordedReference?, h]

/-- The value of a comparison is that of what follows it. -/
theorem value_comparison {β : Type} (h : config.useRecorded = false)
    (next : Option (RowComparison Float) → Plan β) :
    (comparison config language item next).value answer =
      (next (compareAnswers (answer (item.task.reference language)) (answer item.script))).value answer := by
  rw [comparison_eq, referenceAnswer, recordedReference?_eq_none h]
  show (afterReference item next (answer (item.task.reference language))).value answer = _
  cases answer (item.task.reference language) with
  | error _ => rfl
  | ok rows =>
    simp only [afterReference, Plan.value]
    cases answer item.script <;> rfl

/-- **Without recorded results the outcome of an item depends on its queries alone.** -/
theorem value_evaluation (h : config.useRecorded = false) :
    (evaluation config language item).value answer =
      if item.task.hasReference language then
        .ok (assess config language item (extract language (item.task.reference language))
          (extract language item.script) (comparedRows answer language (item.task.reference language) item.script))
      else .error ⟨item.task.question, language⟩ := by
  unfold evaluation comparedRows
  split
  · simp only [Plan.value, parsed_extract]
    split
    · rw [value_comparison h]
      rfl
    · rfl
  · rfl

/-! ## The record of an item -/

/-- The record of an item, if it can be evaluated. -/
def recordOf (config : Config Float) (answer : String → Answer) (language : Language) (item : Item) :
    Option (Record Float) :=
  ((evaluation config language item).value (supervised config answer)).toOption.map TaskResult.toRecord

theorem recordOf_eq (h : config.useRecorded = false) :
    recordOf config answer language item =
      if item.task.hasReference language then
        some (assess config language item (extract language (item.task.reference language))
          (extract language item.script) (comparedRows (supervised config answer) language
            (item.task.reference language) item.script)).toRecord
      else none := by
  rw [recordOf, value_evaluation h]
  split <;> rfl

/-- Plans that run one after the other come to their values. -/
theorem runAll_ofFunction {β : Type} (plans : List (Plan β)) {session : Session Unit} (hsession : session.Faithful) :
    (runAll (.ofFunction answer) plans session).1 = plans.map (Plan.value answer) := by
  induction plans generalizing session with
  | nil => rfl
  | cons plan rest ih =>
    obtain ⟨-, -, -, -, hfaithful⟩ := plan.exists_path (.ofFunction answer) hsession
    have hrest := ih hfaithful
    have hfirst := plan.run_ofFunction answer hsession
    simp only [runAll, List.map_cons, hfirst, hrest]

/-- The records among some outcomes. -/
def recordsOf (outcomes : List (Evaluated Float)) : List (Record Float) :=
  outcomes.filterMap fun outcome => outcome.toOption.map TaskResult.toRecord

theorem recordsOf_values (items : List Item) :
    recordsOf (items.map fun item => (evaluation config language item).value (supervised config answer)) =
      items.filterMap (recordOf config answer language) := by
  rw [recordsOf, List.filterMap_map]
  rfl

/-- **A batch makes the records of its items.** -/
theorem batchRecords_eq (items : List Item) :
    batchRecords config answer language items = items.filterMap (recordOf config answer language) := by
  have hresults : (runAll (.ofFunction (supervised config answer)) (items.map (evaluation config language))
      (.start config.cacheCapacity ())).1 = _ :=
    runAll_ofFunction _ (Session.faithful_start config.cacheCapacity ())
  rw [List.map_map] at hresults
  rw [← recordsOf_values]
  simp only [batchRecords, recordsOf]
  rw [hresults]
  refine List.filterMap_congr fun outcome _ => ?_
  cases outcome <;> rfl

/-- The question and the queries of an item. -/
def itemKey (language : Language) (item : Item) : String × String × String :=
  (item.task.question, item.task.reference language, item.script)

/-- The question and the queries of a record. -/
def recordKey {α : Type} (r : Record α) : String × String × String :=
  (r.question, r.expectedScript, r.generatedScript)

/-- The record of an item has its question and its queries. -/
theorem recordKey_of_recordOf (h : config.useRecorded = false) {r : Record Float}
    (hr : recordOf config answer language item = some r) :
    item.task.hasReference language = true ∧ recordKey r = itemKey language item := by
  rw [recordOf_eq h] at hr
  split at hr
  · next hreference =>
    obtain rfl := Option.some.inj hr
    exact ⟨hreference, rfl⟩
  · cases hr

/-- Items with the same question and the same queries have the same record. -/
theorem recordOf_congr (h : config.useRecorded = false) {other : Item}
    (hkey : itemKey language item = itemKey language other) :
    recordOf config answer language item = recordOf config answer language other := by
  obtain ⟨hquestion, hreference, hscript⟩ : item.task.question = other.task.question ∧
      item.task.reference language = other.task.reference language ∧ item.script = other.script := by
    simpa [itemKey] using hkey
  have hhas : item.task.hasReference language = other.task.hasReference language := by
    rw [Task.hasReference, Task.hasReference, hreference]
  rw [recordOf_eq h, recordOf_eq h, hhas, hreference, hscript]
  split
  · rw [Option.some.injEq]
    simp only [assess, TaskResult.toRecord, hquestion, hreference, hscript]
  · rfl

/-- **A record is the record of the item that is rebuilt from it.** -/
theorem recordOf_toTask (h : config.useRecorded = false) {r : Record Float}
    (hr : recordOf config answer language item = some r) :
    recordOf config answer language ⟨r.toTask language, r.generatedScript⟩ = some r := by
  obtain ⟨-, hkey⟩ := recordKey_of_recordOf h hr
  rw [← hr]
  refine recordOf_congr h ?_
  rw [← hkey]
  cases language <;> rfl

/-! ## The scores of a record are read -/

/-- The numbers of components of a structure fit 64 bits. -/
structure FitsStructure (s : Structure) : Prop where
  entities : s.entities.size < 2 ^ 64
  attributes : s.attributes.size < 2 ^ 64
  relations : s.relationKeys.size < 2 ^ 64
  filters : (Filter.normalize s.filters.toList).size < 2 ^ 64
  aggregation : s.aggregation.functions.size < 2 ^ 64
  returnColumns : s.returnColumnSet.size < 2 ^ 64

instance (s : Structure) : Decidable (FitsStructure s) :=
  decidable_of_iff (s.entities.size < 2 ^ 64 ∧ s.attributes.size < 2 ^ 64 ∧ s.relationKeys.size < 2 ^ 64 ∧
      (Filter.normalize s.filters.toList).size < 2 ^ 64 ∧ s.aggregation.functions.size < 2 ^ 64 ∧
      s.returnColumnSet.size < 2 ^ 64)
    ⟨fun ⟨he, ha, hr, hf, hg, hc⟩ => ⟨he, ha, hr, hf, hg, hc⟩,
      fun ⟨he, ha, hr, hf, hg, hc⟩ => ⟨he, ha, hr, hf, hg, hc⟩⟩

/-- **All that is counted for an item fits 64 bits**: the components of its queries and their rows. -/
structure FitsItem (answer : String → Answer) (language : Language) (item : Item) : Prop where
  expected : FitsStructure (extract language (item.task.reference language))
  generated : FitsStructure (extract language item.script)
  expectedRows : ∀ rows, answer (item.task.reference language) = .ok rows → rows.length < 2 ^ 64
  generatedRows : ∀ rows, answer item.script = .ok rows → rows.length < 2 ^ 64

theorem moderate_component {expected generated : Structure} (he : FitsStructure expected)
    (hg : FitsStructure generated) (d : Dimension) :
    IsModerate ((compareStructures expected generated : ComponentScores Float).get d).f1 := by
  cases d with
  | entities => exact (moderate_compareSets he.entities hg.entities).f1
  | attributes => exact (moderate_compareSets he.attributes hg.attributes).f1
  | relations => exact (moderate_compareSets he.relations hg.relations).f1
  | filters => exact (moderate_compareSets he.filters hg.filters).f1
  | aggregation => exact (moderate_compareSets he.aggregation hg.aggregation).f1
  | returnColumns => exact (moderate_compareSets he.returnColumns hg.returnColumns).f1

/-- An execution under a time limit returns no rows but those of the source. -/
theorem rows_of_supervised {query : String} {rows : Rows} (h : supervised config answer query = .ok rows) :
    answer query = .ok rows := by
  unfold supervised Supervision.Conduct.returns at h
  by_cases htime : 0 < config.timeout
  · rwa [Supervision.execute_endsAfter _ htime] at h
  · rw [Supervision.execute_endsAfter_late _ (Nat.not_lt.mp htime)] at h
    cases h

theorem size_normalizeRows_le (rows : Rows) : (normalizeRows rows).size ≤ rows.length :=
  Nat.le_trans (size_ofList_le _) (List.length_map _).le

/-- The scores of the rows are moderate, and zero where nothing is compared. -/
theorem moderate_rows {expected generated : String}
    (he : ∀ rows, answer expected = .ok rows → rows.length < 2 ^ 64)
    (hg : ∀ rows, answer generated = .ok rows → rows.length < 2 ^ 64) :
    (((comparedRows (supervised config answer) language expected generated).map RowComparison.scores).getD
      .zero).Moderate := by
  unfold comparedRows
  split
  · cases hexpected : supervised config answer expected with
    | error _ => exact moderate_zero
    | ok rows =>
      cases hgenerated : supervised config answer generated with
      | error _ => exact moderate_zero
      | ok others =>
        exact moderate_compareSets
          (Nat.lt_of_le_of_lt (size_normalizeRows_le rows) (he _ (rows_of_supervised hexpected)))
          (Nat.lt_of_le_of_lt (size_normalizeRows_le others) (hg _ (rows_of_supervised hgenerated)))
  · exact moderate_zero

/-- **All floats of a record are moderate.** -/
theorem moderate_of_recordOf (h : config.useRecorded = false) (hfits : FitsItem answer language item)
    {r : Record Float} (hr : recordOf config answer language item = some r) : ∀ x ∈ r.floats, IsModerate x := by
  rw [recordOf_eq h] at hr
  split at hr
  · obtain rfl := Option.some.inj hr
    have hcomponent := moderate_component hfits.expected hfits.generated
    have hrows : (((comparedRows (supervised config answer) language (item.task.reference language)
        item.script).map RowComparison.scores).getD .zero).Moderate :=
      moderate_rows hfits.expectedRows hfits.generatedRows
    have hrelations : ∀ x ∈ (assess config language item (extract language (item.task.reference language))
        (extract language item.script) (comparedRows (supervised config answer) language
          (item.task.reference language) item.script)).toRecord.relations, IsModerate x := by
      intro x hx
      cases language with
      | sql => cases hx
      | cypher =>
        obtain rfl := Option.some.inj hx
        exact hcomponent .relations
    intro x hx
    simp only [Record.floats, List.mem_append, List.mem_cons, List.not_mem_nil, or_false, Option.mem_toList] at hx
    rcases hx with (rfl | rfl | rfl | rfl | rfl | rfl | rfl | rfl) | hx
    · exact hcomponent .entities
    · exact hcomponent .attributes
    · exact hcomponent .filters
    · exact hcomponent .aggregation
    · exact hcomponent .returnColumns
    · exact hrows.f1
    · exact hrows.precision
    · exact hrows.coverage
    · exact hrelations x hx
  · cases hr

/-- The float that the text of a float is read as. -/
def readFloat (x : Float) : Float := ((Json.document (.float x)).float?).getD x

theorem readFloat_eq {x : Float} (h : IsModerate x) : (Json.document (.float x)).float? = some (readFloat x) := by
  obtain ⟨y, hy⟩ := Json.exists_float?_document h
  rw [readFloat, hy, Option.getD_some]

/-- A file of records with moderate floats is read, with other floats perhaps. -/
theorem loadRecords_of_moderate {records : List (Record Float)} (h : ∀ r ∈ records, ∀ x ∈ r.floats, IsModerate x) :
    loadRecords (some (recordFile records)) = .ok (records.map (Record.map readFloat)) :=
  loadRecords_recordFile_map fun r hr x hx => readFloat_eq (h r hr x hx)

/-! ## The second run -/

theorem recordedItems_map (f : Float → Float) (records : List (Record Float)) :
    recordedItems language (records.map (Record.map f)) = recordedItems language records := by
  rw [recordedItems, List.map_map]
  refine List.map_congr_left fun r _ => ?_
  cases language <;> rfl

/-- **The records of a batch are the records of the items that are rebuilt from them.** -/
theorem batchRecords_recordedItems (h : config.useRecorded = false) (items : List Item) :
    batchRecords config answer language (recordedItems language (batchRecords config answer language items)) =
      batchRecords config answer language items := by
  rw [batchRecords_eq, batchRecords_eq, recordedItems, List.filterMap_map]
  have hsame : ∀ r ∈ items.filterMap (recordOf config answer language),
      (recordOf config answer language ∘ fun r => ⟨r.toTask language, r.generatedScript⟩) r = some r := by
    intro r hr
    obtain ⟨item, -, hitem⟩ := List.mem_filterMap.mp hr
    exact recordOf_toTask h hitem
  rw [List.filterMap_congr hsame, List.filterMap_some]

/-- There is one record for each item that has a reference query. -/
theorem map_recordKey (h : config.useRecorded = false) (items : List Item) :
    (batchRecords config answer language items).map recordKey =
      (items.filter fun item => item.task.hasReference language).map (itemKey language) := by
  rw [batchRecords_eq]
  induction items with
  | nil => rfl
  | cons item rest ih =>
    cases hrecord : recordOf config answer language item with
    | none =>
      have hreference : item.task.hasReference language = false := by
        rw [recordOf_eq h] at hrecord
        split at hrecord
        · cases hrecord
        · next hno => simpa using hno
      rw [List.filterMap_cons_none hrecord, List.filter_cons_of_neg (by simp [hreference]), ih]
    | some r =>
      obtain ⟨hreference, hkey⟩ := recordKey_of_recordOf h hrecord
      rw [List.filterMap_cons_some hrecord, List.filter_cons_of_pos (by simp [hreference]), List.map_cons,
        List.map_cons, ih, hkey]

/-- **Whatever the order in which workers take the steps**, the records are those of the batch. -/
theorem records_of_schedule {items : List Item} {schedule : List Nat} {batch : Batch Unit (Evaluated Float)}
    {outcomes : List (Evaluated Float)}
    (hplay : (Batch.start (.start config.cacheCapacity ()) (items.map (evaluation config language))).play
      (.ofFunction (supervised config answer)) schedule = some batch)
    (houtcomes : batch.results? = some outcomes) :
    recordsOf outcomes = batchRecords config answer language items := by
  obtain ⟨-, -, hvalues, -⟩ := Batch.play_sound
    (Batch.sound_start (Session.faithful_start config.cacheCapacity ()) (items.map (evaluation config language))) hplay
  rw [Batch.results_eq houtcomes, hvalues, Batch.values, Batch.start, List.map_map, List.map_map, batchRecords_eq,
    ← recordsOf_values]
  rfl

/-! ## Both commands -/

/-- The settings and the source of a command are these. -/
structure Opens (inputs : Inputs) (source : Source) (options : RunOptions) (config : Config Float)
    (answer : String → Answer) : Prop where
  config : runConfig inputs options = some config
  source : openSource inputs source = some answer

variable {inputs : Inputs} {source : Source} {options : RunOptions}

theorem reply_evaluate (h : Opens inputs source options config answer) {tasksPath responsesPath : String}
    {tasks : List Task} {responses : List (String × String)}
    (htasks : loadTasks (inputs.read tasksPath) = .ok tasks)
    (hresponses : loadResponses (inputs.read responsesPath) = some responses) :
    (Command.evaluate tasksPath responsesPath language source options).reply inputs =
      .store options.directory (options.name.getD (stem responsesPath))
        (batchRecords config answer language (answeredTasks tasks responses)) := by
  simp [Command.reply, evaluateReply, h.config, h.source, htasks, hresponses, Except.toOption]

theorem reply_rescore (h : Opens inputs source options config answer) {resultsPath : String}
    {records : List (Record Float)} (hrecords : loadRecords (inputs.read resultsPath) = .ok records) :
    (Command.rescore resultsPath language source options).reply inputs =
      .store options.directory (options.name.getD (stem resultsPath ++ "_rescored"))
        (batchRecords config answer language (recordedItems language records)) := by
  simp [Command.reply, rescoreReply, h.config, h.source, hrecords, Except.toOption]

/-- **`Rescored config answer language tasks responses records`** -- what the evaluation of responses
leaves behind, and what an evaluation of that makes of it. -/
structure Rescored (config : Config Float) (answer : String → Answer) (language : Language) (tasks : List Task)
    (responses : List (String × String)) (records : List (Record Float)) : Prop where
  /-- There is one record for each task with a reference query, in the order of the tasks. -/
  keys : records.map recordKey =
    ((answeredTasks tasks responses).filter fun item => item.task.hasReference language).map (itemKey language)
  /-- The evaluation writes these records, from any files with the same contents. -/
  evaluates : ∀ (inputs : Inputs) (source : Source) (options : RunOptions) (tasksPath responsesPath : String),
    Opens inputs source options config answer → loadTasks (inputs.read tasksPath) = .ok tasks →
    loadResponses (inputs.read responsesPath) = some responses →
    ∃ name, (Command.evaluate tasksPath responsesPath language source options).reply inputs =
      .store options.directory name records
  /-- So do workers that take turns in any order. -/
  schedules : ∀ (schedule : List Nat) (batch : Batch Unit (Evaluated Float)) (outcomes : List (Evaluated Float)),
    (Batch.start (.start config.cacheCapacity ()) ((answeredTasks tasks responses).map (evaluation config language))).play
      (.ofFunction (supervised config answer)) schedule = some batch →
    batch.results? = some outcomes → recordsOf outcomes = records
  /-- The file that is written holds the text of the records. -/
  written : ∀ (disk disk' : Disk) (directory name : String) (place : Place),
    disk.writeOutput directory name records = (.ok place, disk') →
    disk'.file? (place ++ [(recordsFileName name).toList]) = some (recordFile records)
  /-- The evaluation of a file with this text writes the same records. -/
  rescores : ∀ (inputs : Inputs) (source : Source) (options : RunOptions) (resultsPath : String),
    Opens inputs source options config answer → inputs.read resultsPath = some (recordFile records) →
    ∃ name, (Command.rescore resultsPath language source options).reply inputs =
      .store options.directory name records

/-- Three tasks, of which one has no graph query. -/
def rescoredTasks : List Task :=
  [⟨"a", "", "MATCH (n:P) RETURN n.x", none⟩, ⟨"b", "SELECT 1", " ", none⟩, ⟨"c", "", "RETURN 1", none⟩]

/-- A response to the first of them. -/
def rescoredResponses : List (String × String) := [("a", "MATCH (n:P) RETURN n.y")]

end QueryScore.CommandLine
