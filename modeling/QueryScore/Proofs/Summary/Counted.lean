/-
# QueryScore.Proofs.Summary.Counted -- a summary of evaluations is consistent

The rates of a summary are read off three fields of the records, its counts off two others. For a
record that an evaluation left behind the five fields say one thing (`Record.Evaluated.story`): they
are all settled by the category and the flags of one decision list. Counted over a list, every such
equivalence between fields becomes an equation between counts, and every implication an inequality
(`Summary.Consistent`). Nothing of this depends on what the scores are computed in; where that is
exact, so are the rates.
-/

import QueryScore.Proofs.Evaluation.Coherent
import QueryScore.Summary

namespace QueryScore

open Score

variable {α : Type}

/-! ## Counts by category -/

/-- The number that stands at a category; zero if there is none. -/
def countAt (counts : List (Category × Nat)) (c : Category) : Nat := (counts.lookup c).getD 0

/-- The number of records in a category. -/
def Summary.inCategory (s : Summary α) (c : Category) : Nat := countAt s.categories c

/-- The number of records that carry a flag. -/
def Summary.withFlag (s : Summary α) (c : Category) : Nat := countAt s.flags c

theorem lookup_positive (count : Category → Nat) (c : Category) (categories : List Category) :
    ((categories.map fun c => (c, count c)).filter fun entry => entry.2 != 0).lookup c =
      if c ∈ categories ∧ count c ≠ 0 then some (count c) else none := by
  induction categories with
  | nil => simp
  | cons first rest ih =>
    rw [List.map_cons, List.filter_cons]
    by_cases hfirst : c = first
    · subst hfirst
      by_cases hcount : count c = 0
      · simp [hcount, ih]
      · simp [hcount]
    · by_cases hcount : count first = 0
      · simp [hcount, ih, hfirst]
      · simp [hcount, ih, hfirst, List.lookup_cons, beq_eq_false_iff_ne.mpr hfirst]

theorem mem_all (c : Category) : c ∈ Category.all := by
  cases c <;> decide

theorem lookup_positiveCounts (count : Category → Nat) (c : Category) :
    (positiveCounts count).lookup c = if count c = 0 then none else some (count c) := by
  rw [positiveCounts, lookup_positive]
  by_cases hcount : count c = 0 <;> simp [hcount, mem_all]

@[simp] theorem countAt_positiveCounts (count : Category → Nat) (c : Category) :
    countAt (positiveCounts count) c = count c := by
  rw [countAt, lookup_positiveCounts]
  split
  · next h => rw [h, Option.getD_none]
  · rfl

/-- What is left out of a table of counts counts nothing. -/
theorem sum_positiveCounts (count : Category → Nat) :
    ((positiveCounts count).map Prod.snd).sum = (Category.all.map count).sum := by
  unfold positiveCounts
  induction Category.all with
  | nil => rfl
  | cons c rest ih =>
    rw [List.map_cons, List.filter_cons, List.map_cons, List.sum_cons, ← ih]
    by_cases hcount : count c = 0 <;> simp [hcount]

/-- Every record is in one category. -/
theorem sum_categoryCount (records : List (Record α)) :
    (Category.all.map (categoryCount records)).sum = records.length := by
  unfold categoryCount
  induction records with
  | nil => rfl
  | cons r rest ih =>
    rw [List.length_cons, ← ih]
    simp only [List.countP_cons, Category.all, List.map_cons, List.map_nil, List.sum_cons,
      List.sum_nil]
    cases r.category <;> simp <;> omega

theorem categoryCount_append (first second : List (Record α)) (c : Category) :
    categoryCount (first ++ second) c = categoryCount first c + categoryCount second c :=
  List.countP_append

theorem flagCount_append (first second : List (Record α)) (c : Category) :
    flagCount (first ++ second) c = flagCount first c + flagCount second c :=
  List.countP_append

theorem categoryCount_le (records : List (Record α)) (c : Category) :
    categoryCount records c ≤ records.length :=
  List.countP_le_length

/-- Where each record has a property exactly if it has one of two others, the counts add up. -/
theorem countP_split {whole first second : Record α → Bool} {records : List (Record α)}
    (h : ∀ r ∈ records, (whole r).toNat = (first r).toNat + (second r).toNat) :
    records.countP whole = records.countP first + records.countP second := by
  induction records with
  | nil => rfl
  | cons r rest ih =>
    have hrest := ih fun r hr => h r (List.mem_cons_of_mem _ hr)
    have hr := h r List.mem_cons_self
    rw [List.countP_cons, List.countP_cons, List.countP_cons, hrest]
    revert hr
    cases whole r <;> cases first r <;> cases second r <;> simp <;> omega

/-! ## What one record says -/

/-- **`r.Story`** -- the fields of a record that a summary counts agree. -/
structure Record.Story (r : Record α) : Prop where
  /-- A syntax error is what does not parse. -/
  parsed : r.parsed = true ↔ r.category ≠ .syntaxError
  /-- Both queries ran where there is no error of syntax or run. -/
  executed : r.executed = true ↔ r.category ≠ .syntaxError ∧ r.category ≠ .runtimeError
  /-- Correct is what returned the right rows. -/
  accurate : r.accurate = true ↔ r.category = .correct
  /-- Correct is no flag. -/
  correct_not_flag : .correct ∉ r.flags
  /-- Any other category is a flag. -/
  category_flag : r.category ≠ .correct → r.category ∈ r.flags
  /-- The flag for other rows stands wherever the category is not correct. -/
  mismatch_flag : .resultMismatch ∈ r.flags ↔ r.category ≠ .correct
  /-- The flag for a syntax error is the category. -/
  syntax_flag : .syntaxError ∈ r.flags ↔ r.category = .syntaxError
  /-- The flag for a failed run is the category. -/
  runtime_flag : .runtimeError ∈ r.flags ↔ r.category = .runtimeError

variable {records : List (Record α)}

theorem countP_parsed (h : ∀ r ∈ records, r.Story) :
    records.length = records.countP Record.parsed + categoryCount records .syntaxError := by
  rw [← List.countP_true]
  refine countP_split fun r hr => ?_
  have hparsed := (h r hr).parsed
  by_cases hcategory : r.category = .syntaxError <;> simp_all

theorem countP_executed (h : ∀ r ∈ records, r.Story) :
    records.countP Record.parsed =
      records.countP Record.executed + categoryCount records .runtimeError := by
  refine countP_split fun r hr => ?_
  have hparsed := (h r hr).parsed
  have hexecuted := (h r hr).executed
  by_cases hsyntax : r.category = .syntaxError
  · simp_all [show (Category.syntaxError == .runtimeError) = false from rfl]
  · by_cases hruntime : r.category = .runtimeError <;> simp_all

theorem countP_accurate (h : ∀ r ∈ records, r.Story) :
    records.countP Record.accurate = categoryCount records .correct :=
  List.countP_congr fun r hr => by rw [(h r hr).accurate, beq_iff_eq]

theorem flagCount_mismatch (h : ∀ r ∈ records, r.Story) :
    records.length = flagCount records .resultMismatch + categoryCount records .correct := by
  rw [← List.countP_true]
  refine countP_split fun r hr => ?_
  have hmismatch := (h r hr).mismatch_flag
  by_cases hcategory : r.category = .correct <;> simp_all

theorem flagCount_correct (h : ∀ r ∈ records, r.Story) : flagCount records .correct = 0 :=
  List.countP_eq_zero.mpr fun r hr => by simpa using (h r hr).correct_not_flag

theorem categoryCount_le_flagCount (h : ∀ r ∈ records, r.Story) {c : Category} (hc : c ≠ .correct) :
    categoryCount records c ≤ flagCount records c := by
  refine List.countP_mono_left fun r hr hcategory => ?_
  obtain rfl : r.category = c := eq_of_beq hcategory
  exact decide_eq_true ((h r hr).category_flag hc)

/-! ## What an evaluation leaves behind -/

variable [Scalar α]

/-- **`r.Evaluated`** -- an evaluation left this record behind: of some item in some language, with
some settings and some executor, after other evaluations that filled the same cache. -/
def Record.Evaluated (r : Record α) : Prop :=
  ∃ (σ : Type) (executor : Executor σ) (store : σ) (config : Config α)
    (before : List (Language × Item)) (language : Language) (item : Item) (result : TaskResult α),
    ((evaluation config language item).run executor
      (.after executor store config before)).1 = .ok result ∧ r = result.toRecord

theorem syntaxError_mem_flags {threshold : α} {e : Evidence α} :
    Category.syntaxError ∈ (classify threshold e).flags ↔ e.parsed = false := by
  rw [mem_flags]
  constructor
  · rintro (⟨-, h⟩ | ⟨h, -⟩ | ⟨d, -, h⟩ | ⟨h, -⟩)
    · exact h
    · cases h
    · exact absurd h.symm (Category.ofDimension_ne d).1
    · cases h
  · exact fun h => .inl ⟨rfl, h⟩

theorem runtimeError_mem_flags {threshold : α} {e : Evidence α} :
    Category.runtimeError ∈ (classify threshold e).flags ↔ e.parsed = true ∧ e.executed = false := by
  rw [mem_flags]
  constructor
  · rintro (⟨h, -⟩ | ⟨-, h⟩ | ⟨d, -, h⟩ | ⟨h, -⟩)
    · cases h
    · exact h
    · exact absurd h.symm (Category.ofDimension_ne d).2.1
    · cases h
  · exact fun h => .inr (.inl ⟨rfl, h⟩)

/-- Where nothing is compared without a parse, an assessment leaves a record with one story. -/
theorem story_assess (config : Config α) (language : Language) (item : Item)
    (expected generated : Structure) (compared : Option (RowComparison α))
    (hcompared : generated.parsed = false → compared = none) :
    (assess config language item expected generated compared).toRecord.Story := by
  generalize hassessed : assess config language item expected generated compared = result
  have hevidence : ∃ e : Evidence α, e.Consistent ∧ e.parsed = result.generated.parsed ∧
      e.accurate = result.scores.accurate ∧ result.classification = classify config.threshold e := by
    subst hassessed
    refine ⟨_, ⟨fun haccurate => ?_, fun hexecuted => ?_⟩, rfl, rfl, rfl⟩
    · cases compared with
      | none => cases haccurate
      | some _ => rfl
    · by_contra hparsed
      rw [hcompared (Bool.not_eq_true _ ▸ hparsed)] at hexecuted
      cases hexecuted
  obtain ⟨e, hconsistent, hparsed, haccurate, hclassified⟩ := hevidence
  have hsyntax : e.parsed = false ↔ result.classification.category = .syntaxError := by
    rw [hclassified]
    exact syntaxError_iff.symm
  have hcorrect : e.accurate = true ↔ result.classification.category = .correct := by
    rw [hclassified]
    exact (correct_iff hconsistent).symm
  have hruntime : e.parsed = true ∧ e.executed = false ↔
      result.classification.category = .runtimeError := by
    rw [hclassified]
    exact runtimeError_iff.symm
  have hrecord : result.generated.parsed = true ↔ result.classification.category ≠ .syntaxError := by
    rw [← hparsed, ne_eq, ← hsyntax, Bool.not_eq_false]
  exact
    { parsed := hrecord
      executed := by
        show (result.generated.parsed && result.classification.category != .runtimeError) = true ↔ _
        rw [Bool.and_eq_true, hrecord, bne_iff_ne]
        rfl
      accurate := by
        show result.scores.accurate = true ↔ _
        rw [← haccurate]
        exact hcorrect
      correct_not_flag := by
        show Category.correct ∉ result.classification.flags
        rw [hclassified]
        exact correct_not_mem_flags
      category_flag := by
        show result.classification.category ≠ _ →
          result.classification.category ∈ result.classification.flags
        rw [hclassified]
        exact category_mem_flags
      mismatch_flag := by
        show _ ∈ result.classification.flags ↔ result.classification.category ≠ .correct
        rw [ne_eq, ← hcorrect, hclassified, resultMismatch_mem_flags, Bool.not_eq_true]
      syntax_flag := by
        show _ ∈ result.classification.flags ↔ result.classification.category = _
        rw [← hsyntax, hclassified, syntaxError_mem_flags]
      runtime_flag := by
        show _ ∈ result.classification.flags ↔ result.classification.category = _
        rw [← hruntime, hclassified, runtimeError_mem_flags] }

/-- **What an evaluation leaves behind tells one story.** -/
theorem Record.Evaluated.story {r : Record α} (h : r.Evaluated) : r.Story := by
  obtain ⟨σ, executor, store, config, before, language, item, result, hresult, rfl⟩ := h
  obtain ⟨asked, hpath, -⟩ := (evaluation config language item).exists_path executor
    (Session.faithful_after executor store config before)
  rw [hresult] at hpath
  obtain ⟨-, herror⟩ | ⟨compared, hok, hinvalid, -⟩ := hpath.of_evaluation
  · cases herror
  cases hok
  refine story_assess _ _ _ _ _ _ fun hparsed => ?_
  rw [parsed_extract] at hparsed
  exact (hinvalid hparsed).1

/-! ## What a summary says -/

/-- The share of some of the things; zero if there are none. -/
def portion (part whole : Nat) : α :=
  if whole = 0 then Scalar.zero else Scalar.ofCount part / Scalar.ofCount whole

/-- **`Scalar.Exact value`** -- numbers stand for rationals, counts and quotients exactly. -/
structure Score.Scalar.Exact (value : α → ℚ) : Prop where
  /-- A count stands for the number of things. -/
  ofCount : ∀ n, value (Scalar.ofCount n) = n
  /-- A quotient stands for the quotient. -/
  div : ∀ a b, value (a / b) = value a / value b

theorem exact_id : Scalar.Exact (id : ℚ → ℚ) := ⟨fun _ => rfl, fun _ _ => rfl⟩

/-- In exact arithmetic a share of the whole is the part. -/
theorem Score.Scalar.Exact.mul_portion {value : α → ℚ} (h : Scalar.Exact value) {part whole : Nat}
    (hle : part ≤ whole) : (whole : ℚ) * value (portion part whole) = part := by
  unfold portion
  split
  · next hzero =>
    obtain rfl : part = 0 := by omega
    rw [hzero, Nat.cast_zero, zero_mul]
  · next hzero =>
    have hwhole : (whole : ℚ) ≠ 0 := Nat.cast_ne_zero.mpr hzero
    rw [h.div, h.ofCount, h.ofCount]
    exact mul_div_cancel₀ _ hwhole

theorem rate_eq_portion (holds : Record α → Bool) (records : List (Record α)) :
    rate holds records = portion (records.countP holds) records.length := by
  unfold rate portion
  cases records <;> rfl

/-- **`s.Consistent`** -- the rates and the counts of a summary agree. -/
structure Summary.Consistent (s : Summary α) : Prop where
  /-- Every record is counted in one category. -/
  sum : (s.categories.map Prod.snd).sum = s.total
  /-- What parses is no syntax error. -/
  parsed : s.inCategory .syntaxError ≤ s.total ∧
    s.parsedRate = portion (s.total - s.inCategory .syntaxError) s.total
  /-- What ran is no error of syntax or run. -/
  executed : s.inCategory .syntaxError + s.inCategory .runtimeError ≤ s.total ∧
    s.executedRate = portion (s.total - s.inCategory .syntaxError - s.inCategory .runtimeError) s.total
  /-- What has the right rows is correct. -/
  accurate : s.inCategory .correct ≤ s.total ∧
    s.accurateRate = portion (s.inCategory .correct) s.total
  /-- In exact arithmetic the rates are just these shares. -/
  exact : ∀ value : α → ℚ, Scalar.Exact value →
    s.total * value s.parsedRate = s.total - s.inCategory .syntaxError ∧
    s.total * value s.executedRate =
      s.total - s.inCategory .syntaxError - s.inCategory .runtimeError ∧
    s.total * value s.accurateRate = s.inCategory .correct
  /-- Other rows are flagged wherever the category is not correct. -/
  mismatch : s.withFlag .resultMismatch + s.inCategory .correct = s.total
  /-- There is no count of flags for what is correct. -/
  correct : s.flags.lookup .correct = none
  /-- Every other category is a flag. -/
  flagged : ∀ c, c ≠ .correct → s.inCategory c ≤ s.withFlag c ∧ s.withFlag c ≤ s.total
  /-- A flag for an error of syntax or run is the category. -/
  errors : s.withFlag .syntaxError = s.inCategory .syntaxError ∧
    s.withFlag .runtimeError = s.inCategory .runtimeError

/-- **The summary of records that each tell one story is consistent.** -/
theorem consistent_of_story {records : List (Record α)} (h : ∀ r ∈ records, r.Story) :
    (summarize records).Consistent := by
  -- the three rates are shares of counts, and these are what is left of all records
  have hparsed := countP_parsed h
  have hexecuted := countP_executed h
  have haccurate := countP_accurate h
  have hcategory : ∀ c, (summarize records).inCategory c = categoryCount records c :=
    countAt_positiveCounts (categoryCount records)
  have hflag : ∀ c, (summarize records).withFlag c = flagCount records c :=
    countAt_positiveCounts (flagCount records)
  have htotal : (summarize records).total = records.length := rfl
  have hparsedRate : (summarize records).parsedRate =
      portion (records.countP Record.parsed) records.length := rate_eq_portion _ _
  have hexecutedRate : (summarize records).executedRate =
      portion (records.countP Record.executed) records.length := rate_eq_portion _ _
  have haccurateRate : (summarize records).accurateRate =
      portion (categoryCount records .correct) records.length := by
    rw [← haccurate]
    exact rate_eq_portion _ _
  have hleft : records.length - categoryCount records .syntaxError = records.countP Record.parsed := by
    omega
  have hran : records.length - categoryCount records .syntaxError -
      categoryCount records .runtimeError = records.countP Record.executed := by
    omega
  exact
    { sum := (sum_positiveCounts _).trans (sum_categoryCount records)
      parsed := by
        rw [hcategory, htotal, hleft]
        exact ⟨categoryCount_le records _, hparsedRate⟩
      executed := by
        rw [hcategory, hcategory, htotal, hran]
        exact ⟨by omega, hexecutedRate⟩
      accurate := by
        rw [hcategory, htotal]
        exact ⟨categoryCount_le records _, haccurateRate⟩
      exact := fun value hvalue => by
        rw [hcategory, hcategory, hcategory, htotal, hparsedRate, hexecutedRate, haccurateRate,
          hvalue.mul_portion List.countP_le_length, hvalue.mul_portion List.countP_le_length,
          hvalue.mul_portion (categoryCount_le records _), hparsed, hexecuted]
        push_cast
        exact ⟨(add_sub_cancel_right _ _).symm, by rw [add_sub_cancel_right, add_sub_cancel_right],
          rfl⟩
      mismatch := by
        rw [hflag, hcategory, htotal]
        exact (flagCount_mismatch h).symm
      correct := by
        show (positiveCounts (flagCount records)).lookup _ = none
        rw [lookup_positiveCounts, if_pos (flagCount_correct h)]
      flagged := fun c hc => by
        rw [hcategory, hflag]
        exact ⟨categoryCount_le_flagCount h hc, List.countP_le_length⟩
      errors := by
        rw [hflag, hcategory, hflag, hcategory]
        exact ⟨List.countP_congr fun r hr => by simp [(h r hr).syntax_flag],
          List.countP_congr fun r hr => by simp [(h r hr).runtime_flag]⟩ }

/-- The counts of all records together are the sums of the counts. -/
theorem counts_append (first second : List (Record α)) :
    (summarize (first ++ second)).total = (summarize first).total + (summarize second).total ∧
    ∀ c, (summarize (first ++ second)).inCategory c =
        (summarize first).inCategory c + (summarize second).inCategory c ∧
      (summarize (first ++ second)).withFlag c =
        (summarize first).withFlag c + (summarize second).withFlag c := by
  refine ⟨List.length_append, fun c => ?_⟩
  simp only [Summary.inCategory, Summary.withFlag, summarize, countAt_positiveCounts]
  exact ⟨categoryCount_append first second c, flagCount_append first second c⟩

/-- **The summary of what evaluations leave behind is consistent**, whatever was evaluated in which
languages, with which settings and which executors; and summaries of two lists add up. -/
theorem summarize_evaluated (records : List (Record α)) (h : ∀ r ∈ records, r.Evaluated) :
    (summarize records).Consistent ∧
    ∀ first second, records = first ++ second →
      (summarize records).total = (summarize first).total + (summarize second).total ∧
      ∀ c, (summarize records).inCategory c =
          (summarize first).inCategory c + (summarize second).inCategory c ∧
        (summarize records).withFlag c =
          (summarize first).withFlag c + (summarize second).withFlag c := by
  refine ⟨consistent_of_story fun r hr => (h r hr).story, ?_⟩
  rintro first second rfl
  exact counts_append first second

/-- Settings with an exact threshold. -/
def halfThreshold : Config ℚ := { Config.standard with threshold := 1 / 2 }

/-- The records of two evaluations: a query that returns what is expected, and one that does not
parse. -/
def sampleRecords : List (Record ℚ) :=
  [flakyItem, { flakyItem with script := "RETURN" }].flatMap fun item =>
    ((evaluation halfThreshold .cypher item).run (.ofFunction fun _ => .ok [])
      (.after (.ofFunction fun _ => .ok []) () halfThreshold [])).1.toOption.toList.map
        TaskResult.toRecord

theorem evaluated_sampleRecords : ∀ r ∈ sampleRecords, r.Evaluated := by
  intro r hr
  obtain ⟨item, -, hr⟩ := List.mem_flatMap.mp hr
  obtain ⟨result, hresult, rfl⟩ := List.mem_map.mp hr
  refine ⟨Unit, .ofFunction fun _ => .ok [], (), halfThreshold, [], .cypher, item, result, ?_, rfl⟩
  generalize ((evaluation halfThreshold .cypher item).run _ _).1 = outcome at hresult ⊢
  cases outcome with
  | ok found => rw [List.mem_singleton.mp hresult]
  | error _ => cases hresult

theorem summarize_evaluated_sampleRecords :
    (summarize sampleRecords).total = 2 ∧ (summarize sampleRecords).inCategory .syntaxError = 1 ∧
    (2 : ℚ) * (summarize sampleRecords).parsedRate = 2 - 1 := by
  have htotal : (summarize sampleRecords).total = 2 := by decide +kernel
  have hsyntax : (summarize sampleRecords).inCategory .syntaxError = 1 := by decide +kernel
  have hrate := ((summarize_evaluated sampleRecords evaluated_sampleRecords).1.exact id exact_id).1
  rw [htotal, hsyntax] at hrate
  exact ⟨htotal, hsyntax, by exact_mod_cast hrate⟩

end QueryScore
