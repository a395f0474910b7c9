/-
# QueryScore.Proofs.Record.ReadBack -- what is stored is read back

The decoders take the JSON forms of tasks, structures and records back to what they were written
from: every field under its key, an absent optional one as absent, a set from its members. The
texts are read in the compact and in the indented layout (`read_render`, `read_pretty`), so a record
file gives back its records, as far as the texts of their floats do (`loadRecords_recordFile`).
Behind a run that wrote its files, the file of records has that text (`file?_writeOutput`).
-/

import QueryScore.Output
import QueryScore.Proofs.Json.Decoding

namespace QueryScore

open Json (document exists_fields isFinite floatText list?_map list?_strings string?_document)
open Json.Document

/-! ## Tasks -/

theorem Task.decode?_toJson (task : Task) : Task.decode? (document task.toJson) = some task := by
  obtain ⟨question, sql, cypher, recorded⟩ := task
  cases recorded with
  | none =>
    obtain ⟨fields, hfields, hpresent, habsent⟩ : ∃ fields : Fields,
        (document (Task.toJson ⟨question, sql, cypher, none⟩)).fields? schema = some fields ∧ _ :=
      exists_fields (by simp) (by simp [schema, Schema.field?])
    have hrecorded := habsent "cypher_result" (by simp)
    simp only [List.cons_append, List.nil_append, List.forall_mem_cons] at hpresent
    simp [Task.decode?, hfields, Fields.required, Fields.withDefault, hpresent, hrecorded]
  | some text =>
    obtain ⟨fields, hfields, hpresent, -⟩ : ∃ fields : Fields,
        (document (Task.toJson ⟨question, sql, cypher, some text⟩)).fields? schema = some fields ∧ _ :=
      exists_fields (by simp) (by simp [schema, Schema.field?])
    have hnull : (document (.str text)).nullable? string? = some (some text) := rfl
    simp only [List.cons_append, List.nil_append, List.forall_mem_cons] at hpresent
    simp [Task.decode?, hfields, Fields.required, Fields.withDefault, hpresent, hnull]

/-! ## Structures -/

theorem nullable?_string (s? : Option String) :
    (document (Json.ofOption .str s?)).nullable? string? = some s? := by
  cases s? <;> rfl

theorem Relation.decode?_toJson (r : Relation) : Relation.decode? (document r.toJson) = some r := by
  obtain ⟨⟨kind, source, target⟩, condition⟩ := r
  cases condition with
  | none =>
    obtain ⟨fields, hfields, hpresent, habsent⟩ : ∃ fields : Fields,
        (document (Relation.toJson ⟨⟨kind, source, target⟩, none⟩)).fields?
          (.plain ["kind", "source", "target", "condition"] false) = some fields ∧ _ :=
      exists_fields (by simp) (by simp [Schema.plain, Schema.field?])
    have hcondition := habsent "condition" (by simp)
    simp only [List.cons_append, List.nil_append, List.forall_mem_cons] at hpresent
    simp [Relation.decode?, hfields, Fields.required, Fields.withDefault, hpresent, hcondition]
  | some text =>
    obtain ⟨fields, hfields, hpresent, -⟩ : ∃ fields : Fields,
        (document (Relation.toJson ⟨⟨kind, source, target⟩, some text⟩)).fields?
          (.plain ["kind", "source", "target", "condition"] false) = some fields ∧ _ :=
      exists_fields (by simp) (by simp [Schema.plain, Schema.field?])
    have hnull := nullable?_string (some text)
    simp only [Json.ofOption] at hnull
    simp only [List.cons_append, List.nil_append, List.forall_mem_cons] at hpresent
    simp [Relation.decode?, hfields, Fields.required, Fields.withDefault, hpresent, hnull]

theorem Direction.decode?_name (d : Direction) : Direction.decode? (document (.str d.name)) = some d := by
  cases d <;> rfl

theorem SortKey.decode?_toJson (k : SortKey) : SortKey.decode? (document k.toJson) = some k := by
  obtain ⟨fields, hfields, hpresent, -⟩ : ∃ fields : Fields,
      (document k.toJson).fields? (.plain ["column", "direction"] false) = some fields ∧ _ :=
    exists_fields (by simp) (by simp [Schema.plain, Schema.field?])
  simp only [List.forall_mem_cons] at hpresent
  simp [SortKey.decode?, hfields, Fields.required, hpresent, Direction.decode?_name]

theorem Aggregation.decode?_toJson (a : Aggregation) : Aggregation.decode? (document a.toJson) = some a := by
  obtain ⟨fields, hfields, hpresent, -⟩ : ∃ fields : Fields,
      (document a.toJson).fields? (.plain ["functions", "group_by", "having"] false) = some fields ∧ _ :=
    exists_fields (by simp) (by simp [Schema.plain, Schema.field?])
  simp only [List.forall_mem_cons] at hpresent
  simp [Aggregation.decode?, hfields, Fields.required, Fields.withDefault, hpresent, nullable?_string]

theorem Structure.decode?_toJson (s : Structure) : Structure.decode? (document s.toJson) = some s := by
  obtain ⟨fields, hfields, hpresent, -⟩ : ∃ fields : Fields, (document s.toJson).fields? schema = some fields ∧ _ :=
    exists_fields (by simp [componentMembers])
      (by simp [componentMembers, schema, Schema.plain, Schema.field?])
  have hrelations := list?_map fun r (_ : r ∈ s.relations) => Relation.decode?_toJson r
  have horderings := list?_map fun k (_ : k ∈ s.orderings) => SortKey.decode?_toJson k
  simp only [componentMembers, List.cons_append, List.nil_append, List.forall_mem_cons] at hpresent
  rw [Structure.decode?, hfields, Option.bind_eq_bind, Option.bind_some]
  simp only [Fields.required, hpresent, Option.bind_some, Json.decodeStringSet?_strings, list?_strings, hrelations,
    horderings, Aggregation.decode?_toJson, Json.bool?_document]
  rfl

/-! ## Records -/

/-- The floats of a record. -/
def Record.floats (r : Record Float) : List Float :=
  [r.entities, r.attributes, r.filters, r.aggregation, r.returnColumns, r.rowF1, r.rowPrecision, r.rowRecall] ++
    r.relations.toList

/-- **`ReadsBack x`** -- the text of a float is read as that float. -/
def ReadsBack (x : Float) : Prop := (Json.Document.read (floatText x)).bind float? = some x

instance (x : Float) : Decidable (ReadsBack x) :=
  inferInstanceAs (Decidable ((Json.Document.read (floatText x)).bind float? = some x))

theorem ReadsBack.document {x : Float} (h : ReadsBack x) : (Json.document (.float x)).float? = some x := by
  have hread : Json.Document.read (floatText x) = some (Json.document (.float x)) := Json.read_compact (.float x)
  rwa [ReadsBack, hread] at h

theorem Category.decode?_name (c : Category) : Category.decode? (document (.str c.name)) = some c := by
  cases c <;> rfl

theorem decode?_categoriesJson (s : SortedSet Category) :
    ((document (categoriesJson s)).list? Category.decode?).map .ofList = some s := by
  have hlist := list?_map fun c (_ : c ∈ s.toList) => Category.decode?_name c
  have hnames : categoriesJson s = .arr (s.toList.map fun c => .str c.name) := by simp [categoriesJson, Json.strings]
  rw [hnames, hlist, Option.map_some, Json.ofList_toList]

/-- The record with other scores. -/
def Record.map {α β : Type} (f : α → β) (r : Record α) : Record β :=
  { r with
    entities := f r.entities
    attributes := f r.attributes
    relations := r.relations.map f
    filters := f r.filters
    aggregation := f r.aggregation
    returnColumns := f r.returnColumns
    rowF1 := f r.rowF1
    rowPrecision := f r.rowPrecision
    rowRecall := f r.rowRecall }

theorem Record.map_id {α : Type} (r : Record α) : r.map id = r := by
  cases r
  simp [Record.map]

/-- **A record is decoded with the floats that its floats are read as.** -/
theorem Record.decode?_map {g : Float → Float} {r : Record Float}
    (h : ∀ x ∈ r.floats, (document (.float x)).float? = some (g x)) :
    Record.decode? (document r.toJson) = some (r.map g) := by
  obtain ⟨fields, hfields, hpresent, -⟩ : ∃ fields : Fields, (document r.toJson).fields? schema = some fields ∧ _ :=
    exists_fields (by simp) (by simp [schema, Schema.plain, Schema.field?])
  have hrelations : (document (Json.ofOption .float r.relations)).nullable? float? = some (r.relations.map g) := by
    refine Json.nullable?_ofOption (fun x hx => h x ?_) fun x hx hnull => ?_
    · simp [Record.floats, Option.mem_def.mp hx]
    · have hfloat := h x (by simp [Record.floats, Option.mem_def.mp hx])
      rw [hnull] at hfloat
      cases hfloat
  simp only [List.forall_mem_cons] at hpresent
  simp only [Record.floats, List.cons_append, List.nil_append, List.forall_mem_cons] at h
  rw [Record.decode?, hfields, Option.bind_eq_bind, Option.bind_some]
  simp only [Fields.required, Fields.withDefault, hpresent, Option.bind_some, string?_document,
    Json.bool?_document, h, hrelations, decode?_categoriesJson, Category.decode?_name]
  rfl

theorem Record.decode?_toJson {r : Record Float} (h : ∀ x ∈ r.floats, ReadsBack x) :
    Record.decode? (document r.toJson) = some r := by
  rw [Record.decode?_map (g := id) fun x hx => (h x hx).document, r.map_id]

/-! ## Texts and files -/

theorem read_render (v : Json) : Json.Document.read v.render.toList = some (document v) := by
  rw [Json.render, String.toList_ofList]
  exact Json.read_compact v

theorem read_pretty (v : Json) : Json.Document.read v.pretty.toList = some (document v) := by
  rw [Json.pretty, String.toList_ofList]
  simpa using Json.read_indented v [] (by simp)

/-- **A record file gives its records with the floats that their floats are read as.** -/
theorem loadRecords_recordFile_map {g : Float → Float} {records : List (Record Float)}
    (h : ∀ r ∈ records, ∀ x ∈ r.floats, (document (.float x)).float? = some (g x)) :
    loadRecords (some (recordFile records)) = .ok (records.map (Record.map g)) := by
  have hread : Json.Document.read (recordFile records).toList = some (document (.arr (records.map Record.toJson))) := by
    rw [recordFile, String.toList_append, Json.pretty, String.toList_ofList]
    exact Json.read_indented _ _ (by simp [Json.isSpace])
  have hlist := Json.list?_map_of fun r (hr : r ∈ records) => Record.decode?_map (h r hr)
  simp only [loadRecords, decodeFile, hread, Option.bind_some, hlist]

/-- **A record file gives back its records**, as far as the texts of their floats do. -/
theorem loadRecords_recordFile {records : List (Record Float)} (h : ∀ r ∈ records, ∀ x ∈ r.floats, ReadsBack x) :
    loadRecords (some (recordFile records)) = .ok records := by
  have hsame : records.map (Record.map id) = records := by
    rw [List.map_congr_left fun r _ => r.map_id, List.map_id']
  rw [loadRecords_recordFile_map (g := id) fun r hr x hx => (h r hr x hx).document, hsame]

namespace Disk

/-- A file that is written leaves all others as they are. -/
theorem file?_putFile (disk : Disk) (place other : Place) (text : String) :
    (disk.putFile place text).file? other = if other = place then some text else disk.file? other := by
  simp only [file?, putFile, List.lookup_cons]
  by_cases h : other = place
  · simp [h]
  · rw [beq_false_of_ne h, if_neg h]
    show (disk.files.filter fun entry => entry.1 != place).lookup other = disk.files.lookup other
    induction disk.files with
    | nil => rfl
    | cons entry rest ih =>
      by_cases hentry : entry.1 = place
      · have hother : other ≠ entry.1 := by rwa [hentry]
        rw [List.filter_cons_of_neg (by simp [hentry]), ih, List.lookup_cons, beq_false_of_ne hother]
      · rw [List.filter_cons_of_pos (by simp [hentry]), List.lookup_cons, List.lookup_cons, ih]

theorem write_eq_some {disk disk' : Disk} {directory : Place} {name text : String}
    (h : disk.write directory name text = some disk') : disk' = disk.putFile (directory ++ [name.toList]) text := by
  simp only [write] at h
  split at h
  · cases h
  · exact (Option.some.inj h).symm

/-- **Behind a run that wrote its files, the file of records has their text.** -/
theorem file?_writeOutput {disk disk' : Disk} {directory name : String} {records : List (Record Float)} {place : Place}
    (h : disk.writeOutput directory name records = (.ok place, disk')) :
    disk'.file? (place ++ [(recordsFileName name).toList]) = some (recordFile records) := by
  -- The names of the two files end differently, so the report does not take the place of the records.
  have hne : (recordsFileName name).toList ≠ (reportFileName name).toList := by
    simp [recordsFileName, reportFileName]
  simp only [writeOutput] at h
  split at h
  · cases h
  · split at h
    · cases h
    · next made _ =>
      split at h
      · next hwritten =>
        obtain ⟨⟨rfl⟩, rfl⟩ := Prod.mk.inj h
        simp only [outputFiles, writeAll] at hwritten
        split at hwritten
        · next first hfirst =>
          split at hwritten
          · next second hsecond =>
            obtain rfl := (Prod.mk.inj hwritten).2
            rw [write_eq_some hsecond, file?_putFile, if_neg (by simpa using hne), write_eq_some hfirst,
              file?_putFile, if_pos rfl]
          · cases hwritten
        · cases hwritten
      · cases h

end Disk

/-! ## Everything that is stored -/

/-- **What is stored is read back**: the records of a run, from the text that is written for them and
from the file behind the run, and every task and every structure from its JSON text in either layout.
The floats of the records are finite, and the text of each is read as that float. -/
theorem stored_reads_back :
    (∀ records : List (Record Float), (∀ r ∈ records, ∀ x ∈ r.floats, isFinite x = true) →
      (∀ r ∈ records, ∀ x ∈ r.floats, isFinite x = true → ReadsBack x) →
        loadRecords (some (recordFile records)) = .ok records ∧
          ∀ (disk disk' : Disk) (directory name : String) (place : Place),
            disk.writeOutput directory name records = (.ok place, disk') →
              loadRecords (disk'.file? (place ++ [(recordsFileName name).toList])) = .ok records) ∧
      (∀ task : Task, Task.parse? task.toJson.render = some task ∧ Task.parse? task.toJson.pretty = some task) ∧
        ∀ s : Structure, (Json.Document.read s.toJson.render.toList).bind Structure.decode? = some s ∧
          (Json.Document.read s.toJson.pretty.toList).bind Structure.decode? = some s := by
  refine ⟨fun records hfinite hread => ?_, fun task => ?_, fun s => ?_⟩
  · have hload := loadRecords_recordFile fun r hr x hx => hread r hr x hx (hfinite r hr x hx)
    refine ⟨hload, fun disk disk' directory name place hwritten => ?_⟩
    rw [Disk.file?_writeOutput hwritten, hload]
  · simp [Task.parse?, read_render, read_pretty, Task.decode?_toJson]
  · simp [read_render, read_pretty, Structure.decode?_toJson]

/-- A record of each language, with quotes and letters beyond ASCII. -/
def storedRecords : List (Record Float) :=
  [⟨"Wie heißt \"A\"?\n", "SELECT a FROM t", "SELECT b FROM t", true, false, 1.0, 0.5, none, 1.0, 0.0, 0.75, false,
      0.25, 1.0, 0.125, .wrongAttribute, .ofList [.wrongReturnColumns, .wrongAttribute]⟩,
    ⟨"", "MATCH (n) RETURN n", "", false, false, 0.0, 0.0, some 0.5, 0.0, 0.0, 0.0, false, 0.0, 0.0, 0.0,
      .syntaxError, .empty⟩]

theorem stored_reads_back_storedRecords :
    (∀ r ∈ storedRecords, ∀ x ∈ r.floats, isFinite x = true) ∧ (∀ r ∈ storedRecords, ∀ x ∈ r.floats, ReadsBack x) ∧
      loadRecords (some (recordFile storedRecords)) = .ok storedRecords ∧
      ∃ disk', Disk.empty.writeOutput "out" "run" storedRecords = (.ok ["out".toList], disk') ∧
        loadRecords (disk'.file? (["out".toList] ++ [(recordsFileName "run").toList])) = .ok storedRecords := by
  have hfinite : ∀ r ∈ storedRecords, ∀ x ∈ r.floats, isFinite x = true := by decide +kernel
  have hread : ∀ r ∈ storedRecords, ∀ x ∈ r.floats, ReadsBack x := by decide +kernel
  obtain ⟨hload, hdisk⟩ := stored_reads_back.1 storedRecords hfinite fun r hr x hx _ => hread r hr x hx
  have hplace : (Disk.empty.writeOutput "out" "run" storedRecords).1 = .ok ["out".toList] := by decide +kernel
  obtain ⟨disk', hwritten⟩ : ∃ disk', Disk.empty.writeOutput "out" "run" storedRecords = (.ok ["out".toList], disk') :=
    ⟨_, Prod.ext hplace rfl⟩
  exact ⟨hfinite, hread, hload, disk', hwritten, hdisk Disk.empty disk' "out" "run" _ hwritten⟩

end QueryScore
