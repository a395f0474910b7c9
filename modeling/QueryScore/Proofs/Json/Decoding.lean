/-
# QueryScore.Proofs.Json.Decoding -- decoders on the documents of values

What a decoder makes of the document of a value. A string, a truth value and an optional value come
back, a list comes back if its items do (`list?_map`), a set of strings comes back. An object whose
keys are distinct names of a schema gives all its members as fields (`fields?_members`), each under
its name.
-/

import QueryScore.Proofs.Json.Reading
import QueryScore.Structure.Codec

namespace QueryScore.Json

open Document

variable {α : Type} {decode : Document → Option α}

/-! ## Scalars, lists and sets -/

@[simp] theorem string?_document (s : String) : (document (.str s)).string? = some s := by simp [document, string?]

@[simp] theorem bool?_document (b : Bool) : (document (.bool b)).bool? = some b := by simp [document, bool?]

theorem documents_eq_map (items : List Json) : documents items = items.map document := by
  induction items with
  | nil => rfl
  | cons item rest ih => rw [documents, ih, List.map_cons]

/-- **A list is decoded item by item.** -/
theorem list?_map_of {β : Type} {f : β → Json} {g : β → α} {xs : List β}
    (h : ∀ x ∈ xs, decode (document (f x)) = some (g x)) :
    (document (.arr (xs.map f))).list? decode = some (xs.map g) := by
  rw [document, list?, documents_eq_map, List.map_map]
  induction xs with
  | nil => rfl
  | cons x xs ih =>
    have hrest := ih fun y hy => h y (by simp [hy])
    simp [h x, hrest]

/-- **A list comes back if its items do.** -/
theorem list?_map {f : α → Json} {xs : List α} (h : ∀ x ∈ xs, decode (document (f x)) = some x) :
    (document (.arr (xs.map f))).list? decode = some xs := by
  simpa using list?_map_of (g := id) h

@[simp] theorem list?_strings (xs : List String) : (document (strings xs)).list? string? = some xs :=
  list?_map fun x _ => string?_document x

/-- The set of the members of a set. -/
theorem ofList_toList {β : Type} [Ord β] [Std.TransOrd β] [Std.LawfulEqOrd β] (s : SortedSet β) :
    SortedSet.ofList s.toList = s :=
  SortedSet.ext fun _ => SortedSet.mem_ofList

@[simp] theorem decodeStringSet?_strings (s : SortedSet String) :
    decodeStringSet? (document (strings s.toList)) = some s := by
  rw [decodeStringSet?, list?_strings, Option.map_some, ofList_toList]

/-- An optional value is decoded if it is not written as `null`. -/
theorem nullable?_ofOption {β : Type} {f : β → Json} {g : β → α} {x? : Option β}
    (h : ∀ x ∈ x?, decode (document (f x)) = some (g x)) (hnull : ∀ x ∈ x?, document (f x) ≠ .null) :
    (document (ofOption f x?)).nullable? decode = some (x?.map g) := by
  cases x? with
  | none => rfl
  | some x =>
    have hx := h x rfl
    have hne := hnull x rfl
    rw [ofOption, nullable?]
    · rw [hx, Option.map_some, Option.map_some]
    · exact hne

/-! ## Fields -/

/-- **`fieldsOf members`** -- the fields that members of an object give, the last one first. -/
def fieldsOf (members : List (String × Json)) : Fields :=
  (members.map fun (key, value) => (key, document value)).reverse

variable {members : List (String × Json)} {key : String} {value : Json}

@[simp] theorem fieldsOf_cons : fieldsOf ((key, value) :: members) = fieldsOf members ++ [(key, document value)] := by
  simp [fieldsOf]

/-- No field has a name that is no key. -/
theorem lookup_fieldsOf_eq_none (h : key ∉ members.map Prod.fst) : (fieldsOf members).lookup key = none := by
  refine List.lookup_eq_none_iff.mpr fun p hp => ?_
  obtain ⟨⟨k, v⟩, hmem, rfl⟩ := List.mem_map.mp (List.mem_reverse.mp hp)
  refine bne_iff_ne.mpr ?_
  rintro rfl
  exact h (List.mem_map_of_mem hmem)

/-- A field is found by its name. -/
theorem lookup_fieldsOf (hkeys : (members.map Prod.fst).Nodup) (h : (key, value) ∈ members) :
    (fieldsOf members).lookup key = some (document value) := by
  induction members with
  | nil => cases h
  | cons member rest ih =>
    obtain ⟨hfirst, hrest⟩ := List.nodup_cons.mp hkeys
    rw [fieldsOf_cons, List.lookup_append]
    rcases List.mem_cons.mp h with rfl | h
    · simp [lookup_fieldsOf_eq_none hfirst]
    · rw [ih hrest h, Option.some_or]

/-- **Each member is a field under its key**, if the keys are distinct names; there is no other field. -/
theorem exists_fields {schema : Schema} (hkeys : (members.map Prod.fst).Nodup)
    (hnames : ∀ key ∈ members.map Prod.fst, schema.field? key = some key) :
    ∃ fields : Fields, (document (.obj members)).fields? schema = some fields ∧
      (∀ member ∈ members, fields.lookup member.1 = some (document member.2)) ∧
      ∀ key, key ∉ members.map Prod.fst → fields.lookup key = none := by
  have hrun (found : Fields) (hfound : ∀ key ∈ members.map Prod.fst, found.lookup key = none) :
      schema.ofMembers (memberDocuments members) found = some (fieldsOf members ++ found) := by
    induction members generalizing found with
    | nil => rfl
    | cons member rest ih =>
      obtain ⟨key, value⟩ := member
      obtain ⟨hfirst, hrest⟩ := List.nodup_cons.mp hkeys
      have hname := hnames key (by simp)
      have hnew := hfound key (by simp)
      have hmore := ih hrest (fun k hk => hnames k (by simp [hk])) ((key, document value) :: found) fun k hk => by
        have hne : k ≠ key := by
          rintro rfl
          exact hfirst hk
        rw [List.lookup_cons, beq_false_of_ne hne]
        exact hfound k (by simp [hk])
      simp [memberDocuments, Schema.ofMembers, hname, hnew, hmore]
  have hall := hrun [] (by simp)
  rw [List.append_nil] at hall
  exact ⟨_, hall, fun member hmember => lookup_fieldsOf hkeys hmember, fun key => lookup_fieldsOf_eq_none⟩

end QueryScore.Json
