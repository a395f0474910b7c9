/-
# QueryScore.Proofs.Score.Reduced -- what is left of a row

A row is reduced to texts: those of its scalars that lie under no identifying key at any depth and
that do not stand for a missing value (`shownLeaves`), each as often as it occurs, in the order of
their bytes. Nothing else of the row counts. `Regrouped` lists the changes that keep these scalars --
permuting, nesting and flattening, renaming and dropping -- and they are all there are:
two rows are regroupings of each other exactly if they show the same scalars equally often
(`regrouped_iff`).

Texts are ordered by their characters, and characters by their code points. The encoding keeps
that order: where two characters differ, the first byte that differs does so in the same sense,
since a greater code point never has a shorter encoding or a smaller leading byte. So the texts
compare as their bytes do (`Text.bytes_le_bytes_iff`).
-/

import Mathlib.Data.List.Flatten
import Mathlib.Data.List.Perm.Basic
import Mathlib.Data.String.Basic
import Mathlib.Tactic.Common
import QueryScore.Score.Rows

namespace QueryScore.Text

/-- The bytes of a text. -/
def bytes (s : String) : List UInt8 := s.toUTF8.data.toList

theorem bytes_eq_flatMap (s : String) : bytes s = s.toList.flatMap String.utf8EncodeChar := by
  unfold bytes
  conv_lhs => rw [← String.ofList_toList (s := s)]
  rw [String.toUTF8_eq_toByteArray, String.toByteArray_ofList, List.utf8Encode,
    List.toList_data_toByteArray]

/-! ## Characters are ordered as their bytes are -/

/-- Bytes below 256 compare as the numbers they are made of. -/
theorem ofNat_cons_lt_iff {m n : Nat} {xs ys : List UInt8} (hm : m < 256) (hn : n < 256) :
    UInt8.ofNat m :: xs < UInt8.ofNat n :: ys ↔ m < n ∨ m = n ∧ xs < ys := by
  rw [List.cons_lt_cons_iff, UInt8.lt_iff_toNat_lt, ← UInt8.toNat_inj, UInt8.toNat_ofNat',
    UInt8.toNat_ofNat', Nat.mod_eq_of_lt hm, Nat.mod_eq_of_lt hn]

/-- The character with the smaller code point has the smaller encoding, whatever follows. -/
theorem utf8EncodeChar_append_lt {c d : Char} (h : c < d) (xs ys : List UInt8) :
    String.utf8EncodeChar c ++ xs < String.utf8EncodeChar d ++ ys := by
  have hlt : c.val.toNat < d.val.toNat := h
  have hd : d.val.toNat < 1114112 := by
    have hvalid := d.valid
    unfold UInt32.isValidChar Nat.isValidChar at hvalid
    omega
  -- The digits of either number, each from the one above it.
  have hdigits (n : Nat) : n / 4096 = n / 64 / 64 ∧ n / 262144 = n / 64 / 64 / 64 := by omega
  rw [String.utf8EncodeChar, String.utf8EncodeChar]
  -- Either the lengths agree, or the leading bytes lie in different ranges.
  split_ifs <;> simp only [List.cons_append] <;>
    simp (disch := omega) only [ofNat_cons_lt_iff, hdigits] <;> omega

/-! ## Texts are ordered as their bytes are -/

theorem flatMap_utf8EncodeChar_lt {cs ds : List Char} (h : cs < ds) :
    cs.flatMap String.utf8EncodeChar < ds.flatMap String.utf8EncodeChar := by
  induction cs generalizing ds with
  | nil =>
    obtain _ | ⟨d, ds⟩ := ds
    · simp at h
    · obtain ⟨byte, rest, hfirst⟩ := List.exists_cons_of_ne_nil (String.utf8EncodeChar_ne_nil (c := d))
      rw [List.flatMap_nil, List.flatMap_cons, hfirst]
      exact List.nil_lt_cons _ _
  | cons c cs ih =>
    obtain _ | ⟨d, ds⟩ := ds
    · simp at h
    · rw [List.flatMap_cons, List.flatMap_cons]
      obtain hcd | ⟨rfl, hrest⟩ := List.cons_lt_cons_iff.mp h
      · exact utf8EncodeChar_append_lt hcd _ _
      · exact List.append_left_lt (ih hrest)

theorem bytes_lt_bytes {a b : String} (h : a < b) : bytes a < bytes b := by
  rw [bytes_eq_flatMap, bytes_eq_flatMap]
  exact flatMap_utf8EncodeChar_lt (String.lt_iff_toList_lt.mp h)

/-- **Texts are ordered as their bytes are.** -/
theorem bytes_le_bytes_iff {a b : String} : bytes a ≤ bytes b ↔ a ≤ b := by
  constructor
  · intro h
    by_contra hba
    exact h (bytes_lt_bytes (not_le.mp hba))
  · intro h hba
    obtain hab | rfl := lt_or_eq_of_le h
    · exact List.lt_irrefl _ (List.lt_trans (bytes_lt_bytes hab) hba)
    · exact List.lt_irrefl _ hba

end QueryScore.Text

namespace QueryScore.Score

open Text

/-! ## The scalars of a value -/

mutual

/-- **`scalars v`** -- every scalar of a value, in order, each with the keys that lead to it. -/
def scalars : Json → List (List String × Json)
  | .arr items => itemScalars items
  | .obj members => memberScalars members
  | .null => [([], .null)]
  | .bool b => [([], .bool b)]
  | .int n => [([], .int n)]
  | .float x => [([], .float x)]
  | .str s => [([], .str s)]

/-- The scalars of items. -/
def itemScalars : List Json → List (List String × Json)
  | [] => []
  | item :: rest => scalars item ++ itemScalars rest

/-- The scalars of members, below their keys. -/
def memberScalars : List (String × Json) → List (List String × Json)
  | [] => []
  | (key, value) :: rest => (scalars value).map (Prod.map (key :: ·) id) ++ memberScalars rest

end

/-- None of the keys on a path identifies a graph element. -/
def isDescribing (path : List String) : Bool := path.all fun key => key ∉ identifyingKeys

/-- The scalars of a value that lie under no identifying key, at any depth. -/
def shown (v : Json) : List Json := ((scalars v).filter fun p => isDescribing p.1).map Prod.snd

/-- **`shownLeaves v`** -- those of them that do not stand for a missing value. -/
def shownLeaves (v : Json) : List Json := (shown v).filter fun leaf => !(normalizeScalar leaf).isNull

/-- What a member shows: nothing under an identifying key. -/
def shownMember (m : String × Json) : List Json :=
  if m.1 ∈ identifyingKeys then [] else shownLeaves m.2

@[simp]
theorem isDescribing_cons (key : String) (path : List String) :
    isDescribing (key :: path) = (decide (key ∉ identifyingKeys) && isDescribing path) := rfl

theorem shown_arr (items : List Json) : shown (.arr items) = items.flatMap shown := by
  unfold shown
  rw [scalars]
  induction items with
  | nil => rfl
  | cons item rest ih => simp only [itemScalars, List.filter_append, List.map_append, ih, List.flatMap_cons]

theorem shown_obj (members : List (String × Json)) :
    shown (.obj members) = members.flatMap fun m => if m.1 ∈ identifyingKeys then [] else shown m.2 := by
  unfold shown
  rw [scalars]
  induction members with
  | nil => rfl
  | cons m rest ih =>
    have hhead : (((scalars m.2).map (Prod.map (m.1 :: ·) id)).filter fun p => isDescribing p.1).map Prod.snd =
        if m.1 ∈ identifyingKeys then [] else ((scalars m.2).filter fun p => isDescribing p.1).map Prod.snd := by
      by_cases hkey : m.1 ∈ identifyingKeys <;>
        simp [List.filter_map, Function.comp_def, hkey]
    rw [memberScalars, List.filter_append, List.map_append, hhead, ih, List.flatMap_cons]

mutual

/-- The leaves of a value are the scalars that it shows, normalized. -/
theorem leaves_eq_map_shown : (v : Json) → leaves v = (shown v).map normalizeScalar
  | .arr items => by rw [leaves, shown_arr, List.map_flatMap, itemLeaves_eq_flatMap items]
  | .obj members => by rw [leaves, shown_obj, List.map_flatMap, memberLeaves_eq_flatMap members]
  | .null | .bool _ | .int _ | .float _ | .str _ => rfl

theorem itemLeaves_eq_flatMap : (items : List Json) →
    itemLeaves items = items.flatMap fun item => (shown item).map normalizeScalar
  | [] => rfl
  | item :: rest => by
    rw [itemLeaves, List.flatMap_cons, leaves_eq_map_shown item, itemLeaves_eq_flatMap rest]

theorem memberLeaves_eq_flatMap : (members : List (String × Json)) →
    memberLeaves members =
      members.flatMap fun m => (if m.1 ∈ identifyingKeys then [] else shown m.2).map normalizeScalar
  | [] => rfl
  | (key, value) :: rest => by
    rw [memberLeaves, List.flatMap_cons, leaves_eq_map_shown value, memberLeaves_eq_flatMap rest]
    by_cases hkey : key ∈ identifyingKeys <;> simp [hkey]

end

theorem shownLeaves_arr (items : List Json) : shownLeaves (.arr items) = items.flatMap shownLeaves := by
  unfold shownLeaves
  rw [shown_arr, List.filter_flatMap]

theorem shownLeaves_obj (members : List (String × Json)) :
    shownLeaves (.obj members) = members.flatMap shownMember := by
  unfold shownLeaves
  rw [shown_obj, List.filter_flatMap]
  congr 1
  funext m
  unfold shownMember shownLeaves
  split <;> rfl

/-- A value that normalizes to null shows nothing. -/
theorem shownLeaves_of_isNull {leaf : Json} (h : (normalizeScalar leaf).isNull = true) : shownLeaves leaf = [] := by
  cases leaf with
  | arr => cases h
  | obj => cases h
  | _ =>
    unfold shownLeaves
    exact List.filter_eq_nil_iff.mpr fun v hv => by
      obtain rfl : v = _ := List.mem_singleton.mp hv
      simp [h]

/-! ## The texts of a row -/

/-- The texts of a row before they are sorted. -/
def shownTexts (row : Json) : List String :=
  (shownLeaves row).map fun leaf => leafText (normalizeScalar leaf)

theorem normalizeRow_eq_mergeSort (row : Json) : normalizeRow row = (shownTexts row).mergeSort textLe := by
  unfold normalizeRow shownTexts shownLeaves
  rw [leaves_eq_map_shown, List.filter_map, List.map_map]
  rfl

theorem textLe_iff {s t : String} : textLe s t = true ↔ bytes s ≤ bytes t := by
  unfold textLe
  rw [bytes_le_bytes_iff]
  exact Std.LawfulBCmp.isLE_iff_le

theorem normalizeRow_perm (row : Json) : (normalizeRow row).Perm (shownTexts row) := by
  rw [normalizeRow_eq_mergeSort]
  exact List.mergeSort_perm _ _

theorem pairwise_normalizeRow (row : Json) :
    (normalizeRow row).Pairwise fun s t => bytes s ≤ bytes t := by
  rw [normalizeRow_eq_mergeSort]
  refine (List.pairwise_mergeSort ?_ ?_ _).imp textLe_iff.mp
  · intro r s t hrs hst
    rw [textLe_iff, bytes_le_bytes_iff] at *
    exact le_trans hrs hst
  · intro s t
    rw [Bool.or_eq_true, textLe_iff, textLe_iff, bytes_le_bytes_iff, bytes_le_bytes_iff]
    exact le_total s t

/-- Texts in the order of their bytes are determined by how often each occurs. -/
theorem eq_of_sorted_perm {ss ts : List String} (hs : ss.Pairwise fun s t => bytes s ≤ bytes t)
    (ht : ts.Pairwise fun s t => bytes s ≤ bytes t) (hperm : ss.Perm ts) : ss = ts := by
  refine hperm.eq_of_pairwise ?_ hs ht
  intro s t _ _ hst hts
  exact le_antisymm (bytes_le_bytes_iff.mp hst) (bytes_le_bytes_iff.mp hts)

/-! ## Regrouping -/

/-- **`Regrouped v w`** -- the values differ in what a reduced row does not tell: the order of items and
of members, the nesting, the names of members that describe, and what is left out. Each change may be
made at any place. Where it names or renames members it does not ask that the keys stay distinct,
as they do in every value that the program holds. -/
inductive Regrouped : Json → Json → Prop
  | refl (v : Json) : Regrouped v v
  | symm {v w : Json} : Regrouped v w → Regrouped w v
  | trans {u v w : Json} : Regrouped u v → Regrouped v w → Regrouped u w
  /-- A change inside an array. -/
  | item {v w : Json} (before after : List Json) :
    Regrouped v w → Regrouped (.arr (before ++ v :: after)) (.arr (before ++ w :: after))
  /-- A change inside an object. -/
  | member {v w : Json} (before after : List (String × Json)) (key : String) :
    Regrouped v w → Regrouped (.obj (before ++ (key, v) :: after)) (.obj (before ++ (key, w) :: after))
  /-- The items of an array in another order. -/
  | items {vs ws : List Json} : vs.Perm ws → Regrouped (.arr vs) (.arr ws)
  /-- The members of an object in another order. -/
  | members {ms ns : List (String × Json)} : ms.Perm ns → Regrouped (.obj ms) (.obj ns)
  /-- Some items of an array in an array of their own. -/
  | nest (before inner after : List Json) :
    Regrouped (.arr (before ++ inner ++ after)) (.arr (before ++ .arr inner :: after))
  /-- A value in an array of its own. -/
  | wrap (v : Json) : Regrouped v (.arr [v])
  /-- The items of an array as members that describe. -/
  | keyed {ms : List (String × Json)} :
    (∀ m ∈ ms, m.1 ∉ identifyingKeys) → Regrouped (.arr (ms.map Prod.snd)) (.obj ms)
  /-- Another name for a member that describes. -/
  | rename (before after : List (String × Json)) (value : Json) {old new : String} :
    old ∉ identifyingKeys → new ∉ identifyingKeys →
      Regrouped (.obj (before ++ (old, value) :: after)) (.obj (before ++ (new, value) :: after))
  /-- A missing value more in an array. -/
  | nullItem (before after : List Json) {leaf : Json} : (normalizeScalar leaf).isNull = true →
    Regrouped (.arr (before ++ after)) (.arr (before ++ leaf :: after))
  /-- A missing value more in an object. -/
  | nullMember (before after : List (String × Json)) (key : String) {leaf : Json} :
    (normalizeScalar leaf).isNull = true →
      Regrouped (.obj (before ++ after)) (.obj (before ++ (key, leaf) :: after))
  /-- A member more that identifies a graph element. -/
  | identify (before after : List (String × Json)) (value : Json) {key : String} :
    key ∈ identifyingKeys → Regrouped (.obj (before ++ after)) (.obj (before ++ (key, value) :: after))

section Member

variable {key : String}

theorem shownMember_of_mem (h : key ∈ identifyingKeys) (v : Json) : shownMember (key, v) = [] := if_pos h

theorem shownMember_of_not_mem (h : key ∉ identifyingKeys) (v : Json) :
    shownMember (key, v) = shownLeaves v := if_neg h

theorem shownMember_perm {v w : Json} (h : (shownLeaves v).Perm (shownLeaves w)) :
    (shownMember (key, v)).Perm (shownMember (key, w)) := by
  unfold shownMember
  split
  · exact .refl _
  · exact h

theorem shownMember_of_isNull {leaf : Json} (h : (normalizeScalar leaf).isNull = true) :
    shownMember (key, leaf) = [] := by
  unfold shownMember
  rw [shownLeaves_of_isNull h, ite_self]

end Member

/-- A regrouping shows the same scalars, each as often. -/
theorem Regrouped.perm {v w : Json} (h : Regrouped v w) : (shownLeaves v).Perm (shownLeaves w) := by
  induction h with
  | refl v => exact .refl _
  | symm _ ih => exact ih.symm
  | trans _ _ ihuv ihvw => exact ihuv.trans ihvw
  | item before after _ ih =>
    simp only [shownLeaves_arr, List.flatMap_append, List.flatMap_cons]
    exact (ih.append_right _).append_left _
  | member before after key _ ih =>
    simp only [shownLeaves_obj, List.flatMap_append, List.flatMap_cons]
    exact ((shownMember_perm ih).append_right _).append_left _
  | items hperm =>
    rw [shownLeaves_arr, shownLeaves_arr]
    exact hperm.flatMap_right _
  | members hperm =>
    rw [shownLeaves_obj, shownLeaves_obj]
    exact hperm.flatMap_right _
  | nest before inner after =>
    simp only [shownLeaves_arr, List.flatMap_append, List.flatMap_cons, List.append_assoc]
    exact .refl _
  | wrap v =>
    rw [shownLeaves_arr, List.flatMap_singleton]
  | keyed hkeys =>
    rw [shownLeaves_arr, shownLeaves_obj, List.flatMap_map]
    exact .of_eq (List.flatMap_congr fun m hm => (shownMember_of_not_mem (hkeys m hm) m.2).symm)
  | rename before after value hold hnew =>
    simp only [shownLeaves_obj, List.flatMap_append, List.flatMap_cons, shownMember_of_not_mem hold,
      shownMember_of_not_mem hnew]
    exact .refl _
  | nullItem before after hnull =>
    simp only [shownLeaves_arr, List.flatMap_append, List.flatMap_cons, shownLeaves_of_isNull hnull,
      List.nil_append]
    exact .refl _
  | nullMember before after key hnull =>
    simp only [shownLeaves_obj, List.flatMap_append, List.flatMap_cons, shownMember_of_isNull hnull,
      List.nil_append]
    exact .refl _
  | identify before after value hkey =>
    simp only [shownLeaves_obj, List.flatMap_append, List.flatMap_cons, shownMember_of_mem hkey,
      List.nil_append]
    exact .refl _

namespace Regrouped

/-- Arrays are regrouped stretch by stretch. -/
theorem append {vs ws us ts : List Json} (hfront : Regrouped (.arr vs) (.arr ws))
    (hback : Regrouped (.arr us) (.arr ts)) : Regrouped (.arr (vs ++ us)) (.arr (ws ++ ts)) := by
  have hleft : Regrouped (.arr (vs ++ us)) (.arr (ws ++ us)) :=
    ((nest [] vs us).trans (item [] us hfront)).trans (nest [] ws us).symm
  have hright := ((nest ws us []).trans (item ws [] hback)).trans (nest ws ts []).symm
  rw [List.append_nil, List.append_nil] at hright
  exact hleft.trans hright

/-- The members that identify may be left out. -/
theorem describing (before members : List (String × Json)) :
    Regrouped (.obj (before ++ members))
      (.obj (before ++ members.filter fun m => m.1 ∉ identifyingKeys)) := by
  induction members generalizing before with
  | nil => exact refl _
  | cons m rest ih =>
    by_cases hkey : m.1 ∈ identifyingKeys
    · rw [List.filter_cons_of_neg (by simpa using hkey)]
      exact (identify before rest m.2 hkey).symm.trans (ih before)
    · rw [List.filter_cons_of_pos (by simpa using hkey)]
      simpa using ih (before ++ [m])

/-- An array is regrouped into what its items are regrouped into. -/
theorem flatten (items : List Json) (h : ∀ v ∈ items, Regrouped v (.arr (shownLeaves v))) :
    Regrouped (.arr items) (.arr (items.flatMap shownLeaves)) := by
  induction items with
  | nil => exact refl _
  | cons v rest ih =>
    have hhead : Regrouped (.arr [v]) (.arr (shownLeaves v)) := (wrap v).symm.trans (h v List.mem_cons_self)
    exact hhead.append (ih fun w hw => h w (List.mem_cons_of_mem _ hw))

/-- A scalar is regrouped into the array of itself, or of nothing if it is missing. -/
theorem scalar {leaf : Json} (h : shown leaf = [leaf]) : Regrouped leaf (.arr (shownLeaves leaf)) := by
  unfold shownLeaves
  rw [h]
  cases hnull : (normalizeScalar leaf).isNull with
  | true =>
    rw [List.filter_cons_of_neg (by simp [hnull])]
    exact (wrap leaf).trans (nullItem [] [] hnull).symm
  | false =>
    rw [List.filter_cons_of_pos (by simp [hnull])]
    exact wrap leaf

mutual

/-- Every value is a regrouping of the array of the scalars that it shows. -/
theorem arr_shownLeaves : (v : Json) → Regrouped v (.arr (shownLeaves v))
  | .arr vs => by
    rw [shownLeaves_arr]
    exact flatten vs (arr_shownLeaves_of_mem vs)
  | .obj ms => by
    -- Without the members that identify, an object is the array of its values.
    let kept := ms.filter fun m => m.1 ∉ identifyingKeys
    have hkeys : ∀ m ∈ kept, m.1 ∉ identifyingKeys := fun m hm => by simpa using (List.mem_filter.mp hm).2
    have hvalues : Regrouped (.obj ms) (.arr (kept.map Prod.snd)) := (describing [] ms).trans (keyed hkeys).symm
    have hflat := flatten (kept.map Prod.snd) fun v hv => by
      obtain ⟨m, hm, rfl⟩ := List.mem_map.mp hv
      exact arr_shownLeaves_of_mem_members ms m (List.mem_filter.mp hm).1
    rw [← shownLeaves_arr] at hflat
    exact (hvalues.trans hflat).trans (.items hvalues.perm.symm)
  | .null | .bool _ | .int _ | .float _ | .str _ => scalar rfl

theorem arr_shownLeaves_of_mem : (vs : List Json) → ∀ v ∈ vs, Regrouped v (.arr (shownLeaves v))
  | [], _, hv => nomatch hv
  | w :: rest, v, hv => by
    obtain hhead | hrest := List.mem_cons.mp hv
    · rw [hhead]
      exact arr_shownLeaves w
    · exact arr_shownLeaves_of_mem rest v hrest

theorem arr_shownLeaves_of_mem_members : (ms : List (String × Json)) →
    ∀ m ∈ ms, Regrouped m.2 (.arr (shownLeaves m.2))
  | [], _, hm => nomatch hm
  | (key, value) :: rest, m, hm => by
    obtain hhead | hrest := List.mem_cons.mp hm
    · rw [hhead]
      exact arr_shownLeaves value
    · exact arr_shownLeaves_of_mem_members rest m hrest

end

end Regrouped

/-- **The values are regroupings of each other exactly if they show the same scalars, each as often.** -/
theorem regrouped_iff {v w : Json} : Regrouped v w ↔ (shownLeaves v).Perm (shownLeaves w) := by
  constructor
  · exact Regrouped.perm
  · intro hperm
    exact ((Regrouped.arr_shownLeaves v).trans (.items hperm)).trans (Regrouped.arr_shownLeaves w).symm

/-! ## The reduced row -/

theorem shownTexts_perm {row other : Json} (h : Regrouped row other) :
    (shownTexts row).Perm (shownTexts other) :=
  h.perm.map _

/-- **What a row is reduced to.** The reduced row is the list of texts that is sorted by their bytes and
holds, as often as they occur, the normalized scalars of the row that lie under no identifying key at any
depth and do not normalize to null. So a row is reduced to the same texts as any regrouping of it. -/
theorem normalizeRow_eq_iff_and_regrouped (row : Json) :
    (∀ texts, normalizeRow row = texts ↔
      texts.Pairwise (fun s t => bytes s ≤ bytes t) ∧
        texts.Perm ((shownLeaves row).map fun leaf => leafText (normalizeScalar leaf))) ∧
    ∀ other, Regrouped row other → normalizeRow other = normalizeRow row := by
  constructor
  · intro texts
    constructor
    · rintro rfl
      exact ⟨pairwise_normalizeRow row, normalizeRow_perm row⟩
    · rintro ⟨hsorted, hperm⟩
      exact eq_of_sorted_perm (pairwise_normalizeRow row) hsorted ((normalizeRow_perm row).trans hperm.symm)
  · intro other hregrouped
    refine eq_of_sorted_perm (pairwise_normalizeRow other) (pairwise_normalizeRow row) ?_
    exact ((normalizeRow_perm other).trans (shownTexts_perm hregrouped).symm).trans (normalizeRow_perm row).symm

/-- The element of a graph, with what identifies it. -/
def driver : Json := .obj [("labels", .arr [.str "Driver"]), ("surname", .str " Pérez "), ("code", .str "VER")]

/-- A record of the element, with a missing value. -/
def graphRow : Json := .obj [("d", driver), ("wins", .float 19.0), ("pole", .null)]

/-- The same values by position. -/
def positionalRow : Json := .arr [.float 19.0, .arr [.str " Pérez ", .str "VER"]]

theorem normalizeRow_graphRow :
    Regrouped graphRow positionalRow ∧ normalizeRow positionalRow = normalizeRow graphRow ∧
      normalizeRow graphRow = ["19", "Pérez", "VER"] := by
  have hdriver : Regrouped driver (.arr [.str " Pérez ", .str "VER"]) :=
    (Regrouped.identify [] [("surname", .str " Pérez "), ("code", .str "VER")] _ (by decide)).symm.trans
      (Regrouped.keyed (by decide)).symm
  have hregrouped : Regrouped graphRow positionalRow :=
    (((Regrouped.nullMember [("d", driver), ("wins", .float 19.0)] [] "pole" rfl).symm.trans
      (Regrouped.member [] [("wins", .float 19.0)] "d" hdriver)).trans
        (Regrouped.keyed (by decide)).symm).trans (Regrouped.items (.swap _ _ _))
  obtain ⟨hiff, hsame⟩ := normalizeRow_eq_iff_and_regrouped graphRow
  exact ⟨hregrouped, hsame _ hregrouped, (hiff _).mpr (by decide +kernel)⟩

end QueryScore.Score
