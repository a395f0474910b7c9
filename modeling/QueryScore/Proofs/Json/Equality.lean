/-
# QueryScore.Proofs.Json.Equality -- equal values and equal texts

Two values are the same if they are alike part by part, where the members of an object are found by
their keys and not by their places (`Same`). In a canonical value the keys of an object ascend and
the floats are finite (`canonical`). Among canonical values the same ones are equal
(`same_iff_eq`), and have one compact text that no other value has (`render_eq_render_iff`), as far
as the text of a float determines it (`DistinctFloats`).
-/

import QueryScore.Proofs.Json.Reading
import Mathlib.Data.List.Sort

namespace QueryScore.Json

/-! ## Canonical values and their equality -/

mutual

/-- **`v.canonical`** -- the floats of the value are finite, and the keys of its objects ascend. -/
def canonical : Json → Bool
  | .null | .bool _ | .int _ | .str _ => true
  | .float x => isFinite x
  | .arr items => canonicalItems items
  | .obj members =>
    decide (members.Pairwise fun m n => compare m.1 n.1 = .lt) && canonicalMembers members

/-- Each of the items is canonical. -/
def canonicalItems : List Json → Bool
  | [] => true
  | item :: rest => canonical item && canonicalItems rest

/-- Each of the members holds a canonical value. -/
def canonicalMembers : List (String × Json) → Bool
  | [] => true
  | (_, value) :: rest => canonical value && canonicalMembers rest

end

mutual

/-- **`v.floats`** -- the floats that a value holds. -/
def floats : Json → List Float
  | .null | .bool _ | .int _ | .str _ => []
  | .float x => [x]
  | .arr items => itemFloats items
  | .obj members => memberFloats members

/-- The floats of items. -/
def itemFloats : List Json → List Float
  | [] => []
  | item :: rest => floats item ++ itemFloats rest

/-- The floats of members. -/
def memberFloats : List (String × Json) → List Float
  | [] => []
  | (_, value) :: rest => floats value ++ memberFloats rest

end

mutual

/-- **`Same v w`** -- the values are alike: floats to the bit, members by their keys. A float is no
integer, whatever its value. -/
def Same : Json → Json → Prop
  | .null, .null => True
  | .bool b, .bool c => b = c
  | .int m, .int n => m = n
  | .float x, .float y => x.toBits = y.toBits
  | .str s, .str t => s = t
  | .arr items, .arr others => SameItems items others
  | .obj members, .obj others =>
    SameMembers members others ∧ ∀ key ∈ others.map Prod.fst, key ∈ members.map Prod.fst
  | _, _ => False

/-- The items are the same, one by one. -/
def SameItems : List Json → List Json → Prop
  | [], [] => True
  | item :: rest, other :: others => Same item other ∧ SameItems rest others
  | _, _ => False

/-- The value of each member is the same under its key among the others. -/
def SameMembers : List (String × Json) → List (String × Json) → Prop
  | [], _ => True
  | (key, value) :: rest, others =>
    (∃ other, others.lookup key = some other ∧ Same value other) ∧ SameMembers rest others

end

/-- **`DistinctFloats xs`** -- floats with the same text are the same float. -/
def DistinctFloats (xs : List Float) : Prop :=
  ∀ x ∈ xs, ∀ y ∈ xs, floatText x = floatText y → x.toBits = y.toBits

instance (xs : List Float) : Decidable (DistinctFloats xs) :=
  inferInstanceAs (Decidable (∀ x ∈ xs, ∀ y ∈ xs, floatText x = floatText y → x.toBits = y.toBits))

theorem DistinctFloats.subset {xs ys : List Float} (h : DistinctFloats ys) (hsub : xs ⊆ ys) :
    DistinctFloats xs :=
  fun x hx y hy => h x (hsub hx) y (hsub hy)

theorem DistinctFloats.split {xs xs' ys ys' : List Float} (h : DistinctFloats ((xs ++ xs') ++ (ys ++ ys'))) :
    DistinctFloats (xs ++ ys) ∧ DistinctFloats (xs' ++ ys') := by
  constructor <;> refine h.subset fun x hx => ?_ <;>
    rcases List.mem_append.mp hx with hx | hx <;> simp [hx]

theorem float_eq_of_toBits {x y : Float} (h : x.toBits = y.toBits) : x = y := by
  obtain ⟨⟨bits, _⟩⟩ := x
  obtain ⟨⟨bits', _⟩⟩ := y
  cases h
  rfl

/-! ## The same canonical values are equal -/

/-- Members whose keys ascend are found under their keys. -/
theorem lookup_of_mem {members : List (String × Json)} {key : String} {value : Json}
    (h : members.Pairwise fun m n => compare m.1 n.1 = .lt) (hmem : (key, value) ∈ members) :
    members.lookup key = some value := by
  induction members with
  | nil => cases hmem
  | cons member rest ih =>
    obtain ⟨hfirst, hrest⟩ := List.pairwise_cons.mp h
    rcases List.mem_cons.mp hmem with rfl | hmem
    · simp
    · have hne : key ≠ member.1 := by
        rintro rfl
        exact absurd (hfirst _ hmem) (by simp)
      rw [List.lookup_cons, beq_false_of_ne hne]
      exact ih hrest hmem

theorem mem_of_lookup {members : List (String × Json)} {key : String} {value : Json}
    (h : members.lookup key = some value) : (key, value) ∈ members := by
  induction members with
  | nil => cases h
  | cons member rest ih =>
    rw [List.lookup_cons] at h
    split at h
    · next hkey =>
      obtain rfl := eq_of_beq hkey
      cases h
      simp
    · exact List.mem_cons_of_mem _ (ih h)

/-- Ascending members are determined by the keys and the values under them. -/
theorem members_eq {members others : List (String × Json)}
    (hm : members.Pairwise fun m n => compare m.1 n.1 = .lt)
    (ho : others.Pairwise fun m n => compare m.1 n.1 = .lt)
    (hsub : ∀ m ∈ members, m ∈ others) (hkeys : ∀ key ∈ others.map Prod.fst, key ∈ members.map Prod.fst) :
    members = others := by
  have hasymm : Std.Asymm fun m n : String × Json => compare m.1 n.1 = .lt :=
    ⟨fun m n hlt hgt => by
      rw [show compare m.1 n.1 = (compare n.1 m.1).swap from Std.OrientedCmp.eq_swap, hgt] at hlt
      cases hlt⟩
  refine hm.eq_of_mem_iff ho fun m => ⟨hsub m, fun hmem => ?_⟩
  obtain ⟨⟨key, value⟩, hfound, rfl⟩ := List.mem_map.mp (hkeys m.1 (List.mem_map_of_mem hmem))
  -- Under one key the others hold one value.
  have hvalue : some m.2 = some value :=
    (lookup_of_mem ho hmem).symm.trans (lookup_of_mem ho (hsub _ hfound))
  cases hvalue
  exact hfound

theorem canonical_of_mem {members : List (String × Json)} {key : String} {value : Json}
    (h : canonicalMembers members = true) (hmem : (key, value) ∈ members) : canonical value = true := by
  induction members with
  | nil => cases hmem
  | cons member rest ih =>
    simp only [canonicalMembers, Bool.and_eq_true] at h
    rcases List.mem_cons.mp hmem with rfl | hmem
    · exact h.1
    · exact ih h.2 hmem

mutual

/-- **The same canonical values are equal.** -/
theorem eq_of_same : ∀ {v w : Json}, canonical v = true → canonical w = true → Same v w → v = w
  | .null, w, _, _, h => by cases w <;> simp_all [Same]
  | .bool b, w, _, _, h => by cases w <;> simp_all [Same]
  | .int n, w, _, _, h => by cases w <;> simp_all [Same]
  | .float x, w, _, _, h => by
    cases w <;> simp only [Same] at h
    rw [float_eq_of_toBits h]
  | .str s, w, _, _, h => by cases w <;> simp_all [Same]
  | .arr items, w, hv, hw, h => by
    cases w <;> simp only [Same] at h
    rw [items_eq_of_same hv hw h]
  | .obj members, w, hv, hw, h => by
    cases w <;> simp only [Same] at h
    simp only [canonical, Bool.and_eq_true, decide_eq_true_eq] at hv hw
    rw [members_eq hv.1 hw.1 (mem_of_same hv.2 hw.2 h.1) h.2]

theorem items_eq_of_same : ∀ {items others : List Json}, canonicalItems items = true →
    canonicalItems others = true → SameItems items others → items = others
  | [], others, _, _, h => by cases others <;> simp_all [SameItems]
  | item :: rest, others, hv, hw, h => by
    cases others <;> simp only [SameItems] at h
    simp only [canonicalItems, Bool.and_eq_true] at hv hw
    rw [eq_of_same hv.1 hw.1 h.1, items_eq_of_same hv.2 hw.2 h.2]

theorem mem_of_same : ∀ {members others : List (String × Json)}, canonicalMembers members = true →
    canonicalMembers others = true → SameMembers members others → ∀ m ∈ members, m ∈ others
  | [], _, _, _, _ => by simp
  | (key, value) :: rest, others, hv, hw, h => by
    simp only [canonicalMembers, Bool.and_eq_true] at hv
    obtain ⟨⟨other, hlookup, hsame⟩, hrest⟩ := h
    have hmem := mem_of_lookup hlookup
    have hother : canonical other = true := canonical_of_mem hw hmem
    intro m hm
    rcases List.mem_cons.mp hm with rfl | hm
    · rwa [eq_of_same hv.1 hother hsame]
    · exact mem_of_same hv.2 hw hrest m hm

end

mutual

theorem same_self : ∀ {v : Json}, canonical v = true → Same v v
  | .null, _ | .bool _, _ | .int _, _ | .float _, _ | .str _, _ => by simp [Same]
  | .arr items, h => sameItems_self h
  | .obj members, h => by
    simp only [canonical, Bool.and_eq_true, decide_eq_true_eq] at h
    exact ⟨sameMembers_of_subset h.1 h.2 fun m hm => hm, fun _ hkey => hkey⟩

theorem sameItems_self : ∀ {items : List Json}, canonicalItems items = true → SameItems items items
  | [], _ => trivial
  | item :: rest, h => by
    simp only [canonicalItems, Bool.and_eq_true] at h
    exact ⟨same_self h.1, sameItems_self h.2⟩

theorem sameMembers_of_subset : ∀ {members others : List (String × Json)},
    (others.Pairwise fun m n => compare m.1 n.1 = .lt) → canonicalMembers members = true →
      (∀ m ∈ members, m ∈ others) → SameMembers members others
  | [], _, _, _, _ => trivial
  | (key, value) :: rest, others, ho, h, hsub => by
    simp only [canonicalMembers, Bool.and_eq_true] at h
    exact ⟨⟨value, lookup_of_mem ho (hsub _ (by simp)), same_self h.1⟩,
      sameMembers_of_subset ho h.2 fun m hm => hsub m (by simp [hm])⟩

end

theorem same_iff_eq {v w : Json} (hv : canonical v = true) (hw : canonical w = true) : Same v w ↔ v = w :=
  ⟨eq_of_same hv hw, fun h => h ▸ same_self hv⟩

/-! ## Equal texts -/

theorem intText_injective {m n : Int} (h : intText m = intText n) : m = n := by
  have hnumber {j k : Nat} (hjk : Nat.toDigits 10 j = Nat.toDigits 10 k) : j = k := by
    rw [← Nat.ofDigitChars_ten_toDigits (n := j), hjk, Nat.ofDigitChars_ten_toDigits]
  have hsign (k : Nat) (cs : List Char) : Nat.toDigits 10 k ≠ '-' :: cs := by
    intro hk
    have hdigit := (digits_toDigits k).digit '-' (by simp [hk])
    cases hdigit
  simp only [intText] at h
  split at h <;> split at h
  · have := hnumber (List.cons.inj h).2
    omega
  · exact absurd h.symm (hsign _ _)
  · exact absurd h (hsign _ _)
  · have := hnumber h
    omega

/-- The numeral of an integer is whole and shows its text. -/
theorem numeralOf_intText (n : Int) :
    (numeralOf (intText n)).isWhole = true ∧ (numeralOf (intText n)).text = intText n := by
  obtain ⟨m, hproper, hwhole, htext⟩ := exists_intNumeral n
  rw [htext, numeralOf_text hproper]
  exact ⟨hwhole, rfl⟩

/-- The numeral of a finite float is not whole and shows its text. -/
theorem numeralOf_floatText {x : Float} (h : isFinite x = true) :
    (numeralOf (floatText x)).isWhole = false ∧ (numeralOf (floatText x)).text = floatText x := by
  obtain ⟨m, hproper, hwhole, htext⟩ := exists_floatNumeral h
  rw [htext, numeralOf_text hproper]
  exact ⟨hwhole, rfl⟩

/-- No integer has the numeral of a float. -/
theorem numeralOf_intText_ne {n : Int} {x : Float} (h : isFinite x = true) :
    numeralOf (intText n) ≠ numeralOf (floatText x) := by
  intro heq
  have hint := (numeralOf_intText n).1
  rw [heq, (numeralOf_floatText h).1] at hint
  cases hint

mutual

/-- **The document of a canonical value determines it.** -/
theorem eq_of_document : ∀ {v w : Json}, canonical v = true → canonical w = true →
    DistinctFloats (floats v ++ floats w) → document v = document w → v = w
  | .null, w, _, hw, _, h => by cases w <;> simp_all [document, canonical]
  | .bool b, w, _, hw, _, h => by cases w <;> simp_all [document, canonical]
  | .int n, w, _, hw, _, h => by
    cases w <;> simp_all only [document, canonical, reduceCtorEq, if_true, Document.number.injEq]
    · next m _ =>
      rw [intText_injective ((numeralOf_intText n).2.symm.trans ((congrArg _ h).trans (numeralOf_intText m).2))]
    · exact absurd h (numeralOf_intText_ne hw)
  | .float x, w, hv, hw, hd, h => by
    cases w <;> simp_all only [document, canonical, reduceCtorEq, if_true, Document.number.injEq]
    · exact absurd h.symm (numeralOf_intText_ne hv)
    · next y =>
      have htext := (numeralOf_floatText hv).2.symm.trans ((congrArg _ h).trans (numeralOf_floatText hw).2)
      rw [float_eq_of_toBits (hd x (by simp [floats]) y (by simp [floats]) htext)]
  | .str s, w, _, hw, _, h => by cases w <;> simp_all [document, canonical]
  | .arr items, w, hv, hw, hd, h => by
    cases w <;> simp_all only [document, canonical, reduceCtorEq, if_true, Document.array.injEq]
    rw [eq_of_documents hv hw hd h]
  | .obj members, w, hv, hw, hd, h => by
    cases w <;> simp_all only [document, canonical, reduceCtorEq, if_true, Document.object.injEq, Bool.and_eq_true]
    rw [eq_of_memberDocuments hv.2 hw.2 hd h]

theorem eq_of_documents : ∀ {items others : List Json}, canonicalItems items = true →
    canonicalItems others = true → DistinctFloats (itemFloats items ++ itemFloats others) →
      documents items = documents others → items = others
  | [], others, _, _, _, h => by cases others <;> simp_all [documents]
  | item :: rest, [], _, _, _, h => by cases h
  | item :: rest, other :: others, hv, hw, hd, h => by
    simp only [canonicalItems, Bool.and_eq_true] at hv hw
    simp only [documents, List.cons.injEq] at h
    rw [eq_of_document hv.1 hw.1 hd.split.1 h.1,
      eq_of_documents hv.2 hw.2 hd.split.2 h.2]

theorem eq_of_memberDocuments : ∀ {members others : List (String × Json)}, canonicalMembers members = true →
    canonicalMembers others = true → DistinctFloats (memberFloats members ++ memberFloats others) →
      memberDocuments members = memberDocuments others → members = others
  | [], others, _, _, _, h => by cases others <;> simp_all [memberDocuments]
  | (key, value) :: rest, [], _, _, _, h => by cases h
  | (key, value) :: rest, (key', value') :: others, hv, hw, hd, h => by
    simp only [canonicalMembers, Bool.and_eq_true] at hv hw
    simp only [memberDocuments, List.cons.injEq, Prod.mk.injEq, Option.some.injEq] at h
    rw [h.1.1, eq_of_document hv.1 hw.1 hd.split.1 h.1.2,
      eq_of_memberDocuments hv.2 hw.2 hd.split.2 h.2]

end

/-- **Canonical values have one compact text exactly if they are the same.** -/
theorem render_eq_render_iff {v w : Json} (hv : canonical v = true) (hw : canonical w = true)
    (hd : DistinctFloats (floats v ++ floats w)) : v.render = w.render ↔ Same v w := by
  refine ⟨fun h => ?_, fun h => by rw [eq_of_same hv hw h]⟩
  have htext : compact v = compact w := String.ofList_injective h
  have hdocument : some (document v) = some (document w) := by
    rw [← read_compact v, htext, read_compact]
  exact eq_of_document hv hw hd (Option.some.inj hdocument) ▸ same_self hv

end QueryScore.Json
