import Dialect.Json.Normal
import Mathlib.Data.List.Nodup
import Mathlib.Data.String.Basic

/-!
# Documents and their normal forms

The normal form of a document has the members of every object in the order of their keys. If no
object has a key twice it has the same members, so a look-up finds the normal form of what it finds
in the document.
-/

namespace Dialect

namespace JsonMember

def key : JsonMember → Except Fault String
  | .mk key _ => key

def value : JsonMember → Json
  | .mk _ value => value

def normal (m : JsonMember) : JsonMember :=
  ⟨m.key, m.value.normal⟩

end JsonMember

namespace Json

/-! ## Documents without repeated keys -/

mutual

/-- The members of every object in a value. -/
def objects : Json → List (List JsonMember)
  | .array items _ => itemObjects items
  | .object members _ => members :: memberObjects members
  | .null | .bool _ | .number _ | .string _ | .flawed _ _ => []

def itemObjects : List Json → List (List JsonMember)
  | [] => []
  | j :: js => j.objects ++ itemObjects js

def memberObjects : List JsonMember → List (List JsonMember)
  | [] => []
  | .mk _ j :: ms => j.objects ++ memberObjects ms

end

def keys (ms : List JsonMember) : List String :=
  ms.filterMap (·.key.toOption)

/-- No object has a key twice. -/
def DistinctKeys (j : Json) : Prop :=
  ∀ members ∈ j.objects, (keys members).Nodup

instance (j : Json) : Decidable j.DistinctKeys :=
  inferInstanceAs (Decidable (∀ members ∈ j.objects, (keys members).Nodup))

/-- All of it can be read, and no object has a key twice. -/
structure Clean (j : Json) : Prop where
  readable : ∃ room, j.firstFault room = none
  distinct : j.DistinctKeys

theorem mem_itemObjects {js : List Json} {members : List JsonMember} :
    members ∈ itemObjects js ↔ ∃ j ∈ js, members ∈ j.objects := by
  induction js with
  | nil => simp [itemObjects]
  | cons j js ih => simp [itemObjects, ih]

theorem mem_memberObjects {ms : List JsonMember} {members : List JsonMember} :
    members ∈ memberObjects ms ↔ ∃ m ∈ ms, members ∈ m.value.objects := by
  induction ms with
  | nil => simp [memberObjects]
  | cons m ms ih =>
    obtain ⟨key, j⟩ := m
    simp [memberObjects, ih, JsonMember.value]

theorem firstItemFault_eq_none {room : Nat} {js : List Json} :
    firstItemFault room js = none ↔ ∀ j ∈ js, j.firstFault room = none := by
  induction js with
  | nil => simp [firstItemFault]
  | cons j js ih => simp [firstItemFault, ih]

theorem firstMemberFault_eq_none {room : Nat} {ms : List JsonMember} :
    firstMemberFault room ms = none ↔
      ∀ m ∈ ms, (∃ key, m.key = .ok key) ∧ m.value.firstFault room = none := by
  induction ms with
  | nil => simp [firstMemberFault]
  | cons m ms ih =>
    obtain ⟨key, j⟩ := m
    cases key with
    | error f => simp [firstMemberFault, JsonMember.key]
    | ok key => simp [firstMemberFault, ih, JsonMember.key, JsonMember.value]

namespace Clean

theorem of_array {items : List Json} {fault : Option Fault} (clean : Clean (.array items fault)) :
    fault = none ∧ ∀ j ∈ items, j.Clean := by
  obtain ⟨⟨room, whole⟩, distinct⟩ := clean
  cases room with
  | zero => simp [firstFault] at whole
  | succ room =>
    rw [firstFault, Option.or_eq_none_iff, firstItemFault_eq_none] at whole
    refine ⟨whole.2, fun j member => ⟨⟨room, whole.1 j member⟩, fun members among => ?_⟩⟩
    exact distinct members (by rw [objects]; exact mem_itemObjects.mpr ⟨j, member, among⟩)

theorem of_object {ms : List JsonMember} {fault : Option Fault} (clean : Clean (.object ms fault)) :
    fault = none ∧ (keys ms).Nodup ∧ ∀ m ∈ ms, (∃ key, m.key = .ok key) ∧ m.value.Clean := by
  obtain ⟨⟨room, whole⟩, distinct⟩ := clean
  cases room with
  | zero => simp [firstFault] at whole
  | succ room =>
    rw [firstFault, Option.or_eq_none_iff, firstMemberFault_eq_none] at whole
    rw [DistinctKeys, objects, List.forall_mem_cons] at distinct
    refine ⟨whole.2, distinct.1, fun m member => ?_⟩
    obtain ⟨named, inner⟩ := whole.1 m member
    refine ⟨named, ⟨room, inner⟩, fun members among => ?_⟩
    exact distinct.2 members (mem_memberObjects.mpr ⟨m, member, among⟩)

end Clean

/-! ## Normal forms -/

/-- The members of an object without faults. -/
def named (ms : List (String × Json)) : List JsonMember :=
  ms.map fun (key, value) => ⟨.ok key, value⟩

theorem normalItems_eq (js : List Json) : normalItems js = js.map normal := by
  induction js with
  | nil => rfl
  | cons j js ih => rw [normalItems, ih, List.map_cons]

theorem insertMember_perm {key : String} (value : Json) {ms : List (String × Json)}
    (fresh : key ∉ ms.map Prod.fst) : (insertMember key value ms).Perm ((key, value) :: ms) := by
  induction ms with
  | nil => exact .refl _
  | cons m ms ih =>
    obtain ⟨k, v⟩ := m
    rw [List.map_cons, List.mem_cons, not_or] at fresh
    rw [insertMember]
    split
    · exact .refl _
    · rw [if_neg fresh.1]
      exact ((ih fresh.2).cons (k, v)).trans (.swap ..)

theorem mem_insertMember {key : String} {value : Json} {ms : List (String × Json)}
    {m : String × Json} (member : m ∈ insertMember key value ms) : m = (key, value) ∨ m ∈ ms := by
  induction ms with
  | nil => exact .inl (List.mem_singleton.mp member)
  | cons other ms ih =>
    obtain ⟨k, v⟩ := other
    rw [insertMember] at member
    split at member
    · exact List.mem_cons.mp member
    · split at member
      · exact .inr member
      · rcases List.mem_cons.mp member with rfl | member
        · exact .inr List.mem_cons_self
        · exact (ih member).imp_right (List.mem_cons_of_mem _)

def KeysInOrder (ms : List (String × Json)) : Prop :=
  ms.Pairwise fun a b => a.1 < b.1

theorem KeysInOrder.insertMember {ms : List (String × Json)} (ordered : KeysInOrder ms)
    (key : String) (value : Json) : KeysInOrder (insertMember key value ms) := by
  induction ms with
  | nil => exact List.pairwise_singleton _ _
  | cons m ms ih =>
    obtain ⟨k, v⟩ := m
    obtain ⟨first, rest⟩ := List.pairwise_cons.mp ordered
    rw [Json.insertMember]
    split
    · next before =>
      refine List.pairwise_cons.mpr ⟨List.forall_mem_cons.mpr ⟨before, fun m member => ?_⟩, ordered⟩
      exact before.trans (first m member)
    · next notBefore =>
      split
      · exact ordered
      · next other =>
        refine List.pairwise_cons.mpr ⟨fun m member => ?_, ih rest⟩
        rcases mem_insertMember member with rfl | member
        · exact lt_of_le_of_ne (not_lt.mp notBefore) (Ne.symm other)
        · exact first m member

theorem keysInOrder_normalMembers (ms : List JsonMember) : KeysInOrder (normalMembers ms) := by
  induction ms with
  | nil => exact .nil
  | cons m ms ih =>
    obtain ⟨key, j⟩ := m
    cases key with
    | error f => exact ih
    | ok key => exact ih.insertMember key j.normal

theorem keys_perm {ms ms' : List JsonMember} (perm : ms.Perm ms') : (keys ms).Perm (keys ms') :=
  perm.filterMap _

theorem keys_named (ms : List (String × Json)) : keys (named ms) = ms.map Prod.fst := by
  induction ms with
  | nil => rfl
  | cons m ms ih =>
    rw [List.map_cons, ← ih]
    rfl

theorem keys_map_normal (ms : List JsonMember) : keys (ms.map JsonMember.normal) = keys ms := by
  rw [keys, List.filterMap_map]
  rfl

/-- The members of a normal form are those of the object. -/
theorem named_normalMembers_perm {ms : List JsonMember} (named : ∀ m ∈ ms, ∃ key, m.key = .ok key)
    (distinct : (keys ms).Nodup) :
    (Json.named (normalMembers ms)).Perm (ms.map JsonMember.normal) := by
  induction ms with
  | nil => exact .refl _
  | cons m ms ih =>
    obtain ⟨key, j⟩ := m
    obtain ⟨⟨key, rfl⟩, rest⟩ := List.forall_mem_cons.mp named
    obtain ⟨fresh, distinct⟩ := List.nodup_cons.mp distinct
    have inner := ih rest distinct
    have unknown : key ∉ (normalMembers ms).map Prod.fst := by
      rwa [← keys_named, (keys_perm inner).mem_iff, keys_map_normal]
    exact ((insertMember_perm j.normal unknown).map _).trans (inner.cons _)

theorem skipMembers_eq_none {ms : List JsonMember} :
    skipMembers ms = none ↔ ∀ m ∈ ms, m.value.skip = none := by
  induction ms with
  | nil => simp [skipMembers]
  | cons m ms ih =>
    obtain ⟨key, j⟩ := m
    simp [skipMembers, ih, JsonMember.value]

theorem skipMembers_insertMember (key : String) {value : Json} {ms : List (String × Json)}
    (last : value.skip = none) (rest : skipMembers (named ms) = none) :
    skipMembers (named (insertMember key value ms)) = none := by
  rw [skipMembers_eq_none, named, List.forall_mem_map] at rest ⊢
  intro m member
  rcases mem_insertMember member with rfl | member
  · exact last
  · exact rest m member

mutual

/-- What can be read can be skipped, and so can its normal form. -/
theorem skip_of_firstFault (room : Nat) (j : Json) (whole : j.firstFault room = none) :
    j.skip = none ∧ j.normal.skip = none := by
  cases j with
  | array items fault =>
    cases room with
    | zero => simp [firstFault] at whole
    | succ room =>
      obtain ⟨inner, rfl⟩ := Option.or_eq_none_iff.mp whole
      obtain ⟨plain, normal⟩ := skipItems_of_firstItemFault room items inner
      exact ⟨by rw [skip, plain]; rfl, by rw [Json.normal, list, skip, normal]; rfl⟩
  | object members fault =>
    cases room with
    | zero => simp [firstFault] at whole
    | succ room =>
      obtain ⟨inner, rfl⟩ := Option.or_eq_none_iff.mp whole
      obtain ⟨plain, normal⟩ := skipMembers_of_firstMemberFault room members inner
      exact ⟨by rw [skip, plain]; rfl, by rw [Json.normal, record, ← named, skip, normal]; rfl⟩
  | flawed read skipped => cases room <;> cases whole
  | null => exact ⟨rfl, rfl⟩
  | bool value => exact ⟨rfl, rfl⟩
  | number text => exact ⟨rfl, rfl⟩
  | string text => exact ⟨rfl, rfl⟩

theorem skipItems_of_firstItemFault (room : Nat) (js : List Json)
    (whole : firstItemFault room js = none) :
    skipItems js = none ∧ skipItems (normalItems js) = none := by
  cases js with
  | nil => exact ⟨rfl, rfl⟩
  | cons j js =>
    obtain ⟨first, rest⟩ := Option.or_eq_none_iff.mp whole
    have first := skip_of_firstFault room j first
    have rest := skipItems_of_firstItemFault room js rest
    exact ⟨by rw [skipItems, first.1, rest.1]; rfl,
      by rw [normalItems, skipItems, first.2, rest.2]; rfl⟩

theorem skipMembers_of_firstMemberFault (room : Nat) (ms : List JsonMember)
    (whole : firstMemberFault room ms = none) :
    skipMembers ms = none ∧ skipMembers (named (normalMembers ms)) = none := by
  cases ms with
  | nil => exact ⟨rfl, rfl⟩
  | cons m ms =>
    cases m with
    | mk key j =>
      cases key with
      | error f => cases whole
      | ok key =>
        obtain ⟨first, rest⟩ := Option.or_eq_none_iff.mp whole
        have first := skip_of_firstFault room j first
        have rest := skipMembers_of_firstMemberFault room ms rest
        exact ⟨by rw [skipMembers, first.1, rest.1]; rfl,
          skipMembers_insertMember key first.2 rest.2⟩

end

theorem Clean.skip {j : Json} (clean : j.Clean) : j.skip = none ∧ j.normal.skip = none := by
  obtain ⟨room, whole⟩ := clean.readable
  exact skip_of_firstFault room j whole

/-! ## Looking up a field -/

/-- The value of the first member with a key. -/
def member? (name : String) (ms : List JsonMember) : Option Json :=
  (ms.find? (·.key.toOption = some name)).map (·.value)

/-- The value for a field: under its name in an object, in its place in an array. -/
def field? (name : String) (index : Nat) : Json → Option Json
  | .object members _ => member? name members
  | .array items _ => items[index]?
  | _ => none

theorem member?_cons (name : String) (m : JsonMember) (ms : List JsonMember) :
    member? name (m :: ms) =
      if m.key.toOption = some name then some m.value else member? name ms := by
  rw [member?, List.find?_cons]
  by_cases called : m.key.toOption = some name
  · simp [called]
  · simp [called, member?]

theorem member?_cons_ok (name key : String) (j : Json) (ms : List JsonMember) :
    member? name (⟨.ok key, j⟩ :: ms) = if key = name then some j else member? name ms := by
  rw [member?_cons]
  simp [JsonMember.key, JsonMember.value, Except.toOption]

theorem mem_keys {name : String} {ms : List JsonMember} :
    name ∈ keys ms ↔ ∃ m ∈ ms, m.key.toOption = some name :=
  List.mem_filterMap

theorem member?_eq_some_iff {name : String} {ms : List JsonMember} (distinct : (keys ms).Nodup)
    {j : Json} : member? name ms = some j ↔ ⟨.ok name, j⟩ ∈ ms := by
  induction ms with
  | nil => simp [member?]
  | cons m ms ih =>
    rw [member?_cons, List.mem_cons]
    split
    · next called =>
      obtain ⟨key, value⟩ := m
      cases key with
      | error f => cases called
      | ok key =>
        obtain rfl := Option.some.inj called
        have fresh : ⟨.ok key, j⟩ ∉ ms := fun member =>
          (List.nodup_cons.mp distinct).1 (mem_keys.mpr ⟨_, member, rfl⟩)
        simp [fresh, JsonMember.value, eq_comm]
    · next other =>
      have rest : (keys ms).Nodup :=
        distinct.sublist ((List.sublist_cons_self m ms).filterMap _)
      have different : ⟨.ok name, j⟩ ≠ m := by
        rintro rfl
        exact other rfl
      rw [ih rest, or_iff_right different]

theorem member?_perm {name : String} {ms ms' : List JsonMember} (perm : ms.Perm ms')
    (distinct : (keys ms).Nodup) : member? name ms = member? name ms' := by
  ext j
  rw [member?_eq_some_iff distinct, member?_eq_some_iff ((keys_perm perm).nodup_iff.mp distinct),
    perm.mem_iff]

theorem member?_map_normal (name : String) (ms : List JsonMember) :
    member? name (ms.map JsonMember.normal) = (member? name ms).map normal := by
  simp only [member?, List.find?_map, Option.map_map]
  rfl

theorem field?_normal {j : Json} (clean : j.Clean) (name : String) (index : Nat) :
    j.normal.field? name index = (j.field? name index).map normal := by
  cases j with
  | object ms fault =>
    obtain ⟨-, distinct, inner⟩ := clean.of_object
    have perm := named_normalMembers_perm (fun m member => (inner m member).1) distinct
    have same : member? name _ = member? name _ :=
      member?_perm perm.symm (by rwa [keys_map_normal])
    rw [field?, ← member?_map_normal, same]
    rfl
  | array items fault =>
    rw [normal, list, field?, normalItems_eq, field?, List.getElem?_map]
  | null => rfl
  | bool value => rfl
  | number text => rfl
  | string text => rfl
  | flawed read skipped => rfl

theorem Clean.of_field? {j value : Json} (clean : j.Clean) {name : String} {index : Nat}
    (found : j.field? name index = some value) : value.Clean := by
  cases j with
  | object ms fault =>
    obtain ⟨m, first, rfl⟩ := Option.map_eq_some_iff.mp found
    exact (clean.of_object.2.2 m (List.mem_of_find?_eq_some first)).2
  | array items fault => exact clean.of_array.2 value (List.mem_of_getElem? found)
  | null => cases found
  | bool value => cases found
  | number text => cases found
  | string text => cases found
  | flawed read skipped => cases found

end Json

end Dialect
