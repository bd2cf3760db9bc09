import Mathlib.Data.List.Nodup

/-! # Lists searched by key

Tables are lists of entries that are looked up by name. Where the names are distinct, the entry that
is found for a name is the one that has it. The first occurrences of the entries of a list are
distinct.
-/

namespace ProgramGraphs

variable {α β γ : Type}

theorem find?_key_eq_none_iff {entries : List α} {key : α → String} {name : String} :
    entries.find? (key · == name) = none ↔ name ∉ entries.map key := by
  simp

theorem mem_of_find?_key {entries : List α} {key : α → String} {name : String} {entry : α}
    (found : entries.find? (key · == name) = some entry) : entry ∈ entries ∧ key entry = name :=
  ⟨List.mem_of_find?_eq_some found, by simpa using List.find?_some found⟩

/-- Among entries with distinct keys, the first with the key of an entry is that entry. -/
theorem find?_key_of_mem {entries : List α} {key : α → String} (distinct : (entries.map key).Nodup)
    {entry : α} (member : entry ∈ entries) :
    entries.find? (key · == key entry) = some entry := by
  cases found : entries.find? (key · == key entry) with
  | none => exact absurd (List.mem_map_of_mem member) (find?_key_eq_none_iff.mp found)
  | some other =>
    have same := List.find?_some found
    rw [beq_iff_eq] at same
    rw [List.inj_on_of_nodup_map distinct (List.mem_of_find?_eq_some found) member same]

/-- Where every entry is listed, under a key of its own, a key finds the entry that has it. -/
theorem find?_key_eq_some_iff {entries : List α} {key : α → String}
    (distinct : (entries.map key).Nodup) (complete : ∀ entry, entry ∈ entries) {name : String}
    {entry : α} : entries.find? (key · == name) = some entry ↔ key entry = name := by
  constructor
  · exact fun found => (mem_of_find?_key found).2
  · rintro rfl
    exact find?_key_of_mem distinct (complete entry)

/-- Looking a name up among listed values goes through to the listed values. -/
theorem lookup_map_key (entries : List α) (key : α → String) (value : α → β) (name : String) :
    (entries.map fun entry => (key entry, value entry)).lookup name =
      (entries.find? (key · == name)).map value := by
  induction entries with
  | nil => rfl
  | cons entry rest ih =>
    by_cases same : key entry = name
    · subst same
      simp
    · have flipped : (name == key entry) = false := beq_false_of_ne (Ne.symm same)
      have missed : (key entry == name) = false := beq_false_of_ne same
      rw [List.map_cons, List.lookup_cons, flipped, List.find?_cons, missed]
      exact ih

theorem lookup_map_key_of_mem {entries : List α} {key : α → String} (value : α → β)
    (distinct : (entries.map key).Nodup) {entry : α} (member : entry ∈ entries) :
    (entries.map fun entry => (key entry, value entry)).lookup (key entry) =
      some (value entry) := by
  rw [lookup_map_key, find?_key_of_mem distinct member, Option.map_some]

/-- Changing the values of a table changes what is found in it. -/
theorem lookup_map_value (table : List (String × β)) (change : String → β → γ) (name : String) :
    (table.map fun entry => (entry.1, change entry.1 entry.2)).lookup name =
      (table.lookup name).map (change name) := by
  induction table with
  | nil => rfl
  | cons entry rest ih =>
    rw [List.map_cons, List.lookup_cons, List.lookup_cons]
    split
    · next same =>
      rw [eq_of_beq same]
      rfl
    · exact ih

theorem nodup_eraseDups [BEq α] [LawfulBEq α] (items : List α) : items.eraseDups.Nodup := by
  induction size : items.length using Nat.strongRecOn generalizing items with
  | ind size ih =>
    cases items with
    | nil => exact List.nodup_nil
    | cons item rest =>
      rw [List.eraseDups_cons, List.nodup_cons]
      refine ⟨by simp, ih _ ?_ _ rfl⟩
      rw [← size, List.length_cons]
      exact Nat.lt_succ_of_le (List.length_filter_le _ _)

/-- Where lists are related entry by entry and tests agree along the relation, what is found in them
is related. -/
theorem exists_find?_of_forall₂ {related : α → β → Prop} {items : List α} {others : List β}
    (pairs : List.Forall₂ related items others) {test : α → Bool} {choose : β → Bool}
    (same : ∀ item other, related item other → test item = choose other) {item : α}
    (found : items.find? test = some item) :
    ∃ other, others.find? choose = some other ∧ related item other := by
  induction pairs with
  | nil => cases found
  | @cons first second _ _ here _ ih =>
    rw [List.find?_cons, same first second here] at found
    rw [List.find?_cons]
    split at found
    · cases found
      exact ⟨second, rfl, here⟩
    · exact ih found

theorem findSome?_congr {items : List α} {select choose : α → Option β}
    (same : ∀ item ∈ items, select item = choose item) :
    items.findSome? select = items.findSome? choose := by
  induction items with
  | nil => rfl
  | cons item rest ih =>
    obtain ⟨here, others⟩ := List.forall_mem_cons.mp same
    rw [List.findSome?_cons, List.findSome?_cons, here, ih others]

end ProgramGraphs
