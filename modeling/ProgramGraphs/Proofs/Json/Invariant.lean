import ProgramGraphs.Proofs.Json.Restore

/-! # What holds of data that is read

What holds of a blank record and is kept by the reading of every field holds of a record that is
read, however it is spelt: as an object with its members in any order, or as an array. Whatever a
decoder reads stands as deep in the text as arrays and objects may.
-/

namespace ProgramGraphs.Json

namespace Decoder

variable {α : Type} {decoder : Decoder α} {depth : Nat} {tree : Tree}

theorem refuse_ne_ok (expected : String) (tree : Tree) (data : α) :
    refuse expected tree ≠ .ok data := by
  intro reads
  obtain ⟨_, _, reads⟩ := bind_eq_ok_iff.mp reads
  cases reads

/-- What is read of an optional value is read of a tree that is not null. -/
theorem decoder_of_optional {data : α} (reads : optional decoder depth tree = .ok (some data)) :
    tree ≠ .null ∧ decoder depth tree = .ok data := by
  have present : tree ≠ .null := by
    rintro rfl
    cases reads
  refine ⟨present, ?_⟩
  rw [optional_eq present] at reads
  cases outcome : decoder depth tree with
  | error failure =>
    rw [outcome] at reads
    cases reads
  | ok held =>
    rw [outcome] at reads
    cases reads
    rfl

theorem lt_and_decoder_of_list {items : List α} (reads : list decoder depth tree = .ok items) :
    depth < Tree.depthLimit ∧ ∀ item ∈ items, ∃ tree, decoder (depth + 1) tree = .ok item := by
  unfold list at reads
  split at reads
  · split at reads
    · cases reads
    · next room =>
      obtain ⟨values, inside, reads⟩ := bind_eq_ok_iff.mp reads
      obtain ⟨_, _, reads⟩ := bind_eq_ok_iff.mp reads
      cases reads
      refine ⟨by omega, fun item member => ?_⟩
      obtain ⟨entry, _, found⟩ := exists_entry_of_mapM_eq_ok inside member
      exact ⟨entry, found⟩
  · exact absurd reads (refuse_ne_ok _ _ _)

end Decoder

theorem Field.read_of_eq_ok_iff {ρ α : Type} {name : String} {required : Bool}
    {decoder : Decoder α} {set : α → ρ → ρ} {depth : Nat} {tree : Tree} {record next : ρ} :
    (Field.of name required decoder set).read depth tree record = .ok next ↔
      ∃ data, decoder depth tree = .ok data ∧ set data record = next := by
  change (set · record) <$> decoder depth tree = .ok next ↔ _
  cases decoder depth tree with
  | error failure =>
    refine iff_of_false (fun same => nomatch same) ?_
    rintro ⟨_, ⟨⟩, _⟩
  | ok data =>
    constructor
    · rintro ⟨⟩
      exact ⟨data, rfl, rfl⟩
    · rintro ⟨_, ⟨⟩, rfl⟩
      rfl

namespace Schema

variable {ρ : Type} {schema : Schema ρ} {invariant : ρ → Prop} {depth : Nat}

/-- The reading of a field keeps what holds of a record. -/
def Keeps (depth : Nat) (invariant : ρ → Prop) (field : Field ρ) : Prop :=
  ∀ tree record next, invariant record → field.read depth tree record = .ok next → invariant next

theorem keeps_of {α : Type} {name : String} {required : Bool} {decoder : Decoder α}
    {set : α → ρ → ρ} (kept : ∀ tree data record, decoder depth tree = .ok data →
      invariant record → invariant (set data record)) :
    Keeps depth invariant (.of name required decoder set) := by
  intro tree record next holds reads
  obtain ⟨data, decodes, rfl⟩ := Field.read_of_eq_ok_iff.mp reads
  exact kept tree data record decodes holds

theorem readMembers_keeps (kept : ∀ field ∈ schema.fields, Keeps depth invariant field)
    {members : List (Except Fault String × Tree)} {state result : List String × ρ}
    (first : invariant state.2) (reads : schema.readMembers depth members state = .ok result) :
    invariant result.2 := by
  induction members generalizing state with
  | nil =>
    rw [readMembers] at reads
    cases reads
    exact first
  | cons member rest ih =>
    obtain ⟨key, tree⟩ := member
    obtain ⟨seen, record⟩ := state
    rw [readMembers] at reads
    obtain ⟨name, _, reads⟩ := bind_eq_ok_iff.mp reads
    dsimp only at reads
    split at reads
    · next field found =>
      split at reads
      · cases reads
      · obtain ⟨next, here, reads⟩ := bind_eq_ok_iff.mp reads
        exact ih (kept field (List.mem_of_find?_eq_some found) tree record next first here) reads
    · obtain ⟨_, _, reads⟩ := bind_eq_ok_iff.mp reads
      exact ih first reads

theorem readItems_keeps {ending : ArrayEnd} {index : Nat} {fields : List (Field ρ)}
    (kept : ∀ field ∈ fields, Keeps depth invariant field) {items : List Tree} {record result : ρ}
    (first : invariant record)
    (reads : schema.readItems depth ending index fields items record = .ok result) :
    invariant result := by
  induction fields generalizing index items record with
  | nil =>
    cases items with
    | nil =>
      rw [readItems] at reads
      obtain ⟨_, _, reads⟩ := bind_eq_ok_iff.mp reads
      cases reads
      exact first
    | cons item rest => cases reads
  | cons field fields ih =>
    obtain ⟨keeps, others⟩ := List.forall_mem_cons.mp kept
    cases items with
    | nil =>
      rw [readItems] at reads
      obtain ⟨_, _, reads⟩ := bind_eq_ok_iff.mp reads
      split at reads
      · cases reads
      · exact ih others first reads
    | cons item rest =>
      rw [readItems] at reads
      obtain ⟨next, here, reads⟩ := bind_eq_ok_iff.mp reads
      exact ih others (keeps item record next first here) reads

/-- What holds of a blank record and is kept by the fields holds of every record that is read. -/
theorem decoder_keeps (invariant : ρ → Prop) {blank record : ρ} {tree : Tree}
    (reads : schema.decoder blank depth tree = .ok record)
    (first : depth < Tree.depthLimit → invariant blank)
    (kept : depth < Tree.depthLimit → ∀ field ∈ schema.fields, Keeps (depth + 1) invariant field) :
    invariant record := by
  unfold decoder at reads
  split at reads
  · split at reads
    · cases reads
    · next room =>
      exact readItems_keeps (kept (by omega)) (first (by omega)) reads
  · split at reads
    · cases reads
    · next room =>
      obtain ⟨⟨seen, result⟩, members, reads⟩ := bind_eq_ok_iff.mp reads
      obtain ⟨_, _, reads⟩ := bind_eq_ok_iff.mp reads
      have held := readMembers_keeps (kept (by omega)) (first (by omega)) members
      split at reads
      · cases reads
      · cases reads
        exact held
  · exact absurd reads (Decoder.refuse_ne_ok _ _ _)

end Schema

end ProgramGraphs.Json
