import Mathlib.Data.List.Nodup
import ProgramGraphs.Picture.Draw
import ProgramGraphs.Proofs.Numbering

/-! # Identifiers of drawn nodes

Identifiers are made of letters and positions in turn, so the positions can be read off them. What
is drawn of a tracked pointer starts with the number of its function and with its own.
-/

namespace ProgramGraphs

namespace Picture

theorem nodeId_injective : Function.Injective nodeId := by
  intro first second same
  have digits := congrArg String.toList same
  simp only [nodeId, String.toList_append, List.append_cancel_left_eq] at digits
  exact toString_injective (String.toList_inj.mp digits)

theorem nodeId_ne_unresolvedId (position : Nat) : nodeId position ≠ CallGraph.unresolvedId := by
  intro same
  have first := congrArg (·.toList.head?) same
  simp [nodeId, String.toList_append, CallGraph.unresolvedId] at first

end Picture

theorem map_mapIdx {α β γ : Type} (change : β → γ) (row : Nat → α → β) (items : List α) :
    (items.mapIdx row).map change = items.mapIdx fun position item => change (row position item) :=
  List.ext_getElem (by simp) fun _ _ _ => by simp

theorem mem_flatten_mapIdx_iff {α β : Type} {rows : Nat → α → List β} {items : List α} {entry : β} :
    entry ∈ (items.mapIdx rows).flatten ↔
      ∃ (position : Nat) (inside : position < items.length),
        entry ∈ rows position items[position] := by
  rw [List.mem_flatten]
  constructor
  · rintro ⟨row, listed, member⟩
    obtain ⟨position, inside, rfl⟩ := List.mem_mapIdx.mp listed
    exact ⟨position, inside, member⟩
  · rintro ⟨position, inside, member⟩
    exact ⟨_, List.mem_mapIdx.mpr ⟨position, inside, rfl⟩, member⟩

/-- Rows that have no entry in common and repeat none make a list without repetitions. -/
theorem nodup_flatten_mapIdx {α β : Type} {rows : Nat → α → List β} {items : List α}
    (each : ∀ position, ∀ item ∈ items, (rows position item).Nodup)
    (apart : ∀ first second item other entry, entry ∈ rows first item →
      entry ∈ rows second other → first = second) :
    (items.mapIdx rows).flatten.Nodup := by
  refine List.nodup_flatten.mpr ⟨fun row member => ?_, ?_⟩
  · obtain ⟨position, inside, rfl⟩ := List.mem_mapIdx.mp member
    exact each position _ (List.getElem_mem inside)
  · rw [List.pairwise_iff_getElem]
    intro first second inside within before
    rw [List.getElem_mapIdx, List.getElem_mapIdx]
    intro entry here there
    exact absurd (apart first second _ _ entry here there) (Nat.ne_of_lt before)

namespace EscapeReport

theorem clusterId_injective : Function.Injective clusterId := by
  intro first second same
  have digits := congrArg String.toList same
  simp only [clusterId, String.toList_append, List.append_cancel_left_eq] at digits
  exact toString_injective (String.toList_inj.mp digits)

/-- An identifier starts with the numbers of a function and of one of its tracked pointers. -/
def Numbers (function pointer : Nat) (id : String) : Prop :=
  ∃ rest, EndsDigits rest ∧ id.toList =
    'f' :: ((toString function).toList ++ 'v' :: ((toString pointer).toList ++ rest))

theorem Numbers.unique {function other pointer rival : Nat} {id : String}
    (one : Numbers function pointer id) (also : Numbers other rival id) :
    function = other ∧ pointer = rival := by
  obtain ⟨rest, ends, shape⟩ := one
  obtain ⟨tail, endsToo, same⟩ := also
  rw [shape, List.cons_inj_right, toString_append_inj (endsDigits_cons (by decide) _)
    (endsDigits_cons (by decide) _), List.cons_inj_right, toString_append_inj ends endsToo] at same
  exact ⟨same.1, same.2.1⟩

theorem toList_pointerId (function pointer : Nat) : (pointerId function pointer).toList =
    'f' :: ((toString function).toList ++ 'v' :: (toString pointer).toList) := by
  simp [pointerId, String.toList_append]

theorem toList_useId (function pointer use : Nat) : (useId function pointer use).toList =
    'f' :: ((toString function).toList ++
      'v' :: ((toString pointer).toList ++ 'u' :: (toString use).toList)) := by
  simp [useId, toList_pointerId, String.toList_append]

theorem numbers_pointerId (function pointer : Nat) :
    Numbers function pointer (pointerId function pointer) :=
  ⟨[], endsDigits_nil, by rw [toList_pointerId, List.append_nil]⟩

theorem numbers_useId (function pointer use : Nat) :
    Numbers function pointer (useId function pointer use) :=
  ⟨_, endsDigits_cons (by decide) _, toList_useId function pointer use⟩

theorem pointerId_ne_useId (function pointer use : Nat) :
    pointerId function pointer ≠ useId function pointer use := by
  intro same
  have shape := congrArg String.toList same
  rw [toList_pointerId, toList_useId] at shape
  simp at shape

theorem useId_injective (function pointer : Nat) : Function.Injective (useId function pointer) := by
  intro first second same
  have shape := congrArg String.toList same
  simp only [toList_useId, List.cons_inj_right, List.append_cancel_left_eq] at shape
  exact toString_injective (String.toList_inj.mp shape)

/-- The identifiers of a tracked pointer and of its uses. -/
def pointerIds (function pointer : Nat) (tracked : TrackedPointer) : List String :=
  pointerId function pointer :: tracked.uses.mapIdx fun use _ => useId function pointer use

theorem numbers_of_mem_pointerIds {function pointer : Nat} {tracked : TrackedPointer} {id : String}
    (member : id ∈ pointerIds function pointer tracked) : Numbers function pointer id := by
  rcases List.mem_cons.mp member with rfl | member
  · exact numbers_pointerId function pointer
  · obtain ⟨use, inside, rfl⟩ := List.mem_mapIdx.mp member
    exact numbers_useId function pointer use

theorem nodup_pointerIds (function pointer : Nat) (tracked : TrackedPointer) :
    (pointerIds function pointer tracked).Nodup := by
  refine List.nodup_cons.mpr ⟨fun member => ?_, ?_⟩
  · obtain ⟨use, inside, same⟩ := List.mem_mapIdx.mp member
    exact pointerId_ne_useId function pointer use same.symm
  · rw [List.nodup_iff_pairwise_ne, List.pairwise_iff_getElem]
    intro first second inside within before
    rw [List.getElem_mapIdx, List.getElem_mapIdx]
    exact fun same => absurd (useId_injective function pointer same) (Nat.ne_of_lt before)

/-- The identifiers of the nodes of a function, in order. -/
theorem map_id_functionNodes (escape : FunctionEscape) (function : Nat) :
    (functionNodes escape function).map (·.id) =
      (escape.pointers.mapIdx (pointerIds function)).flatten := by
  rw [functionNodes, List.map_flatten, map_mapIdx]
  simp only [List.map_cons, map_mapIdx]
  rfl

theorem nodup_map_id_functionNodes (escape : FunctionEscape) (function : Nat) :
    ((functionNodes escape function).map (·.id)).Nodup := by
  rw [map_id_functionNodes]
  refine nodup_flatten_mapIdx (fun position item _ => nodup_pointerIds function position item) ?_
  intro first second item other id here there
  exact ((numbers_of_mem_pointerIds here).unique (numbers_of_mem_pointerIds there)).2

theorem exists_numbers_of_mem_functionNodes {escape : FunctionEscape} {function : Nat} {id : String}
    (member : id ∈ (functionNodes escape function).map (·.id)) :
    ∃ pointer, Numbers function pointer id := by
  rw [map_id_functionNodes] at member
  obtain ⟨pointer, inside, member⟩ := mem_flatten_mapIdx_iff.mp member
  exact ⟨pointer, numbers_of_mem_pointerIds member⟩

/-- No two nodes of a picture of what escapes have the same identifier. -/
theorem nodup_map_id_nodes (report : EscapeReport) (label : String) :
    ((report.draw label).nodes.map (·.id)).Nodup := by
  rw [draw, List.map_flatten, map_mapIdx]
  refine nodup_flatten_mapIdx (fun position item _ => nodup_map_id_functionNodes item position) ?_
  intro first second item other id here there
  obtain ⟨pointer, numbers⟩ := exists_numbers_of_mem_functionNodes here
  obtain ⟨rival, also⟩ := exists_numbers_of_mem_functionNodes there
  exact (numbers.unique also).1

end EscapeReport

end ProgramGraphs
