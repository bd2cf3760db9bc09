import ProgramGraphs.Promotion
import ProgramGraphs.Proofs.Fresh
import ProgramGraphs.Proofs.Keyed
import ProgramGraphs.Proofs.Numbering

/-! # What the slots of a function are

The pointer of a slot is assigned by one allocation and nothing else, and it is no operand but as
the address of accesses of the expected shape (`Access`). The variables that replace slots have
names of their own.
-/

namespace ProgramGraphs

namespace Slot

/-- The names for the variable of a slot differ. -/
theorem cellName_injective (pointer : String) : Function.Injective (cellName pointer) := by
  intro first second same
  unfold cellName at same
  split at same <;> split at same
  · omega
  · exact absurd (String.append_eq_left_iff.mp same.symm) Nat.repr_ne_empty
  · exact absurd (String.append_eq_left_iff.mp same) Nat.repr_ne_empty
  · exact toString_injective ((String.append_right_inj _).mp same)

/-- There is a slot for every allocation, in their order. -/
theorem map_allocation_allot (taken : List String) (allocations : List (String × ValueType)) :
    (allot taken allocations).map (fun slot => (slot.pointer, slot.pointee)) = allocations := by
  induction allocations generalizing taken with
  | nil => rfl
  | cons allocation rest ih => exact congrArg (allocation :: ·) (ih _)

theorem map_pointer_allot (taken : List String) (allocations : List (String × ValueType)) :
    (allot taken allocations).map (·.pointer) = allocations.map Prod.fst := by
  have pointers := congrArg (List.map Prod.fst) (map_allocation_allot taken allocations)
  rwa [List.map_map] at pointers

theorem cell_notMem_of_mem_allot {taken : List String} {allocations : List (String × ValueType)}
    {slot : Slot} (member : slot ∈ allot taken allocations) : slot.cell ∉ taken := by
  induction allocations generalizing taken with
  | nil => cases member
  | cons allocation rest ih =>
    rcases List.mem_cons.mp member with rfl | later
    · exact freshName_notMem _ (cellName_injective _) taken
    · exact fun inTaken => ih later (List.mem_cons_of_mem _ inTaken)

/-- Slots get different variables. -/
theorem nodup_map_cell_allot (taken : List String) (allocations : List (String × ValueType)) :
    ((allot taken allocations).map (·.cell)).Nodup := by
  induction allocations generalizing taken with
  | nil => exact List.nodup_nil
  | cons allocation rest ih =>
    refine List.nodup_cons.mpr ⟨?_, ih _⟩
    intro member
    obtain ⟨slot, later, same⟩ := List.mem_map.mp member
    refine cell_notMem_of_mem_allot later ?_
    rw [same]
    exact List.mem_cons_self

end Slot

/-- An element that a list yields once comes from one place. -/
theorem eq_of_count_filterMap_eq_one {α : Type} {list : List α} {select : α → Option String}
    {name : String} (once : (list.filterMap select).count name = 1) {first second : α}
    (firstIn : first ∈ list) (secondIn : second ∈ list) (firstSelects : select first = some name)
    (secondSelects : select second = some name) : first = second := by
  induction list with
  | nil => cases firstIn
  | cons head rest ih =>
    have elsewhere : select head = some name → ∀ other ∈ rest, select other ≠ some name := by
      intro selects other member same
      rw [List.filterMap_cons_some selects, List.count_cons_self, Nat.add_eq_right,
        List.count_eq_zero] at once
      exact once (List.mem_filterMap.mpr ⟨other, member, same⟩)
    rcases List.mem_cons.mp firstIn with rfl | firstLater <;>
      rcases List.mem_cons.mp secondIn with rfl | secondLater
    · rfl
    · exact absurd secondSelects (elsewhere firstSelects second secondLater)
    · exact absurd firstSelects (elsewhere secondSelects first firstLater)
    · refine ih ?_ firstLater secondLater
      cases selects : select head with
      | none => rwa [List.filterMap_cons_none selects] at once
      | some other =>
        have distinct : other ≠ name := by
          rintro rfl
          exact elsewhere selects first firstLater firstSelects
        rwa [List.filterMap_cons_some selects, List.count_cons_of_ne distinct] at once

namespace Function

variable (function : Function)

/-- The variables that hold the addresses of slots. -/
def slotPointers : List String :=
  function.slots.map (·.pointer)

/-- The variables that take the place of slots. -/
def slotCells : List String :=
  function.slots.map (·.cell)

theorem slotPointers_eq : function.slotPointers =
    (function.allocations.map Prod.fst).filter function.isPromotable := by
  rw [slotPointers, slots, Slot.map_pointer_allot, List.filter_map]
  rfl

theorem mem_allocations_iff (pointer : String) (pointee : ValueType) :
    (pointer, pointee) ∈ function.allocations ↔ ∃ instruction ∈ function.instructions,
      instruction.opcode = .alloc ∧ instruction.dest = some pointer ∧
        instruction.type.bind ValueType.pointee? = some pointee := by
  rw [allocations, List.mem_filterMap]
  refine exists_congr fun instruction => and_congr_right fun _ => ?_
  split
  · next operation dest type =>
    simp [operation, dest, type]
  · next unmatched =>
    simp only [reduceCtorEq, false_iff]
    rintro ⟨operation, dest, type⟩
    exact unmatched _ _ operation dest type

/-- What a slot holds is what the type of some instruction points to. -/
theorem exists_pointer_of_mem_slots {slot : Slot} (member : slot ∈ function.slots) :
    ∃ instruction ∈ function.instructions, instruction.type = some (.pointer slot.pointee) := by
  have allocated : (slot.pointer, slot.pointee) ∈ function.allocations := by
    have listed := List.mem_map_of_mem (f := fun slot => (slot.pointer, slot.pointee)) member
    rw [slots, Slot.map_allocation_allot] at listed
    exact List.mem_of_mem_filter listed
  obtain ⟨instruction, inside, _, _, typed⟩ := (mem_allocations_iff function _ _).mp allocated
  obtain ⟨type, declared, points⟩ := Option.bind_eq_some_iff.mp typed
  refine ⟨instruction, inside, ?_⟩
  rw [declared]
  cases type with
  | pointer pointee =>
    cases points
    rfl
  | named name => cases points

/-- Each allocation assigns its destination. -/
theorem allocations_sublist_dests :
    (function.allocations.map Prod.fst).Sublist function.dests := by
  rw [allocations, dests, List.map_filterMap]
  induction function.instructions with
  | nil => exact List.Sublist.slnil
  | cons instruction rest ih =>
    rw [List.filterMap_cons, List.filterMap_cons]
    split
    · split
      · exact ih
      · exact ih.cons _
    · next name selected =>
      obtain ⟨allocation, matched, rfl⟩ := Option.map_eq_some_iff.mp selected
      split at matched
      · next _ dest _ =>
        cases matched
        rw [dest]
        exact ih.cons_cons _
      · cases matched

theorem mem_slotPointers_iff (pointer : String) : pointer ∈ function.slotPointers ↔
    (∃ pointee, (pointer, pointee) ∈ function.allocations) ∧
      function.isPromotable pointer = true := by
  rw [slotPointers_eq, List.mem_filter, List.mem_map]
  refine and_congr_left fun _ => ?_
  constructor
  · rintro ⟨⟨_, pointee⟩, member, rfl⟩
    exact ⟨pointee, member⟩
  · rintro ⟨pointee, member⟩
    exact ⟨(pointer, pointee), member, rfl⟩

theorem isPromotable_iff (pointer : String) : function.isPromotable pointer = true ↔
    pointer ∉ function.parameters.map (·.name) ∧ function.dests.count pointer = 1 ∧
      pointer ∉ function.instructions.flatMap Instruction.exposedArgs := by
  simp [isPromotable, and_assoc]

/-- Slots have different pointers. -/
theorem nodup_slotPointers : function.slotPointers.Nodup := by
  rw [List.nodup_iff_count_le_one]
  intro pointer
  by_cases member : pointer ∈ function.slotPointers
  · have once := ((function.isPromotable_iff pointer).mp
      ((function.mem_slotPointers_iff pointer).mp member).2).2.1
    rw [slotPointers_eq]
    calc ((function.allocations.map Prod.fst).filter function.isPromotable).count pointer
        ≤ (function.allocations.map Prod.fst).count pointer := List.filter_sublist.count_le _
      _ ≤ function.dests.count pointer := function.allocations_sublist_dests.count_le _
      _ = 1 := once
  · rw [List.count_eq_zero.mpr member]
    exact Nat.zero_le 1

/-- Slots get different variables. -/
theorem nodup_slotCells : function.slotCells.Nodup :=
  Slot.nodup_map_cell_allot _ _

/-- The variable of a slot is no parameter and no destination. -/
theorem notMem_of_mem_slotCells {cell : String} (member : cell ∈ function.slotCells) :
    cell ∉ function.parameters.map (·.name) ∧ cell ∉ function.dests := by
  obtain ⟨slot, inSlots, rfl⟩ := List.mem_map.mp member
  have free := Slot.cell_notMem_of_mem_allot inSlots
  rwa [List.mem_append, not_or] at free

variable {function}

/-- The pointer of a slot is assigned by allocations only. -/
theorem opcode_of_dest {pointer : String} (member : pointer ∈ function.slotPointers)
    {instruction : Instruction} (inside : instruction ∈ function.instructions)
    (assigned : instruction.dest = some pointer) : instruction.opcode = .alloc := by
  obtain ⟨⟨pointee, allocated⟩, promotable⟩ := (function.mem_slotPointers_iff pointer).mp member
  obtain ⟨allocation, allocationInside, operation, dest, _⟩ :=
    (function.mem_allocations_iff pointer pointee).mp allocated
  have once := ((function.isPromotable_iff pointer).mp promotable).2.1
  rw [eq_of_count_filterMap_eq_one once inside allocationInside assigned dest]
  exact operation

theorem mem_dests_of_mem_slotPointers {pointer : String}
    (member : pointer ∈ function.slotPointers) : pointer ∈ function.dests := by
  obtain ⟨_, promotable⟩ := (function.mem_slotPointers_iff pointer).mp member
  rw [← List.count_pos_iff, ((function.isPromotable_iff pointer).mp promotable).2.1]
  exact Nat.one_pos

theorem notMem_parameters_of_mem_slotPointers {pointer : String}
    (member : pointer ∈ function.slotPointers) :
    pointer ∉ function.parameters.map (·.name) :=
  ((function.isPromotable_iff pointer).mp
    ((function.mem_slotPointers_iff pointer).mp member).2).1

theorem notMem_exposedArgs {pointer : String} (member : pointer ∈ function.slotPointers)
    {instruction : Instruction} (inside : instruction ∈ function.instructions) :
    pointer ∉ instruction.exposedArgs := by
  intro exposed
  have unexposed := ((function.isPromotable_iff pointer).mp
    ((function.mem_slotPointers_iff pointer).mp member).2).2.2
  exact unexposed (List.mem_flatMap.mpr ⟨instruction, inside, exposed⟩)

/-- No variable is both the pointer of a slot and the variable of one. -/
theorem notMem_slotCells_of_mem_slotPointers {name : String}
    (member : name ∈ function.slotPointers) : name ∉ function.slotCells := fun cell =>
  (function.notMem_of_mem_slotCells cell).2 (mem_dests_of_mem_slotPointers member)

/-- Slots with the same pointer are the same. -/
theorem slot_eq_of_pointer_eq {first second : Slot} (firstIn : first ∈ function.slots)
    (secondIn : second ∈ function.slots) (same : first.pointer = second.pointer) :
    first = second :=
  List.inj_on_of_nodup_map function.nodup_slotPointers firstIn secondIn same

/-- Slots with the same variable are the same. -/
theorem slot_eq_of_cell_eq {first second : Slot} (firstIn : first ∈ function.slots)
    (secondIn : second ∈ function.slots) (same : first.cell = second.cell) : first = second :=
  List.inj_on_of_nodup_map function.nodup_slotCells firstIn secondIn same

theorem accessed?_eq_some_iff (instruction : Instruction) (slot : Slot) :
    Slot.accessed? function.slots instruction = some slot ↔
      slot ∈ function.slots ∧ instruction.pointer? = some slot.pointer := by
  rw [Slot.accessed?, Option.bind_eq_some_iff]
  constructor
  · rintro ⟨pointer, accesses, found⟩
    have same := List.find?_some found
    rw [beq_iff_eq] at same
    exact ⟨List.mem_of_find?_eq_some found, same ▸ accesses⟩
  · rintro ⟨inside, accesses⟩
    exact ⟨slot.pointer, accesses, find?_key_of_mem function.nodup_slotPointers inside⟩

theorem accessed?_eq_none_iff (instruction : Instruction) :
    Slot.accessed? function.slots instruction = none ↔
      ∀ pointer, instruction.pointer? = some pointer → pointer ∉ function.slotPointers := by
  constructor
  · rintro untouched pointer accesses member
    obtain ⟨slot, inside, rfl⟩ := List.mem_map.mp member
    rw [(accessed?_eq_some_iff instruction slot).mpr ⟨inside, accesses⟩] at untouched
    cases untouched
  · intro apart
    cases accessed : Slot.accessed? function.slots instruction with
    | none => rfl
    | some slot =>
      obtain ⟨inside, accesses⟩ := (accessed?_eq_some_iff instruction slot).mp accessed
      exact absurd (List.mem_map_of_mem inside) (apart slot.pointer accesses)

theorem mem_names_of_operand {instruction : Instruction}
    (inside : instruction ∈ function.instructions) {name : String}
    (operand : name ∈ instruction.args) : name ∈ function.names :=
  List.mem_append_right _
    (List.mem_flatMap.mpr ⟨instruction, inside, List.mem_append_right _ operand⟩)

/-- No instruction assigns the variable of a slot. -/
theorem notMem_slotCells_of_dest {instruction : Instruction}
    (inside : instruction ∈ function.instructions) {name : String}
    (assigned : instruction.dest = some name) : name ∉ function.slotCells := fun isCell =>
  (function.notMem_of_mem_slotCells isCell).2
    (List.mem_filterMap.mpr ⟨instruction, inside, assigned⟩)

/-- The destination of an instruction that accesses no slot is unknown to promotion. -/
theorem dest_apart {instruction : Instruction} (inside : instruction ∈ function.instructions)
    (untouched : Slot.accessed? function.slots instruction = none) {name : String}
    (assigned : instruction.dest = some name) :
    name ∉ function.slotPointers ∧ name ∉ function.slotCells := by
  refine ⟨fun isPointer => ?_, notMem_slotCells_of_dest inside assigned⟩
  have operation := opcode_of_dest isPointer inside assigned
  refine (accessed?_eq_none_iff instruction).mp untouched name ?_ isPointer
  rw [Instruction.pointer?, operation, assigned]

/-- An instruction that accesses no slot has no pointer of one among its operands. -/
theorem notMem_args_of_untouched {instruction : Instruction}
    (inside : instruction ∈ function.instructions)
    (untouched : Slot.accessed? function.slots instruction = none) {pointer : String}
    (member : pointer ∈ function.slotPointers) : pointer ∉ instruction.args := by
  have hidden := notMem_exposedArgs member inside
  have apart := (accessed?_eq_none_iff instruction).mp untouched
  unfold Instruction.exposedArgs at hidden
  unfold Instruction.pointer? at apart
  split at hidden
  · next operand operation args =>
    rw [operation, args] at apart
    rw [args, List.mem_singleton]
    rintro rfl
    exact apart pointer rfl member
  · next operand operation args =>
    rw [operation, args] at apart
    rw [args, List.mem_singleton]
    rintro rfl
    exact apart pointer rfl member
  · next operand stored operation args =>
    rw [operation, args] at apart
    rw [args, List.mem_cons, not_or]
    refine ⟨?_, hidden⟩
    rintro rfl
    exact apart pointer rfl member
  · exact hidden

end Function

/-- The ways in which an instruction accesses a slot of a function. -/
inductive Slot.Access (function : Function) (slot : Slot) (instruction : Instruction) : Prop
  | alloc : instruction.opcode = .alloc → instruction.dest = some slot.pointer →
      Access function slot instruction
  | load {dest : String} : instruction.opcode = .load → instruction.args = [slot.pointer] →
      instruction.dest = some dest → dest ∉ function.slotPointers →
        Access function slot instruction
  | store {stored : String} : instruction.opcode = .store →
      instruction.args = [slot.pointer, stored] → stored ∉ function.slotPointers →
        Access function slot instruction
  | free : instruction.opcode = .free → instruction.args = [slot.pointer] →
      Access function slot instruction

namespace Slot

variable {slot : Slot} {instruction : Instruction}

theorem replaceAccess_alloc (operation : instruction.opcode = .alloc) :
    slot.replaceAccess instruction = none := by
  rw [replaceAccess, operation]

theorem replaceAccess_free (operation : instruction.opcode = .free) :
    slot.replaceAccess instruction = none := by
  rw [replaceAccess, operation]

theorem replaceAccess_load {dest : String} (operation : instruction.opcode = .load)
    (assigned : instruction.dest = some dest) : slot.replaceAccess instruction =
      some (.copy dest (instruction.type.getD slot.pointee) slot.cell) := by
  rw [replaceAccess, operation, assigned]
  rfl

theorem replaceAccess_store {pointer stored : String} (operation : instruction.opcode = .store)
    (args : instruction.args = [pointer, stored]) : slot.replaceAccess instruction =
      some (.copy slot.cell slot.pointee stored) := by
  rw [replaceAccess, operation, args]
  rfl

end Slot

namespace Function

variable {function : Function}

theorem access_of_accessed? {instruction : Instruction} {slot : Slot}
    (inside : instruction ∈ function.instructions)
    (accessed : Slot.accessed? function.slots instruction = some slot) :
    slot.Access function instruction := by
  obtain ⟨slotInside, accesses⟩ := (accessed?_eq_some_iff instruction slot).mp accessed
  have member : slot.pointer ∈ function.slotPointers := List.mem_map_of_mem slotInside
  have hidden := notMem_exposedArgs member inside
  unfold Instruction.pointer? at accesses
  split at accesses
  · next operation => exact .alloc operation accesses
  · next operation =>
    obtain ⟨others, args⟩ := List.head?_eq_some_iff.mp accesses
    cases others with
    | nil =>
      cases assigned : instruction.dest with
      | none => simp [Instruction.exposedArgs, operation, args, assigned] at hidden
      | some dest =>
        refine .load operation args assigned fun isPointer => ?_
        have allocates := opcode_of_dest isPointer inside assigned
        rw [operation] at allocates
        cases allocates
    | cons _ _ => simp [Instruction.exposedArgs, operation, args] at hidden
  · next operation =>
    obtain ⟨others, args⟩ := List.head?_eq_some_iff.mp accesses
    match others with
    | [] => simp [Instruction.exposedArgs, operation, args] at hidden
    | [stored] =>
      refine .store operation args fun isPointer => ?_
      have storedHidden := notMem_exposedArgs isPointer inside
      simp [Instruction.exposedArgs, operation, args] at storedHidden
    | _ :: _ :: _ => simp [Instruction.exposedArgs, operation, args] at hidden
  · next operation =>
    obtain ⟨others, args⟩ := List.head?_eq_some_iff.mp accesses
    cases others with
    | nil => exact .free operation args
    | cons _ _ => simp [Instruction.exposedArgs, operation, args] at hidden
  · cases accesses

end Function

end ProgramGraphs
