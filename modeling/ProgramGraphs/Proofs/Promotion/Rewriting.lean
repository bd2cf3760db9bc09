import ProgramGraphs.Proofs.Promotion.Position

/-! # What promotion does to a body

Promotion goes over a body once. It keeps labels and all instructions that access no slot, puts a
copy in the place of each load and store of a slot, and drops the allocation and the frees
(`Function.Rewrites`). Every slot has one allocation, so as many allocations go as there are slots
(`countP_alloc_eq_add`), and nothing that is left mentions the pointer of a slot
(`promote_rewrites`).
-/

namespace ProgramGraphs

@[simp] theorem Instruction.opcode_copy (dest : String) (type : ValueType) (operand : String) :
    (copy dest type operand).opcode = .id :=
  rfl

/-- What becomes of an instruction that accesses a slot. -/
inductive Slot.Replaces (slot : Slot) (instruction : Instruction) : Option Instruction → Prop
  | alloc : instruction.opcode = .alloc → instruction.dest = some slot.pointer →
      Replaces slot instruction none
  | free : instruction.opcode = .free → instruction.args = [slot.pointer] →
      Replaces slot instruction none
  | load {dest : String} : instruction.opcode = .load → instruction.args = [slot.pointer] →
      instruction.dest = some dest →
        Replaces slot instruction
          (some (.copy dest (instruction.type.getD slot.pointee) slot.cell))
  | store {stored : String} : instruction.opcode = .store →
      instruction.args = [slot.pointer, stored] →
        Replaces slot instruction (some (.copy slot.cell slot.pointee stored))

namespace Function

/-- A body is that of a function from some entry on, and another is what is left of it: labels and
instructions that access no slot stay, other instructions are replaced in their places or go. -/
inductive Rewrites (function : Function) : List Item → List Item → Prop
  | nil : Rewrites function [] []
  | label {name : String} {rest left : List Item} : Rewrites function rest left →
      Rewrites function (.label name :: rest) (.label name :: left)
  | keep {instruction : Instruction} {rest left : List Item} :
      (∀ slot ∈ function.slots, instruction.pointer? ≠ some slot.pointer) →
        Rewrites function rest left →
          Rewrites function (.instruction instruction :: rest) (.instruction instruction :: left)
  | replace {instruction copy : Instruction} {slot : Slot} {rest left : List Item} :
      slot ∈ function.slots → slot.Replaces instruction (some copy) →
        Rewrites function rest left →
          Rewrites function (.instruction instruction :: rest) (.instruction copy :: left)
  | drop {instruction : Instruction} {slot : Slot} {rest left : List Item} :
      slot ∈ function.slots → slot.Replaces instruction none →
        Rewrites function rest left → Rewrites function (.instruction instruction :: rest) left

variable {function : Function}

theorem replaces_of_accessed? {instruction : Instruction} {slot : Slot}
    (inside : instruction ∈ function.instructions)
    (accessed : Slot.accessed? function.slots instruction = some slot) :
    slot.Replaces instruction (slot.replaceAccess instruction) := by
  cases access_of_accessed? inside accessed with
  | alloc operation assigned =>
    rw [Slot.replaceAccess_alloc operation]
    exact .alloc operation assigned
  | load operation args assigned _ =>
    rw [Slot.replaceAccess_load operation assigned]
    exact .load operation args assigned
  | store operation args _ =>
    rw [Slot.replaceAccess_store operation args]
    exact .store operation args
  | free operation args =>
    rw [Slot.replaceAccess_free operation]
    exact .free operation args

theorem replaceIn_eq (operation : Instruction) :
    Slot.replaceIn function.slots (.instruction operation) =
      (function.replacement? operation).map Item.instruction := by
  rw [Slot.replaceIn, replacement?]
  cases Slot.accessed? function.slots operation <;> rfl

theorem rewrites_filterMap {items : List Item} (inside : ∀ item ∈ items, item ∈ function.body) :
    function.Rewrites items (items.filterMap (Slot.replaceIn function.slots)) := by
  induction items with
  | nil => exact .nil
  | cons item rest ih =>
    obtain ⟨here, others⟩ := List.forall_mem_cons.mp inside
    cases item with
    | label name => exact .label (ih others)
    | instruction operation =>
      have listed : operation ∈ function.instructions := List.mem_filterMap.mpr ⟨_, here, rfl⟩
      rw [List.filterMap_cons, replaceIn_eq]
      cases accessed : Slot.accessed? function.slots operation with
      | none =>
        rw [replacement?_of_untouched accessed]
        refine .keep (fun slot member accesses => ?_) (ih others)
        exact (accessed?_eq_none_iff operation).mp accessed _ accesses (List.mem_map_of_mem member)
      | some slot =>
        have member := ((accessed?_eq_some_iff operation slot).mp accessed).1
        have replaces := replaces_of_accessed? listed accessed
        rw [replacement?_of_accessed accessed]
        cases replaced : slot.replaceAccess operation with
        | none => exact .drop member (replaced ▸ replaces) (ih others)
        | some copy => exact .replace member (replaced ▸ replaces) (ih others)

/-- What becomes of an instruction does not mention the pointer of a slot. -/
theorem notMem_of_replacement? {instruction replaced : Instruction}
    (inside : instruction ∈ function.instructions)
    (becomes : function.replacement? instruction = some replaced) {pointer : String}
    (member : pointer ∈ function.slotPointers) :
    replaced.dest ≠ some pointer ∧ pointer ∉ replaced.args := by
  cases accessed : Slot.accessed? function.slots instruction with
  | none =>
    rw [replacement?_of_untouched accessed] at becomes
    cases becomes
    exact ⟨fun assigned => (dest_apart inside accessed assigned).1 member,
      notMem_args_of_untouched inside accessed member⟩
  | some slot =>
    have slotInside := ((accessed?_eq_some_iff instruction slot).mp accessed).1
    have cell : pointer ≠ slot.cell := by
      rintro rfl
      exact notMem_slotCells_of_mem_slotPointers member (List.mem_map_of_mem slotInside)
    rw [replacement?_of_accessed accessed] at becomes
    cases access_of_accessed? inside accessed with
    | alloc operation =>
      rw [Slot.replaceAccess_alloc operation] at becomes
      cases becomes
    | load operation args assigned apart =>
      rw [Slot.replaceAccess_load operation assigned] at becomes
      cases becomes
      refine ⟨?_, by simpa [Instruction.copy] using cell⟩
      rintro ⟨⟩
      exact apart member
    | store operation args apart =>
      rw [Slot.replaceAccess_store operation args] at becomes
      cases becomes
      refine ⟨?_, ?_⟩
      · rintro ⟨⟩
        exact cell rfl
      · rw [Instruction.copy, List.mem_singleton]
        rintro rfl
        exact apart member
    | free operation =>
      rw [Slot.replaceAccess_free operation] at becomes
      cases becomes

/-- An allocation is that of a slot where the variable that it assigns can be promoted and it says
what that points to. -/
theorem accessed?_isSome_iff_of_alloc {instruction : Instruction}
    (inside : instruction ∈ function.instructions) (operation : instruction.opcode = .alloc) :
    (Slot.accessed? function.slots instruction).isSome = true ↔ ∃ pointer pointee,
      instruction.dest = some pointer ∧ instruction.type.bind ValueType.pointee? = some pointee ∧
        function.isPromotable pointer = true := by
  have allocates (pointer : String) : instruction.pointer? = some pointer ↔
      instruction.dest = some pointer := by rw [Instruction.pointer?, operation]
  constructor
  · intro accesses
    obtain ⟨slot, accessed⟩ := Option.isSome_iff_exists.mp accesses
    obtain ⟨slotInside, assigned⟩ := (accessed?_eq_some_iff instruction slot).mp accessed
    rw [allocates] at assigned
    have member : slot.pointer ∈ function.slotPointers := List.mem_map_of_mem slotInside
    obtain ⟨⟨pointee, allocated⟩, promotable⟩ :=
      (function.mem_slotPointers_iff slot.pointer).mp member
    obtain ⟨other, otherInside, -, otherAssigned, typed⟩ :=
      (function.mem_allocations_iff slot.pointer pointee).mp allocated
    have once := ((function.isPromotable_iff slot.pointer).mp promotable).2.1
    obtain rfl := eq_of_count_filterMap_eq_one once inside otherInside assigned otherAssigned
    exact ⟨slot.pointer, pointee, assigned, typed, promotable⟩
  · rintro ⟨pointer, pointee, assigned, typed, promotable⟩
    have allocated : (pointer, pointee) ∈ function.allocations :=
      (function.mem_allocations_iff pointer pointee).mpr
        ⟨instruction, inside, operation, assigned, typed⟩
    have member := (function.mem_slotPointers_iff pointer).mpr ⟨⟨pointee, allocated⟩, promotable⟩
    obtain ⟨slot, slotInside, rfl⟩ := List.mem_map.mp member
    rw [(accessed?_eq_some_iff instruction slot).mpr ⟨slotInside, (allocates _).mpr assigned⟩]
    rfl

/-- There are as many slots as allocations that access one. -/
theorem length_slots_eq_countP (function : Function) :
    function.slots.length = function.instructions.countP fun instruction =>
      decide (instruction.opcode = .alloc) &&
        (Slot.accessed? function.slots instruction).isSome := by
  have listed : function.slots.length = (function.allocations.filter
      fun allocation => function.isPromotable allocation.1).length := by
    rw [← Slot.map_allocation_allot (function.parameters.map (·.name) ++ function.dests)
      (function.allocations.filter _), List.length_map]
    rfl
  rw [listed, ← List.countP_eq_length_filter, allocations, List.countP_filterMap]
  refine List.countP_congr fun instruction inside => ?_
  rw [Bool.and_eq_true, decide_eq_true_eq]
  split
  · next pointer pointee operation assigned typed =>
    rw [accessed?_isSome_iff_of_alloc inside operation, and_iff_right operation]
    simp [assigned, typed]
  · next unmatched =>
    refine iff_of_false Bool.false_ne_true ?_
    rintro ⟨operation, accesses⟩
    obtain ⟨pointer, pointee, assigned, typed, -⟩ :=
      (accessed?_isSome_iff_of_alloc inside operation).mp accesses
    exact unmatched pointer pointee operation assigned typed

/-- What becomes of an instruction is an allocation only if the instruction is one of no slot. -/
theorem isAlloc_replacement?_iff {instruction : Instruction}
    (inside : instruction ∈ function.instructions) :
    ((function.replacement? instruction).map fun left => decide (left.opcode = .alloc)).getD false =
      (decide (instruction.opcode = .alloc) &&
        !(Slot.accessed? function.slots instruction).isSome) := by
  cases accessed : Slot.accessed? function.slots instruction with
  | none =>
    rw [replacement?_of_untouched accessed]
    simp
  | some slot =>
    rw [replacement?_of_accessed accessed]
    cases access_of_accessed? inside accessed with
    | alloc operation => simp [Slot.replaceAccess_alloc operation]
    | load operation _ assigned => simp [Slot.replaceAccess_load operation assigned]
    | store operation args => simp [Slot.replaceAccess_store operation args]
    | free operation => simp [Slot.replaceAccess_free operation]

/-- As many allocations go as there are slots. -/
theorem countP_alloc_eq_add (function : Function) :
    function.instructions.countP (·.opcode = .alloc) =
      function.promote.instructions.countP (·.opcode = .alloc) + function.slots.length := by
  rw [List.countP_eq_countP_filter_add _ _
    fun instruction => (Slot.accessed? function.slots instruction).isSome, List.countP_filter,
    List.countP_filter, ← length_slots_eq_countP, Nat.add_comm, instructions_promote,
    List.countP_filterMap]
  congr 1
  refine List.countP_congr fun instruction inside => ?_
  rw [isAlloc_replacement?_iff inside]

/-- A function without slots stays as it is. -/
theorem promote_eq_of_no_slots (none : function.slots = []) : function.promote = function := by
  have kept : Slot.replaceIn [] = some := by
    funext item
    cases item with
    | label => rfl
    | instruction operation =>
      cases accesses : operation.pointer? <;> simp [Slot.replaceIn, Slot.accessed?, accesses]
  rw [promote, none, kept, List.filterMap_some]

/-- Promotion changes a body and nothing else of a function. In the body it rewrites the accesses to
slots, each of which has the operands and the destination that this takes. No pointer of a slot is
left, as many allocations go as there are slots, and where there are none, all stays as it is. -/
theorem promote_rewrites (function : Function) :
    function.promote.toDeclaration = function.toDeclaration ∧
    function.Rewrites function.body function.promote.body ∧
    (∀ instruction ∈ function.instructions, ∀ slot ∈ function.slots,
      instruction.pointer? = some slot.pointer →
        ∃ result, slot.Replaces instruction result) ∧
    (∀ pointer ∈ function.slotPointers, ∀ instruction ∈ function.promote.instructions,
      instruction.dest ≠ some pointer ∧ pointer ∉ instruction.args) ∧
    function.instructions.countP (·.opcode = .alloc) =
      function.promote.instructions.countP (·.opcode = .alloc) + function.slots.length ∧
    (function.slots.length = 0 → function.promote = function) := by
  refine ⟨rfl, rewrites_filterMap fun _ member => member, ?shapes, ?apart,
    function.countP_alloc_eq_add,
    fun none => promote_eq_of_no_slots (List.length_eq_zero_iff.mp none)⟩
  case shapes =>
    intro instruction inside slot member accesses
    exact ⟨_, replaces_of_accessed? inside ((accessed?_eq_some_iff _ _).mpr ⟨member, accesses⟩)⟩
  case apart =>
    intro pointer member instruction listed
    rw [instructions_promote] at listed
    obtain ⟨original, inside, becomes⟩ := List.mem_filterMap.mp listed
    exact notMem_of_replacement? inside becomes member

end Function

end ProgramGraphs
