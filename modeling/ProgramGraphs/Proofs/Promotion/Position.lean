import ProgramGraphs.Proofs.Promotion.Slot

/-! # Positions after promotion

Promotion drops the allocation and the frees of a slot and writes copies in the place of its loads
and stores. An instruction that is left moves to the position that counts the instructions before it
that are not dropped (`Function.renumber?`). So what is left stays in order (`lt_of_renumber?`).
-/

namespace ProgramGraphs

/-- An entry that is selected stands behind what the entries before it become. -/
theorem getElem?_filterMap_of_selected {α β : Type} {select : α → Option β} {items : List α}
    {index : Nat} {item : α} {result : β} (here : items[index]? = some item)
    (selects : select item = some result) :
    (items.filterMap select)[((items.take index).filterMap select).length]? = some result := by
  obtain ⟨inside, rfl⟩ := List.getElem?_eq_some_iff.mp here
  have cut : items = items.take index ++ items[index] :: items.drop (index + 1) := by simp
  conv_lhs => enter [1]; rw [cut, List.filterMap_append, List.filterMap_cons_some selects]
  simp

/-- What is selected comes from an entry that stands behind the others selected before. -/
theorem exists_of_getElem?_filterMap {α β : Type} {select : α → Option β} {items : List α}
    {position : Nat} {result : β} (there : (items.filterMap select)[position]? = some result) :
    ∃ index item, items[index]? = some item ∧ select item = some result ∧
      ((items.take index).filterMap select).length = position := by
  induction items generalizing position with
  | nil => simp at there
  | cons first rest ih =>
    cases selects : select first with
    | none =>
      rw [List.filterMap_cons_none selects] at there
      obtain ⟨index, item, here, becomes, counted⟩ := ih there
      refine ⟨index + 1, item, here, becomes, ?_⟩
      rw [List.take_succ_cons, List.filterMap_cons_none selects]
      exact counted
    | some selected =>
      rw [List.filterMap_cons_some selects] at there
      cases position with
      | zero =>
        cases there
        exact ⟨0, first, rfl, selects, rfl⟩
      | succ position =>
        obtain ⟨index, item, here, becomes, counted⟩ := ih there
        refine ⟨index + 1, item, here, becomes, ?_⟩
        rw [List.take_succ_cons, List.filterMap_cons_some selects, List.length_cons, counted]

/-- An element that a list yields once comes from one position. -/
theorem index_eq_of_count_filterMap_eq_one {α : Type} {items : List α} {select : α → Option String}
    {name : String} (once : (items.filterMap select).count name = 1) {first second : Nat}
    {one other : α} (firstHere : items[first]? = some one)
    (secondHere : items[second]? = some other)
    (firstSelects : select one = some name) (secondSelects : select other = some name) :
    first = second := by
  have later : ∀ {first second : Nat} {one other : α}, items[first]? = some one →
      items[second]? = some other → select one = some name → select other = some name →
        ¬ first < second := by
    intro first second one other firstHere secondHere firstSelects secondSelects less
    have before : name ∈ (items.take second).filterMap select := by
      refine List.mem_filterMap.mpr ⟨one, List.mem_of_getElem? (i := first) ?_, firstSelects⟩
      rw [List.getElem?_take_of_lt less, firstHere]
    have behind : name ∈ (items.drop second).filterMap select := by
      refine List.mem_filterMap.mpr ⟨other, List.mem_of_getElem? (i := 0) ?_, secondSelects⟩
      rw [List.getElem?_drop, Nat.add_zero, secondHere]
    rw [← List.take_append_drop second items, List.filterMap_append, List.count_append] at once
    have := List.count_pos_iff.mpr before
    have := List.count_pos_iff.mpr behind
    omega
  have notBefore := later firstHere secondHere firstSelects secondSelects
  have notBehind := later secondHere firstHere secondSelects firstSelects
  omega

namespace Function

/-- What becomes of an instruction. -/
def replacement? (function : Function) (instruction : Instruction) : Option Instruction :=
  match Slot.accessed? function.slots instruction with
  | none => some instruction
  | some slot => slot.replaceAccess instruction

/-- The position to which an instruction moves, unless it is dropped: the instructions before it
that are not dropped are counted. -/
def renumber? (function : Function) (site : Nat) : Option Nat := do
  let instruction ← function.instructions[site]?
  let _ ← function.replacement? instruction
  pure ((function.instructions.take site).filterMap function.replacement?).length

variable {function : Function}

theorem replacement?_of_untouched {instruction : Instruction}
    (untouched : Slot.accessed? function.slots instruction = none) :
    function.replacement? instruction = some instruction := by
  rw [replacement?, untouched]

theorem replacement?_of_accessed {instruction : Instruction} {slot : Slot}
    (accessed : Slot.accessed? function.slots instruction = some slot) :
    function.replacement? instruction = slot.replaceAccess instruction := by
  rw [replacement?, accessed]

/-- What is no copy has not been changed. -/
theorem eq_of_replacement? {instruction replaced : Instruction}
    (becomes : function.replacement? instruction = some replaced) (other : replaced.opcode ≠ .id) :
    instruction = replaced := by
  cases accessed : Slot.accessed? function.slots instruction with
  | none =>
    rw [replacement?_of_untouched accessed] at becomes
    exact Option.some.inj becomes
  | some slot =>
    rw [replacement?_of_accessed accessed, Slot.replaceAccess] at becomes
    split at becomes
    · cases becomes
      exact absurd rfl other
    · cases becomes
      exact absurd rfl other
    · cases becomes

theorem instructions_promote (function : Function) :
    function.promote.instructions = function.instructions.filterMap function.replacement? := by
  rw [instructions, promote, instructions, List.filterMap_filterMap, List.filterMap_filterMap]
  refine List.filterMap_congr fun item _ => ?_
  cases item with
  | label name => rfl
  | instruction operation =>
    rw [Slot.replaceIn, Item.instruction?, Option.bind_some, replacement?]
    cases Slot.accessed? function.slots operation with
    | none => rfl
    | some slot =>
      change ((slot.replaceAccess operation).map Item.instruction).bind Item.instruction? =
        slot.replaceAccess operation
      cases slot.replaceAccess operation <;> rfl

theorem renumber?_eq_some_iff {site position : Nat} : function.renumber? site = some position ↔
    ∃ instruction replaced, function.instructions[site]? = some instruction ∧
      function.replacement? instruction = some replaced ∧
        ((function.instructions.take site).filterMap function.replacement?).length = position := by
  simp [renumber?, Option.bind_eq_some_iff]

/-- What an instruction becomes stands at the position to which it moves. -/
theorem exists_renumber?_eq {site : Nat} {instruction replaced : Instruction}
    (here : function.instructions[site]? = some instruction)
    (becomes : function.replacement? instruction = some replaced) :
    ∃ position, function.renumber? site = some position ∧
      function.promote.instructions[position]? = some replaced := by
  refine ⟨_, renumber?_eq_some_iff.mpr ⟨instruction, replaced, here, becomes, rfl⟩, ?_⟩
  rw [instructions_promote]
  exact getElem?_filterMap_of_selected here becomes

/-- Every instruction of the promoted function is what an instruction has become. -/
theorem exists_site_of_promote {position : Nat} {replaced : Instruction}
    (there : function.promote.instructions[position]? = some replaced) :
    ∃ site instruction, function.instructions[site]? = some instruction ∧
      function.replacement? instruction = some replaced ∧
        function.renumber? site = some position := by
  rw [instructions_promote] at there
  obtain ⟨site, instruction, here, becomes, counted⟩ := exists_of_getElem?_filterMap there
  exact ⟨site, instruction, here, becomes,
    renumber?_eq_some_iff.mpr ⟨instruction, replaced, here, becomes, counted⟩⟩

/-- Promotion keeps the order of instructions. -/
theorem lt_of_renumber? {first second one other : Nat} (less : first < second)
    (firstMoves : function.renumber? first = some one)
    (secondMoves : function.renumber? second = some other) : one < other := by
  obtain ⟨instruction, replaced, here, becomes, rfl⟩ := renumber?_eq_some_iff.mp firstMoves
  obtain ⟨-, -, -, -, rfl⟩ := renumber?_eq_some_iff.mp secondMoves
  have earlier : (function.instructions.take second)[first]? = some instruction := by
    rw [List.getElem?_take_of_lt less, here]
  have stands := getElem?_filterMap_of_selected earlier becomes
  rw [List.take_take, Nat.min_eq_left (Nat.le_of_lt less)] at stands
  exact (List.getElem?_eq_some_iff.mp stands).1

/-- The memory of a slot is allocated by the instruction at a position. -/
def AllocatesAt (function : Function) (slot : Slot) (site : Nat) : Prop :=
  ∃ instruction, function.instructions[site]? = some instruction ∧ instruction.opcode = .alloc ∧
    instruction.dest = some slot.pointer

theorem exists_allocatesAt {slot : Slot} (inside : slot ∈ function.slots) :
    ∃ site, function.AllocatesAt slot site := by
  have member : slot.pointer ∈ function.slotPointers := List.mem_map_of_mem inside
  obtain ⟨⟨pointee, allocated⟩, -⟩ := (function.mem_slotPointers_iff slot.pointer).mp member
  obtain ⟨instruction, listed, operation, assigned, -⟩ :=
    (function.mem_allocations_iff slot.pointer pointee).mp allocated
  obtain ⟨site, here⟩ := List.mem_iff_getElem?.mp listed
  exact ⟨site, instruction, here, operation, assigned⟩

namespace AllocatesAt

theorem accessed? {slot : Slot} (inside : slot ∈ function.slots) {instruction : Instruction}
    (operation : instruction.opcode = .alloc) (assigned : instruction.dest = some slot.pointer) :
    Slot.accessed? function.slots instruction = some slot := by
  rw [accessed?_eq_some_iff, Instruction.pointer?, operation]
  exact ⟨inside, assigned⟩

theorem site_unique {slot : Slot} (inside : slot ∈ function.slots) {first second : Nat}
    (one : function.AllocatesAt slot first) (other : function.AllocatesAt slot second) :
    first = second := by
  obtain ⟨_, firstHere, _, firstAssigned⟩ := one
  obtain ⟨_, secondHere, _, secondAssigned⟩ := other
  have member : slot.pointer ∈ function.slotPointers := List.mem_map_of_mem inside
  have once := ((function.isPromotable_iff slot.pointer).mp
    ((function.mem_slotPointers_iff slot.pointer).mp member).2).2.1
  exact index_eq_of_count_filterMap_eq_one once firstHere secondHere firstAssigned secondAssigned

theorem slot_unique {first second : Slot} (firstIn : first ∈ function.slots)
    (secondIn : second ∈ function.slots) {site : Nat} (one : function.AllocatesAt first site)
    (other : function.AllocatesAt second site) : first = second := by
  obtain ⟨instruction, here, _, assigned⟩ := one
  obtain ⟨_, there, _, known⟩ := other
  obtain rfl := Option.some.inj (here.symm.trans there)
  exact slot_eq_of_pointer_eq firstIn secondIn (Option.some.inj (assigned.symm.trans known))

/-- The allocation of a slot is dropped. -/
theorem renumber?_eq_none {slot : Slot} (inside : slot ∈ function.slots) {site : Nat}
    (allocates : function.AllocatesAt slot site) : function.renumber? site = none := by
  obtain ⟨instruction, here, operation, assigned⟩ := allocates
  have dropped : function.replacement? instruction = none := by
    rw [replacement?_of_accessed (AllocatesAt.accessed? inside operation assigned),
      Slot.replaceAccess_alloc operation]
  simp [renumber?, here, dropped]

end AllocatesAt

end Function

end ProgramGraphs
