import ProgramGraphs.Proofs.Promotion.Rewriting

/-! # How far the variables of slots are new

The variable of a slot is the first candidate that is neither defined in the function nor given to
an earlier slot, and the search for it looks at no more candidates than there are such names, and
one. Operands are not asked: a name that a function reads without defining it can be given to a slot
(`readsUndefined_captured`), and only such a name can (`slotCells_fresh`).
-/

namespace ProgramGraphs

/-- A slot gets a name that is fresh among those taken at first and those given before. -/
theorem Slot.cell_eq_of_allot {taken : List String} {allocations : List (String × ValueType)}
    {before after : List Slot} {slot : Slot}
    (cut : Slot.allot taken allocations = before ++ slot :: after) :
    slot.cell = freshName (cellName slot.pointer) ((before.map (·.cell)).reverse ++ taken) := by
  induction before generalizing taken allocations with
  | nil =>
    cases allocations with
    | nil => cases cut
    | cons allocation rest =>
      obtain ⟨rfl, -⟩ := List.cons.inj cut
      rfl
  | cons first before ih =>
    cases allocations with
    | nil => cases cut
    | cons allocation rest =>
      obtain ⟨rfl, later⟩ := List.cons.inj cut
      rw [ih later, List.map_cons, List.reverse_cons, List.append_assoc]
      rfl

/-- A copy in the place of an access mentions the variable of the slot and what the access did. -/
theorem Slot.Replaces.mem_names {slot : Slot} {instruction copy : Instruction}
    (replaces : slot.Replaces instruction (some copy)) {name : String}
    (mentioned : name ∈ copy.dest.toList ++ copy.args) :
    name = slot.cell ∨ name ∈ instruction.dest.toList ++ instruction.args := by
  cases replaces with
  | load _ _ assigned =>
    rw [assigned]
    simp only [Instruction.copy, Option.toList_some, List.singleton_append, List.mem_cons,
      List.not_mem_nil, or_false] at mentioned ⊢
    tauto
  | store _ args =>
    rw [args]
    simp only [Instruction.copy, Option.toList_some, List.singleton_append, List.mem_cons,
      List.not_mem_nil, or_false, List.mem_append] at mentioned ⊢
    tauto

namespace Function

/-- The variables that a function defines: its parameters and all destinations. -/
def definitions (function : Function) : List String :=
  function.parameters.map (·.name) ++ function.dests

/-- The names that are taken when a slot gets its variable. -/
def takenBefore (function : Function) (before : List Slot) : List String :=
  function.definitions ++ before.map (·.cell)

/-- A name that is used in a function is defined there or read by an instruction. -/
theorem mem_names_iff (function : Function) (name : String) :
    name ∈ function.names ↔ name ∈ function.definitions ∨
      ∃ instruction ∈ function.instructions, name ∈ instruction.args := by
  simp only [names, definitions, dests, List.mem_append, List.mem_flatMap, List.mem_filterMap,
    Option.mem_toList, and_or_left, exists_or, or_assoc]

/-- Promotion brings no names into a function but those of the variables of slots. -/
theorem mem_names_of_promote {function : Function} {name : String}
    (used : name ∈ function.promote.names) : name ∈ function.names ∨ name ∈ function.slotCells := by
  rcases List.mem_append.mp used with parameter | used
  · exact .inl (List.mem_append_left _ parameter)
  · obtain ⟨left, inside, mentioned⟩ := List.mem_flatMap.mp used
    rw [instructions_promote] at inside
    obtain ⟨instruction, listed, becomes⟩ := List.mem_filterMap.mp inside
    have known : name ∈ instruction.dest.toList ++ instruction.args → name ∈ function.names :=
      fun before => List.mem_append_right _ (List.mem_flatMap.mpr ⟨instruction, listed, before⟩)
    cases accessed : Slot.accessed? function.slots instruction with
    | none =>
      rw [replacement?_of_untouched accessed] at becomes
      cases becomes
      exact .inl (known mentioned)
    | some slot =>
      have replaces := replaces_of_accessed? listed accessed
      rw [replacement?_of_accessed accessed] at becomes
      rw [becomes] at replaces
      rcases replaces.mem_names mentioned with rfl | before
      · exact .inr (List.mem_map_of_mem ((accessed?_eq_some_iff instruction slot).mp accessed).1)
      · exact .inl (known before)

/-- The variable of a slot is the first candidate for its pointer that is not taken by then. -/
theorem exists_candidate {function : Function} {before after : List Slot} {slot : Slot}
    (cut : function.slots = before ++ slot :: after) :
    ∃ index ≤ (function.takenBefore before).length,
      slot.cell = Slot.cellName slot.pointer index ∧
      slot.cell ∉ function.takenBefore before ∧
      ∀ earlier < index, Slot.cellName slot.pointer earlier ∈ function.takenBefore before := by
  have injective := Slot.cellName_injective slot.pointer
  -- the names given before are taken in the order in which they were added, the last one first
  let taken := (before.map (·.cell)).reverse ++ function.definitions
  have same : ∀ name, name ∈ taken ↔ name ∈ function.takenBefore before := by
    intro name
    rw [takenBefore, List.mem_append, List.mem_append, List.mem_reverse, or_comm]
  have length_eq : taken.length = (function.takenBefore before).length := by
    simp only [taken, takenBefore, List.length_append, List.length_reverse]
    omega
  have named : slot.cell = freshName (Slot.cellName slot.pointer) taken := Slot.cell_eq_of_allot cut
  refine ⟨freshIndex (Slot.cellName slot.pointer) taken, ?_, named, ?_, ?_⟩
  · rw [← length_eq]
    exact freshIndex_le _ injective taken
  · rw [named, ← same]
    exact freshName_notMem _ injective taken
  · intro earlier less
    rw [← same]
    exact mem_of_lt_freshIndex less

/-- Slots get different variables, each the first candidate for its pointer that is not taken, and
promotion brings no other name into a function. None of them is defined there before. One of them
can be an operand, but only of a function that reads what it does not define. -/
theorem slotCells_fresh (function : Function) :
    function.slotCells.Nodup ∧
    (∀ name ∈ function.promote.names, name ∈ function.names ∨ name ∈ function.slotCells) ∧
    (∀ before slot after, function.slots = before ++ slot :: after →
      ∃ index ≤ (function.takenBefore before).length,
        slot.cell = Slot.cellName slot.pointer index ∧
        slot.cell ∉ function.takenBefore before ∧
        ∀ earlier < index, Slot.cellName slot.pointer earlier ∈ function.takenBefore before) ∧
    (∀ cell ∈ function.slotCells, cell ∉ function.parameters.map (·.name) ∧
      ∀ instruction ∈ function.instructions, instruction.dest ≠ some cell) ∧
    ((∀ instruction ∈ function.instructions, ∀ operand ∈ instruction.args,
        operand ∈ function.definitions) →
      ∀ cell ∈ function.slotCells, cell ∉ function.names) := by
  refine ⟨function.nodup_slotCells, fun _ => mem_names_of_promote,
    fun _ _ _ => exists_candidate, ?undefined, ?closed⟩
  case undefined =>
    intro cell member
    obtain ⟨notParameter, notDest⟩ := function.notMem_of_mem_slotCells member
    refine ⟨notParameter, fun instruction inside assigned => notDest ?_⟩
    exact List.mem_filterMap.mpr ⟨instruction, inside, assigned⟩
  case closed =>
    intro reads cell member used
    have undefined : cell ∉ function.definitions := by
      rw [definitions, List.mem_append, not_or]
      exact function.notMem_of_mem_slotCells member
    rcases (function.mem_names_iff cell).mp used with defined | ⟨instruction, inside, operand⟩
    · exact undefined defined
    · exact undefined (reads instruction inside cell operand)

/-- A function that keeps a number in a slot and returns a variable that it never defines. -/
def readsUndefined : Function where
  name := "f"
  parameters := [⟨"n", .named "int"⟩]
  returnType := some (.named "int")
  body := [
    .instruction
      { name := "alloc", dest := some "p", type := some (.pointer (.named "int")),
        args := ["n"] },
    .instruction { name := "store", args := ["p", "n"] },
    .instruction { name := "ret", args := ["p.slot"] }]

/-- The variable that the function reads is given to its slot. -/
theorem readsUndefined_captured :
    ∃ cell ∈ readsUndefined.slotCells, ∃ instruction ∈ readsUndefined.instructions,
      cell ∈ instruction.args := by
  decide

end Function

end ProgramGraphs
