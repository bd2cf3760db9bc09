import ProgramGraphs.Module
import ProgramGraphs.Proofs.PointsTo.Pairing
import ProgramGraphs.Proofs.PointsTo.Solution
import ProgramGraphs.Proofs.Promotion.Position

/-! # Points-to sets after promotion

What is stored in a slot is held by its memory before promotion, and by the variable that takes its
place afterwards; every other holder stands for itself, and an allocation that is left moves with
its instruction (`Program.promotion`). An instruction that accesses no slot demands the same of both
sides, and a copy into or out of the variable of a slot demands what the store or load did. So each
solution for the program gives one for the promoted program (`solves_push`), and the other way
round (`solves_pull`), and the least solutions agree (`solve_promote`).
-/

namespace ProgramGraphs

/-- A copy demands of its destination what its operand holds. -/
theorem Holdings.Demands.of_copy {holdings : Holdings} {program : Program} {function : String}
    {site : Nat} {dest operand : String} {type : ValueType} {holder : Holder} {location : Location}
    (demands : holdings.Demands program function site (.copy dest type operand) holder location) :
    holder = .var function dest ∧ holdings (.var function operand) location := by
  obtain ⟨_, arg, listed, assigned, rfl, held⟩ := demands.of_id rfl
  cases assigned
  rw [List.mem_singleton.mp listed] at held
  exact ⟨rfl, held⟩

namespace Program

/-- The location that a location is after promotion: an allocation moves with its instruction. -/
def relocate? (program : Program) : Location → Option Location
  | .function name => some (.function name)
  | .allocation owner site => do
    let function ← program.function? owner
    let position ← function.renumber? site
    pure (.allocation owner position)

/-- Locations, in order, move to others. -/
def Relocates (program : Program) (locations moved : List Location) : Prop :=
  locations.map program.relocate? = moved.map some

/-- A holder and the holder of the promoted program that holds the same. -/
inductive Counterpart (program : Program) : Holder → Holder → Prop
  | var {function : Function} {name : String} : function ∈ program.functions →
      name ∉ function.slotPointers → name ∉ function.slotCells →
        Counterpart program (.var function.name name) (.var function.name name)
  | result (function : String) : Counterpart program (.result function) (.result function)
  | memory {location moved : Location} : program.relocate? location = some moved →
      Counterpart program (.memory location) (.memory moved)
  | slot {function : Function} {slot : Slot} {site : Nat} : function ∈ program.functions →
      slot ∈ function.slots → function.AllocatesAt slot site →
        Counterpart program (.memory (.allocation function.name site))
          (.var function.name slot.cell)

variable {program : Program}

theorem eq_of_name_eq (distinct : (program.functions.map (·.name)).Nodup) {first second : Function}
    (firstIn : first ∈ program.functions) (secondIn : second ∈ program.functions)
    (same : first.name = second.name) : first = second :=
  List.inj_on_of_nodup_map distinct firstIn secondIn same

theorem relocate?_allocation (distinct : (program.functions.map (·.name)).Nodup)
    {function : Function} (member : function ∈ program.functions) (site : Nat) :
    program.relocate? (.allocation function.name site) =
      (function.renumber? site).map (.allocation function.name) := by
  have found : program.function? function.name = some function := find?_key_of_mem distinct member
  rw [relocate?, found, Option.bind_eq_bind, Option.bind_some]
  cases function.renumber? site <;> rfl

/-- An allocation that moves is one of a function of the program. -/
theorem relocate?_eq_some_iff {location moved : Location} :
    program.relocate? location = some moved ↔
      (∃ name, location = .function name ∧ moved = .function name) ∨
        ∃ function site position, program.function? function.name = some function ∧
          location = .allocation function.name site ∧ function.renumber? site = some position ∧
            moved = .allocation function.name position := by
  cases location with
  | function name => simp [relocate?, eq_comm]
  | allocation owner site =>
    simp only [relocate?, Option.bind_eq_bind, Option.bind_eq_some_iff, Option.pure_def,
      Option.some.injEq, reduceCtorEq, false_and, exists_false, false_or, Location.allocation.injEq]
    constructor
    · rintro ⟨function, found, position, moves, rfl⟩
      obtain ⟨-, rfl⟩ := mem_of_find?_key found
      exact ⟨function, site, position, found, ⟨rfl, rfl⟩, moves, rfl⟩
    · rintro ⟨function, _, position, found, ⟨rfl, rfl⟩, moves, rfl⟩
      exact ⟨function, found, position, moves, rfl⟩

/-- An allocation stays an allocation, and a function the same function. -/
theorem bind_relocate?_function? (program : Program) (location : Location) :
    (program.relocate? location).bind Location.function? = location.function? := by
  cases moves : program.relocate? location with
  | none =>
    cases location with
    | function name => cases moves
    | allocation => rfl
  | some moved =>
    rcases relocate?_eq_some_iff.mp moves with ⟨name, rfl, rfl⟩ | ⟨_, _, _, -, rfl, -, rfl⟩ <;> rfl

theorem Relocates.filterMap_function? {locations moved : List Location}
    (relocates : program.Relocates locations moved) :
    locations.filterMap Location.function? = moved.filterMap Location.function? := by
  calc locations.filterMap Location.function?
      = (locations.map program.relocate?).filterMap (·.bind Location.function?) := by
        rw [List.filterMap_map]
        exact List.filterMap_congr fun location _ =>
          (program.bind_relocate?_function? location).symm
    _ = (moved.map some).filterMap (·.bind Location.function?) := by rw [relocates]
    _ = moved.filterMap Location.function? := by
        rw [List.filterMap_map]
        rfl

theorem Relocates.mem {locations moved : List Location}
    (relocates : program.Relocates locations moved) {location target : Location}
    (member : location ∈ locations) (moves : program.relocate? location = some target) :
    target ∈ moved := by
  have listed : some target ∈ moved.map some := by
    rw [← relocates, ← moves]
    exact List.mem_map_of_mem member
  simpa using listed

/-- Locations keep their order. -/
theorem precedes_of_relocate? {first second one other : Location}
    (firstMoves : program.relocate? first = some one)
    (secondMoves : program.relocate? second = some other) (before : first.precedes second = true) :
    one.precedes other = true := by
  rcases relocate?_eq_some_iff.mp firstMoves with
    ⟨name, rfl, rfl⟩ | ⟨function, site, position, found, rfl, moves, rfl⟩ <;>
  rcases relocate?_eq_some_iff.mp secondMoves with
    ⟨otherName, rfl, rfl⟩ | ⟨rival, place, goal, known, rfl, goes, rfl⟩
  · exact before
  · rfl
  · exact before
  · simp only [Location.precedes, Bool.or_eq_true, Bool.and_eq_true, decide_eq_true_eq,
      beq_iff_eq] at before ⊢
    rcases before with named | ⟨same, less⟩
    · exact .inl named
    rw [same, known] at found
    cases found
    exact .inr ⟨same, Function.lt_of_renumber? less moves goes⟩

theorem eq_of_relocate? {first second moved : Location}
    (firstMoves : program.relocate? first = some moved)
    (secondMoves : program.relocate? second = some moved) : first = second := by
  by_contra distinct
  have stays : moved.precedes moved = true := by
    rcases Location.precedes_or_precedes distinct with before | behind
    · exact precedes_of_relocate? firstMoves secondMoves before
    · exact precedes_of_relocate? secondMoves firstMoves behind
  rw [Location.precedes_irrefl] at stays
  cases stays

/-- Locations in ascending order move to those in ascending order that they have among others. -/
theorem relocates_of_iff {locations moved : List Location}
    (ascending : Location.Ascending locations) (other : Location.Ascending moved)
    (all : ∀ location ∈ locations, ∃ target ∈ moved, program.relocate? location = some target)
    (only : ∀ target ∈ moved, ∃ location ∈ locations, program.relocate? location = some target) :
    program.Relocates locations moved := by
  have image : Location.Ascending (locations.filterMap program.relocate?) :=
    List.pairwise_filterMap.mpr <| ascending.imp fun before _ firstMoves _ secondMoves =>
      precedes_of_relocate? firstMoves secondMoves before
  have same : locations.filterMap program.relocate? = moved := by
    refine image.eq_of_mem_iff other fun target => ?_
    rw [List.mem_filterMap]
    constructor
    · rintro ⟨location, member, moves⟩
      obtain ⟨held, inside, goes⟩ := all location member
      obtain rfl := Option.some.inj (moves.symm.trans goes)
      exact inside
    · exact only target
  rw [Relocates, ← same, List.map_filterMap]
  refine (List.filterMap_eq_map_iff_forall_eq_some.mpr fun location member => ?_).symm
  obtain ⟨target, -, moves⟩ := all location member
  rw [moves]
  rfl

namespace Counterpart

variable {holder other twin rival : Holder}

theorem eq_of_var {owner name : String} (paired : program.Counterpart (.var owner name) twin) :
    twin = .var owner name := by
  cases paired
  rfl

/-- The counterpart of memory is memory, or the variable in the place of a slot. -/
theorem of_memory {location : Location} (paired : program.Counterpart (.memory location) twin) :
    (∃ moved, program.relocate? location = some moved ∧ twin = .memory moved) ∨
      ∃ function ∈ program.functions, ∃ slot ∈ function.slots, ∃ site,
        function.AllocatesAt slot site ∧ location = .allocation function.name site ∧
          twin = .var function.name slot.cell := by
  cases paired with
  | memory moves => exact .inl ⟨_, moves, rfl⟩
  | slot member inside allocates =>
    exact .inr ⟨_, member, _, inside, _, allocates, rfl, rfl⟩

/-- A variable is the counterpart of itself, or of the memory of the slot in whose place it is. -/
theorem to_var {owner name : String} (paired : program.Counterpart holder (.var owner name)) :
    ∃ function ∈ program.functions, function.name = owner ∧
      (name ∉ function.slotCells ∧ holder = .var owner name ∨
        ∃ slot ∈ function.slots, ∃ site, function.AllocatesAt slot site ∧ slot.cell = name ∧
          holder = .memory (.allocation owner site)) := by
  cases paired with
  | var member noPointer noCell => exact ⟨_, member, rfl, .inl ⟨noCell, rfl⟩⟩
  | slot member inside allocates =>
    exact ⟨_, member, rfl, .inr ⟨_, inside, _, allocates, rfl, rfl⟩⟩

theorem right_unique (distinct : (program.functions.map (·.name)).Nodup)
    (one : program.Counterpart holder twin) (two : program.Counterpart holder rival) :
    twin = rival := by
  have dropped {function : Function} {slot : Slot} {site : Nat} {moved : Location}
      (member : function ∈ program.functions) (inside : slot ∈ function.slots)
      (allocates : function.AllocatesAt slot site)
      (moves : program.relocate? (.allocation function.name site) = some moved) : False := by
    rw [relocate?_allocation distinct member, allocates.renumber?_eq_none inside] at moves
    cases moves
  cases one with
  | var => exact two.eq_of_var.symm
  | result =>
    cases two with
    | result => rfl
  | memory moves =>
    rcases two.of_memory with
      ⟨_, goes, rfl⟩ | ⟨function, member, slot, inside, site, allocates, rfl, -⟩
    · rw [Option.some.inj (moves.symm.trans goes)]
    · exact (dropped member inside allocates moves).elim
  | slot member inside allocates =>
    rcases two.of_memory with
      ⟨_, goes, -⟩ | ⟨function, known, slot, listed, site, places, same, rfl⟩
    · exact (dropped member inside allocates goes).elim
    · obtain ⟨named, rfl⟩ := Location.allocation.inj same
      obtain rfl := eq_of_name_eq distinct member known named
      rw [Function.AllocatesAt.slot_unique inside listed allocates places]

theorem left_unique (distinct : (program.functions.map (·.name)).Nodup)
    (one : program.Counterpart holder twin) (two : program.Counterpart other twin) :
    holder = other := by
  cases one with
  | var member noPointer noCell =>
    obtain ⟨function, known, named, ⟨-, rfl⟩ | ⟨slot, listed, _, _, rfl, _⟩⟩ := two.to_var
    · rfl
    · obtain rfl := eq_of_name_eq distinct member known named.symm
      exact absurd (List.mem_map_of_mem listed) noCell
  | result =>
    cases two with
    | result => rfl
  | memory moves =>
    cases two with
    | memory goes => rw [eq_of_relocate? moves goes]
  | slot member inside allocates =>
    obtain ⟨function, known, named, ⟨noCell, -⟩ | ⟨slot, listed, site, places, cells, rfl⟩⟩ :=
      two.to_var
    · obtain rfl := eq_of_name_eq distinct member known named.symm
      exact absurd (List.mem_map_of_mem inside) noCell
    · obtain rfl := eq_of_name_eq distinct member known named.symm
      obtain rfl := Function.slot_eq_of_cell_eq inside listed cells.symm
      rw [Function.AllocatesAt.site_unique inside allocates places]

end Counterpart

/-- Every operand of an instruction is a parameter or a destination of its function. -/
def OperandsBound (program : Program) : Prop :=
  ∀ function ∈ program.functions, ∀ instruction ∈ function.instructions,
    ∀ arg ∈ instruction.args, arg ∈ function.parameters.map (·.name) ++ function.dests

instance (program : Program) : Decidable program.OperandsBound :=
  inferInstanceAs (Decidable (∀ function ∈ program.functions, ∀ instruction ∈ function.instructions,
    ∀ arg ∈ instruction.args, arg ∈ function.parameters.map (·.name) ++ function.dests))

theorem function?_promote (program : Program) (name : String) :
    program.promote.function? name = (program.function? name).map Function.promote :=
  List.find?_map ..

/-- The pairing of a program with the promoted program. -/
def promotion (distinct : (program.functions.map (·.name)).Nodup) :
    Pairing program program.promote where
  holders := program.Counterpart
  locations location moved := program.relocate? location = some moved
  right_unique := Counterpart.right_unique distinct
  left_unique := Counterpart.left_unique distinct
  code _ := rfl
  code_right moves := (Option.some.inj moves).symm
  code_left moves := eq_of_relocate? moves rfl
  memory := .memory
  result := .result
  parameters name := by
    rw [function?_promote, Option.map_map]
    rfl
  parameter {name function parameter} found listed := by
    obtain ⟨member, rfl⟩ := mem_of_find?_key found
    have named : parameter.name ∈ function.parameters.map (·.name) := List.mem_map_of_mem listed
    refine .var member (fun isPointer => ?_) fun isCell => ?_
    · exact Function.notMem_parameters_of_mem_slotPointers isPointer named
    · exact (function.notMem_of_mem_slotCells isCell).1 named

/-- The pointer of a slot points to its memory. -/
inductive PointsToSlot (program : Program) : Holder → Location → Prop
  | intro {function : Function} {slot : Slot} {site : Nat} : function ∈ program.functions →
      slot ∈ function.slots → function.AllocatesAt slot site →
        PointsToSlot program (.var function.name slot.pointer) (.allocation function.name site)

/-- What holders hold before promotion, if this is what they hold afterwards. -/
def pull (distinct : (program.functions.map (·.name)).Nodup) (holdings : Holdings) : Holdings :=
  fun holder location => program.PointsToSlot holder location ∨
    (promotion distinct).symm.push holdings holder location

section

variable {distinct : (program.functions.map (·.name)).Nodup} {holdings : Holdings}
variable {function : Function} {site position : Nat} {instruction : Instruction} {slot : Slot}
variable {holder twin : Holder} {location moved : Location}

theorem PointsToSlot.mem_slotPointers {owner name : String}
    (points : program.PointsToSlot (.var owner name) location) :
    ∃ function ∈ program.functions, function.name = owner ∧ name ∈ function.slotPointers := by
  cases points with
  | intro member inside => exact ⟨_, member, rfl, List.mem_map_of_mem inside⟩

theorem Counterpart.not_pointsToSlot (distinct : (program.functions.map (·.name)).Nodup)
    (paired : program.Counterpart holder twin) : ¬ program.PointsToSlot holder location := by
  intro points
  cases paired with
  | var member noPointer =>
    obtain ⟨function, known, named, isPointer⟩ := points.mem_slotPointers
    obtain rfl := eq_of_name_eq distinct member known named.symm
    exact noPointer isPointer
  | result => cases points
  | memory => cases points
  | slot => cases points

theorem carries_pull : (promotion distinct).Carries (pull distinct holdings) holdings := by
  rintro holder twin location paired (points | pushed)
  · exact absurd points (paired.not_pointsToSlot distinct)
  · exact (promotion distinct).symm.carries_push holdings paired pushed

/-- The pointer of a slot holds nothing but the memory of the slot. -/
theorem exists_allocatesAt_of_pull (member : function ∈ program.functions)
    (inside : slot ∈ function.slots)
    (held : pull distinct holdings (.var function.name slot.pointer) location) :
    ∃ site, function.AllocatesAt slot site ∧ location = .allocation function.name site := by
  have isPointer : slot.pointer ∈ function.slotPointers := List.mem_map_of_mem inside
  generalize same : Holder.var function.name slot.pointer = holder at held
  rcases held with points | ⟨twin, moved, paired, -, -⟩
  · cases points with
    | intro known listed allocates =>
      simp only [Holder.var.injEq] at same
      obtain ⟨named, pointers⟩ := same
      obtain rfl := eq_of_name_eq distinct member known named
      obtain rfl := Function.slot_eq_of_pointer_eq inside listed pointers
      exact ⟨_, allocates, rfl⟩
  · obtain ⟨site, allocates⟩ := Function.exists_allocatesAt inside
    subst same
    exact absurd (.intro member inside allocates) (paired.not_pointsToSlot distinct)

/-- The variables of a function, but for the pointers to its slots, stand for themselves. -/
theorem OperandsBound.counterpart (bound : program.OperandsBound)
    (member : function ∈ program.functions) {name : String} (mentioned : name ∈ function.names)
    (noPointer : name ∉ function.slotPointers) :
    program.Counterpart (.var function.name name) (.var function.name name) := by
  refine .var member noPointer fun isCell => ?_
  obtain ⟨noParameter, noDest⟩ := function.notMem_of_mem_slotCells isCell
  rcases List.mem_append.mp mentioned with isParameter | used
  · exact noParameter isParameter
  obtain ⟨instruction, listed, occurs⟩ := List.mem_flatMap.mp used
  rcases List.mem_append.mp occurs with assigned | operand
  · exact Function.notMem_slotCells_of_dest listed (Option.mem_toList.mp assigned) isCell
  · exact (List.mem_append.mp (bound function member instruction listed name operand)).elim
      noParameter noDest

/-- An instruction that accesses no slot stays. -/
theorem OperandsBound.shares (bound : program.OperandsBound) (member : function ∈ program.functions)
    (here : function.instructions[site]? = some instruction)
    (untouched : Slot.accessed? function.slots instruction = none)
    (moves : function.renumber? site = some position) :
    (promotion distinct).Shares function.name site position instruction := by
  have listed := List.mem_of_getElem? here
  refine ⟨fun arg operand => ?_, fun dest assigned => ?_, ?_⟩
  · exact bound.counterpart member (Function.mem_names_of_operand listed operand) fun isPointer =>
      Function.notMem_args_of_untouched listed untouched isPointer operand
  · have apart := Function.dest_apart listed untouched assigned
    exact .var member apart.1 apart.2
  · change program.relocate? _ = _
    rw [relocate?_allocation distinct member, moves]
    rfl

theorem Solves.holds_slot (solves : program.Solves holdings) (member : function ∈ program.functions)
    (allocates : function.AllocatesAt slot site) :
    holdings (.var function.name slot.pointer) (.allocation function.name site) := by
  obtain ⟨instruction, here, operation, assigned⟩ := allocates
  exact solves function member site instruction here _ _ (.alloc operation assigned)

/-- What an instruction becomes copies into its destination what the operand holds. -/
theorem Solves.holds_copy (solves : program.promote.Solves holdings)
    (member : function ∈ program.functions) (here : function.instructions[site]? = some instruction)
    {dest operand : String} {type : ValueType}
    (becomes : function.replacement? instruction = some (.copy dest type operand))
    (held : holdings (.var function.name operand) moved) :
    holdings (.var function.name dest) moved := by
  obtain ⟨position, -, there⟩ := Function.exists_renumber?_eq here becomes
  exact solves function.promote (List.mem_map_of_mem member) position _ there _ _
    (.copy (.inl rfl) rfl (List.mem_singleton.mpr rfl) held)

/-- What an access to a slot demands before promotion is held, since its copy demands it. -/
theorem pull_of_accessed (bound : program.OperandsBound) (solves : program.promote.Solves holdings)
    (member : function ∈ program.functions) (here : function.instructions[site]? = some instruction)
    (accessed : Slot.accessed? function.slots instruction = some slot)
    (demands : (pull distinct holdings).Demands program function.name site instruction holder
      location) : pull distinct holdings holder location := by
  have listed := List.mem_of_getElem? here
  obtain ⟨inside, -⟩ := (Function.accessed?_eq_some_iff instruction slot).mp accessed
  have becomes := Function.replacement?_of_accessed accessed
  cases Function.access_of_accessed? listed accessed with
  | alloc operation assigned =>
    obtain ⟨dest, named, rfl, rfl⟩ := demands.of_alloc operation
    obtain rfl := Option.some.inj (named.symm.trans assigned)
    exact .inl (.intro member inside ⟨instruction, here, operation, assigned⟩)
  | @load dest operation shape assigned apart =>
    obtain ⟨_, pointer, cell, named, head, rfl, points, held⟩ := demands.of_load operation
    obtain rfl := Option.some.inj (named.symm.trans assigned)
    rw [shape] at head
    obtain rfl := Option.some.inj head
    obtain ⟨source, allocates, rfl⟩ := exists_allocatesAt_of_pull member inside points
    obtain ⟨moved, moves, found⟩ := carries_pull (.slot member inside allocates) held
    rw [Slot.replaceAccess_load operation assigned] at becomes
    exact .inr ⟨_, moved, .var member apart (Function.notMem_slotCells_of_dest listed assigned),
      moves, solves.holds_copy member here becomes found⟩
  | @store stored operation shape apart =>
    obtain ⟨pointer, value, others, cell, args, rfl, points, held⟩ := demands.of_store operation
    rw [shape] at args
    obtain ⟨rfl, rest⟩ := List.cons.inj args
    obtain ⟨rfl, -⟩ := List.cons.inj rest
    obtain ⟨source, allocates, rfl⟩ := exists_allocatesAt_of_pull member inside points
    have operand := bound.counterpart member
      (Function.mem_names_of_operand listed (by simp [shape])) apart
    obtain ⟨moved, moves, found⟩ := carries_pull operand held
    rw [Slot.replaceAccess_store operation shape] at becomes
    exact .inr ⟨_, moved, .slot member inside allocates, moves,
      solves.holds_copy member here becomes found⟩
  | free operation => exact absurd demands (Holdings.Demands.not_of_free operation)

/-- A solution for the promoted program gives one for the program. -/
theorem solves_pull (distinct : (program.functions.map (·.name)).Nodup)
    (bound : program.OperandsBound) (solves : program.promote.Solves holdings) :
    program.Solves (pull distinct holdings) := by
  intro function member site instruction here holder location demands
  cases accessed : Slot.accessed? function.slots instruction with
  | none =>
    have becomes := Function.replacement?_of_untouched accessed
    obtain ⟨position, moves, there⟩ := Function.exists_renumber?_eq here becomes
    obtain ⟨twin, moved, paired, goes, demanded⟩ :=
      carries_pull.exists_demands (bound.shares member here accessed moves) demands
    exact .inr ⟨twin, moved, paired, goes,
      solves function.promote (List.mem_map_of_mem member) position _ there _ _ demanded⟩
  | some slot => exact pull_of_accessed bound solves member here accessed demands

/-- What the copy demands that an access to a slot has become is held, since the access demands
it. -/
theorem push_of_accessed (bound : program.OperandsBound) (solves : program.Solves holdings)
    (member : function ∈ program.functions) (here : function.instructions[site]? = some instruction)
    (accessed : Slot.accessed? function.slots instruction = some slot) {replaced : Instruction}
    (becomes : function.replacement? instruction = some replaced)
    (demands : ((promotion distinct).push holdings).Demands program.promote function.name position
      replaced twin moved) : (promotion distinct).push holdings twin moved := by
  have listed := List.mem_of_getElem? here
  obtain ⟨inside, -⟩ := (Function.accessed?_eq_some_iff instruction slot).mp accessed
  obtain ⟨source, allocates⟩ := Function.exists_allocatesAt inside
  have slots : (promotion distinct).holders (.memory (.allocation function.name source))
      (.var function.name slot.cell) := .slot member inside allocates
  have points := solves.holds_slot member allocates
  rw [Function.replacement?_of_accessed accessed] at becomes
  cases Function.access_of_accessed? listed accessed with
  | alloc operation =>
    rw [Slot.replaceAccess_alloc operation] at becomes
    cases becomes
  | @load dest operation shape assigned apart =>
    rw [Slot.replaceAccess_load operation assigned] at becomes
    cases becomes
    obtain ⟨rfl, held⟩ := demands.of_copy
    obtain ⟨location, moves, found⟩ := (promotion distinct).carries_push holdings slots held
    refine ⟨_, location, .var member apart (Function.notMem_slotCells_of_dest listed assigned),
      moves, solves function member site instruction here _ _ ?_⟩
    exact .load operation assigned (by rw [shape]; rfl) points found
  | @store stored operation shape apart =>
    rw [Slot.replaceAccess_store operation shape] at becomes
    cases becomes
    obtain ⟨rfl, held⟩ := demands.of_copy
    have operand : (promotion distinct).holders (.var function.name stored) _ :=
      bound.counterpart member (Function.mem_names_of_operand listed (by simp [shape])) apart
    obtain ⟨location, moves, found⟩ := (promotion distinct).carries_push holdings operand held
    exact ⟨_, location, slots, moves,
      solves function member site instruction here _ _ (.store operation shape points found)⟩
  | free operation =>
    rw [Slot.replaceAccess_free operation] at becomes
    cases becomes

/-- A solution for a program gives one for the promoted program. -/
theorem solves_push (distinct : (program.functions.map (·.name)).Nodup)
    (bound : program.OperandsBound) (solves : program.Solves holdings) :
    program.promote.Solves ((promotion distinct).push holdings) := by
  intro promoted listed position replaced there twin moved demands
  obtain ⟨function, member, rfl⟩ := List.mem_map.mp listed
  obtain ⟨site, instruction, here, becomes, moves⟩ := Function.exists_site_of_promote there
  cases accessed : Slot.accessed? function.slots instruction with
  | none =>
    rw [Function.replacement?_of_untouched accessed] at becomes
    cases becomes
    exact Pairing.push_of_demands solves member here (bound.shares member here accessed moves)
      demands
  | some slot => exact push_of_accessed bound solves member here accessed becomes demands

end

end Program

namespace PointsToSets

variable {program : Program}

/-- A holder has the locations before promotion to which those of its counterpart have moved. -/
theorem relocates_solve (distinct : (program.functions.map (·.name)).Nodup)
    (bound : program.OperandsBound) {holder twin : Holder}
    (paired : program.Counterpart holder twin) :
    program.Relocates ((solve program).result.get holder)
      ((solve program.promote).result.get twin) := by
  refine Program.relocates_of_iff (ascending_solve program holder)
    (ascending_solve program.promote twin) (fun location held => ?_) fun moved held => ?_
  · have pulled := holds_of_solve
      (Program.solves_pull distinct bound (solves_solve program.promote)) held
    obtain ⟨moved, moves, found⟩ := Program.carries_pull paired pulled
    exact ⟨moved, found, moves⟩
  · have pushed := holds_of_solve (Program.solves_push distinct bound (solves_solve program)) held
    obtain ⟨location, moves, found⟩ :=
      (Program.promotion distinct).carries_push _ paired pushed
    exact ⟨location, found, moves⟩

/-- The pointer of a slot points to the memory of the slot and nothing else. -/
theorem solve_var_slot (distinct : (program.functions.map (·.name)).Nodup)
    (bound : program.OperandsBound) {function : Function} (member : function ∈ program.functions)
    {slot : Slot} (inside : slot ∈ function.slots) {site : Nat}
    (allocates : function.AllocatesAt slot site) :
    (solve program).result.var function.name slot.pointer =
      [.allocation function.name site] := by
  refine (ascending_solve program _).eq_of_mem_iff (List.pairwise_singleton _ _) fun location => ?_
  rw [List.mem_singleton]
  constructor
  · intro held
    have pulled := holds_of_solve
      (Program.solves_pull distinct bound (solves_solve program.promote)) held
    obtain ⟨place, places, rfl⟩ := Program.exists_allocatesAt_of_pull member inside pulled
    rw [Function.AllocatesAt.site_unique inside allocates places]
  · rintro rfl
    exact (solves_solve program).holds_slot member allocates

/-- Calls through pointers reach the same functions after promotion. -/
theorem targets_promote (distinct : (program.functions.map (·.name)).Nodup)
    (bound : program.OperandsBound) {function : Function} (member : function ∈ program.functions)
    {call : Instruction} (listed : call ∈ function.instructions)
    (operation : call.opcode = .icall) :
    (solve program.promote).result.targets function.name call =
      (solve program).result.targets function.name call := by
  have untouched : Slot.accessed? function.slots call = none := by
    simp [Function.accessed?_eq_none_iff, Instruction.pointer?, operation]
  unfold targets
  split
  · next pointer others shape =>
    have operand : pointer ∈ call.args := by simp [shape]
    have paired := bound.counterpart member (Function.mem_names_of_operand listed operand)
      fun isPointer => Function.notMem_args_of_untouched listed untouched isPointer operand
    exact (relocates_solve distinct bound paired).filterMap_function?.symm
  · rfl

/-- Promotion changes nothing that points-to sets say, but that it moves the allocations it leaves:
whatever has been stored in a slot is held by the variable of the slot, all other variables but the
pointers to slots hold what they held, and calls through pointers reach the same functions. -/
theorem solve_promote (distinct : (program.functions.map (·.name)).Nodup)
    (bound : program.OperandsBound) :
    ∀ function ∈ program.functions,
      (∀ name ∈ function.names, name ∉ function.slotPointers →
        program.Relocates ((solve program).result.var function.name name)
          ((solve program.promote).result.var function.promote.name name)) ∧
      (∀ slot ∈ function.slots, ∃ site, function.AllocatesAt slot site ∧
        (solve program).result.var function.name slot.pointer =
          [.allocation function.name site] ∧
        program.Relocates ((solve program).result.get (.memory (.allocation function.name site)))
          ((solve program.promote).result.var function.promote.name slot.cell)) ∧
      ∀ position call, function.promote.instructions[position]? = some call →
        call.opcode = .icall → ∃ site, function.renumber? site = some position ∧
          function.instructions[site]? = some call ∧
            (solve program.promote).result.targets function.promote.name call =
              (solve program).result.targets function.name call := by
  intro function member
  refine ⟨fun name mentioned noPointer => ?_, fun slot inside => ?_, ?_⟩
  · exact relocates_solve distinct bound (bound.counterpart member mentioned noPointer)
  · obtain ⟨site, allocates⟩ := Function.exists_allocatesAt inside
    exact ⟨site, allocates, solve_var_slot distinct bound member inside allocates,
      relocates_solve distinct bound (.slot member inside allocates)⟩
  · intro position call there operation
    obtain ⟨site, instruction, here, becomes, moves⟩ := Function.exists_site_of_promote there
    obtain rfl := Function.eq_of_replacement? becomes (by simp [operation])
    exact ⟨site, moves, here,
      targets_promote distinct bound member (List.mem_of_getElem? here) operation⟩

/-- A function that keeps the address of a function in a slot and calls it from there. -/
def callsFromSlot : Function where
  name := "main"
  parameters := [⟨"n", .named "int"⟩]
  body := [
    .instruction
      { name := "alloc", dest := some "s", type := some (.pointer (.named "code")),
        args := ["n"] },
    .instruction { name := "fnaddr", dest := some "f", funcs := ["fill"] },
    .instruction { name := "store", args := ["s", "f"] },
    .instruction
      { name := "alloc", dest := some "kept", type := some (.pointer (.named "int")),
        args := ["n"] },
    .instruction { name := "load", dest := some "q", args := ["s"] },
    .instruction { name := "icall", args := ["q", "kept"] }]

/-- A program that calls a function through a pointer in a slot. -/
def fromSlot : Program where
  functions := [
    callsFromSlot,
    { name := "fill", parameters := [⟨"at", .pointer (.named "int")⟩]
      body := [.instruction { name := "ret" }] }]

/-- The call goes to the function after promotion too, and passes it the allocation that is left. -/
theorem solve_promote_fromSlot :
    callsFromSlot.promote.instructions[4]? =
        some { name := "icall", args := ["q", "kept"] } ∧
      "fill" ∈ (solve fromSlot.promote).result.targets "main"
        { name := "icall", args := ["q", "kept"] } ∧
      .allocation "main" 2 ∈ (solve fromSlot.promote).result.var "fill" "at" := by
  have agree := @solve_promote fromSlot (by decide) (by decide)
  obtain ⟨-, -, calls⟩ := agree callsFromSlot (.head _)
  obtain ⟨vars, -, -⟩ := agree _ (.tail _ (.head _))
  have there : callsFromSlot.promote.instructions[4]? =
      some { name := "icall", args := ["q", "kept"] } := rfl
  obtain ⟨-, -, -, same⟩ := calls 4 _ there rfl
  have meets := solves_solve fromSlot callsFromSlot (.head _)
  have slot := meets 0 _ rfl _ _ (.alloc rfl rfl)
  have code := meets 1 _ rfl _ _ (.fnaddr rfl rfl rfl)
  have stored := meets 2 _ rfl _ _ (.store rfl rfl slot code)
  have kept := meets 3 _ rfl _ _ (.alloc rfl rfl)
  have loaded := meets 4 _ rfl _ _ (.load rfl rfl rfl slot stored)
  have passed := meets 5 _ rfl _ _
    (.pass (.indirect rfl rfl loaded) rfl (List.mem_singleton.mpr rfl) kept)
  refine ⟨there, ?_, (vars "at" (by decide) (by decide)).mem passed rfl⟩
  exact same ▸ List.mem_filterMap.mpr ⟨.function "fill", loaded, rfl⟩

end PointsToSets

end ProgramGraphs
