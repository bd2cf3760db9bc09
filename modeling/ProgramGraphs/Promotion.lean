import ProgramGraphs.Fresh
import ProgramGraphs.Program.Basic

/-! # Promotion of memory slots

A slot is memory that a function allocates once and uses only as the address of loads, stores and
frees. Its contents can live in a variable of their own: each store becomes a copy into that
variable, each load a copy out of it, and the allocation and the frees go away.
-/

namespace ProgramGraphs

namespace Instruction

/-- The operands that an instruction uses otherwise than as the address of a load, store or free
of the expected shape. -/
def exposedArgs (instruction : Instruction) : List String :=
  match instruction.opcode, instruction.args with
  | .load, [pointer] => if instruction.dest.isNone then [pointer] else []
  | .free, [_] => []
  | .store, [_, stored] => [stored]
  | _, args => args

/-- The pointer through which an instruction allocates, loads, stores or frees. -/
def pointer? (instruction : Instruction) : Option String :=
  match instruction.opcode with
  | .alloc => instruction.dest
  | .load | .store | .free => instruction.args.head?
  | _ => none

/-- A copy into a typed variable. -/
def copy (dest : String) (type : ValueType) (operand : String) : Instruction where
  name := "id"
  dest := some dest
  type := some type
  args := [operand]

end Instruction

/-- A promoted slot: the pointer to it, the type of its contents, and the variable that takes
their place. -/
structure Slot where
  pointer : String
  pointee : ValueType
  cell : String
  deriving DecidableEq, Repr

namespace Slot

/-- The names for the variable that replaces a slot, in order of preference. -/
def cellName (pointer : String) (index : Nat) : String :=
  if index = 0 then pointer ++ ".slot" else pointer ++ ".slot" ++ toString index

/-- Name the variables of some slots; each name is taken for the ones after it. -/
def allot (taken : List String) : List (String × ValueType) → List Slot
  | [] => []
  | (pointer, pointee) :: rest =>
    let cell := freshName (cellName pointer) taken
    ⟨pointer, pointee, cell⟩ :: allot (cell :: taken) rest

/-- The slot that an instruction accesses, if it is among the promoted ones. -/
def accessed? (slots : List Slot) (instruction : Instruction) : Option Slot :=
  instruction.pointer?.bind fun pointer => slots.find? (·.pointer == pointer)

/-- What becomes of an access to a promoted slot. -/
def replaceAccess (slot : Slot) (instruction : Instruction) : Option Instruction :=
  match instruction.opcode with
  | .store => some (.copy slot.cell slot.pointee ((instruction.args[1]?).getD ""))
  | .load =>
    some (.copy (instruction.dest.getD "") (instruction.type.getD slot.pointee) slot.cell)
  | _ => none

/-- What becomes of an entry of a body. -/
def replaceIn (slots : List Slot) : Item → Option Item
  | .label name => some (.label name)
  | .instruction operation =>
    match accessed? slots operation with
    | none => some (.instruction operation)
    | some slot => (slot.replaceAccess operation).map .instruction

end Slot

namespace Function

/-- The allocations of a known type: each destination and what it points to. -/
def allocations (function : Function) : List (String × ValueType) :=
  function.instructions.filterMap fun instruction =>
    match instruction.opcode, instruction.dest, instruction.type.bind ValueType.pointee? with
    | .alloc, some dest, some pointee => some (dest, pointee)
    | _, _, _ => none

/-- Whether a pointer is assigned once, is no parameter, and is used as an address only. -/
def isPromotable (function : Function) (pointer : String) : Bool :=
  !(function.parameters.map (·.name)).contains pointer &&
    function.dests.count pointer == 1 &&
    !(function.instructions.flatMap Instruction.exposedArgs).contains pointer

/-- The slots of a function that can be promoted. -/
def slots (function : Function) : List Slot :=
  Slot.allot (function.parameters.map (·.name) ++ function.dests)
    (function.allocations.filter fun allocation => function.isPromotable allocation.1)

/-- The function with its slots promoted. -/
def promote (function : Function) : Function :=
  { function with body := function.body.filterMap (Slot.replaceIn function.slots) }

end Function

end ProgramGraphs
