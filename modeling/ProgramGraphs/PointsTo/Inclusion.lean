import ProgramGraphs.Journal
import ProgramGraphs.PointsTo.Basic

/-! # Points-to sets by inclusion

Every variable, return value and memory location has a set of locations that it may hold. Each
instruction asks that some sets include others. Starting from empty sets, all instructions are
visited in rounds and each set is extended by what its instruction asks for, until a round adds
nothing. Only finitely many facts can be added, since sets are asked for only the locations that the
program mentions.
-/

namespace ProgramGraphs

/-- What a pointer can point to: the code of a function, or the memory that an instruction of a
function allocates. -/
inductive Location where
  | function (name : String)
  | allocation (function : String) (site : Nat)
  deriving DecidableEq, Repr

namespace Location

/-- Functions come before allocations; names decide, then positions. -/
def precedes : Location → Location → Bool
  | .function a, .function b => decide (a < b)
  | .function _, .allocation _ _ => true
  | .allocation _ _, .function _ => false
  | .allocation a first, .allocation b second =>
    decide (a < b) || (a == b && decide (first < second))

/-- The function whose code a location is. -/
def function? : Location → Option String
  | .function name => some name
  | .allocation _ _ => none

/-- Put a location at its place in an ascending list, unless it is there. -/
def insert (location : Location) : List Location → List Location
  | [] => [location]
  | other :: rest =>
    if location = other then other :: rest
    else if location.precedes other then location :: other :: rest
    else other :: insert location rest

/-- An ascending list extended by locations. -/
def union (held added : List Location) : List Location :=
  added.foldl (fun held location => location.insert held) held

end Location

/-- What has a points-to set. -/
inductive Holder where
  | var (function name : String)
  | result (function : String)
  | memory (location : Location)
  deriving DecidableEq, Repr

/-- Points-to sets; a holder that is not listed has the empty set. -/
structure PointsToSets where
  entries : List (Holder × List Location) := []
  deriving DecidableEq, Repr

namespace PointsToSets

/-- The set of a holder, ascending. -/
def get (sets : PointsToSets) (holder : Holder) : List Location :=
  (sets.entries.lookup holder).getD []

/-- The set of a variable. -/
def var (sets : PointsToSets) (function name : String) : List Location :=
  sets.get (.var function name)

/-- Extend the set of a holder among entries. -/
def extend (holder : Holder) (added : List Location) :
    List (Holder × List Location) → List (Holder × List Location)
  | [] => [(holder, Location.union [] added)]
  | (other, held) :: rest =>
    if holder = other then (other, Location.union held added) :: rest
    else (other, held) :: extend holder added rest

/-- Make the set of a holder absorb some locations. -/
def absorb (sets : PointsToSets) (holder : Holder) (added : List Location) : PointsToSets :=
  if added.isEmpty then sets else ⟨extend holder added sets.entries⟩

/-- The number of facts. -/
def size (sets : PointsToSets) : Nat :=
  (sets.entries.map fun entry => entry.2.length).foldr (· + ·) 0

/-- Let arguments flow into the parameters of a function, and its result into a variable of the
caller. A function without a body has no effect. -/
def bind (program : Program) (caller callee : String) (args : List String)
    (dest : Option Holder) (sets : PointsToSets) : PointsToSets :=
  match program.function? callee with
  | none => sets
  | some target =>
    let bound := (target.parameters.zip args).foldl
      (fun sets (parameter, arg) =>
        sets.absorb (.var callee parameter.name) (sets.var caller arg)) sets
    match dest with
    | some dest => bound.absorb dest (bound.get (.result callee))
    | none => bound

/-- Extend the sets by what one instruction of a function asks for. -/
def apply (program : Program) (function : String) (site : Nat) (instruction : Instruction)
    (sets : PointsToSets) : PointsToSets :=
  let dest := instruction.dest.map (Holder.var function)
  match instruction.opcode, dest, instruction.args with
  | .fnaddr, some dest, _ =>
    match instruction.funcs with
    | target :: _ => sets.absorb dest [.function target]
    | [] => sets
  | .alloc, some dest, _ => sets.absorb dest [.allocation function site]
  | .id, some dest, args | .phi, some dest, args =>
    sets.absorb dest (args.flatMap (sets.var function))
  | .ptradd, some dest, base :: _ => sets.absorb dest (sets.var function base)
  | .load, some dest, pointer :: _ =>
    sets.absorb dest
      ((sets.var function pointer).flatMap fun location => sets.get (.memory location))
  | .store, _, pointer :: stored :: _ =>
    (sets.var function pointer).foldl
      (fun extended location => extended.absorb (.memory location) (sets.var function stored))
      sets
  | .ret, _, value :: _ => sets.absorb (.result function) (sets.var function value)
  | .call, dest, args =>
    match instruction.funcs with
    | callee :: _ => bind program function callee args dest sets
    | [] => sets
  | .icall, dest, pointer :: args =>
    ((sets.var function pointer).filterMap Location.function?).foldl
      (fun extended callee => bind program function callee args dest extended) sets
  | _, _, _ => sets

/-- Visit the instructions of a function. -/
def visit (program : Program) (function : Function) (sets : PointsToSets) : PointsToSets :=
  function.instructions.zipIdx.foldl
    (fun sets (instruction, site) => apply program function.name site instruction sets) sets

/-- Visit the instructions of all functions. -/
def round (program : Program) (sets : PointsToSets) : PointsToSets :=
  program.functions.foldl (fun sets function => visit program function sets) sets

end PointsToSets

namespace Program

/-- The number of instructions whose result is a new location. -/
def locationCount (program : Program) : Nat :=
  (program.functions.flatMap Function.instructions).countP fun instruction =>
    instruction.opcode = .fnaddr || instruction.opcode = .alloc

/-- The number of holders that an instruction can ask to include something. -/
def holderCount (program : Program) : Nat :=
  (program.functions.map fun function =>
    function.parameters.length + function.dests.length + 1).foldr (· + ·) program.locationCount

end Program

namespace PointsToSets

/-- Go through rounds as long as they add facts. More facts than pairs of a holder and a location
cannot be; the number of rounds is counted. -/
def iterate (program : Program) (rounds : Nat) (sets : PointsToSets) : PointsToSets × Nat :=
  let next := sets.round program
  if sets.size < next.size ∧ next.size ≤ program.holderCount * program.locationCount then
    iterate program (rounds + 1) next
  else (next, rounds + 1)
termination_by program.holderCount * program.locationCount - sets.size
decreasing_by
  rename_i grown
  exact Nat.sub_lt_sub_left (Nat.lt_of_lt_of_le grown.1 grown.2) grown.1

/-- The points-to sets of a program. -/
def solve (program : Program) : Logged PointsToSets := do
  let (sets, rounds) := iterate program 0 {}
  Logged.tell (.pointsToConverged rounds)
  pure sets

/-- The functions that an indirect call may reach: those in the set of its first operand. -/
def targets (sets : PointsToSets) (caller : String) (call : Instruction) : List String :=
  match call.args with
  | pointer :: _ => (sets.var caller pointer).filterMap Location.function?
  | [] => []

end PointsToSets

/-- Which strategy resolves indirect calls. -/
inductive Strategy where
  | trivial
  | andersen
  deriving DecidableEq, Repr

namespace Strategy

/-- The name of a strategy. -/
def name : Strategy → String
  | .trivial => "trivial"
  | .andersen => "andersen"

/-- The strategy of a name. -/
def ofName? (name : String) : Option Strategy :=
  [Strategy.trivial, .andersen].find? (·.name == name)

/-- What a strategy finds out about a program. -/
def run (strategy : Strategy) (program : Program) : Logged PointsTo :=
  match strategy with
  | .trivial => pure (.bySignature program)
  | .andersen => do
    let sets ← PointsToSets.solve program
    pure ⟨"andersen", sets.targets⟩

end Strategy

end ProgramGraphs
