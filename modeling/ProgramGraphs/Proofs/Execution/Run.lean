import Mathlib.Data.List.Forall2
import ProgramGraphs.Program.Basic
import ProgramGraphs.Proofs.Execution.Heap

/-! # Execution of a function body

A state is what is left of the body, the labels passed so far, the variables and the heap. A step
executes the first entry of what is left; one that would read an undefined variable, or a cell that
is not initialised or has been freed, does not exist. The operations that are no copies, no accesses
to memory and no transfers of control are given by a `Machine`, which is held to the parts of the
heap that their operands lead to.
-/

namespace ProgramGraphs

/-- Operations whose meaning a machine gives. -/
def Opcode.isComputed : Opcode → Bool
  | .const | .call | .icall | .fnaddr | .ptradd | .other _ => true
  | _ => false

/-- The entries of a body from a label on. -/
def Item.resume? (name : String) : List Item → Option (List Item)
  | [] => none
  | item :: rest => if item.label? = some name then some (item :: rest) else resume? name rest

namespace Execution

variable {δ : Type}

/-- What the operations on data do. An operation may read and change what its operands lead to and
allocate more, and it knows no other addresses. -/
structure Machine (δ : Type) where
  /-- Which way a branch goes for a value. -/
  truth : Value δ → Option Bool
  /-- Which operand a phi takes, after the labels passed so far, the latest first. -/
  choose : List String → Instruction → Option Nat
  /-- What an operation makes of its operands and the heap: a result, if any, and another heap. -/
  effect : Instruction → List (Value δ) → Heap δ → Option (Value δ) → Heap δ → Prop
  frame : ∀ instruction operands heap result next, effect instruction operands heap result next →
    ∀ place, ¬ heap.Touchable operands next place → next place = heap place
  result_touchable : ∀ instruction operands heap value next,
    effect instruction operands heap (some value) next →
      ∀ place, value.PointsInto place → heap.Touchable operands next place
  link_touchable : ∀ instruction operands heap result next,
    effect instruction operands heap result next → ∀ source target,
      heap.Touchable operands next source → next.Links source target →
        heap.Touchable operands next target
  /-- On a heap with the same reachable blocks, and with room for the same new ones, the same can
  happen. -/
  transfer : ∀ instruction operands heap result next other,
    effect instruction operands heap result next →
    (∀ place, heap.Reachable operands place → other place = heap place) →
    (∀ place, heap place = none → next place ≠ none → other place = none) →
      ∃ later, effect instruction operands other result later ∧
        ∀ place, (heap.Touchable operands next place → later place = next place) ∧
          (¬ heap.Touchable operands next place → later place = other place)

/-- Where a function is: before an entry of its body, or past its return. -/
inductive Control (δ : Type) where
  | running (rest : List Item)
  | returned (value : Option (Value δ))

/-- The variables that are defined, and their values. -/
abbrev Environment (δ : Type) : Type :=
  String → Option (Value δ)

/-- Define a variable, if there is one to define and a value for it. -/
def Environment.assign (env : Environment δ) : Option String → Option (Value δ) → Environment δ
  | some name, some value => fun other => if other = name then some value else env other
  | _, _ => env

theorem Environment.assign_none (env : Environment δ) (dest : Option String) :
    env.assign dest none = env := by
  cases dest <;> rfl

theorem Environment.assign_of_ne {env : Environment δ} {dest : Option String}
    {result : Option (Value δ)} {name : String} (distinct : dest ≠ some name) :
    env.assign dest result name = env name := by
  cases dest with
  | none => rfl
  | some other =>
    cases result with
    | none => rfl
    | some value => exact if_neg fun same => distinct (congrArg some same.symm)

/-- A variable holds the result just assigned to it, or what it held before. -/
theorem Environment.assign_cases {env : Environment δ} {dest : Option String}
    {result : Option (Value δ)} {name : String} {value : Value δ}
    (holds : env.assign dest result name = some value) :
    result = some value ∧ dest = some name ∨ env name = some value := by
  by_cases same : dest = some name
  · subst same
    cases result with
    | none => exact .inr holds
    | some assigned =>
      simp only [assign, if_pos] at holds
      exact .inl ⟨holds, rfl⟩
  · rw [assign_of_ne same] at holds
    exact .inr holds

theorem Environment.assign_congr {env other : Environment δ} {dest : Option String}
    {result : Option (Value δ)} {name : String} (same : env name = other name) :
    env.assign dest result name = other.assign dest result name := by
  cases dest with
  | none => exact same
  | some assigned =>
    cases result with
    | none => exact same
    | some value => exact if_congr Iff.rfl rfl same

/-- A function in execution. -/
structure State (δ : Type) where
  control : Control δ
  passed : List String
  env : Environment δ
  heap : Heap δ

/-- A block that is not allocated and that no variable and no cell points into. -/
structure State.Unused (state : State δ) (place : Nat) : Prop where
  absent : state.heap place = none
  variable_apart : ∀ name value, state.env name = some value → ¬ value.PointsInto place
  cell_apart : ∀ source, ¬ state.heap.Links source place

namespace Machine

variable (machine : Machine δ)

/-- The operands that an instruction reads: a phi reads the one it takes. -/
def operands? (passed : List String) (instruction : Instruction) : Option (List String) :=
  match instruction.opcode with
  | .phi => do
    let index ← machine.choose passed instruction
    let operand ← instruction.args[index]?
    return [operand]
  | _ => some instruction.args

/-- The values of the operands that an instruction reads. -/
def Reads (state : State δ) (instruction : Instruction) (values : List (Value δ)) : Prop :=
  ∃ operands, machine.operands? state.passed instruction = some operands ∧
    List.Forall₂ (fun name value => state.env name = some value) operands values

/-- The label that a jump or a branch goes to. -/
def target? (instruction : Instruction) (values : List (Value δ)) : Option String :=
  match instruction.opcode, values with
  | .jmp, _ => instruction.labels[0]?
  | .br, condition :: _ => do
    let taken ← machine.truth condition
    instruction.labels[if taken then 0 else 1]?
  | _, _ => none

/-- What an instruction that does not move control makes of the values it reads: a result, if any,
and another heap. -/
inductive Acts (state : State δ) (instruction : Instruction) :
    List (Value δ) → Option (Value δ) → Heap δ → Prop
  | alloc {values : List (Value δ)} {place : Nat} :
      instruction.opcode = .alloc → state.Unused place →
        Acts state instruction values (some (.address place 0)) (state.heap.put place .blank)
  | free {place : Nat} {offset : Int} {block : Block δ} {others : List (Value δ)} :
      instruction.opcode = .free → state.heap place = some block →
        Acts state instruction (.address place offset :: others) none
          (state.heap.put place block.release)
  | load {place : Nat} {offset : Int} {block : Block δ} {value : Value δ}
      {others : List (Value δ)} :
      instruction.opcode = .load → state.heap place = some block → block.live = true →
        block.cells offset = some value →
          Acts state instruction (.address place offset :: others) (some value) state.heap
  | store {place : Nat} {offset : Int} {block : Block δ} {value : Value δ}
      {others : List (Value δ)} :
      instruction.opcode = .store → state.heap place = some block →
        Acts state instruction (.address place offset :: value :: others) none
          (state.heap.put place (block.write offset value))
  | copy {value : Value δ} {others : List (Value δ)} :
      instruction.opcode = .id ∨ instruction.opcode = .phi →
        Acts state instruction (value :: others) (some value) state.heap
  | compute {values : List (Value δ)} {result : Option (Value δ)} {heap : Heap δ} :
      instruction.opcode.isComputed = true →
        machine.effect instruction values state.heap result heap →
          Acts state instruction values result heap

end Machine

namespace Machine.Acts

variable {machine : Machine δ} {state : State δ} {instruction : Instruction}
variable {values : List (Value δ)} {result : Option (Value δ)} {next : Heap δ}

theorem of_alloc (acts : machine.Acts state instruction values result next)
    (operation : instruction.opcode = .alloc) : ∃ place, state.Unused place ∧
      result = some (.address place 0) ∧ next = state.heap.put place .blank := by
  cases acts with
  | alloc _ unused => exact ⟨_, unused, rfl, rfl⟩
  | _ => simp_all [Opcode.isComputed]

theorem of_free (acts : machine.Acts state instruction values result next)
    (operation : instruction.opcode = .free) : ∃ place offset block others,
      values = .address place offset :: others ∧ state.heap place = some block ∧
        result = none ∧ next = state.heap.put place block.release := by
  cases acts with
  | free _ present => exact ⟨_, _, _, _, rfl, present, rfl, rfl⟩
  | _ => simp_all [Opcode.isComputed]

theorem of_load (acts : machine.Acts state instruction values result next)
    (operation : instruction.opcode = .load) : ∃ place offset block value others,
      values = .address place offset :: others ∧ state.heap place = some block ∧
        block.cells offset = some value ∧ result = some value ∧ next = state.heap := by
  cases acts with
  | load _ present _ held => exact ⟨_, _, _, _, _, rfl, present, held, rfl, rfl⟩
  | _ => simp_all [Opcode.isComputed]

theorem of_store (acts : machine.Acts state instruction values result next)
    (operation : instruction.opcode = .store) : ∃ place offset block value others,
      values = .address place offset :: value :: others ∧ state.heap place = some block ∧
        result = none ∧ next = state.heap.put place (block.write offset value) := by
  cases acts with
  | store _ present => exact ⟨_, _, _, _, _, rfl, present, rfl, rfl⟩
  | _ => simp_all [Opcode.isComputed]

end Machine.Acts

/-- What is seen of a step: the entry that is executed and the values it reads. -/
structure Observation (δ : Type) where
  item : Item
  values : List (Value δ)

/-- One step of a function with a given body. -/
inductive Step (machine : Machine δ) (body : List Item) (state : State δ) :
    Observation δ → State δ → Prop
  | label {name : String} {rest : List Item} :
      state.control = .running (.label name :: rest) →
        Step machine body state ⟨.label name, []⟩
          { state with control := .running rest, passed := name :: state.passed }
  | jump {instruction : Instruction} {rest onward : List Item} {values : List (Value δ)}
      {name : String} :
      state.control = .running (.instruction instruction :: rest) →
        machine.Reads state instruction values →
          machine.target? instruction values = some name → Item.resume? name body = some onward →
            Step machine body state ⟨.instruction instruction, values⟩
              { state with control := .running onward }
  | leave {instruction : Instruction} {rest : List Item} {values : List (Value δ)} :
      state.control = .running (.instruction instruction :: rest) →
        machine.Reads state instruction values → instruction.opcode = .ret →
          Step machine body state ⟨.instruction instruction, values⟩
            { state with control := .returned values.head? }
  | act {instruction : Instruction} {rest : List Item} {values : List (Value δ)}
      {result : Option (Value δ)} {heap : Heap δ} :
      state.control = .running (.instruction instruction :: rest) →
        machine.Reads state instruction values →
          machine.Acts state instruction values result heap →
            Step machine body state ⟨.instruction instruction, values⟩
              { state with
                control := .running rest
                env := state.env.assign instruction.dest result
                heap := heap }

/-- A run of any length, and what is seen of it. -/
inductive Run (machine : Machine δ) (body : List Item) :
    State δ → List (Observation δ) → State δ → Prop
  | done (state : State δ) : Run machine body state [] state
  | next {state middle final : State δ} {seen : Observation δ} {observed : List (Observation δ)} :
      Step machine body state seen middle → Run machine body middle observed final →
        Run machine body state (seen :: observed) final

/-- Runs compose. -/
theorem Run.append {machine : Machine δ} {body : List Item} {state middle final : State δ}
    {first second : List (Observation δ)} (left : Run machine body state first middle)
    (right : Run machine body middle second final) :
    Run machine body state (first ++ second) final := by
  induction left with
  | done => exact right
  | next step _ ih => exact .next step (ih right)

end Execution

/-- A function at its start, with values for its parameters. -/
def Function.enter {δ : Type} (function : Function) (arguments : Execution.Environment δ)
    (heap : Execution.Heap δ) : Execution.State δ where
  control := .running function.body
  passed := []
  env name := if name ∈ function.parameters.map (·.name) then arguments name else none
  heap := heap

end ProgramGraphs
