import Mathlib.Data.List.Forall2
import ProgramGraphs.Proofs.Execution.Position
import ProgramGraphs.Proofs.Execution.Run

/-! # Execution of a program

A state of a program is a stack of functions in execution and a heap. Variables and cells hold plain
data, addresses of functions, or addresses of cells; each block is tagged with the instruction that
allocated it. A call, direct or through a pointer, puts a function with a body on the stack, whose
parameters are bound to the operands by position. A return takes it off and delivers a result to the
call. What has no body, or is no operation on addresses, results in plain data and writes no
address.

Nothing stops an execution that real ones would stop at: a branch may go either way, a phi may take
any operand, and cells of freed blocks may be used.
-/

namespace ProgramGraphs

/-- Operations that neither move addresses nor control. -/
def Opcode.isSilent : Opcode → Bool
  | .const | .free | .other _ => true
  | _ => false

namespace Execution

/-- What is held that is no address of a cell: plain data, or the address of a function. -/
inductive Datum (δ : Type) where
  | plain (datum : δ)
  | code (function : String)

variable {δ : Type}

/-- Plain data has no address in it. -/
def Value.IsPlain (value : Value (Datum δ)) : Prop :=
  ∃ datum, value = .data (.plain datum)

/-- What a value becomes when it is moved by an offset: an address stays in its block. -/
inductive Value.Shifts : Value (Datum δ) → Value (Datum δ) → Prop
  | plain (datum moved : δ) : Shifts (.data (.plain datum)) (.data (.plain moved))
  | code (function : String) : Shifts (.data (.code function)) (.data (.code function))
  | address (place : Nat) (offset moved : Int) :
      Shifts (.address place offset) (.address place moved)

/-- A heap after cells may have been emptied or given plain data. -/
def Heap.Fades (heap next : Heap (Datum δ)) : Prop :=
  ∀ place block offset value, next place = some block → block.cells offset = some value →
    value.IsPlain ∨ ∃ before, heap place = some before ∧ before.cells offset = some value

/-- For each block that has been allocated, the function and the instruction that did it. -/
abbrev Tags : Type :=
  Nat → Option (String × Nat)

/-- Tag a block. -/
def Tags.put (tags : Tags) (place : Nat) (tag : String × Nat) : Tags :=
  fun other => if other = place then some tag else tags other

theorem Tags.put_same (tags : Tags) (place : Nat) (tag : String × Nat) :
    tags.put place tag place = some tag :=
  if_pos rfl

/-- Tagging a block that has no tag changes no tag. -/
theorem Tags.put_kept {tags : Tags} {place : Nat} (fresh : tags place = none)
    (tag : String × Nat) (other : Nat) (held : String × Nat) (known : tags other = some held) :
    tags.put place tag other = some held := by
  refine (if_neg fun same => ?_).trans known
  rw [same, fresh] at known
  cases known

namespace Stack

/-- A function in execution. -/
structure Frame (δ : Type) where
  function : Function
  position : Nat
  env : Environment (Datum δ)

/-- A program in execution; the function that was called last comes first. -/
structure State (δ : Type) where
  frames : List (Frame δ)
  heap : Heap (Datum δ)
  tags : Tags

/-- Bind parameters to values by position. -/
def bindings (parameters : List Parameter) (values : List (Value (Datum δ))) :
    Environment (Datum δ) :=
  (parameters.zip values).foldl
    (fun env (parameter, value) => env.assign (some parameter.name) (some value)) fun _ => none

/-- A function at its start. -/
def enter (function : Function) (values : List (Value (Datum δ))) : Frame δ :=
  ⟨function, 0, bindings function.parameters values⟩

/-- A program at the start of one of its functions, with plain data for its parameters. -/
def initial (start : Function) (arguments : List δ) : State δ :=
  ⟨[enter start (arguments.map fun datum => .data (.plain datum))], fun _ => none, fun _ => none⟩

namespace Frame

/-- The entry that is executed next. -/
def item? (frame : Frame δ) : Option Item :=
  frame.function.body[frame.position]?

/-- The number of instructions before that entry. -/
def site (frame : Frame δ) : Nat :=
  ((frame.function.body.take frame.position).filterMap Item.instruction?).length

/-- Go past an instruction and define its destination. -/
def onward (frame : Frame δ) (dest : Option String) (result : Option (Value (Datum δ))) : Frame δ :=
  { frame with position := frame.position + 1, env := frame.env.assign dest result }

/-- The function that a call goes to, and the operands that are passed. -/
inductive Invokes (frame : Frame δ) (instruction : Instruction) : String → List String → Prop
  | direct {callee : String} : instruction.opcode = .call →
      instruction.funcs.head? = some callee → Invokes frame instruction callee instruction.args
  | indirect {pointer callee : String} {args : List String} : instruction.opcode = .icall →
      instruction.args = pointer :: args → frame.env pointer = some (.data (.code callee)) →
        Invokes frame instruction callee args

/-- What a function returns where it ends. -/
inductive Returns (frame : Frame δ) : Option (Value (Datum δ)) → Prop
  | value {instruction : Instruction} {name : String} {value : Value (Datum δ)} :
      frame.item? = some (.instruction instruction) → instruction.opcode = .ret →
        instruction.args.head? = some name → frame.env name = some value →
          Returns frame (some value)
  | nothing {instruction : Instruction} : frame.item? = some (.instruction instruction) →
      instruction.opcode = .ret → instruction.args = [] → Returns frame none
  | past : frame.item? = none → Returns frame none

end Frame

/-- What an instruction that stays in its function does: its result, if any, another heap and other
tags. -/
inductive Acts (program : Program) (frame : Frame δ) (heap : Heap (Datum δ)) (tags : Tags)
    (instruction : Instruction) : Option (Value (Datum δ)) → Heap (Datum δ) → Tags → Prop
  | fnaddr {target : String} : instruction.opcode = .fnaddr →
      instruction.funcs.head? = some target →
        Acts program frame heap tags instruction (some (.data (.code target))) heap tags
  | alloc {place : Nat} : instruction.opcode = .alloc → heap place = none → tags place = none →
      Acts program frame heap tags instruction (some (.address place 0)) (heap.put place .blank)
        (tags.put place (frame.function.name, frame.site))
  | copy {arg : String} {value : Value (Datum δ)} :
      instruction.opcode = .id ∨ instruction.opcode = .phi → arg ∈ instruction.args →
        frame.env arg = some value → Acts program frame heap tags instruction (some value) heap tags
  | ptradd {base : String} {value moved : Value (Datum δ)} : instruction.opcode = .ptradd →
      instruction.args.head? = some base → frame.env base = some value → value.Shifts moved →
        Acts program frame heap tags instruction (some moved) heap tags
  | load {pointer : String} {place : Nat} {offset : Int} {block : Block (Datum δ)}
      {value : Value (Datum δ)} : instruction.opcode = .load →
      instruction.args.head? = some pointer → frame.env pointer = some (.address place offset) →
        heap place = some block → block.cells offset = some value →
          Acts program frame heap tags instruction (some value) heap tags
  | store {pointer stored : String} {others : List String} {place : Nat} {offset : Int}
      {block : Block (Datum δ)} {value : Value (Datum δ)} : instruction.opcode = .store →
      instruction.args = pointer :: stored :: others →
        frame.env pointer = some (.address place offset) → frame.env stored = some value →
          heap place = some block →
            Acts program frame heap tags instruction none
              (heap.put place (block.write offset value)) tags
  | silent {result : Option (Value (Datum δ))} {next : Heap (Datum δ)} :
      instruction.opcode.isSilent = true → (∀ value, result = some value → value.IsPlain) →
        heap.Fades next → Acts program frame heap tags instruction result next tags
  | outside {callee : String} {args : List String} {result : Option (Value (Datum δ))}
      {next : Heap (Datum δ)} : frame.Invokes instruction callee args →
      program.function? callee = none → (∀ value, result = some value → value.IsPlain) →
        heap.Fades next → Acts program frame heap tags instruction result next tags

/-- One step of a program. -/
inductive Step (program : Program) : State δ → State δ → Prop
  | label {frame : Frame δ} {callers : List (Frame δ)} {heap : Heap (Datum δ)} {tags : Tags}
      {name : String} : frame.item? = some (.label name) →
        Step program ⟨frame :: callers, heap, tags⟩ ⟨frame.onward none none :: callers, heap, tags⟩
  | act {frame : Frame δ} {callers : List (Frame δ)} {heap next : Heap (Datum δ)}
      {tags tagged : Tags} {instruction : Instruction} {result : Option (Value (Datum δ))} :
      frame.item? = some (.instruction instruction) →
        Acts program frame heap tags instruction result next tagged →
          Step program ⟨frame :: callers, heap, tags⟩
            ⟨frame.onward instruction.dest result :: callers, next, tagged⟩
  | transfer {frame : Frame δ} {callers : List (Frame δ)} {heap : Heap (Datum δ)} {tags : Tags}
      {instruction : Instruction} {kind : EdgeKind} {name : String} {target : Nat} :
      frame.item? = some (.instruction instruction) → instruction.Transfers kind name →
        Item.position? name frame.function.body = some target →
          Step program ⟨frame :: callers, heap, tags⟩
            ⟨{ frame with position := target } :: callers, heap, tags⟩
  | call {frame : Frame δ} {callers : List (Frame δ)} {heap : Heap (Datum δ)} {tags : Tags}
      {instruction : Instruction} {callee : String} {args : List String} {target : Function}
      {values : List (Value (Datum δ))} :
      frame.item? = some (.instruction instruction) → frame.Invokes instruction callee args →
        program.function? callee = some target →
          List.Forall₂ (fun arg value => frame.env arg = some value) args values →
            Step program ⟨frame :: callers, heap, tags⟩
              ⟨enter target values :: frame :: callers, heap, tags⟩
  | deliver {frame caller : Frame δ} {callers : List (Frame δ)} {heap : Heap (Datum δ)}
      {tags : Tags} {instruction : Instruction} {result : Option (Value (Datum δ))} :
      frame.Returns result → caller.item? = some (.instruction instruction) →
        Step program ⟨frame :: caller :: callers, heap, tags⟩
          ⟨caller.onward instruction.dest result :: callers, heap, tags⟩
  | finish {frame : Frame δ} {heap : Heap (Datum δ)} {tags : Tags}
      {result : Option (Value (Datum δ))} :
      frame.Returns result → Step program ⟨[frame], heap, tags⟩ ⟨[], heap, tags⟩

/-- The instruction at a position is that of its site. -/
theorem Frame.instructions_site {frame : Frame δ} {instruction : Instruction}
    (here : frame.item? = some (.instruction instruction)) :
    frame.function.instructions[frame.site]? = some instruction := by
  obtain ⟨inside, listed⟩ := List.getElem?_eq_some_iff.mp here
  have shape : frame.function.instructions =
      (frame.function.body.take frame.position).filterMap Item.instruction? ++
        instruction :: (frame.function.body.drop (frame.position + 1)).filterMap
          Item.instruction? := by
    rw [Function.instructions]
    conv_lhs => rw [← List.take_append_drop frame.position frame.function.body,
      List.drop_eq_getElem_cons inside, listed, List.filterMap_append]
    rfl
  rw [shape, site, List.getElem?_append_right (Nat.le_refl _), Nat.sub_self]
  rfl

/-- What a bound variable holds was passed for a parameter of that name. -/
theorem exists_parameter {parameters : List Parameter} {values : List (Value (Datum δ))}
    {name : String} {value : Value (Datum δ)}
    (bound : bindings parameters values name = some value) :
    ∃ parameter, (parameter, value) ∈ parameters.zip values ∧ parameter.name = name := by
  have onward : ∀ (pairs : List (Parameter × Value (Datum δ))) (env : Environment (Datum δ)),
      pairs.foldl (fun env (parameter, value) =>
        env.assign (some parameter.name) (some value)) env name = some value →
        (∃ parameter, (parameter, value) ∈ pairs ∧ parameter.name = name) ∨
          env name = some value := by
    intro pairs
    induction pairs with
    | nil => exact fun _ held => .inr held
    | cons pair rest ih =>
      intro env held
      rcases ih _ held with ⟨parameter, member, named⟩ | held
      · exact .inl ⟨parameter, List.mem_cons_of_mem _ member, named⟩
      · rcases Environment.assign_cases held with ⟨given, named⟩ | held
        · cases given
          exact .inl ⟨pair.1, List.mem_cons_self, Option.some.inj named⟩
        · exact .inr held
  rcases onward _ _ bound with found | none
  · exact found
  · cases none

/-- What is passed for a parameter was read from the operand at its position. -/
theorem exists_arg {frame : Frame δ} {args : List String} {values : List (Value (Datum δ))}
    (read : List.Forall₂ (fun arg value => frame.env arg = some value) args values)
    {parameters : List Parameter} {parameter : Parameter} {value : Value (Datum δ)}
    (passed : (parameter, value) ∈ parameters.zip values) :
    ∃ arg, (parameter, arg) ∈ parameters.zip args ∧ frame.env arg = some value := by
  induction read generalizing parameters with
  | nil => simp at passed
  | @cons arg first _ _ here _ ih =>
    cases parameters with
    | nil => simp at passed
    | cons other rest =>
      rw [List.zip_cons_cons, List.mem_cons] at passed
      rcases passed with same | passed
      · cases same
        exact ⟨arg, List.mem_cons_self, here⟩
      · obtain ⟨later, listed, held⟩ := ih passed
        exact ⟨later, List.mem_cons_of_mem _ listed, held⟩

end Stack

end Execution

end ProgramGraphs
