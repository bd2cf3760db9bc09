import Mathlib.Data.List.Infix
import ProgramGraphs.ControlFlow.Basic

/-! # Execution by position

A body is a flat list, and control is a position in it. From a label, and from an instruction that
is no terminator, control goes to the next position; jumps and branches go to the position of a
label; a `ret` goes past the last position, where execution ends. A run collects the instructions
that it executes.
-/

namespace ProgramGraphs

/-- How an instruction passes control to a label. -/
inductive Instruction.Transfers (instruction : Instruction) : EdgeKind → String → Prop
  | jump {name : String} : instruction.opcode = .jmp → instruction.labels[0]? = some name →
      Transfers instruction .jump name
  | whenTrue {name : String} : instruction.opcode = .br → instruction.labels[0]? = some name →
      Transfers instruction .whenTrue name
  | whenFalse {name : String} : instruction.opcode = .br → instruction.labels[1]? = some name →
      Transfers instruction .whenFalse name

theorem Instruction.transfers_iff (instruction : Instruction) (kind : EdgeKind) (name : String) :
    instruction.Transfers kind name ↔
      (instruction.opcode = .jmp ∧ instruction.labels[0]? = some name ∧ kind = .jump) ∨
        (instruction.opcode = .br ∧ (instruction.labels[0]? = some name ∧ kind = .whenTrue ∨
          instruction.labels[1]? = some name ∧ kind = .whenFalse)) := by
  constructor
  · rintro (⟨jumps, named⟩ | ⟨branches, named⟩ | ⟨branches, named⟩)
    · exact .inl ⟨jumps, named, rfl⟩
    · exact .inr ⟨branches, .inl ⟨named, rfl⟩⟩
    · exact .inr ⟨branches, .inr ⟨named, rfl⟩⟩
  · rintro (⟨jumps, named, rfl⟩ | ⟨branches, ⟨named, rfl⟩ | ⟨named, rfl⟩⟩)
    · exact .jump jumps named
    · exact .whenTrue branches named
    · exact .whenFalse branches named

theorem Instruction.Transfers.name_unique {instruction : Instruction} {kind : EdgeKind}
    {first second : String} (one : instruction.Transfers kind first)
    (other : instruction.Transfers kind second) : first = second := by
  cases one <;> cases other <;> simp_all

theorem Instruction.Transfers.isTerminator {instruction : Instruction} {kind : EdgeKind}
    {name : String} (transfers : instruction.Transfers kind name) :
    instruction.isTerminator = true := by
  cases transfers <;> simp_all [Instruction.isTerminator, Opcode.isTerminator]

theorem Instruction.isTerminator_of_ret {instruction : Instruction}
    (operation : instruction.opcode = .ret) : instruction.isTerminator = true := by
  simp [isTerminator, Opcode.isTerminator, operation]

/-- The position of a label in a body. -/
def Item.position? (name : String) (body : List Item) : Option Nat :=
  body.findIdx? fun item => item.label? = some name

/-- Whether control goes on to the next entry: after all entries but terminators. -/
def Item.isStraight : Item → Bool
  | .label _ => true
  | .instruction operation => !operation.isTerminator

namespace Execution.Flat

/-- Where control goes from a position, past the entry there. -/
inductive Moves (body : List Item) (position : Nat) : Item → Nat → Prop
  | label {name : String} : body[position]? = some (.label name) →
      Moves body position (.label name) (position + 1)
  | onward {instruction : Instruction} : body[position]? = some (.instruction instruction) →
      instruction.isTerminator = false →
        Moves body position (.instruction instruction) (position + 1)
  | transfer {instruction : Instruction} {kind : EdgeKind} {name : String} {target : Nat} :
      body[position]? = some (.instruction instruction) → instruction.Transfers kind name →
        Item.position? name body = some target →
          Moves body position (.instruction instruction) target
  | leave {instruction : Instruction} : body[position]? = some (.instruction instruction) →
      instruction.opcode = .ret → Moves body position (.instruction instruction) body.length

/-- A finite run from a position to another, and the instructions that it executes. -/
inductive Run (body : List Item) : Nat → List Instruction → Nat → Prop
  | stay (position : Nat) : Run body position [] position
  | step {position next final : Nat} {item : Item} {executed : List Instruction} :
      Moves body position item next → Run body next executed final →
        Run body position (item.instruction?.toList ++ executed) final

variable {body : List Item}

/-- A step is past the entry at its position. -/
theorem Moves.getElem?_eq {position next : Nat} {item : Item}
    (moves : Moves body position item next) : body[position]? = some item := by
  cases moves <;> assumption

theorem Moves.eq_of_straight {position next : Nat} {item : Item}
    (moves : Moves body position item next) (straight : item.isStraight = true) :
    next = position + 1 := by
  cases moves with
  | label => rfl
  | onward => rfl
  | transfer _ transfers => simp [Item.isStraight, transfers.isTerminator] at straight
  | leave _ returns =>
    simp [Item.isStraight, Instruction.isTerminator_of_ret returns] at straight

theorem Moves.straight {position : Nat} {item : Item} (here : body[position]? = some item)
    (straight : item.isStraight = true) : Moves body position item (position + 1) := by
  cases item with
  | label name => exact .label here
  | instruction operation => exact .onward here (by simpa [Item.isStraight] using straight)

namespace Run

theorem single {position next : Nat} {item : Item} (moves : Moves body position item next) :
    Run body position item.instruction?.toList next := by
  have run := step moves (.stay next)
  rwa [List.append_nil] at run

theorem append {position middle final : Nat} {first second : List Instruction}
    (left : Run body position first middle) (right : Run body middle second final) :
    Run body position (first ++ second) final := by
  induction left with
  | stay => exact right
  | step moves _ ih =>
    rw [List.append_assoc]
    exact .step moves (ih right)

/-- A run can be cut short after any of its instructions; before the last of them it has not left
the body. -/
theorem exists_of_prefix {position final : Nat} {executed first : List Instruction}
    (run : Run body position executed final) (cut : first <+: executed) :
    ∃ middle, Run body position first middle ∧ (first ≠ executed → middle < body.length) := by
  induction run generalizing first with
  | stay position =>
    obtain rfl := List.prefix_nil.mp cut
    exact ⟨position, .stay position, fun other => absurd rfl other⟩
  | @step position next final item executed moves _ ih =>
    cases passed : item.instruction? with
    | none =>
      rw [passed, Option.toList_none, List.nil_append] at cut
      obtain ⟨middle, run, short⟩ := ih cut
      have onward := step moves run
      rw [passed] at onward
      exact ⟨middle, onward, short⟩
    | some instruction =>
      rw [passed, Option.toList_some, List.singleton_append, List.prefix_cons_iff] at cut
      rcases cut with rfl | ⟨rest, rfl, cut⟩
      · exact ⟨position, .stay position, fun _ =>
          (List.getElem?_eq_some_iff.mp moves.getElem?_eq).1⟩
      · obtain ⟨middle, run, short⟩ := ih cut
        have onward := step moves run
        rw [passed] at onward
        refine ⟨middle, onward, fun other => short fun same => other ?_⟩
        rw [same]
        rfl

/-- Control passes straight through entries that are no terminators. -/
theorem through (before items after : List Item)
    (straight : ∀ item ∈ items, item.isStraight = true) :
    Run (before ++ items ++ after) before.length (items.filterMap Item.instruction?)
      (before.length + items.length) := by
  induction items generalizing before with
  | nil => exact .stay _
  | cons item rest ih =>
    obtain ⟨here, others⟩ := List.forall_mem_cons.mp straight
    have shape : before ++ item :: rest ++ after = before ++ [item] ++ rest ++ after := by simp
    have listed : (before ++ item :: rest ++ after)[before.length]? = some item := by simp
    have onward := step (.straight listed here) (by
      rw [shape, ← List.length_singleton (a := item), ← List.length_append]
      exact ih (before ++ [item]) others)
    rw [List.length_append, List.length_singleton] at onward
    rw [List.length_cons, List.filterMap_cons, Nat.add_comm rest.length, ← Nat.add_assoc]
    cases passed : item.instruction? <;> rw [passed] at onward <;> exact onward

end Run

end Execution.Flat

end ProgramGraphs
