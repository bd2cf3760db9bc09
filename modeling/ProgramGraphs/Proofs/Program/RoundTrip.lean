import ProgramGraphs.Proofs.Module
import ProgramGraphs.Proofs.Program.Loading
import ProgramGraphs.Proofs.Promotion.Slot

/-! # Writing and reading programs

A program that can be written is the one that is read from its compact text. Programs that have been
read can be written, and so can what passes make of them: promotion writes copies, which have no
literal, and their types are types of the function or what these point to.
-/

namespace ProgramGraphs

/-! ## What passes write -/

/-- An access to a slot is replaced by a copy; its type is that of the contents, or that of the
access. -/
theorem Slot.eq_copy_of_replaceAccess {slot : Slot} {access replaced : Instruction}
    (becomes : slot.replaceAccess access = some replaced) :
    ∃ dest type operand, replaced = .copy dest type operand ∧
      (type = slot.pointee ∨ access.type = some type) := by
  unfold replaceAccess at becomes
  split at becomes
  · cases becomes
    exact ⟨_, _, _, rfl, .inl rfl⟩
  · cases becomes
    refine ⟨_, _, _, rfl, ?_⟩
    cases access.type with
    | none => exact .inl rfl
    | some type => exact .inr rfl
  · cases becomes

namespace Function

variable {function : Function}

/-- Promotion leaves an instruction as it was or writes a copy in its place. -/
theorem mem_instructions_promote {instruction : Instruction}
    (member : instruction ∈ function.promote.instructions) :
    instruction ∈ function.instructions ∨
      ∃ slot ∈ function.slots, ∃ access ∈ function.instructions,
        slot.replaceAccess access = some instruction := by
  obtain ⟨replaced, inside, same⟩ := List.mem_filterMap.mp member
  obtain ⟨item, old, becomes⟩ := List.mem_filterMap.mp inside
  cases item with
  | label name =>
    cases becomes
    cases same
  | instruction operation =>
    have present : operation ∈ function.instructions := List.mem_filterMap.mpr ⟨_, old, rfl⟩
    rw [Slot.replaceIn] at becomes
    split at becomes
    · cases becomes
      cases same
      exact .inl present
    · next slot accessed =>
      obtain ⟨copied, copies, rfl⟩ := Option.map_eq_some_iff.mp becomes
      cases same
      obtain ⟨isSlot, -⟩ := (accessed?_eq_some_iff operation slot).mp accessed
      exact .inr ⟨slot, isSlot, operation, present, copies⟩

/-- The types of copies that promotion writes are not nested deeper than those of the function. -/
theorem FitsAt.promote {depth : Nat} (fits : function.FitsAt depth) :
    function.promote.FitsAt depth := by
  refine ⟨fits.1, fun instruction member => ?_⟩
  obtain inside | ⟨slot, isSlot, access, inside, becomes⟩ := mem_instructions_promote member
  · exact fits.2 instruction inside
  · obtain ⟨dest, type, operand, rfl, origin⟩ := Slot.eq_copy_of_replaceAccess becomes
    refine ⟨?_, by simp [Instruction.copy]⟩
    rintro _ ⟨⟩
    obtain rfl | typed := origin
    -- the contents of a slot are one pointer less deep than the type of its allocation
    · obtain ⟨alloc, allocates, typed⟩ := function.exists_pointer_of_mem_slots isSlot
      have deep := (fits.2 alloc allocates).1 _ typed
      rw [ValueType.nesting_toJson_pointer] at deep
      omega
    · exact (fits.2 access inside).1 type typed

theorem Storable.promote (storable : function.Storable) : function.promote.Storable := by
  intro instruction member
  obtain inside | ⟨slot, isSlot, access, inside, becomes⟩ := mem_instructions_promote member
  · exact storable instruction inside
  · obtain ⟨dest, type, operand, rfl, -⟩ := Slot.eq_copy_of_replaceAccess becomes
    simp [Instruction.Storable, Instruction.copy]

end Function

theorem Program.Writable.promote {program : Program} (writable : program.Writable) :
    program.promote.Writable := by
  refine ⟨?_, writable.externs⟩
  rw [Program.promote, List.forall_mem_map]
  intro function member
  obtain ⟨fits, storable⟩ := writable.functions function member
  exact ⟨fits.promote, storable.promote⟩

namespace Module

/-- No pass makes a program that cannot be written. -/
theorem writable_runPass (module : Module) (pass : Pass) (writable : module.program.Writable) :
    (module.runPass pass).result.program.Writable := by
  cases pass with
  | promoteMemory => exact writable.promote
  | basicAlias => exact writable

/-- The program of a loaded module can be written, whatever passes have run. -/
theorem writable_of_ofText {name : String} {text : Json.Text} {passes : List Pass}
    {module : Module} (loads : Attempt.Yields (ofText name text passes) module) :
    module.program.Writable := by
  unfold ofText at loads
  split at loads
  · next program reads =>
    obtain ⟨-, rfl⟩ := ofProgram_yields_iff.mp loads
    exact foldlM_runPass_keeps (fun reached => reached.program.Writable) writable_runPass passes
      (Program.writable_of_read reads)
  · simp at loads

end Module

/-! ## Reading what has been written -/

namespace Program

/-- Writing a program and reading the bytes of its compact text loses nothing, if no literal is
null, the text is nested no deeper than is read, and the floating-point literals read back. Literals
are taken in the form in which they are kept, the members of objects sorted by key. A program that
has been read, however its text spells it, is nested no deeper and has such literals, before and
after any passes. -/
theorem read_compact_toJson :
    (∀ program : Program, program.toJson.nesting ≤ Json.Tree.depthLimit → program.Storable →
      (∀ float ∈ program.toJson.floats, (Json.Number.float float).ReadsBack) →
        decoder.read (.ofBytes program.toJson.compact.toUTF8) = .ok program) ∧
    (∀ (text : Json.Text) (program : Program), decoder.read text = .ok program →
      program.toJson.nesting ≤ Json.Tree.depthLimit ∧ program.Storable) ∧
    ∀ (name : String) (text : Json.Text) (passes : List Pass) (module : Module),
      Attempt.Yields (Module.ofText name text passes) module →
        module.program.toJson.nesting ≤ Json.Tree.depthLimit ∧ module.program.Storable := by
  refine ⟨fun program fits storable floats => ?_, fun text program reads => ?_,
    fun name text passes module loads => ?_⟩
  · rw [Json.Text.ofBytes_toUTF8, Json.Decoder.read_compact decoder program.toJson floats]
    exact restores storable 0 (by rwa [Nat.zero_add])
  · exact program.writable_iff.mp (writable_of_read reads)
  · exact module.program.writable_iff.mp (Module.writable_of_ofText loads)

/-- The number one and a half. -/
def oneAndAHalf : Json.Binary64 :=
  ⟨false, 6755399441055744, -52, by decide⟩

theorem readsBack_oneAndAHalf : (Json.Number.float oneAndAHalf).ReadsBack := by
  have read : (Json.ScaledWord.ofDigits ['1'] ['5'] 0).toBinary64? false = some oneAndAHalf := by
    decide +kernel
  have written : (Json.Number.float oneAndAHalf).chars = ['1', '.', '5'] := rfl
  have scanned : Json.Token.scanNumber false (['1', '.', '5'].map some) =
      (.number (.ok (.float oneAndAHalf)), []) := by
    change (Json.Token.number (Json.Token.scaledNumber false ['1'] ['5'] 0), []) = _
    rw [Json.Token.scaledNumber, read]
  rw [Json.Number.readsBack_iff, written, List.map_cons, Json.Token.scan_of_scanOne rfl,
    Json.Token.scan]
  exact scanned

/-- A program with a slot, a label called as a field is, text to escape and an object as a literal
that would be taken for a label in another place. -/
def withSlot : Program where
  functions := [
    { name := "say \"hi\"\n"
      parameters := [⟨"n", .named "int"⟩]
      returnType := some (.named "float")
      body := [
        .label "op",
        .instruction
          { name := "const", dest := some "x", type := some (.named "float"),
            value := some (.object [("label", .array [.number (.float oneAndAHalf), .null])]) },
        .instruction
          { name := "alloc", dest := some "p", type := some (.pointer (.named "float")),
            args := ["n"] },
        .instruction { name := "store", args := ["p", "x"] },
        .instruction { name := "jmp", labels := ["op"] }] }]
  externs := [{ name := "print", parameters := [⟨"at", .pointer (.named "int")⟩] }]

/-- It is read as it has been written, and so is the program that has been loaded from its text. -/
theorem read_compact_toJson_withSlot :
    decoder.read (.ofBytes withSlot.toJson.compact.toUTF8) = .ok withSlot ∧
      ∃ module, Attempt.Yields (Module.ofText "m" (.ofBytes withSlot.toJson.compact.toUTF8)
          Pass.defaults) module ∧
        decoder.read (.ofBytes module.program.toJson.compact.toUTF8) = .ok module.program := by
  obtain ⟨written, -, loaded⟩ := read_compact_toJson
  have storable : withSlot.Storable := by
    rw [Storable, withSlot, List.forall_mem_singleton]
    change ∀ instruction ∈ [_, _, _, _], Instruction.Storable instruction
    simp only [List.forall_mem_cons, Instruction.Storable, Option.mem_def, Option.some.injEq,
      forall_eq', reduceCtorEq, List.not_mem_nil, false_implies, implies_true, and_true]
    exact ⟨by simp, rfl⟩
  have floats : withSlot.toJson.floats = [oneAndAHalf] := rfl
  have back := written withSlot (by decide) storable (by simp [floats, readsBack_oneAndAHalf])
  have loads : Attempt.Yields (Module.ofText "m" (.ofBytes withSlot.toJson.compact.toUTF8)
      Pass.defaults) ⟨"m", withSlot.promote, withSlot.promote.aliasClasses⟩ := by
    rw [Module.ofText, back]
    exact Module.ofProgram_yields_iff.mpr ⟨by decide, rfl⟩
  obtain ⟨fits, kept⟩ := loaded _ _ _ _ loads
  have keptFloats : withSlot.promote.toJson.floats = [oneAndAHalf] := rfl
  exact ⟨back, _, loads, written _ fits kept (by simp [keptFloats, readsBack_oneAndAHalf])⟩

end Program

end ProgramGraphs
