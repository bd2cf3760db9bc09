import ProgramGraphs.Proofs.ControlFlow.Label

/-! # Bodies that have a control-flow graph

A graph is built where no label is declared twice and every jump and branch finds the blocks that it
names. Only the last instruction of a block is looked at, which is enough: jumps and branches stand
nowhere else. The names that it is looked up among are those of the blocks, so a jump may also go by
the name that a block without a label was given, though no such label is declared.
-/

namespace ProgramGraphs

namespace Instruction

variable {instruction : Instruction} {names : List String}

/-- A jump has a label and a branch has two, and they are among some names. -/
def FindsTargets (instruction : Instruction) (names : List String) : Prop :=
  (instruction.opcode = .jmp → ∃ name ∈ names, instruction.labels[0]? = some name) ∧
    (instruction.opcode = .br → (∃ name ∈ names, instruction.labels[0]? = some name) ∧
      ∃ name ∈ names, instruction.labels[1]? = some name)

theorem findsTargets_of_not_isTerminator (onward : instruction.isTerminator = false) :
    instruction.FindsTargets names := by
  constructor <;> intro operation <;>
    simp [isTerminator, Opcode.isTerminator, operation] at onward

/-- Labels are missing, or one leads nowhere. -/
theorem not_findsTargets_iff : ¬ instruction.FindsTargets names ↔
    (instruction.opcode = .jmp ∧ instruction.labels = []) ∨
      (instruction.opcode = .br ∧ instruction.labels.length < 2) ∨
        ∃ kind name, instruction.Transfers kind name ∧ name ∉ names := by
  constructor
  · intro misses
    by_contra fine
    obtain ⟨jumps, branches, goes⟩ := by simpa only [not_or] using fine
    refine misses ⟨fun operation => ?_, fun operation => ?_⟩
    · have first : 0 < instruction.labels.length :=
        List.length_pos_iff.mpr fun empty => jumps ⟨operation, empty⟩
      have named := List.getElem?_eq_getElem first
      exact ⟨_, not_not.mp fun stray => goes ⟨_, _, .jump operation named, stray⟩, named⟩
    · have second : 1 < instruction.labels.length :=
        Nat.lt_of_not_le fun short => branches ⟨operation, Nat.lt_succ_of_le short⟩
      have taken := List.getElem?_eq_getElem (Nat.lt_of_succ_lt second)
      have other := List.getElem?_eq_getElem second
      exact ⟨⟨_, not_not.mp fun stray => goes ⟨_, _, .whenTrue operation taken, stray⟩, taken⟩,
        _, not_not.mp fun stray => goes ⟨_, _, .whenFalse operation other, stray⟩, other⟩
  · rintro (⟨operation, empty⟩ | ⟨operation, short⟩ | ⟨kind, name, transfers, stray⟩)
      ⟨jumps, branches⟩
    · obtain ⟨name, -, named⟩ := jumps operation
      simp [empty] at named
    · obtain ⟨-, name, -, named⟩ := branches operation
      rw [List.getElem?_eq_none (Nat.le_of_lt_succ short)] at named
      cases named
    · cases transfers with
      | jump operation named =>
        obtain ⟨other, member, found⟩ := jumps operation
        exact stray (Option.some.inj (named.symm.trans found) ▸ member)
      | whenTrue operation named =>
        obtain ⟨⟨other, member, found⟩, -⟩ := branches operation
        exact stray (Option.some.inj (named.symm.trans found) ▸ member)
      | whenFalse operation named =>
        obtain ⟨-, other, member, found⟩ := branches operation
        exact stray (Option.some.inj (named.symm.trans found) ▸ member)

end Instruction

/-- The instructions of a body are those of its blocks. -/
theorem Function.instructions_eq (function : Function) :
    function.instructions = function.blocks.flatMap (·.instructions) := by
  have sections : (Section.ofBody function.body).flatMap (·.instructions) =
      function.blocks.flatMap (·.instructions) := by
    refine congrArg List.flatten (List.ext_getElem? fun position => ?_)
    rw [List.getElem?_map, List.getElem?_map, function.getElem?_blocks, Option.map_map]
    rfl
  rw [← sections, instructions]
  conv_lhs => rw [← Section.flatMap_items_ofBody function.body]
  rw [List.filterMap_flatMap]
  exact congrArg (List.flatMap · _) (funext Section.filterMap_instruction?_items)

/-- What holds of all instructions but terminators holds of all instructions, if it holds of those
that blocks end with. -/
theorem Function.forall_mem_instructions_iff {function : Function} {holds : Instruction → Prop}
    (onward : ∀ instruction, instruction.isTerminator = false → holds instruction) :
    (∀ instruction ∈ function.instructions, holds instruction) ↔
      ∀ block ∈ function.blocks, ∀ last, block.instructions.getLast? = some last → holds last := by
  rw [function.instructions_eq]
  constructor
  · intro all block member last ends
    exact all last (List.mem_flatMap.mpr ⟨block, member, List.mem_of_getLast? ends⟩)
  · intro lasts instruction member
    obtain ⟨block, listed, inside⟩ := List.mem_flatMap.mp member
    obtain ⟨position, here⟩ := List.getElem?_of_mem listed
    obtain ⟨content, found, same, -⟩ := ControlFlow.section_of_block here
    rcases List.eq_nil_or_concat block.instructions with nothing | ⟨front, last, shape⟩
    · rw [nothing] at inside
      cases inside
    · rw [List.concat_eq_append] at shape
      rw [shape] at inside
      rcases List.mem_append.mp inside with inside | inside
      · have straight := Section.isStraight_of_mem_ofBody (List.mem_of_getElem? found)
        refine onward _ (straight _ ?_)
        rwa [← same, shape, List.dropLast_concat]
      · rw [List.mem_singleton.mp inside]
        exact lasts block listed last (by rw [shape, List.getLast?_concat])

namespace ControlFlow

/-- The target of a branch is found where a block has its label. -/
theorem exists_target_iff (function : String) {blocks : List Block} {label? : Option String} :
    (∃ position, target function blocks label? = .ok position) ↔
      ∃ name ∈ blocks.map (·.label), label? = some name := by
  cases label? with
  | none => simp [target]
  | some label =>
    have found : (blocks.findFinIdx? (·.label == label)).isSome ↔ label ∈ blocks.map (·.label) := by
      simp [List.isSome_findFinIdx?]
    simp only [Option.some_inj, exists_eq_right', ← found, target]
    cases blocks.findFinIdx? (·.label == label) <;> simp

theorem exists_exits_iff {function : String} {blocks : List Block} {position : Fin blocks.length} :
    (∃ leaving, exits function blocks position = .ok leaving) ↔
      ∀ last, (blocks.get position).instructions.getLast? = some last →
        last.FindsTargets (blocks.map (·.label)) := by
  rw [exits, Fin.getElem_fin, List.get_eq_getElem]
  cases ends : blocks[position.val].instructions.getLast? with
  | none => simp
  | some last =>
    simp only [Option.some_inj, forall_eq', Instruction.FindsTargets, ← exists_target_iff function]
    cases operation : last.opcode <;>
      simp [exists_bind_eq_ok_iff, exists_pure_eq_ok, -bind_pure_comp]

theorem exists_edges_iff (function : String) {blocks : List Block} :
    (∃ edges, ControlFlow.edges function blocks = .ok edges) ↔
      ∀ block ∈ blocks, ∀ last, block.instructions.getLast? = some last →
        last.FindsTargets (blocks.map (·.label)) := by
  simp only [ControlFlow.edges, exists_bind_eq_ok_iff, exists_pure_eq_ok, and_true,
    exists_mapM_eq_ok_iff, exists_exits_iff]
  constructor
  · intro goes block member
    obtain ⟨position, inside, rfl⟩ := List.getElem_of_mem member
    exact goes ⟨position, inside⟩ (List.mem_finRange _)
  · exact fun goes position _ => goes _ (List.get_mem blocks position)

/-- A graph is built where labels are distinct and every instruction finds the labels it needs. -/
theorem exists_ofFunction_iff (function : Function) : (∃ flow, ofFunction function = .ok flow) ↔
    function.declaredLabels.Nodup ∧ ∀ instruction ∈ function.instructions,
      instruction.FindsTargets (function.blocks.map (·.label)) := by
  rw [← function.nodup_labels_blocks_iff, ← firstRepeated?_eq_none_iff,
    function.forall_mem_instructions_iff fun _ => Instruction.findsTargets_of_not_isTerminator,
    ← exists_edges_iff function.name, ofFunction]
  cases firstRepeated? (function.blocks.map (·.label)) with
  | none => simp [exists_bind_eq_ok_iff, exists_pure_eq_ok, -bind_pure_comp]
  | some label => simp [bind_eq_ok_iff]

/-- No graph is built exactly where a label is declared twice, a jump has no label, a branch has
fewer than two, or one goes to a label that is neither declared nor the name that a block without a
label was given. -/
theorem fails_ofFunction_iff (function : Function) :
    (∃ fault, ofFunction function = .error fault) ↔
      ¬ function.declaredLabels.Nodup ∨
        (∃ instruction ∈ function.instructions,
          instruction.opcode = .jmp ∧ instruction.labels = []) ∨
        (∃ instruction ∈ function.instructions,
          instruction.opcode = .br ∧ instruction.labels.length < 2) ∨
        ∃ instruction ∈ function.instructions, ∃ kind name, instruction.Transfers kind name ∧
          name ∉ function.declaredLabels ∧ name ∉ function.generatedNames := by
  have fails : (∃ fault, ofFunction function = .error fault) ↔
      ¬ ∃ flow, ofFunction function = .ok flow := by
    cases ofFunction function <;> simp
  have strays (name : String) : name ∉ function.blocks.map (·.label) ↔
      name ∉ function.declaredLabels ∧ name ∉ function.generatedNames := by
    rw [function.mem_labels_blocks_iff, not_or]
  rw [fails, exists_ofFunction_iff, not_and_or]
  simp only [not_forall, exists_prop, Instruction.not_findsTargets_iff, strays, and_or_left,
    exists_or]

/-- A body that jumps to its only block, which has no label. -/
def namesItself : Function where
  name := "namesItself"
  body := [.instruction { name := "jmp", labels := ["b0"] }]

/-- The jump goes to a label that is not declared, and there is a graph all the same. -/
theorem namesItself_builds : (∃ flow, ofFunction namesItself = .ok flow) ∧
    ∃ instruction ∈ namesItself.instructions, ∃ kind name, instruction.Transfers kind name ∧
      name ∉ namesItself.declaredLabels := by
  refine ⟨⟨_, rfl⟩, { name := "jmp", labels := ["b0"] }, ?_, .jump, "b0", .jump rfl rfl, by decide⟩
  exact List.mem_singleton.mpr rfl

end ControlFlow

end ProgramGraphs
