import ProgramGraphs.Proofs.ControlFlow.Section
import ProgramGraphs.Proofs.Graph.Building
import ProgramGraphs.Proofs.Module

/-! # Edges of control-flow graphs

Where a control-flow graph can be built, its nodes are the blocks and the exit, block labels are
distinct, and there is an edge for each way in which control can leave a block, and no other.
-/

namespace ProgramGraphs

namespace ControlFlow

/-- How control leaves the block at a position of a list of blocks, and the position it goes to; the
position after the last block is that of the exit. -/
inductive Leaves (blocks : List Block) (source : Nat) : EdgeKind → Nat → Prop
  | transfer {block other : Block} {last : Instruction} {kind : EdgeKind} {target : Nat} :
      blocks[source]? = some block → block.instructions.getLast? = some last →
        blocks[target]? = some other → last.Transfers kind other.label →
          Leaves blocks source kind target
  | leave {block : Block} {last : Instruction} :
      blocks[source]? = some block → block.instructions.getLast? = some last →
        last.opcode = .ret → Leaves blocks source .leave blocks.length
  | onward {block : Block} : blocks[source]? = some block →
      (∀ last, block.instructions.getLast? = some last → last.isTerminator = false) →
        Leaves blocks source .fallthrough (source + 1)

/-- Among blocks with distinct labels, a label says which block it is. -/
theorem eq_of_label_eq {blocks : List Block} (distinct : (blocks.map (·.label)).Nodup)
    {first second : Nat} {block other : Block} (here : blocks[first]? = some block)
    (there : blocks[second]? = some other) (same : block.label = other.label) : first = second := by
  have inside := (List.getElem?_eq_some_iff.mp here).1
  refine (List.getElem?_inj (by rwa [List.length_map]) distinct).mp ?_
  rw [List.getElem?_map, List.getElem?_map, here, there, Option.map_some, Option.map_some, same]

theorem exists_label_iff {blocks : List Block} (distinct : (blocks.map (·.label)).Nodup)
    {position : Nat} {block : Block} (here : blocks[position]? = some block) (target : Nat) :
    (∃ other, blocks[target]? = some other ∧ other.label = block.label) ↔ target = position := by
  constructor
  · rintro ⟨other, there, same⟩
    exact eq_of_label_eq distinct there here same
  · rintro rfl
    exact ⟨_, here, rfl⟩

/-- The target of a branch is the block of that label. -/
theorem target_eq_ok_iff {function : String} {blocks : List Block} {label? : Option String}
    (distinct : (blocks.map (·.label)).Nodup) (position : Fin blocks.length) :
    target function blocks label? = .ok position ↔
      ∃ block, blocks[position.val]? = some block ∧ label? = some block.label := by
  have here := List.getElem?_eq_getElem position.isLt
  have found (label : String) : blocks.findFinIdx? (·.label == label) = some position ↔
      ∃ block, blocks[position.val]? = some block ∧ label = block.label := by
    rw [List.findFinIdx?_eq_some_iff, beq_iff_eq]
    constructor
    · rintro ⟨same, -⟩
      exact ⟨_, here, same.symm⟩
    · rintro ⟨block, there, same⟩
      cases Option.some.inj (here.symm.trans there)
      refine ⟨same.symm, fun other before named => ?_⟩
      have equal : other.val = position.val :=
        eq_of_label_eq distinct (List.getElem?_eq_getElem other.isLt) here
          ((beq_iff_eq.mp named).trans same)
      exact absurd (Fin.ext equal) (Fin.ne_of_lt before)
  cases label? with
  | none => simp [target]
  | some label =>
    simp only [target, Option.some_inj, ← found]
    split
    · next first => rw [first, Except.ok.injEq, Option.some_inj]
    · next nowhere => simp [nowhere]

section Block

variable {blocks : List Block} {source : Nat} {block : Block}

/-- Control falls out of a block without instructions. -/
theorem leaves_iff_of_none (here : blocks[source]? = some block)
    (nothing : block.instructions.getLast? = none) (kind : EdgeKind) (target : Nat) :
    Leaves blocks source kind target ↔ kind = .fallthrough ∧ target = source + 1 := by
  constructor
  · rintro (⟨found, final, -, -⟩ | ⟨found, final, -⟩ | -)
    · simp_all
    · simp_all
    · exact ⟨rfl, rfl⟩
  · rintro ⟨rfl, rfl⟩
    exact .onward here fun last final => by simp [nothing] at final

/-- The last instruction of a block says how control leaves it. -/
theorem leaves_iff_of_last {last : Instruction} (here : blocks[source]? = some block)
    (final : block.instructions.getLast? = some last) (kind : EdgeKind) (target : Nat) :
    Leaves blocks source kind target ↔
      (∃ other, blocks[target]? = some other ∧ last.Transfers kind other.label) ∨
        (last.opcode = .ret ∧ kind = .leave ∧ target = blocks.length) ∨
          (last.isTerminator = false ∧ kind = .fallthrough ∧ target = source + 1) := by
  constructor
  · rintro (⟨found, ends, there, transfers⟩ | ⟨found, ends, returns⟩ | ⟨found, straight⟩)
    all_goals
      obtain rfl := Option.some.inj (here.symm.trans found)
    · obtain rfl := Option.some.inj (final.symm.trans ends)
      exact .inl ⟨_, there, transfers⟩
    · obtain rfl := Option.some.inj (final.symm.trans ends)
      exact .inr (.inl ⟨returns, rfl, rfl⟩)
    · exact .inr (.inr ⟨straight last final, rfl, rfl⟩)
  · rintro (⟨other, there, transfers⟩ | ⟨returns, rfl, rfl⟩ | ⟨straight, rfl, rfl⟩)
    · exact .transfer here final there transfers
    · exact .leave here final returns
    · refine .onward here fun other ends => ?_
      obtain rfl := Option.some.inj (final.symm.trans ends)
      exact straight

end Block

/-- The exits of a block are all the ways in which control can leave it. -/
theorem mem_exits_iff {function : String} {blocks : List Block} {position : Fin blocks.length}
    {leaving : List (Fin (blocks.length + 1) × EdgeKind)}
    (distinct : (blocks.map (·.label)).Nodup) (ends : exits function blocks position = .ok leaving)
    (goal : Fin (blocks.length + 1)) (kind : EdgeKind) :
    (goal, kind) ∈ leaving ↔ Leaves blocks position kind goal := by
  have here : blocks[position.val]? = some blocks[position] :=
    List.getElem?_eq_getElem position.isLt
  rw [exits] at ends
  split at ends
  · next nothing =>
    cases ends
    rw [leaves_iff_of_none here nothing]
    simp [Fin.ext_iff, and_comm]
  · next last final =>
    rw [leaves_iff_of_last here final]
    simp only [Instruction.transfers_iff, Instruction.isTerminator]
    split at ends
    · next jumps =>
      obtain ⟨taken, finds, ends⟩ := bind_eq_ok_iff.mp ends
      cases ends
      obtain ⟨block, there, named⟩ := (target_eq_ok_iff distinct taken).mp finds
      simp only [jumps, named, Option.some_inj, eq_comm (a := block.label)]
      simp [Opcode.isTerminator, Fin.ext_iff, ← exists_label_iff distinct there, ← and_assoc]
    · next branches =>
      obtain ⟨taken, finds, ends⟩ := bind_eq_ok_iff.mp ends
      obtain ⟨other, strays, ends⟩ := bind_eq_ok_iff.mp ends
      cases ends
      obtain ⟨block, there, named⟩ := (target_eq_ok_iff distinct taken).mp finds
      obtain ⟨rival, beside, second⟩ := (target_eq_ok_iff distinct other).mp strays
      simp only [branches, named, second, Option.some_inj, eq_comm (a := block.label),
        eq_comm (a := rival.label)]
      simp [Opcode.isTerminator, Fin.ext_iff, ← exists_label_iff distinct there,
        ← exists_label_iff distinct beside, and_or_left, exists_or, ← and_assoc]
    · next returns =>
      cases ends
      simp [returns, Opcode.isTerminator, Fin.ext_iff, and_comm]
    · next jumps branches returns =>
      cases ends
      simp_all [Opcode.isTerminator, Fin.ext_iff, and_comm]

theorem exits_ne_nil {function : String} {blocks : List Block} {position : Fin blocks.length}
    {leaving : List (Fin (blocks.length + 1) × EdgeKind)}
    (ends : exits function blocks position = .ok leaving) : leaving ≠ [] := by
  rintro rfl
  rw [exits] at ends
  split at ends
  · cases ends
  · split at ends
    · obtain ⟨_, -, ends⟩ := bind_eq_ok_iff.mp ends
      cases ends
    · obtain ⟨_, -, ends⟩ := bind_eq_ok_iff.mp ends
      obtain ⟨_, -, ends⟩ := bind_eq_ok_iff.mp ends
      cases ends
    · cases ends
    · cases ends

/-- What a control-flow graph of a function is made of. -/
structure Describes (flow : ControlFlow) (function : Function) : Prop where
  nodes : flow.graph.nodes.toList = function.blocks ++ [Block.exit]
  distinct : (function.blocks.map (·.label)).Nodup
  edges : ∀ source target kind, ⟨source, target, kind⟩ ∈ flow.graph.edges.toList ↔
    Leaves function.blocks source kind target
  continues : ∀ source < function.blocks.length, ∃ kind target,
    Leaves function.blocks source kind target

theorem Leaves.source_lt {blocks : List Block} {source target : Nat} {kind : EdgeKind}
    (leaves : Leaves blocks source kind target) : source < blocks.length := by
  cases leaves <;> exact (List.getElem?_eq_some_iff.mp ‹blocks[source]? = some _›).1

theorem Leaves.target_le {blocks : List Block} {source target : Nat} {kind : EdgeKind}
    (leaves : Leaves blocks source kind target) : target ≤ blocks.length := by
  have inside := leaves.source_lt
  cases leaves with
  | transfer _ _ there _ => exact Nat.le_of_lt (List.getElem?_eq_some_iff.mp there).1
  | leave => exact Nat.le_refl _
  | onward => exact inside

/-- For each way in which control can leave a block there is one place that it goes to. -/
theorem Leaves.target_unique {blocks : List Block} (distinct : (blocks.map (·.label)).Nodup)
    {source first second : Nat} {kind : EdgeKind} (one : Leaves blocks source kind first)
    (other : Leaves blocks source kind second) : first = second := by
  cases one with
  | transfer here final there transfers =>
    cases other with
    | transfer found ends beyond goes =>
      obtain rfl := Option.some.inj (here.symm.trans found)
      obtain rfl := Option.some.inj (final.symm.trans ends)
      exact eq_of_label_eq distinct there beyond (transfers.name_unique goes)
    | leave => cases transfers
    | onward => cases transfers
  | leave =>
    cases other with
    | transfer _ _ _ goes => cases goes
    | leave => rfl
  | onward =>
    cases other with
    | transfer _ _ _ goes => cases goes
    | onward => rfl

theorem mem_edges_iff {function : String} {blocks : List Block}
    {edges : List (Fin (blocks.length + 1) × Fin (blocks.length + 1) × EdgeKind)}
    (distinct : (blocks.map (·.label)).Nodup)
    (builds : ControlFlow.edges function blocks = .ok edges) (source target : Nat)
    (kind : EdgeKind) :
    (∃ first second, (first, second, kind) ∈ edges ∧ first.val = source ∧ second.val = target) ↔
      Leaves blocks source kind target := by
  obtain ⟨rows, runs, builds⟩ := bind_eq_ok_iff.mp builds
  cases builds
  constructor
  · rintro ⟨first, second, member, rfl, rfl⟩
    obtain ⟨row, listed, member⟩ := List.mem_flatten.mp member
    obtain ⟨position, -, given⟩ := exists_entry_of_mapM_eq_ok runs listed
    obtain ⟨leaving, ends, given⟩ := bind_eq_ok_iff.mp given
    cases given
    obtain ⟨⟨goal, way⟩, inside, same⟩ := List.mem_map.mp member
    cases same
    exact (mem_exits_iff distinct ends _ _).mp inside
  · intro leaves
    obtain ⟨row, listed, given⟩ :=
      exists_result_of_mapM_eq_ok runs (List.mem_finRange ⟨source, leaves.source_lt⟩)
    obtain ⟨leaving, ends, given⟩ := bind_eq_ok_iff.mp given
    cases given
    have inside := (mem_exits_iff distinct ends ⟨target, Nat.lt_succ_of_le leaves.target_le⟩
      kind).mpr leaves
    exact ⟨_, _, List.mem_flatten.mpr ⟨_, listed, List.mem_map_of_mem inside⟩, rfl, rfl⟩

/-- A graph that is built has the blocks of its function, and the edges between them. -/
theorem describes_ofFunction {function : Function} {flow : ControlFlow}
    (builds : ofFunction function = .ok flow) : flow.Describes function := by
  rw [ofFunction] at builds
  dsimp only at builds
  split at builds
  · cases builds
  · next unrepeated =>
    obtain ⟨edges, leads, builds⟩ := bind_eq_ok_iff.mp builds
    cases builds
    have distinct := (firstRepeated?_eq_none_iff _).mp unrepeated
    refine ⟨Digraph.nodes_ofEdges _ _, distinct, fun source target kind => ?_,
      fun source inside => ?_⟩
    · rw [← mem_edges_iff distinct leads, ofBlocks, Digraph.edges_ofEdges]
      simp
    · obtain ⟨rows, runs, -⟩ := bind_eq_ok_iff.mp leads
      obtain ⟨row, -, given⟩ :=
        exists_result_of_mapM_eq_ok runs (List.mem_finRange ⟨source, inside⟩)
      obtain ⟨leaving, ends, -⟩ := bind_eq_ok_iff.mp given
      obtain ⟨⟨goal, kind⟩, member⟩ := List.exists_mem_of_ne_nil _ (exits_ne_nil ends)
      exact ⟨kind, goal, (mem_exits_iff distinct ends goal kind).mp member⟩

end ControlFlow

end ProgramGraphs
