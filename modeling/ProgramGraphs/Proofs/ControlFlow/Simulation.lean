import ProgramGraphs.Proofs.ControlFlow.Edge

/-! # Walks and runs

A control-flow graph says neither more nor less than the flat body. A run that stands at an entry
of the body stands at an offset in a block, or at the exit; one step of the run stays in the block
or ends it and takes an edge (`Standing.moves`). The other way round, an edge is the run through the
block it leaves (`run_of_leaves`). So runs from the start to the end are walks from the entry to the
exit, and runs that stop earlier are cut short from a walk.
-/

namespace ProgramGraphs

open Execution.Flat

/-- All labels that jumps and branches of a body go to are declared in it. -/
def Function.TargetsDeclared (function : Function) : Prop :=
  ∀ instruction kind name, .instruction instruction ∈ function.body →
    instruction.Transfers kind name → name ∈ function.declaredLabels

/-- The block at a position names the section there. -/
theorem Function.getElem?_blocks (function : Function) (position : Nat) :
    function.blocks[position]? = (Section.ofBody function.body)[position]?.map fun content =>
      Block.ofSection ((Section.ofBody function.body).filterMap (·.label)) content position := by
  rw [blocks, List.getElem?_mapIdx]

theorem Function.length_blocks (function : Function) :
    function.blocks.length = (Section.ofBody function.body).length := by
  rw [blocks, List.length_mapIdx]

namespace ControlFlow

variable {function : Function}

theorem section_of_block {position : Nat} {block : Block}
    (here : function.blocks[position]? = some block) : ∃ content,
      (Section.ofBody function.body)[position]? = some content ∧
        block.instructions = content.instructions ∧
          ∀ name, content.label = some name → block.label = name := by
  rw [function.getElem?_blocks, Option.map_eq_some_iff] at here
  obtain ⟨content, found, rfl⟩ := here
  refine ⟨content, found, rfl, fun name named => ?_⟩
  rw [Block.ofSection, named, Option.getD_some]

theorem block_of_section {position : Nat} {content : Section}
    (here : (Section.ofBody function.body)[position]? = some content) : ∃ block,
      function.blocks[position]? = some block ∧ block.instructions = content.instructions ∧
          ∀ name, content.label = some name → block.label = name := by
  refine ⟨_, by rw [function.getElem?_blocks, here, Option.map_some], rfl, fun name named => ?_⟩
  rw [Block.ofSection, named, Option.getD_some]

/-- A declared label is found where the section of that label starts. -/
theorem exists_section_of_declared (distinct : (function.blocks.map (·.label)).Nodup)
    {name : String} (declared : name ∈ function.declaredLabels) : ∃ index block,
      function.blocks[index]? = some block ∧ block.label = name ∧
        Item.position? name function.body =
          some (Section.start (Section.ofBody function.body) index) := by
  rw [function.declaredLabels_eq] at declared
  obtain ⟨content, member, named⟩ := List.mem_filterMap.mp declared
  obtain ⟨index, here⟩ := List.getElem?_of_mem member
  obtain ⟨block, found, -, labelled⟩ := block_of_section here
  refine ⟨index, block, found, labelled name named, Section.position?_eq here named ?_⟩
  intro other rival there claims
  obtain ⟨twin, beside, -, same⟩ := block_of_section there
  exact eq_of_label_eq distinct beside found ((same name claims).trans (labelled name named).symm)

/-- Where the section of an index starts in the body of a function. -/
def startOf (function : Function) (index : Nat) : Nat :=
  Section.start (Section.ofBody function.body) index

theorem startOf_length (function : Function) :
    startOf function function.blocks.length = function.body.length := by
  rw [startOf, function.length_blocks, Section.start_length]

/-- A section is run through where its last instruction takes a step: that is a step of its own,
after the straight run up to it. -/
theorem run_of_last {source goal : Nat} {content : Section} {last : Instruction}
    (found : (Section.ofBody function.body)[source]? = some content)
    (final : content.instructions.getLast? = some last)
    (moves : ∀ position, function.body[position]? = some (.instruction last) →
      Moves function.body position (.instruction last) goal) :
    Run function.body (startOf function source) content.instructions goal := by
  have straight := Section.isStraight_of_mem_ofBody (List.mem_of_getElem? found)
  obtain ⟨front, split⟩ := List.getLast?_eq_some_iff.mp
    ((Section.getLast?_items_iff content last).mpr final)
  have first := Section.run_through found split fun item member =>
    straight.dropLast_items item (by rwa [split, List.dropLast_concat])
  have inside : front.length < content.items.length := by simp [split]
  have listed := Section.getElem?_body found inside
  have whole := first.append (Run.single (moves _ (listed.trans (by simp [split]))))
  rw [← Section.filterMap_instruction?_items, split, List.filterMap_append]
  exact whole

/-- An edge is the run through the block that it leaves. -/
theorem run_of_leaves (distinct : (function.blocks.map (·.label)).Nodup)
    (declared : function.TargetsDeclared) {source target : Nat} {kind : EdgeKind} {block : Block}
    (leaves : Leaves function.blocks source kind target)
    (here : function.blocks[source]? = some block) :
    Run function.body (startOf function source) block.instructions (startOf function target) := by
  obtain ⟨content, found, same, -⟩ := section_of_block here
  rw [same]
  cases leaves with
  | transfer there final beyond transfers =>
    obtain rfl := Option.some.inj (here.symm.trans there)
    rw [same] at final
    refine run_of_last found final fun position listed => .transfer listed transfers ?_
    obtain ⟨index, twin, beside, named, stands⟩ := exists_section_of_declared distinct
      (declared _ _ _ (List.mem_of_getElem? listed) transfers)
    rw [stands, startOf, eq_of_label_eq distinct beside beyond named]
  | leave there final returns =>
    obtain rfl := Option.some.inj (here.symm.trans there)
    rw [same] at final
    rw [startOf_length]
    exact run_of_last found final fun position listed => .leave listed returns
  | onward there falls =>
    obtain rfl := Option.some.inj (here.symm.trans there)
    rw [same] at falls
    have straight := Section.isStraight_of_mem_ofBody (List.mem_of_getElem? found)
    have run := Section.run_through found (List.append_nil _).symm (straight.of_last falls)
    rwa [Section.filterMap_instruction?_items, ← Section.start_succ found] at run

/-- Where a run that stands at a position of the body is: at an entry of a section, or past the last
section, at the exit. -/
inductive Standing (function : Function) (node offset : Nat) : Nat → Prop
  | inside {content : Section} : (Section.ofBody function.body)[node]? = some content →
      offset < content.items.length → Standing function node offset (startOf function node + offset)
  | outside : node = function.blocks.length → offset = 0 →
      Standing function node offset function.body.length

/-- The instructions that are still to come in a section after an offset. -/
def remaining (function : Function) (node offset : Nat) : List Instruction :=
  ((Section.ofBody function.body)[node]?.map fun content =>
    (content.items.drop offset).filterMap Item.instruction?).getD []

theorem remaining_zero {node : Nat} {block : Block} (here : function.blocks[node]? = some block) :
    remaining function node 0 = block.instructions := by
  obtain ⟨content, found, same, -⟩ := section_of_block here
  rw [remaining, found, same]
  simp

theorem remaining_length (offset : Nat) :
    remaining function function.blocks.length offset = [] := by
  rw [remaining, function.length_blocks, List.getElem?_length]
  rfl

theorem remaining_eq {node offset : Nat} {content : Section} {item : Item}
    (here : (Section.ofBody function.body)[node]? = some content)
    (listed : content.items[offset]? = some item) :
    remaining function node offset =
      item.instruction?.toList ++ remaining function node (offset + 1) := by
  obtain ⟨inside, rfl⟩ := List.getElem?_eq_some_iff.mp listed
  simp only [remaining, here, Option.map_some, Option.getD_some]
  rw [List.drop_eq_getElem_cons inside, List.filterMap_cons]
  cases content.items[offset].instruction? <;> rfl

/-- Where a section starts, a run stands before its first entry. -/
theorem standing_startOf (nonempty : function.body ≠ []) {node : Nat}
    (within : node ≤ function.blocks.length) :
    Standing function node 0 (startOf function node) := by
  rcases Nat.lt_or_eq_of_le within with inside | rfl
  · rw [function.length_blocks] at inside
    have here := List.getElem?_eq_getElem inside
    exact .inside here (List.length_pos_of_ne_nil
      (Section.items_ne_nil_of_mem_ofBody nonempty (List.getElem_mem inside)))
  · rw [startOf_length]
    exact .outside rfl rfl

/-- The step past the last entry of a section takes an edge. -/
theorem exists_leaves_of_last (distinct : (function.blocks.map (·.label)).Nodup)
    {node position next : Nat} {content : Section} {item : Item}
    (found : (Section.ofBody function.body)[node]? = some content)
    (final : content.items.getLast? = some item)
    (stands : position + 1 = startOf function (node + 1))
    (moves : Moves function.body position item next) :
    ∃ kind target, Leaves function.blocks node kind target ∧ next = startOf function target := by
  obtain ⟨block, here, same, -⟩ := block_of_section found
  have falls (straight : item.isStraight = true) :
      Leaves function.blocks node .fallthrough (node + 1) := by
    refine .onward here fun last ends => ?_
    rw [same, ← Section.getLast?_items_iff, final, Option.some_inj] at ends
    simpa [ends, Item.isStraight] using straight
  cases moves with
  | label => exact ⟨_, _, falls rfl, stands⟩
  | onward _ straight => exact ⟨_, _, falls (by simp [Item.isStraight, straight]), stands⟩
  | @transfer instruction _ name _ _ transfers goes =>
    rw [Section.getLast?_items_iff, ← same] at final
    obtain ⟨inside, labelled, -⟩ := List.findIdx?_eq_some_iff_getElem.mp goes
    have declared : name ∈ function.declaredLabels :=
      List.mem_filterMap.mpr ⟨_, List.getElem_mem inside, of_decide_eq_true labelled⟩
    obtain ⟨index, other, there, named, starts⟩ := exists_section_of_declared distinct declared
    rw [goes, Option.some_inj] at starts
    exact ⟨_, index, .transfer here final there (named ▸ transfers), starts⟩
  | leave _ returns =>
    rw [Section.getLast?_items_iff, ← same] at final
    exact ⟨_, _, .leave here final returns, (startOf_length function).symm⟩

/-- A step of a run stays in the block or takes an edge. -/
theorem Standing.moves (distinct : (function.blocks.map (·.label)).Nodup)
    {node offset position next : Nat} {item : Item}
    (standing : Standing function node offset position)
    (moves : Moves function.body position item next) :
    (Standing function node (offset + 1) next ∧ remaining function node offset =
      item.instruction?.toList ++ remaining function node (offset + 1)) ∨
    ∃ kind target, Leaves function.blocks node kind target ∧ Standing function target 0 next ∧
      remaining function node offset = item.instruction?.toList := by
  cases standing with
  | outside =>
    have listed := moves.getElem?_eq
    simp at listed
  | @inside content found inside =>
    have nonempty : function.body ≠ [] := by
      intro nothing
      have listed := moves.getElem?_eq
      simp [nothing] at listed
    have listed : content.items[offset]? = some item := by
      rw [← Section.getElem?_body found inside]
      exact moves.getElem?_eq
    have left := remaining_eq found listed
    rcases Nat.lt_or_eq_of_le (Nat.succ_le_of_lt inside) with more | last
    · -- an entry before the last of its section is no terminator
      have member : item ∈ content.items.dropLast := by
        refine List.mem_of_getElem? (i := offset) ?_
        rw [List.getElem?_dropLast, if_pos (Nat.lt_sub_of_add_lt more), listed]
      have straight := (Section.isStraight_of_mem_ofBody
        (List.mem_of_getElem? found)).dropLast_items item member
      rw [moves.eq_of_straight straight]
      exact .inl ⟨.inside found more, left⟩
    · have final : content.items.getLast? = some item := by
        rw [List.getLast?_eq_getElem?, ← last, Nat.succ_sub_one, listed]
      have nothing : remaining function node (offset + 1) = [] := by
        rw [remaining, found, Option.map_some, List.drop_eq_nil_of_le (Nat.le_of_eq last.symm)]
        rfl
      rw [nothing, List.append_nil] at left
      obtain ⟨kind, target, leaves, rfl⟩ := exists_leaves_of_last distinct found final
        (by rw [startOf, startOf, Section.start_succ found, ← last, Nat.add_assoc]) moves
      exact .inr ⟨kind, target, leaves, standing_startOf nonempty leaves.target_le, left⟩

/-- The instructions of the blocks that are visited. -/
def executed (flow : ControlFlow) (visited : List flow.Node) : List Instruction :=
  visited.flatMap fun node => (flow.block node).instructions

section Graph

variable {flow : ControlFlow} (describes : flow.Describes function)
include describes

theorem Describes.size_eq : flow.graph.size = function.blocks.length + 1 := by
  rw [Digraph.size, ← Array.length_toList, describes.nodes, List.length_append]
  rfl

theorem Describes.exit_eq : flow.exit.val = function.blocks.length := by
  change flow.graph.size - 1 = function.blocks.length
  rw [describes.size_eq, Nat.add_sub_cancel]

theorem Describes.block_eq (node : flow.Node) :
    (function.blocks ++ [Block.exit])[node.val]? = some (flow.block node) := by
  rw [← describes.nodes, List.getElem?_eq_getElem (by exact node.isLt)]
  rfl

/-- A node is that of a block, or the exit. -/
theorem Describes.node_cases (node : flow.Node) :
    function.blocks[node.val]? = some (flow.block node) ∨
      node = flow.exit ∧ flow.block node = Block.exit := by
  have found := describes.block_eq node
  have bound := node.isLt
  rcases Nat.lt_or_ge node.val function.blocks.length with inside | beyond
  · rw [List.getElem?_append_left inside] at found
    exact .inl found
  · have last : node.val = function.blocks.length := by
      have size := describes.size_eq
      omega
    rw [last, List.getElem?_concat_length, Option.some_inj] at found
    exact .inr ⟨Fin.ext (last.trans describes.exit_eq.symm), found.symm⟩

theorem Describes.remaining_eq (node : flow.Node) :
    remaining function node 0 = (flow.block node).instructions := by
  rcases describes.node_cases node with here | ⟨rfl, ends⟩
  · exact remaining_zero here
  · rw [ends, describes.exit_eq, remaining_length]
    rfl

theorem Describes.joins_iff (source target : flow.Node) :
    flow.graph.Joins false source target ↔ ∃ kind, Leaves function.blocks source kind target := by
  constructor
  · rintro ⟨edge, member, starts, ends⟩
    refine ⟨edge.label, (describes.edges _ _ _).mp ?_⟩
    rwa [← starts, ← ends]
  · rintro ⟨kind, leaves⟩
    exact ⟨_, (describes.edges _ _ _).mpr leaves, rfl, rfl⟩

theorem Describes.exists_joins {source : flow.Node} {target : Nat} {kind : EdgeKind}
    (leaves : Leaves function.blocks source kind target) :
    ∃ next : flow.Node, next.val = target ∧ flow.graph.Joins false source next := by
  have within := leaves.target_le
  refine ⟨⟨target, ?_⟩, rfl, (describes.joins_iff _ _).mpr ⟨kind, leaves⟩⟩
  rw [describes.size_eq]
  exact Nat.lt_succ_of_le within

/-- A run goes along a walk, and has executed all that the walk visits up to where it stands. -/
theorem Describes.exists_walk {node : flow.Node} {offset position final : Nat}
    {passed : List Instruction} (standing : Standing function node offset position)
    (run : Run function.body position passed final) :
    ∃ visited last past, Walk (flow.graph.Joins false) node (node :: visited) last ∧
      Standing function last.val past final ∧ remaining function node offset ++
        flow.executed visited = passed ++ remaining function last past := by
  induction run generalizing node offset with
  | stay position =>
    exact ⟨[], node, offset, .stay node, standing, by simp [executed]⟩
  | @step position next final item passed moves _ ih =>
    rcases standing.moves describes.distinct moves with
      ⟨standing, left⟩ | ⟨kind, target, leaves, standing, left⟩
    · obtain ⟨visited, last, past, walk, stands, whole⟩ := ih standing
      refine ⟨visited, last, past, walk, stands, ?_⟩
      rw [left, List.append_assoc, whole, List.append_assoc]
    · obtain ⟨middle, rfl, joined⟩ := describes.exists_joins leaves
      obtain ⟨visited, last, past, walk, stands, whole⟩ := ih standing
      refine ⟨middle :: visited, last, past, .onward joined walk, stands, ?_⟩
      rw [describes.remaining_eq] at whole
      rw [left, List.append_assoc, ← whole]
      rfl

/-- A walk is gone along by a run, which ends where the walk does. -/
theorem Describes.exists_run (declared : function.TargetsDeclared) {node last : flow.Node}
    {visited : List flow.Node} (walk : Walk (flow.graph.Joins false) node visited last) :
    ∃ position, Run function.body (startOf function node) (flow.executed visited) position ∧
      (last = flow.exit → position = function.body.length) := by
  induction walk with
  | stay node =>
    rcases describes.node_cases node with here | ⟨rfl, ends⟩
    · have inside := (List.getElem?_eq_some_iff.mp here).1
      obtain ⟨kind, target, leaves⟩ := describes.continues node inside
      have run := run_of_leaves describes.distinct declared leaves here
      refine ⟨_, by simpa [executed] using run, fun last => ?_⟩
      rw [last, describes.exit_eq] at inside
      exact absurd inside (Nat.lt_irrefl _)
    · rw [describes.exit_eq, startOf_length]
      refine ⟨_, ?_, fun _ => rfl⟩
      rw [executed, List.flatMap_singleton, ends]
      exact .stay _
  | @onward node next last visited joined _ ih =>
    obtain ⟨kind, leaves⟩ := (describes.joins_iff _ _).mp joined
    obtain ⟨position, rest, ends⟩ := ih
    rcases describes.node_cases node with here | ⟨rfl, -⟩
    · exact ⟨position, (run_of_leaves describes.distinct declared leaves here).append rest, ends⟩
    · have inside := leaves.source_lt
      rw [describes.exit_eq] at inside
      exact absurd inside (Nat.lt_irrefl _)

/-- The one block of an empty body has no instructions and leads to the exit. -/
theorem Describes.entry_of_nil (nothing : function.body = []) :
    flow.graph.Joins false flow.entry flow.exit ∧ (flow.block flow.entry).instructions = [] := by
  have here : function.blocks[flow.entry.val]? = some (Block.ofSection [] ⟨none, []⟩ 0) := by
    rw [Function.blocks, nothing]
    rfl
  obtain ⟨next, goes, joined⟩ := describes.exists_joins (.onward here nofun)
  have last : next = flow.exit := by
    refine Fin.ext (goes.trans (Eq.trans ?_ describes.exit_eq.symm))
    rw [Function.blocks, nothing]
    rfl
  refine ⟨last ▸ joined, ?_⟩
  rw [← describes.remaining_eq, remaining, nothing]
  rfl

/-- Runs from the start go along walks from the entry. -/
theorem Describes.exists_walk_entry {passed : List Instruction} {final : Nat}
    (run : Run function.body 0 passed final) :
    ∃ visited last past, Walk (flow.graph.Joins false) flow.entry visited last ∧
      Standing function last.val past final ∧
        flow.executed visited = passed ++ remaining function last past := by
  by_cases nothing : function.body = []
  · obtain ⟨joined, first⟩ := describes.entry_of_nil nothing
    have stands : Standing function flow.exit.val 0 0 := by
      have ends : Standing function flow.exit.val 0 function.body.length :=
        .outside describes.exit_eq rfl
      rwa [nothing] at ends
    obtain ⟨visited, last, past, walk, standing, whole⟩ := describes.exists_walk stands run
    refine ⟨_, last, past, .onward joined walk, standing, ?_⟩
    rw [← whole, describes.remaining_eq, executed, List.flatMap_cons, first]
    rfl
  · have stands : Standing function flow.entry.val 0 0 :=
      standing_startOf nothing (Nat.zero_le _)
    obtain ⟨visited, last, past, walk, standing, whole⟩ := describes.exists_walk stands run
    refine ⟨_, last, past, walk, standing, ?_⟩
    rw [← whole, describes.remaining_eq]
    rfl

theorem Describes.eq_exit_of_standing {node : flow.Node} {offset : Nat}
    (standing : Standing function node.val offset function.body.length) : node = flow.exit := by
  generalize final : function.body.length = position at standing
  cases standing with
  | inside found inside =>
    have listed := Section.getElem?_body found inside
    rw [← startOf, ← final, List.getElem?_length, List.getElem?_eq_getElem inside] at listed
    cases listed
  | outside last => exact Fin.ext (last.trans describes.exit_eq.symm)

end Graph

/-- What the walks of a control-flow graph say of the runs of a function. -/
structure Simulates (flow : ControlFlow) (function : Function) : Prop where
  /-- The nodes are the blocks of the function, then the exit. -/
  nodes : flow.graph.nodes.toList = function.blocks ++ [Block.exit]
  /-- The edges, and their kinds, are the ways in which control leaves the blocks. -/
  edges : ∀ source target kind, ⟨source, target, kind⟩ ∈ flow.graph.edges.toList ↔
    Leaves function.blocks source kind target
  /-- Runs from the start to the end are walks from the entry to the exit. -/
  finished : ∀ passed, Run function.body 0 passed function.body.length ↔
    ∃ visited, Walk (flow.graph.Joins false) flow.entry visited flow.exit ∧
      flow.executed visited = passed
  /-- Runs from the start, wherever they stop, are walks from the entry cut short. -/
  unfinished : ∀ passed, (∃ position, Run function.body 0 passed position) ↔
    ∃ visited last, Walk (flow.graph.Joins false) flow.entry visited last ∧
      passed <+: flow.executed visited
  /-- Short of all that a walk visits, a run has not come to the end. -/
  within : ∀ passed visited last, Walk (flow.graph.Joins false) flow.entry visited last →
    passed <+: flow.executed visited → passed ≠ flow.executed visited →
      ∃ position < function.body.length, Run function.body 0 passed position

/-- A control-flow graph that is built from a function whose branch targets are declared has exactly
the runs of its flat body. -/
theorem ofFunction_simulates {function : Function} {flow : ControlFlow}
    (builds : ofFunction function = .ok flow) (declared : function.TargetsDeclared) :
    flow.Simulates function := by
  have describes := describes_ofFunction builds
  have goes {visited : List flow.Node} {last : flow.Node}
      (walk : Walk (flow.graph.Joins false) flow.entry visited last) :=
    describes.exists_run declared walk
  refine ⟨describes.nodes, describes.edges, fun passed => ⟨fun run => ?_, ?_⟩,
    fun passed => ⟨?_, ?_⟩, fun passed visited last walk cut short => ?_⟩
  · obtain ⟨visited, last, past, walk, standing, whole⟩ := describes.exists_walk_entry run
    obtain rfl := describes.eq_exit_of_standing standing
    rw [describes.exit_eq, remaining_length, List.append_nil] at whole
    exact ⟨visited, walk, whole⟩
  · rintro ⟨visited, walk, rfl⟩
    obtain ⟨position, run, ends⟩ := goes walk
    rwa [ends rfl] at run
  · rintro ⟨position, run⟩
    obtain ⟨visited, last, past, walk, -, whole⟩ := describes.exists_walk_entry run
    exact ⟨visited, last, walk, _, whole.symm⟩
  · rintro ⟨visited, last, walk, cut⟩
    obtain ⟨position, run, -⟩ := goes walk
    obtain ⟨middle, run, -⟩ := run.exists_of_prefix cut
    exact ⟨middle, run⟩
  · obtain ⟨position, run, -⟩ := goes walk
    obtain ⟨middle, run, before⟩ := run.exists_of_prefix cut
    exact ⟨middle, before short, run⟩

/-- A loop, code after a jump that no label leads to, and a label at the end of the body. -/
def loop : Function where
  name := "loop"
  body := [
    .label "head",
    .instruction { name := "const", dest := some "c", value := some (.bool true) },
    .instruction { name := "br", args := ["c"], labels := ["head", "done"] },
    .instruction { name := "jmp", labels := ["head"] },
    .label "done"]

theorem loop_targetsDeclared : loop.TargetsDeclared := by
  intro instruction kind name member transfers
  rw [Instruction.transfers_iff] at transfers
  simp only [loop, List.mem_cons, List.not_mem_nil, Item.instruction.injEq, reduceCtorEq, or_false,
    false_or] at member
  rcases member with rfl | rfl | rfl <;>
    simp [Instruction.opcode, Opcode.ofName, Function.declaredLabels, Item.label?, loop,
      List.filterMap_cons] at transfers ⊢
  · rcases transfers with ⟨rfl, -⟩ | ⟨rfl, -⟩
    · exact .inl rfl
    · exact .inr rfl
  · exact .inl transfers.1.symm

/-- The graph of the loop has the runs of its body. -/
theorem ofFunction_simulates_loop :
    ∃ flow, ofFunction loop = .ok flow ∧ flow.Simulates loop :=
  ⟨_, rfl, ofFunction_simulates rfl loop_targetsDeclared⟩

end ControlFlow

end ProgramGraphs
