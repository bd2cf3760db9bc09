import ProgramGraphs.ControlFlow.Block
import ProgramGraphs.Graph.Dominator
import ProgramGraphs.Program.Fault

/-! # Control-flow graphs

The nodes are the basic blocks of a function in body order and, last, a node for leaving the
function, which every `ret` and the end of the body lead to. A block has one edge for each way in
which control can leave it.
-/

namespace ProgramGraphs

/-- Why control moves along an edge. -/
inductive EdgeKind where
  | jump
  | whenTrue
  | whenFalse
  | fallthrough
  | leave
  deriving DecidableEq, Repr

/-- The name of a kind of edge. -/
def EdgeKind.text : EdgeKind → String
  | .jump => "jump"
  | .whenTrue => "true"
  | .whenFalse => "false"
  | .fallthrough => "fallthrough"
  | .leave => "return"

/-- The control-flow graph of a function; the exit is its last node. -/
structure ControlFlow where
  function : String
  graph : Digraph Block EdgeKind
  occupied : 0 < graph.size

namespace ControlFlow

/-- A node that stands for a block or for leaving the function. -/
abbrev Node (flow : ControlFlow) : Type :=
  Fin flow.graph.size

/-- The first block. -/
def entry (flow : ControlFlow) : flow.Node :=
  ⟨0, flow.occupied⟩

/-- The node for leaving the function. -/
def exit (flow : ControlFlow) : flow.Node :=
  ⟨flow.graph.size - 1, Nat.sub_lt flow.occupied Nat.one_pos⟩

/-- The number of blocks, without the exit. -/
def blockCount (flow : ControlFlow) : Nat :=
  flow.graph.size - 1

/-- The block of a node. -/
def block (flow : ControlFlow) (node : flow.Node) : Block :=
  flow.graph.payload node

/-- The label of every node. -/
def labels (flow : ControlFlow) : List String :=
  flow.graph.nodes.toList.map (·.label)

/-- The first node of a label. -/
def find? (flow : ControlFlow) (label : String) : Option flow.Node :=
  flow.graph.find? (·.label == label)

/-- The block that a branch of a function names. -/
def target (function : String) (blocks : List Block) :
    Option String → Except BodyFault (Fin blocks.length)
  | none => .error (.missingTarget function)
  | some label =>
    match blocks.findFinIdx? (·.label == label) with
    | some position => .ok position
    | none => .error (.unknownTarget label function)

/-- The blocks that a block leads to, one after the last standing for the exit. -/
def exits (function : String) (blocks : List Block) (position : Fin blocks.length) :
    Except BodyFault (List (Fin (blocks.length + 1) × EdgeKind)) :=
  match blocks[position].instructions.getLast? with
  | none => .ok [(position.succ, .fallthrough)]
  | some last =>
    match last.opcode with
    | .jmp => do
      let taken ← target function blocks last.labels[0]?
      pure [(taken.castSucc, .jump)]
    | .br => do
      let taken ← target function blocks last.labels[0]?
      let other ← target function blocks last.labels[1]?
      pure [(taken.castSucc, .whenTrue), (other.castSucc, .whenFalse)]
    | .ret => .ok [(Fin.last blocks.length, .leave)]
    | _ => .ok [(position.succ, .fallthrough)]

/-- The edges between the blocks of a function and its exit. -/
def edges (function : String) (blocks : List Block) :
    Except BodyFault
      (List (Fin (blocks.length + 1) × Fin (blocks.length + 1) × EdgeKind)) := do
  let rows ← (List.finRange blocks.length).mapM fun position => do
    let leaving ← exits function blocks position
    pure (leaving.map fun (target, kind) => (position.castSucc, target, kind))
  pure rows.flatten

/-- The control-flow graph of blocks with the given edges. -/
def ofBlocks (function : String) (blocks : List Block)
    (edges : List (Fin (blocks.length + 1) × Fin (blocks.length + 1) × EdgeKind)) :
    ControlFlow :=
  have sized : blocks.length + 1 = (blocks ++ [Block.exit]).length := by simp
  let built := Digraph.ofEdges (blocks ++ [Block.exit])
    (edges.map fun (source, target, kind) => (source.cast sized, target.cast sized, kind))
  ⟨function, built.val, by rw [built.property]; simp⟩

/-- The control-flow graph of a function. Labels must be distinct, and branches must name blocks. -/
def ofFunction (function : Function) : Except BodyFault ControlFlow := do
  let blocks := function.blocks
  match firstRepeated? (blocks.map (·.label)) with
  | some label => throw (.repeatedLabel label function.name)
  | none => pure ()
  let edges ← edges function.name blocks
  pure (ofBlocks function.name blocks edges)

end ControlFlow

end ProgramGraphs
