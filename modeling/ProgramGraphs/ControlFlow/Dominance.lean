import ProgramGraphs.ControlFlow.Basic

/-! # Dominance between blocks

The dominators of a control-flow graph are taken from the entry, its post-dominators from the exit
against the edges. Blocks from which the exit cannot be reached have no post-dominators and are not
in that tree.
-/

namespace ProgramGraphs

/-- From where the ways through a graph are looked at. -/
inductive DominanceKind where
  | fromEntry
  | fromExit
  deriving DecidableEq, Repr

/-- The dominator or post-dominator tree of a control-flow graph. -/
structure Dominance where
  kind : DominanceKind
  flow : ControlFlow
  tree : DominatorTree flow.graph.size

namespace ControlFlow

/-- The dominator tree from the entry. -/
def dominatorTree (flow : ControlFlow) : DominatorTree flow.graph.size :=
  flow.graph.adjacency.dominatorTree flow.entry

/-- The dominator tree from the exit against the edges. -/
def postDominatorTree (flow : ControlFlow) : DominatorTree flow.graph.size :=
  flow.graph.adjacency.reversed.dominatorTree flow.exit

/-- The dominators or post-dominators of a control-flow graph. -/
def dominance (flow : ControlFlow) : DominanceKind → Dominance
  | .fromEntry => ⟨.fromEntry, flow, flow.dominatorTree⟩
  | .fromExit => ⟨.fromExit, flow, flow.postDominatorTree⟩

end ControlFlow

namespace Dominance

/-- The label of a numbered node; a number that is no node has an empty one. -/
def label (dominance : Dominance) (node : Nat) : String :=
  ((dominance.flow.graph.payload? node).map (·.label)).getD ""

/-- The label of the root. -/
def rootLabel (dominance : Dominance) : String :=
  dominance.label dominance.tree.root

/-- The labels of the nodes in the tree, in node order. -/
def members (dominance : Dominance) : List String :=
  dominance.tree.members.map (dominance.label ·.val)

/-- The label of the immediate dominator of the block of a label. -/
def parentOf? (dominance : Dominance) (label : String) : Option String := do
  let node ← dominance.flow.find? label
  let parent ← dominance.tree.parent? node
  pure (dominance.label parent)

/-- The labels at the ends of every tree edge, the parent first. -/
def edges (dominance : Dominance) : List (String × String) :=
  dominance.tree.edges.map fun (parent, child) =>
    (dominance.label parent, dominance.label child)

end Dominance

end ProgramGraphs
