import ProgramGraphs.ControlFlow.Dominance

/-! # Control dependence

A block decides about another if one of its ways out makes that block certain and another does not.
For each edge whose target does not post-dominate its source, the blocks that depend on the edge are
those on the way up the post-dominator tree from the target, before the immediate post-dominator of
the source.
-/

namespace ProgramGraphs

/-- The control-dependence graph of a function; its nodes are the labels of the blocks. -/
structure ControlDependence where
  function : String
  graph : Digraph String EdgeKind

namespace ControlDependence

/-- The nodes whose execution an edge of the control-flow graph decides. -/
def decided (flow : ControlFlow) (post : DominatorTree flow.graph.size)
    (source target : flow.Node) : List flow.Node :=
  if source = flow.exit || post.dominates target source then []
  else
    (post.lineage target).takeWhile fun node =>
      some node != post.parent? source && node != flow.exit

/-- Every decision of a block about a block by one of its ways out, once. -/
def decisions (flow : ControlFlow) : List (flow.Node × flow.Node × EdgeKind) :=
  let post := flow.postDominatorTree
  (flow.graph.edgeList.flatMap fun (source, target, kind) =>
    (decided flow post source target).map (source, ·, kind)).eraseDups

/-- The position in a list that a number stands for. -/
def position? {α : Type} (items : List α) (number : Nat) : Option (Fin items.length) :=
  if inside : number < items.length then some ⟨number, inside⟩ else none

/-- The control-dependence graph of a control-flow graph. -/
def ofControlFlow (flow : ControlFlow) : ControlDependence :=
  let labels := flow.labels.take flow.blockCount
  ⟨flow.function, Digraph.ofEdges labels ((decisions flow).filterMap fun (source, node, kind) => do
    let source ← position? labels source
    let node ← position? labels node
    pure (source, node, kind))⟩

/-- The labels of the blocks that decide about the block of a label, each with the way out. -/
def controllers (dependence : ControlDependence) (label : String) : List (String × EdgeKind) :=
  match dependence.graph.find? (· == label) with
  | none => []
  | some node =>
    ((dependence.graph.incoming? node).getD []).filterMap fun (source, kind) =>
      (dependence.graph.payload? source).map (·, kind)

end ControlDependence

end ProgramGraphs
