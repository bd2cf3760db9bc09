import ProgramGraphs.GraphKind
import ProgramGraphs.Proofs.CallGraph.Interning
import ProgramGraphs.Proofs.ControlFlow.Dependence

/-! # Graphs built with checks

Graphs are built from edges whose ends are known to be nodes, and an edge without them would be left
out. Here each edge is added by number instead, with a look at both ends, and an end that is missing
ends the building with an error (`GraphKind.buildBy?`). That never happens: the blocks that decide
and are decided about are blocks of the function, and callers and callees are nodes by the time they
are linked. So nothing is left out, and both ways of building do the same (`GraphKind.buildBy?_eq`).
-/

namespace ProgramGraphs

namespace Digraph

variable {ν ε : Type}

/-- Add edges to the graph of some payloads, each with a look at both ends. -/
def insert? (payloads : List ν) (edges : List (Edge ε)) : Except MissingNode (Digraph ν ε) :=
  edges.foldlM (fun graph edge => graph.addEdge? edge.source edge.target edge.label)
    (payloads.foldl addNode empty)

theorem insert?_eq_ok (payloads : List ν)
    (edges : List (Fin payloads.length × Fin payloads.length × ε)) :
    insert? payloads (edges.map Edge.between) = .ok (ofEdges payloads edges).1 := by
  rw [insert?, List.foldlM_map]
  exact foldlM_addEdge? _ _ edges

end Digraph

namespace ControlFlow

/-- The control-flow graph of blocks, with checks. -/
def ofBlocks? (function : String) (blocks : List Block) (edges : List (Edge EdgeKind)) :
    Except MissingNode ControlFlow := do
  let graph ← Digraph.insert? (blocks ++ [Block.exit]) edges
  if occupied : 0 < graph.size then pure ⟨function, graph, occupied⟩
  else throw ⟨.source, 0, graph.size⟩

theorem ofBlocks?_eq_ok (function : String) (blocks : List Block)
    (edges : List (Fin (blocks.length + 1) × Fin (blocks.length + 1) × EdgeKind)) :
    ofBlocks? function blocks (edges.map Edge.between) =
      .ok (ofBlocks function blocks edges) := by
  have sized : blocks.length + 1 = (blocks ++ [Block.exit]).length := by simp
  have inserted := Digraph.insert?_eq_ok (blocks ++ [Block.exit])
    (edges.map fun edge => (edge.1.cast sized, edge.2.1.cast sized, edge.2.2))
  rw [List.map_map] at inserted
  have built : Digraph.insert? (blocks ++ [Block.exit]) (edges.map Edge.between) =
      .ok (ofBlocks function blocks edges).graph := inserted
  rw [ofBlocks?, built]
  exact dif_pos (ofBlocks function blocks edges).occupied

/-- The control-flow graph of a function, with checks. -/
def ofFunction? (function : Function) : Except Error ControlFlow := do
  let blocks := function.blocks
  match firstRepeated? (blocks.map (·.label)) with
  | some label => throw (.malformed (.repeatedLabel label function.name))
  | none => pure ()
  let edges ← (edges function.name blocks).mapError Error.malformed
  (ofBlocks? function.name blocks (edges.map Edge.between)).mapError Error.graph

theorem ofFunction?_eq (function : Function) :
    ofFunction? function = (ofFunction function).mapError Error.malformed := by
  simp only [ofFunction?, ofFunction]
  cases firstRepeated? (function.blocks.map (·.label)) with
  | some label => rfl
  | none =>
    cases edges function.name function.blocks with
    | error fault => rfl
    | ok found =>
      change (ofBlocks? function.name function.blocks (found.map Edge.between)).mapError _ = _
      rw [ofBlocks?_eq_ok]
      rfl

end ControlFlow

namespace ControlDependence

/-- The control-dependence graph of a control-flow graph, with checks. -/
def ofControlFlow? (flow : ControlFlow) : Except MissingNode ControlDependence := do
  let graph ← Digraph.insert? (flow.labels.take flow.blockCount)
    ((decisions flow).map Edge.between)
  pure ⟨flow.function, graph⟩

theorem ofControlFlow?_eq_ok (flow : ControlFlow) :
    ofControlFlow? flow = .ok (ofControlFlow flow) := by
  rw [ofControlFlow?, Digraph.insert?, List.foldlM_map]
  exact congrArg (Functor.map (ControlDependence.mk flow.function)) (foldlM_decisions flow)

end ControlDependence

namespace CallGraph

variable {program : Program} {pointsTo : PointsTo}

/-- The call graph of some nodes and of the calls between them, with checks. -/
def ofSites? (strategy : String) (nodes : List CallNode)
    (sites : List (String × List CallSite)) : Except MissingNode CallGraph := do
  let graph ← Digraph.insert? nodes ((links sites).map (number nodes))
  pure ⟨graph, sites, strategy⟩

/-- The call graph of a program, with checks. -/
def ofProgram? (program : Program) (pointsTo : PointsTo) : Attempt Error CallGraph := do
  let defined := program.functions.map fun function => (⟨function.name, true⟩ : CallNode)
  let (nodes, sites) ← ExceptT.adapt Error.malformed
    (program.functions.foldlM (survey program pointsTo) (defined, []))
  MonadExcept.ofExcept ((ofSites? pointsTo.strategy nodes sites).mapError Error.graph)

/-- Between nodes that have the names of all callers and callees, no link is left out. -/
theorem ofSites?_eq_ok (strategy : String) {nodes : List CallNode}
    {sites : List (String × List CallSite)}
    (known : ∀ caller callee kind, (caller, callee, kind) ∈ links sites →
      caller ∈ nodes.map (·.name) ∧ callee ∈ nodes.map (·.name)) :
    ofSites? strategy nodes sites = .ok (ofSites strategy nodes sites) := by
  rw [ofSites?, map_number_links known, Digraph.insert?_eq_ok]
  rfl

/-- No call of a program is left out of its call graph. -/
theorem ofProgram?_eq (program : Program) (pointsTo : PointsTo) :
    ofProgram? program pointsTo = ExceptT.adapt Error.malformed (ofProgram program pointsTo) := by
  unfold ofProgram? ofProgram
  rw [Attempt.adapt_bind]
  refine Attempt.bind_congr fun found surveys => ?_
  obtain ⟨-, sites, enters⟩ := tells_foldlM_survey (Attempt.yields_adapt_iff.mp surveys).tells
  have linked := @ofSites?_eq_ok pointsTo.strategy found.1 found.2
    (sites ▸ fun _ _ _ => mem_nodes_of_links enters)
  dsimp only
  rw [linked]
  rfl

end CallGraph

namespace Module

/-- The call graph of a module, with checks. -/
def callGraph? (module : Module) (strategy : Strategy) : Attempt Error CallGraph := do
  let pointsTo ← (strategy.run module.program : Logged PointsTo)
  let calls ← CallGraph.ofProgram? module.program pointsTo
  if !calls.unresolved.isEmpty then
    Logged.tell (.callsUnresolved calls.unresolved.length pointsTo.strategy)
  pure calls

theorem callGraph?_eq (module : Module) (strategy : Strategy) :
    module.callGraph? strategy = module.callGraph strategy := by
  simp only [callGraph?, callGraph, CallGraph.ofProgram?_eq]

end Module

namespace GraphKind

/-- Build the graphs of a kind, with checks. -/
def buildBy? (kind : GraphKind) (collector : Collector) (module : Module)
    (options : AnalysisOptions) : Attempt Error (List NamedGraph) :=
  match kind with
  | .cfg => module.perFunction collector fun function => .cfg <$> ControlFlow.ofFunction? function
  | .cdg => module.perFunction collector fun function => do
    let flow ← ControlFlow.ofFunction? function
    .cdg <$> (ControlDependence.ofControlFlow? flow).mapError Error.graph
  | .domtree => module.perFunction collector fun function =>
    (.domtree <| ·.dominance .fromEntry) <$> ControlFlow.ofFunction? function
  | .postdomtree => module.perFunction collector fun function =>
    (.postdomtree <| ·.dominance .fromExit) <$> ControlFlow.ofFunction? function
  | .cg => do
    let calls ← module.callGraph? options.strategy
    pure (module.wholeProgram (.cg calls))
  | .escape => do
    let calls ← module.callGraph? options.strategy
    let report ← EscapeContext.run ⟨module, calls, options.policy⟩
    pure (module.wholeProgram (.escape report))

/-- No check fails: building with checks is building. -/
theorem buildBy?_eq (kind : GraphKind) (collector : Collector) (module : Module)
    (options : AnalysisOptions) :
    kind.buildBy? collector module options = kind.buildBy collector module options := by
  have perFunction (make : ControlFlow → AnalysisGraph) :
      (module.perFunction collector fun function => make <$> ControlFlow.ofFunction? function) =
        module.perFunction collector fun function =>
          (make <$> ControlFlow.ofFunction function).mapError Error.malformed := by
    refine congrArg (module.perFunction collector) (funext fun function => ?_)
    rw [ControlFlow.ofFunction?_eq]
    cases ControlFlow.ofFunction function <;> rfl
  cases kind with
  | cfg => exact perFunction _
  | cdg =>
    refine Eq.trans (congrArg (module.perFunction collector) (funext fun function => ?_))
      (perFunction _)
    simp only [ControlDependence.ofControlFlow?_eq_ok]
    rfl
  | domtree => exact perFunction _
  | postdomtree => exact perFunction _
  | cg => simp only [buildBy?, buildBy, module.callGraph?_eq]
  | escape => simp only [buildBy?, buildBy, module.callGraph?_eq]

end GraphKind

end ProgramGraphs
