import ProgramGraphs.Picture.Draw
import ProgramGraphs.PointsTo.Inclusion

/-! # Kinds of graphs

For each kind of graph: how it is built from a module, and how it is drawn. There is a graph of
every single function, in program order, unless one of them cannot be built; these graphs do not
depend on each other, so how their building is scheduled is a parameter (`Collector`). Graphs of
whole programs are one each, under the name of the module.
-/

namespace ProgramGraphs

/-- The graphs that can be drawn. -/
inductive GraphKind where
  | cfg
  | cdg
  | cg
  | domtree
  | postdomtree
  | escape
  deriving DecidableEq, Repr

namespace GraphKind

/-- All kinds. -/
def all : List GraphKind :=
  [.cfg, .cdg, .cg, .domtree, .postdomtree, .escape]

/-- The name of a kind. -/
def name : GraphKind → String
  | .cfg => "Cfg"
  | .cdg => "Cdg"
  | .cg => "Cg"
  | .domtree => "Domtree"
  | .postdomtree => "Postdomtree"
  | .escape => "Escape"

/-- The kind of a name. -/
def ofName? (name : String) : Option GraphKind :=
  all.find? (·.name == name)

end GraphKind

/-- The result of one analysis. -/
inductive AnalysisGraph where
  | cfg (flow : ControlFlow)
  | cdg (dependence : ControlDependence)
  | cg (calls : CallGraph)
  | domtree (dominance : Dominance)
  | postdomtree (dominance : Dominance)
  | escape (report : EscapeReport)

/-- The kind of a result. -/
def AnalysisGraph.kind : AnalysisGraph → GraphKind
  | .cfg _ => .cfg
  | .cdg _ => .cdg
  | .cg _ => .cg
  | .domtree _ => .domtree
  | .postdomtree _ => .postdomtree
  | .escape _ => .escape

/-- A result and the label under which it is drawn. -/
structure NamedGraph where
  label : String
  graph : AnalysisGraph

/-- How a module is loaded and analysed. -/
structure AnalysisOptions where
  passes : List Pass := Pass.defaults
  strategy : Strategy := .trivial
  policy : EscapePolicy := fun _ _ => true

/-- A way to run a task for every function of a list and to collect what the tasks give. Tasks may
run side by side, and then it is open which of several failures is reported. -/
structure Collector where
  run : (Function → Attempt Error NamedGraph) → List Function → Attempt Error (List NamedGraph)

/-- Run the tasks one after the other; the first failure ends them. -/
def Collector.inOrder : Collector :=
  ⟨fun task functions => functions.mapM task⟩

/-- Build the graph of one function. -/
def NamedGraph.ofFunction (build : Function → Except Error AnalysisGraph) (function : Function) :
    Attempt Error NamedGraph := do
  Logged.tell (.building function.name)
  let graph ← MonadExcept.ofExcept (build function)
  pure ⟨function.name, graph⟩

namespace Module

/-- One graph for every function. -/
def perFunction (module : Module) (collector : Collector)
    (build : Function → Except Error AnalysisGraph) : Attempt Error (List NamedGraph) :=
  collector.run (NamedGraph.ofFunction build) module.functions

/-- One graph for the whole program. -/
def wholeProgram (module : Module) (graph : AnalysisGraph) : List NamedGraph :=
  [⟨module.name, graph⟩]

/-- The call graph of a module; unresolved calls are worth a warning. -/
def callGraph (module : Module) (strategy : Strategy) : Attempt Error CallGraph := do
  let pointsTo ← (strategy.run module.program : Logged PointsTo)
  let calls ← ExceptT.adapt Error.malformed (CallGraph.ofProgram module.program pointsTo)
  if !calls.unresolved.isEmpty then
    Logged.tell (.callsUnresolved calls.unresolved.length pointsTo.strategy)
  pure calls

end Module

namespace GraphKind

/-- Build the graphs of a kind, those of single functions by a collector. -/
def buildBy (kind : GraphKind) (collector : Collector) (module : Module)
    (options : AnalysisOptions) : Attempt Error (List NamedGraph) :=
  match kind with
  | .cfg => module.perFunction collector fun function =>
    (.cfg <$> ControlFlow.ofFunction function).mapError Error.malformed
  | .cdg => module.perFunction collector fun function =>
    ((.cdg <| .ofControlFlow ·) <$> ControlFlow.ofFunction function).mapError Error.malformed
  | .domtree => module.perFunction collector fun function =>
    ((.domtree <| ·.dominance .fromEntry) <$> ControlFlow.ofFunction function).mapError
      Error.malformed
  | .postdomtree => module.perFunction collector fun function =>
    ((.postdomtree <| ·.dominance .fromExit) <$> ControlFlow.ofFunction function).mapError
      Error.malformed
  | .cg => do
    let calls ← module.callGraph options.strategy
    pure (module.wholeProgram (.cg calls))
  | .escape => do
    let calls ← module.callGraph options.strategy
    let report ← EscapeContext.run ⟨module, calls, options.policy⟩
    pure (module.wholeProgram (.escape report))

/-- Build the graphs of a kind, those of single functions one after the other. -/
def build (kind : GraphKind) (module : Module) (options : AnalysisOptions) :
    Attempt Error (List NamedGraph) :=
  kind.buildBy .inOrder module options

/-- Draw a graph that should be of a kind. -/
def draw (kind : GraphKind) (label : String) (graph : AnalysisGraph) : Except Error Picture :=
  match kind, graph with
  | .cfg, .cfg flow => .ok (flow.draw label)
  | .cdg, .cdg dependence => .ok (dependence.draw label)
  | .cg, .cg calls => .ok (calls.draw label)
  | .domtree, .domtree dominance => .ok (dominance.draw label)
  | .postdomtree, .postdomtree dominance => .ok (dominance.draw label)
  | .escape, .escape report => .ok (report.draw label)
  | expected, found => .error (.kindMismatch expected.name found.kind.name)

end GraphKind

end ProgramGraphs
