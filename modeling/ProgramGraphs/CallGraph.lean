import ProgramGraphs.Graph.Basic
import ProgramGraphs.Graph.Component
import ProgramGraphs.Journal
import ProgramGraphs.PointsTo.Basic
import ProgramGraphs.Program.Fault

/-! # Call graphs

The nodes are the functions with bodies in program order and then, as calls mention them, those
without. There is one edge for each caller, callee and kind of call. An indirect call for which no
target is known is kept as an unresolved site, so that later analyses can expect the worst of it.
-/

namespace ProgramGraphs

/-- How a function is called. -/
inductive CallKind where
  | direct
  | indirect
  deriving DecidableEq, Repr

/-- A function of a call graph, and whether it has a body. -/
structure CallNode where
  name : String
  defined : Bool
  deriving DecidableEq, Repr

/-- A call at a position among the instructions of a body, and the functions that it may reach. -/
structure CallSite where
  index : Nat
  kind : CallKind
  targets : List String
  deriving DecidableEq, Repr

/-- Whether a call may reach functions that are not known. -/
def CallSite.isUnresolved (site : CallSite) : Bool :=
  site.kind == .indirect && site.targets.isEmpty

/-- Who calls whom in a program, with the calls of every function in body order. -/
structure CallGraph where
  graph : Digraph CallNode CallKind
  sites : List (String × List CallSite)
  strategy : String

namespace CallGraph

/-- The call that an instruction makes, if it makes one. -/
def siteOf? (pointsTo : PointsTo) (function : String) (index : Nat) (instruction : Instruction) :
    Except BodyFault (Option CallSite) :=
  match instruction.opcode with
  | .call =>
    match instruction.funcs with
    | callee :: _ => .ok (some ⟨index, .direct, [callee]⟩)
    | [] => .error (.missingCallee function)
  | .icall =>
    if instruction.args.isEmpty then .error (.missingFunctionPointer function)
    else .ok (some ⟨index, .indirect, pointsTo.targets function instruction⟩)
  | _ => .ok none

/-- Add a callee to the nodes, unless it is among them; a function that is nowhere declared is
worth a warning. -/
def register (program : Program) (caller : String) (nodes : List CallNode) (callee : String) :
    Logged (List CallNode) := do
  if nodes.any (·.name == callee) then pure nodes
  else
    let defined := program.defines callee
    if !defined && (program.declaration? callee).isNone then
      Logged.tell (.undeclaredCallee caller callee)
    pure (nodes ++ [⟨callee, defined⟩])

/-- Note the call of an instruction, if it makes one. -/
def note (program : Program) (pointsTo : PointsTo) (function : Function)
    (found : List CallNode × List CallSite) (numbered : Instruction × Nat) :
    Attempt BodyFault (List CallNode × List CallSite) := do
  match siteOf? pointsTo function.name numbered.2 numbered.1 with
  | .error fault => throw fault
  | .ok none => pure found
  | .ok (some site) =>
    let nodes ← (site.targets.foldlM (register program function.name) found.1 :
      Logged (List CallNode))
    if site.isUnresolved then
      Logged.tell (.unresolvedCall function.name numbered.1.text)
    pure (nodes, found.2 ++ [site])

/-- Note the calls of a function. -/
def survey (program : Program) (pointsTo : PointsTo)
    (found : List CallNode × List (String × List CallSite)) (function : Function) :
    Attempt BodyFault (List CallNode × List (String × List CallSite)) := do
  let (nodes, sites) ←
    function.instructions.zipIdx.foldlM (note program pointsTo function) (found.1, [])
  pure (nodes, found.2 ++ [(function.name, sites)])

/-- Every caller, callee and kind of call, once, in the order of the calls. -/
def links (sites : List (String × List CallSite)) : List (String × String × CallKind) :=
  (sites.flatMap fun (caller, sites) =>
    sites.flatMap fun site =>
      site.targets.map fun target => (caller, target, site.kind)).eraseDups

/-- The call graph of some nodes and of the calls between them. -/
def ofSites (strategy : String) (nodes : List CallNode) (sites : List (String × List CallSite)) :
    CallGraph where
  graph := Digraph.ofEdges nodes ((links sites).filterMap fun (caller, callee, kind) => do
    let source ← nodes.findFinIdx? (·.name == caller)
    let target ← nodes.findFinIdx? (·.name == callee)
    pure (source, target, kind))
  sites := sites
  strategy := strategy

/-- The call graph of a program, its indirect calls resolved by a strategy. -/
def ofProgram (program : Program) (pointsTo : PointsTo) : Attempt BodyFault CallGraph := do
  let defined := program.functions.map fun function => (⟨function.name, true⟩ : CallNode)
  let (nodes, sites) ← program.functions.foldlM (survey program pointsTo) (defined, [])
  pure (ofSites pointsTo.strategy nodes sites)

/-- The node of a function. -/
def node? (calls : CallGraph) (name : String) : Option (Fin calls.graph.size) :=
  calls.graph.find? (·.name == name)

/-- Whether a function is in the graph without a body. -/
def isExternal (calls : CallGraph) (name : String) : Bool :=
  match calls.node? name with
  | some node => !(calls.graph.payload node).defined
  | none => false

/-- The functions that a function calls, in the order of the edges. -/
def callees (calls : CallGraph) (name : String) : List String :=
  match calls.node? name with
  | some node =>
    ((calls.graph.successors node).map fun callee => (calls.graph.payload callee).name).eraseDups
  | none => []

/-- The calls of a function with a body, in body order. -/
def sitesOf (calls : CallGraph) (caller : String) : List CallSite :=
  (calls.sites.lookup caller).getD []

/-- The call at a position among the instructions of a function. -/
def siteAt? (calls : CallGraph) (caller : String) (index : Nat) : Option CallSite :=
  (calls.sitesOf caller).find? (·.index == index)

/-- Every unresolved call as its caller and position, in ascending order. -/
def unresolved (calls : CallGraph) : List (String × Nat) :=
  (calls.sites.flatMap fun (caller, sites) =>
    (sites.filter CallSite.isUnresolved).map fun site => (caller, site.index)).mergeSort
      fun a b => decide (a.1 < b.1) || (a.1 == b.1 && decide (a.2 ≤ b.2))

/-- The strongly connected components of the graph by name; callees come before their callers. -/
def bottomUp (calls : CallGraph) : List (List String) :=
  calls.graph.adjacency.components.map fun component =>
    component.map fun node => (calls.graph.payload node).name

end CallGraph

end ProgramGraphs
