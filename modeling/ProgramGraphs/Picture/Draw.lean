import ProgramGraphs.ControlFlow.Dependence
import ProgramGraphs.Escape
import ProgramGraphs.Picture.Basic

/-! # Drawing analysis results

Entries are green, exits and what escapes red, functions without a body yellow, and what stays
inside its function blue. The identifiers of nodes are made from positions, never from names of the
program, so no name can clash with another.
-/

namespace ProgramGraphs

namespace Picture

/-- The colour of entries. -/
def entryColor : String := "lightgreen"

/-- The colour of exits and of what escapes. -/
def exitColor : String := "lightcoral"

/-- The colour of functions without a body. -/
def externalColor : String := "lightyellow"

/-- The colour of what stays inside its function. -/
def containedColor : String := "lightblue"

/-- The identifier of the node at a position. -/
def nodeId (position : Nat) : String :=
  "n" ++ toString position

end Picture

open Picture (nodeId entryColor exitColor externalColor containedColor)

namespace ControlFlow

/-- The text of a block: its label, then its instructions, a line each. -/
def blockText (block : Block) (isEntry : Bool) : String :=
  block.label ++ (if isEntry then " (entry)" else "") ++ "\n" ++
    String.join (block.instructions.map fun instruction => instruction.text ++ "\n")

/-- The node of a block at a position. -/
def drawBlock (block : Block) (position : Nat) : PictureNode :=
  let shape := ({} : Attributes).set "shape" "box"
  { id := nodeId position
    label := blockText block (position == 0)
    attributes :=
      if position = 0 then shape.fill entryColor
      else if block.isExit then shape.fill exitColor
      else shape }

/-- An edge of the graph; branches are labelled, returns dashed. -/
def drawEdge (edge : Edge EdgeKind) : PictureEdge where
  source := nodeId edge.source
  target := nodeId edge.target
  label :=
    match edge.label with
    | .whenTrue | .whenFalse => some edge.label.text
    | _ => none
  attributes :=
    match edge.label with
    | .leave => ({} : Attributes).set "style" "dashed"
    | _ => {}

/-- The picture of a control-flow graph, with the instructions of every block. -/
def draw (label : String) (flow : ControlFlow) : Picture :=
  { (Picture.titled ("CFG: " ++ label)).set "fontname" "Courier" with
    nodes := flow.graph.nodes.toList.mapIdx fun position block => drawBlock block position
    edges := flow.graph.edges.toList.map drawEdge }

end ControlFlow

namespace ControlDependence

/-- The node of a block at a position. -/
def drawBlock (label : String) (position : Nat) : PictureNode where
  id := nodeId position
  label := label
  attributes := if position = 0 then ({} : Attributes).fill entryColor else {}

/-- The picture of a control-dependence graph; edges carry the way out that decides. -/
def draw (label : String) (dependence : ControlDependence) : Picture :=
  { Picture.titled ("CDG: " ++ label) with
    nodes := dependence.graph.nodes.toList.mapIdx fun position block => drawBlock block position
    edges := dependence.graph.edges.toList.map fun edge =>
      { source := nodeId edge.source, target := nodeId edge.target,
        label := some edge.label.text } }

end ControlDependence

namespace Dominance

/-- The title of a tree. -/
def title (kind : DominanceKind) : String :=
  match kind with
  | .fromEntry => "Dominator tree"
  | .fromExit => "Post-dominator tree"

/-- The node of a block in the tree. -/
def drawMember (dominance : Dominance) (node : Fin dominance.flow.graph.size) : PictureNode where
  id := nodeId node
  label := dominance.label node
  attributes := if node.val = dominance.tree.root then ({} : Attributes).fill entryColor else {}

/-- The picture of a dominator or post-dominator tree. -/
def draw (label : String) (dominance : Dominance) : Picture :=
  { Picture.titled (title dominance.kind ++ ": " ++ label) with
    nodes := dominance.tree.members.map dominance.drawMember
    edges := dominance.tree.edges.map fun (parent, child) =>
      { source := nodeId parent, target := nodeId child } }

end Dominance

namespace CallGraph

/-- The node of a function at a position. -/
def drawFunction (function : CallNode) (position : Nat) : PictureNode where
  id := nodeId position
  label := function.name
  attributes :=
    let shape := ({} : Attributes).set "shape" "box"
    if function.defined then shape else shape.fill externalColor

/-- An edge of the graph; indirect calls are dashed. -/
def drawEdge (edge : Edge CallKind) : PictureEdge where
  source := nodeId edge.source
  target := nodeId edge.target
  attributes :=
    match edge.label with
    | .indirect => ({} : Attributes).set "style" "dashed"
    | .direct => {}

/-- The identifier of the node that stands for what unresolved calls reach. -/
def unresolvedId : String := "unresolved"

/-- The node that stands for what unresolved calls reach. -/
def unresolvedNode : PictureNode where
  id := unresolvedId
  label := "<unresolved>"
  attributes := (({} : Attributes).set "shape" "diamond").fill exitColor

/-- The functions that make unresolved calls, in ascending order. -/
def unresolvedCallers (calls : CallGraph) : List String :=
  (calls.unresolved.map (·.1)).eraseDups

/-- The edge from a function that makes an unresolved call. -/
def unresolvedEdge (caller : Nat) : PictureEdge where
  source := nodeId caller
  target := unresolvedId
  attributes := (({} : Attributes).set "style" "dashed").set "color" "red"

/-- The picture of a call graph. Unresolved calls lead to a node of their own. -/
def draw (label : String) (calls : CallGraph) : Picture :=
  let nodes := calls.graph.nodes.toList.mapIdx fun position function =>
    drawFunction function position
  let edges := calls.graph.edges.toList.map drawEdge
  { Picture.titled ("Call graph: " ++ label ++ " (" ++ calls.strategy ++ " points-to)") with
    nodes := if calls.unresolved.isEmpty then nodes else nodes ++ [unresolvedNode]
    edges := edges ++ calls.unresolvedCallers.filterMap fun caller =>
      (calls.node? caller).map fun node => unresolvedEdge node }

end CallGraph

namespace EscapeReport

/-- The cluster of the function at a position. -/
def clusterId (function : Nat) : String :=
  "cluster_" ++ toString function

/-- The identifier of a tracked pointer of the function at a position. -/
def pointerId (function pointer : Nat) : String :=
  "f" ++ toString function ++ "v" ++ toString pointer

/-- The identifier of a use of a tracked pointer. -/
def useId (function pointer use : Nat) : String :=
  pointerId function pointer ++ "u" ++ toString use

/-- The wording of where a tracked pointer comes from. -/
def originText : Origin → String
  | .parameter position => "param #" ++ toString position
  | .allocation => "alloc"

/-- The node of a tracked pointer. -/
def drawPointer (function : Nat) (pointer : TrackedPointer) (position : Nat) : PictureNode where
  id := pointerId function position
  label := pointer.name ++ "\n" ++ originText pointer.origin
  attributes := (({} : Attributes).set "shape" "ellipse").fill
    (if pointer.escapes then exitColor else containedColor)
  cluster := some (clusterId function)

/-- The node of a use. -/
def drawUse (function pointer : Nat) (use : PointerUse) (position : Nat) : PictureNode where
  id := useId function pointer position
  label := use.instruction
  attributes := ({} : Attributes).set "shape" "box"
  cluster := some (clusterId function)

/-- The text at a use: the variable it goes through, if another, and why the pointer escapes. -/
def useText (pointer : TrackedPointer) (use : PointerUse) : String :=
  let via := if use.via = pointer.name then "" else use.via
  match use.reason with
  | none => via
  | some reason => if via = "" then reason.text else via ++ ": " ++ reason.text

/-- The edge from a tracked pointer to one of its uses. -/
def drawUseEdge (function : Nat) (pointer : TrackedPointer) (position : Nat) (use : PointerUse)
    (usePosition : Nat) : PictureEdge where
  source := pointerId function position
  target := useId function position usePosition
  label :=
    let text := useText pointer use
    if text = "" then none else some text
  attributes := if use.reason.isSome then ({} : Attributes).set "color" "red" else {}

/-- The nodes of a function: each tracked pointer before its uses. -/
def functionNodes (escape : FunctionEscape) (function : Nat) : List PictureNode :=
  (escape.pointers.mapIdx fun position pointer =>
    drawPointer function pointer position ::
      pointer.uses.mapIdx fun usePosition use =>
        drawUse function position use usePosition).flatten

/-- The edges of a function: from each tracked pointer to its uses. -/
def functionEdges (escape : FunctionEscape) (function : Nat) : List PictureEdge :=
  (escape.pointers.mapIdx fun position pointer =>
    pointer.uses.mapIdx fun usePosition use =>
      drawUseEdge function pointer position use usePosition).flatten

/-- The picture of what escapes: a cluster for each function, and in it every tracked pointer with
an edge to each of its uses. -/
def draw (label : String) (report : EscapeReport) : Picture :=
  { (Picture.titled ("Escape: " ++ label)).set "compound" "true" with
    nodes := (report.functions.mapIdx fun position escape => functionNodes escape position).flatten
    edges := (report.functions.mapIdx fun position escape => functionEdges escape position).flatten
    clusters := report.functions.mapIdx fun position escape =>
      ⟨clusterId position, escape.function⟩ }

end EscapeReport

end ProgramGraphs
