import ProgramGraphs.Dot.Quoted
import ProgramGraphs.Picture.Basic

/-! # DOT text

A picture becomes a list of statements: defaults, the nodes that are in no cluster, each cluster
with its nodes, and the edges. Statements stand on a line each, indented by their nesting; all
identifiers and values are quoted.
-/

namespace ProgramGraphs

namespace Dot

/-- What the attributes of a statement apply to. -/
inductive Scope where
  | graph
  | node
  | edge
  deriving DecidableEq, Repr

/-- The keyword of a scope. -/
def Scope.keyword : Scope → String
  | .graph => "graph"
  | .node => "node"
  | .edge => "edge"

/-- A statement that is no cluster. -/
inductive Statement where
  | defaults (scope : Scope) (attributes : List (String × String))
  | attribute (key value : String)
  | node (id : String) (attributes : List (String × String))
  | edge (source target : String) (attributes : List (String × String))
  deriving DecidableEq, Repr

/-- A statement at the top, or a cluster of statements. -/
inductive Element where
  | statement (content : Statement)
  | subgraph (id : String) (statements : List Statement)
  deriving DecidableEq, Repr

/-- A graph of a name. -/
structure Document where
  id : String
  elements : List Element
  deriving DecidableEq, Repr

/-- One attribute. -/
def attributeText (entry : String × String) : String :=
  entry.1 ++ "=" ++ quote entry.2

/-- A list of attributes in brackets. -/
def attributesText (attributes : List (String × String)) : String :=
  "[" ++ String.intercalate " " (attributes.map attributeText) ++ "]"

/-- The text of a statement. -/
def Statement.text : Statement → String
  | .defaults scope attributes => scope.keyword ++ attributesText attributes
  | .attribute key value => attributeText (key, value)
  | .node id attributes => quote id ++ attributesText attributes
  | .edge source target attributes =>
    quote source ++ " -> " ++ quote target ++
      (if attributes.isEmpty then "" else " " ++ attributesText attributes)

/-- The lines of an element. -/
def Element.lines : Element → List String
  | .statement content => ["  " ++ content.text]
  | .subgraph id statements =>
    ("  subgraph " ++ quote id ++ " \x7b") ::
      (statements.map ("    " ++ ·.text) ++ ["  \x7d"])

/-- The text of a graph. -/
def Document.text (document : Document) : String :=
  String.intercalate "\n"
    (("digraph " ++ quote document.id ++ " \x7b") ::
      (document.elements.flatMap Element.lines ++ ["\x7d"]))

end Dot

namespace Picture

/-- The statement of a node; its label comes first. -/
def nodeStatement (node : PictureNode) : Dot.Statement :=
  .node node.id (("label", node.label) :: node.attributes.entries)

/-- The statement of an edge; its label, if any, comes first. -/
def edgeStatement (edge : PictureEdge) : Dot.Statement :=
  .edge edge.source edge.target
    ((edge.label.toList.map fun label => ("label", label)) ++ edge.attributes.entries)

/-- The cluster with the nodes that are in it. -/
def clusterElement (picture : Picture) (cluster : Cluster) : Dot.Element :=
  .subgraph cluster.id (.attribute "label" cluster.label ::
    (picture.nodes.filter (·.cluster == some cluster.id)).map nodeStatement)

/-- The defaults that hold in every graph. -/
def defaults (picture : Picture) : List Dot.Statement :=
  [.defaults .graph picture.attributes.entries,
    .defaults .node [("fontname", "Courier"), ("fontsize", "10")],
    .defaults .edge [("fontname", "Courier"), ("fontsize", "9")]]

/-- The picture as statements. -/
def document (picture : Picture) : Dot.Document where
  id := picture.name
  elements :=
    picture.defaults.map .statement ++
      ((picture.nodes.filter (·.cluster == none)).map fun node =>
        .statement (nodeStatement node)) ++
      picture.clusters.map picture.clusterElement ++
      picture.edges.map fun edge => .statement (edgeStatement edge)

/-- The picture as text. -/
def toDot (picture : Picture) : String :=
  picture.document.text

end Picture

end ProgramGraphs
