import ProgramGraphs.Json.Value

/-! # Pictures

A picture is a graph ready to be put out: nodes, edges and clusters in the order in which they are
drawn, with display texts and attributes. Attributes are kept in ascending order of their keys.
-/

namespace ProgramGraphs

/-- Drawing attributes by key, in ascending order. -/
structure Attributes where
  entries : List (String × String) := []
  deriving DecidableEq, Repr

namespace Attributes

/-- Put an attribute at its place among entries, replacing one of the same key. -/
def insertEntry (key value : String) : List (String × String) → List (String × String)
  | [] => [(key, value)]
  | (other, held) :: rest =>
    if key = other then (key, value) :: rest
    else if key < other then (key, value) :: (other, held) :: rest
    else (other, held) :: insertEntry key value rest

/-- Set an attribute. -/
def set (attributes : Attributes) (key value : String) : Attributes :=
  ⟨insertEntry key value attributes.entries⟩

/-- The attributes of a filled shape. -/
def fill (attributes : Attributes) (color : String) : Attributes :=
  (attributes.set "style" "filled").set "fillcolor" color

/-- An object of all attributes. -/
def toJson (attributes : Attributes) : Json.Value :=
  .object (attributes.entries.map fun (key, value) => (key, .string value))

/-- The member of an object that holds attributes, left out where there are none. -/
def member (attributes : Attributes) : List (String × Json.Value) :=
  if attributes.entries.isEmpty then [] else [("attributes", attributes.toJson)]

end Attributes

/-- A node of a picture, perhaps inside a cluster. -/
structure PictureNode where
  id : String
  label : String
  attributes : Attributes := {}
  cluster : Option String := none
  deriving DecidableEq, Repr

/-- An edge of a picture between two nodes. -/
structure PictureEdge where
  source : String
  target : String
  label : Option String := none
  attributes : Attributes := {}
  deriving DecidableEq, Repr

/-- A named group of nodes. -/
structure Cluster where
  id : String
  label : String
  deriving DecidableEq, Repr

/-- A graph ready to be put out. -/
structure Picture where
  name : String
  attributes : Attributes
  nodes : List PictureNode := []
  edges : List PictureEdge := []
  clusters : List Cluster := []
  deriving DecidableEq, Repr

/-- The node as an object. -/
def PictureNode.toJson (node : PictureNode) : Json.Value :=
  .object ([("id", .string node.id), ("label", .string node.label)] ++ node.attributes.member ++
    node.cluster.toList.map fun cluster => ("cluster", .string cluster))

/-- The edge as an object. -/
def PictureEdge.toJson (edge : PictureEdge) : Json.Value :=
  .object ([("source", .string edge.source), ("target", .string edge.target)] ++
    (edge.label.toList.map fun label => ("label", .string label)) ++ edge.attributes.member)

/-- The cluster as an object. -/
def Cluster.toJson (cluster : Cluster) : Json.Value :=
  .object [("id", .string cluster.id), ("label", .string cluster.label)]

namespace Picture

/-- The picture of a name without nodes; the name is its title, on top. -/
def titled (name : String) : Picture where
  name := name
  attributes := (({} : Attributes).set "label" name).set "labelloc" "t"

/-- Set an attribute of the whole picture. -/
def set (picture : Picture) (key value : String) : Picture :=
  { picture with attributes := picture.attributes.set key value }

/-- The node of an identifier. -/
def node? (picture : Picture) (id : String) : Option PictureNode :=
  picture.nodes.find? (·.id == id)

/-- The picture as an object. -/
def toJson (picture : Picture) : Json.Value :=
  .object ([("name", .string picture.name), ("graph_attributes", picture.attributes.toJson),
    ("nodes", .array (picture.nodes.map PictureNode.toJson)),
    ("edges", .array (picture.edges.map PictureEdge.toJson))] ++
    if picture.clusters.isEmpty then []
    else [("clusters", .array (picture.clusters.map Cluster.toJson))])

end Picture

end ProgramGraphs
