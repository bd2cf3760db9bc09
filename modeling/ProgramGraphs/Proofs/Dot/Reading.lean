import ProgramGraphs.Proofs.Dot.Text
import ProgramGraphs.Proofs.Picture.Coherent

/-! # What DOT text says

The statements of a document are gone through in order. Settings come before everything that they
apply to; a node needs a label, and a cluster starts with one. What would be merged or made up on
the way is refused: two settings of one key, two nodes or clusters of one name, and edges between
nodes that have no statement of their own. A picture is read back from its document, with the nodes
in the order in which they are printed (`Picture.reading?_document`).
-/

namespace ProgramGraphs

namespace Picture

instance (picture : Picture) : Decidable picture.Coherent :=
  decidable_of_iff
    ((picture.nodes.map (·.id)).Nodup ∧ (picture.clusters.map (·.id)).Nodup ∧
      (∀ edge ∈ picture.edges,
        edge.source ∈ picture.nodes.map (·.id) ∧ edge.target ∈ picture.nodes.map (·.id)) ∧
      ∀ node ∈ picture.nodes, ∀ cluster ∈ node.cluster, cluster ∈ picture.clusters.map (·.id))
    ⟨fun ⟨nodes, clusters, joined, grouped⟩ => ⟨nodes, clusters, joined, grouped⟩,
      fun ⟨nodes, clusters, joined, grouped⟩ => ⟨nodes, clusters, joined, grouped⟩⟩

end Picture

namespace Dot

/-- What a text says: a picture, and what holds for all its nodes and edges. -/
structure Reading where
  picture : Picture
  nodeDefaults : List (String × String) := []
  edgeDefaults : List (String × String) := []

/-- No key is set twice. -/
def Distinct (attributes : List (String × String)) : Prop :=
  (attributes.map Prod.fst).Nodup

instance (attributes : List (String × String)) : Decidable (Distinct attributes) :=
  inferInstanceAs (Decidable (List.Nodup _))

/-- The label among some attributes, if there is one, and the others. -/
def label? (attributes : List (String × String)) : Option (Option String × Attributes) :=
  if Distinct attributes then
    some (attributes.lookup "label", ⟨attributes.filter (·.1 != "label")⟩)
  else none

/-- The node of a statement that stands in a cluster or in none. -/
def node? (cluster : Option String) : Statement → Option PictureNode
  | .node id attributes => do
    let (label, others) ← label? attributes
    let label ← label
    pure { id := id, label := label, attributes := others, cluster := cluster }
  | _ => none

/-- The edge between two nodes. -/
def edge? (source target : String) (attributes : List (String × String)) : Option PictureEdge := do
  let (label, others) ← label? attributes
  pure { source := source, target := target, label := label, attributes := others }

/-- Whether a block of a name is drawn as a cluster. -/
def isCluster (id : String) : Bool :=
  "cluster".toList.isPrefixOf id.toList

/-- A cluster and the nodes in it. -/
def members? (id : String) : List Statement → Option (Cluster × List PictureNode)
  | .attribute key label :: statements =>
    if isCluster id && key == "label" then do
      let nodes ← statements.mapM (node? (some id))
      pure (⟨id, label⟩, nodes)
    else none
  | _ => none

namespace Reading

/-- A picture of a name of which nothing has been said. -/
def bare (name : String) : Reading where
  picture := { name := name, attributes := {} }

/-- Whether there is nothing yet that settings could apply to. -/
def isBare (reading : Reading) : Bool :=
  reading.picture.nodes.isEmpty && reading.picture.edges.isEmpty &&
    reading.picture.clusters.isEmpty

/-- Add settings. -/
def set (reading : Reading) (scope : Scope) (attributes : List (String × String)) : Reading :=
  match scope with
  | .graph =>
    { reading with picture.attributes.entries :=
        reading.picture.attributes.entries ++ attributes }
  | .node => { reading with nodeDefaults := reading.nodeDefaults ++ attributes }
  | .edge => { reading with edgeDefaults := reading.edgeDefaults ++ attributes }

/-- Add nodes, edges and clusters. -/
def extend (reading : Reading) (nodes : List PictureNode) (edges : List PictureEdge)
    (clusters : List Cluster) : Reading :=
  { reading with picture :=
    { reading.picture with
      nodes := reading.picture.nodes ++ nodes
      edges := reading.picture.edges ++ edges
      clusters := reading.picture.clusters ++ clusters } }

/-- Go on with a statement or a cluster. -/
def add (reading : Reading) : Element → Option Reading
  | .statement (.defaults scope attributes) =>
    if reading.isBare then some (reading.set scope attributes) else none
  | .statement (.attribute key value) =>
    if reading.isBare then some (reading.set .graph [(key, value)]) else none
  | .statement (.node id attributes) => do
    let node ← node? none (.node id attributes)
    pure (reading.extend [node] [] [])
  | .statement (.edge source target attributes) => do
    let edge ← edge? source target attributes
    pure (reading.extend [] [edge] [])
  | .subgraph id statements => do
    let (cluster, nodes) ← members? id statements
    pure (reading.extend nodes [] [cluster])

/-- Nothing has been merged or made up. -/
structure Plain (reading : Reading) : Prop where
  coherent : reading.picture.Coherent
  attributes : Distinct reading.picture.attributes.entries
  nodeDefaults : Distinct reading.nodeDefaults
  edgeDefaults : Distinct reading.edgeDefaults

instance (reading : Reading) : Decidable reading.Plain :=
  decidable_of_iff
    (reading.picture.Coherent ∧ Distinct reading.picture.attributes.entries ∧
      Distinct reading.nodeDefaults ∧ Distinct reading.edgeDefaults)
    ⟨fun ⟨coherent, attributes, nodes, edges⟩ => ⟨coherent, attributes, nodes, edges⟩,
      fun ⟨coherent, attributes, nodes, edges⟩ => ⟨coherent, attributes, nodes, edges⟩⟩

end Reading

/-- What a document says. -/
def Document.reading? (document : Document) : Option Reading := do
  let reading ← document.elements.foldlM Reading.add (.bare document.id)
  if reading.Plain then some reading else none

/-- What a text says. -/
def read? (text : String) : Option Reading := do
  let document ← Document.read? text
  document.reading?

end Dot

/-! ## Pictures are read back -/

theorem mapM_map_eq_some {α β : Type} {read : β → Option α} {write : α → β} {items : List α}
    (reads : ∀ item ∈ items, read (write item) = some item) :
    (items.map write).mapM read = some items := by
  induction items with
  | nil => rfl
  | cons item rest ih =>
    obtain ⟨here, others⟩ := List.forall_mem_cons.mp reads
    rw [List.map_cons, List.mapM_cons, here, ih others]
    rfl

/-- What every element adds, a list of elements adds one after the other. -/
theorem Dot.Reading.foldlM_add {α : Type} {element : α → Dot.Element} {nodes : α → List PictureNode}
    {edges : α → List PictureEdge} {clusters : α → List Cluster} {items : List α}
    (adds : ∀ item ∈ items, ∀ reading : Reading, reading.add (element item) =
      some (reading.extend (nodes item) (edges item) (clusters item))) (reading : Reading) :
    (items.map element).foldlM add reading = some (reading.extend (items.flatMap nodes)
      (items.flatMap edges) (items.flatMap clusters)) := by
  induction items generalizing reading with
  | nil => simp [extend]
  | cons item rest ih =>
    obtain ⟨here, others⟩ := List.forall_mem_cons.mp adds
    rw [List.map_cons, List.foldlM_cons, here reading]
    exact (ih others _).trans (by simp [extend])

/-- Attributes in ascending order of their keys, which are identifiers and not reserved. -/
structure Attributes.Keyed (reserved : List String) (attributes : Attributes) : Prop where
  ascending : attributes.entries.Pairwise fun first second => first.1 < second.1
  plain : Dot.HasKeys attributes.entries
  free : ∀ entry ∈ attributes.entries, entry.1 ∉ reserved

theorem Attributes.Keyed.distinct {reserved : List String} {attributes : Attributes}
    (keyed : attributes.Keyed reserved) : Dot.Distinct attributes.entries :=
  List.pairwise_map.mpr (keyed.ascending.imp fun less => less.ne)

/-- A label in front of other attributes is told from them. -/
theorem Attributes.Keyed.label?_eq {attributes : Attributes} (keyed : attributes.Keyed ["label"])
    (label : Option String) :
    Dot.label? ((label.toList.map fun label => ("label", label)) ++ attributes.entries) =
      some (label, attributes) := by
  have others : ∀ entry ∈ attributes.entries, (entry.1 != "label") = true := by
    intro entry member
    simpa using keyed.free entry member
  have absent : attributes.entries.lookup "label" = none := by
    refine List.lookup_eq_none_iff.mpr fun entry member => ?_
    rw [← others entry member, bne_comm]
  have kept : attributes.entries.filter (·.1 != "label") = attributes.entries :=
    List.filter_eq_self.mpr others
  cases label with
  | none =>
    change Dot.label? attributes.entries = _
    rw [Dot.label?, if_pos keyed.distinct, absent, kept]
  | some label =>
    have distinct : Dot.Distinct (("label", label) :: attributes.entries) := by
      refine List.nodup_cons.mpr ⟨fun member => ?_, keyed.distinct⟩
      obtain ⟨entry, listed, same⟩ := List.mem_map.mp member
      simpa [same] using others entry listed
    change Dot.label? (("label", label) :: attributes.entries) = _
    rw [Dot.label?, if_pos distinct, List.filter_cons_of_neg (by simp), kept]
    rfl

namespace Picture

/-- What can be printed so that it can be read back: all keys are identifiers of their own, labels
stand outside the attributes, clusters are named as such, and no identifier has a carriage
return. -/
structure Printable (picture : Picture) : Prop where
  attributes : picture.attributes.Keyed []
  nodes : ∀ node ∈ picture.nodes,
    node.attributes.Keyed ["label"] ∧ Dot.dropReturns node.id = node.id
  edges : ∀ edge ∈ picture.edges, edge.attributes.Keyed ["label"]
  clusters : ∀ cluster ∈ picture.clusters,
    Dot.isCluster cluster.id = true ∧ Dot.dropReturns cluster.id = cluster.id

theorem node?_nodeStatement {node : PictureNode} (keyed : node.attributes.Keyed ["label"]) :
    Dot.node? node.cluster (nodeStatement node) = some node := by
  have label : Dot.label? (("label", node.label) :: node.attributes.entries) =
      some (some node.label, node.attributes) := keyed.label?_eq (some node.label)
  change Dot.label? (("label", node.label) :: node.attributes.entries) >>= _ = _
  rw [label]
  rfl

theorem edge?_edgeStatement {edge : PictureEdge} (keyed : edge.attributes.Keyed ["label"]) :
    Dot.edge? edge.source edge.target
      ((edge.label.toList.map fun label => ("label", label)) ++ edge.attributes.entries) =
        some edge := by
  rw [Dot.edge?, keyed.label?_eq edge.label]
  rfl

/-- The nodes that are printed in a place: at the top, or in a cluster. -/
def nodesIn (picture : Picture) (cluster : Option String) : List PictureNode :=
  picture.nodes.filter (·.cluster == cluster)

/-- The picture with its nodes in the order in which they are printed: first those in no cluster,
then those of each cluster. -/
def arranged (picture : Picture) : Picture :=
  { picture with nodes := picture.nodesIn none ++
      picture.clusters.flatMap fun cluster => picture.nodesIn (some cluster.id) }

/-- What the text of a picture says: the picture, with its nodes as they are printed, and the fonts
of all nodes and edges. -/
def reading (picture : Picture) : Dot.Reading where
  picture := picture.arranged
  nodeDefaults := [("fontname", "Courier"), ("fontsize", "10")]
  edgeDefaults := [("fontname", "Courier"), ("fontsize", "9")]

variable {picture : Picture}

theorem node?_of_mem_nodesIn (printable : picture.Printable) {cluster : Option String}
    {node : PictureNode} (member : node ∈ picture.nodesIn cluster) :
    Dot.node? cluster (nodeStatement node) = some node := by
  obtain ⟨inside, placed⟩ := List.mem_filter.mp member
  rw [← eq_of_beq placed]
  exact node?_nodeStatement (printable.nodes node inside).1

theorem members?_clusterElement (printable : picture.Printable) {cluster : Cluster}
    (member : cluster ∈ picture.clusters) :
    Dot.members? cluster.id (.attribute "label" cluster.label ::
        (picture.nodesIn (some cluster.id)).map nodeStatement) =
      some (cluster, picture.nodesIn (some cluster.id)) := by
  have nodes : ((picture.nodesIn (some cluster.id)).map nodeStatement).mapM
      (Dot.node? (some cluster.id)) = some (picture.nodesIn (some cluster.id)) :=
    mapM_map_eq_some fun node => node?_of_mem_nodesIn printable
  rw [Dot.members?, if_pos (by rw [(printable.clusters cluster member).1]; rfl), nodes]
  rfl

section

open Dot (Reading)

theorem add_nodeStatement (printable : picture.Printable) {node : PictureNode}
    (member : node ∈ picture.nodesIn none) (reading : Reading) :
    reading.add (.statement (nodeStatement node)) = some (reading.extend [node] [] []) := by
  change Dot.node? none (nodeStatement node) >>= _ = _
  rw [node?_of_mem_nodesIn printable member]
  rfl

theorem add_clusterElement (printable : picture.Printable) {cluster : Cluster}
    (member : cluster ∈ picture.clusters) (reading : Reading) :
    reading.add (picture.clusterElement cluster) =
      some (reading.extend (picture.nodesIn (some cluster.id)) [] [cluster]) := by
  change Dot.members? cluster.id _ >>= _ = _
  rw [← nodesIn, members?_clusterElement printable member]
  rfl

theorem add_edgeStatement (printable : picture.Printable) {edge : PictureEdge}
    (member : edge ∈ picture.edges) (reading : Reading) :
    reading.add (.statement (edgeStatement edge)) = some (reading.extend [] [edge] []) := by
  change Dot.edge? edge.source edge.target _ >>= _ = _
  rw [edge?_edgeStatement (printable.edges edge member)]
  rfl

/-- The settings come first. -/
theorem foldlM_defaults (picture : Picture) :
    (picture.defaults.map Dot.Element.statement).foldlM Reading.add (.bare picture.name) =
      some ⟨{ name := picture.name, attributes := picture.attributes },
        [("fontname", "Courier"), ("fontsize", "10")],
        [("fontname", "Courier"), ("fontsize", "9")]⟩ := rfl

theorem foldlM_elements (printable : picture.Printable) :
    picture.document.elements.foldlM Reading.add (.bare picture.name) = some picture.reading := by
  have nodes := Reading.foldlM_add fun node (member : node ∈ picture.nodesIn none) =>
    add_nodeStatement printable member
  have clusters := Reading.foldlM_add fun cluster (member : cluster ∈ picture.clusters) =>
    add_clusterElement printable member
  have edges := Reading.foldlM_add fun edge (member : edge ∈ picture.edges) =>
    add_edgeStatement printable member
  have nothing {α β : Type} (items : List α) : items.flatMap (fun _ => ([] : List β)) = [] :=
    List.flatMap_eq_nil_iff.mpr fun _ _ => rfl
  rw [nodesIn] at nodes
  rw [document, List.foldlM_append, List.foldlM_append, List.foldlM_append, foldlM_defaults]
  simp only [Option.bind_eq_bind, Option.bind_some, nodes, clusters, edges]
  simp [Reading.extend, reading, arranged, nodesIn, nothing]

end

/-- Every node is printed once: at the top, or in its cluster. -/
theorem perm_arranged (coherent : picture.Coherent) :
    picture.arranged.nodes.Perm picture.nodes := by
  have distinct : picture.nodes.Nodup := .of_map _ coherent.nodes_distinct
  have apart {first second : Option String} (differ : first ≠ second) :
      (picture.nodesIn first).Disjoint (picture.nodesIn second) := by
    intro node here there
    have one := (List.mem_filter.mp here).2
    have other := (List.mem_filter.mp there).2
    exact differ ((eq_of_beq one).symm.trans (eq_of_beq other))
  have clusters : picture.clusters.Pairwise fun first second => first.id ≠ second.id :=
    List.pairwise_map.mp coherent.clusters_distinct
  -- clusters have different identifiers, so no node is printed in two of them
  have printed : picture.arranged.nodes.Nodup := by
    refine List.nodup_append'.mpr ⟨distinct.filter _, List.nodup_flatMap.mpr ⟨?_, ?_⟩, ?_⟩
    · exact fun cluster _ => distinct.filter _
    · exact clusters.imp fun differ => apart fun same => differ (Option.some.inj same)
    · intro node top inside
      obtain ⟨cluster, -, inside⟩ := List.mem_flatMap.mp inside
      have differ : none ≠ some cluster.id := nofun
      exact apart differ top inside
  refine (List.perm_ext_iff_of_nodup printed distinct).mpr fun node => ?_
  rw [arranged, List.mem_append, List.mem_flatMap]
  constructor
  · rintro (member | ⟨cluster, -, member⟩) <;> exact (List.mem_filter.mp member).1
  · intro member
    cases placed : node.cluster with
    | none => exact .inl (List.mem_filter.mpr ⟨member, beq_iff_eq.mpr placed⟩)
    | some id =>
      obtain ⟨cluster, listed, rfl⟩ := List.mem_map.mp (coherent.grouped node member id placed)
      exact .inr ⟨cluster, listed, List.mem_filter.mpr ⟨member, beq_iff_eq.mpr placed⟩⟩

theorem Coherent.arranged (coherent : picture.Coherent) : picture.arranged.Coherent := by
  have perm := perm_arranged coherent
  have ids := perm.map (·.id)
  refine ⟨ids.nodup_iff.mpr coherent.nodes_distinct, coherent.clusters_distinct, ?_, ?_⟩
  · intro edge member
    rw [ids.mem_iff, ids.mem_iff]
    exact coherent.joined edge member
  · exact fun node member => coherent.grouped node (perm.mem_iff.mp member)

/-- The document of a picture says what the picture says. -/
theorem reading?_document (coherent : picture.Coherent) (printable : picture.Printable) :
    picture.document.reading? = some picture.reading := by
  have plain : picture.reading.Plain :=
    ⟨coherent.arranged, printable.attributes.distinct,
      show Dot.Distinct [("fontname", "Courier"), ("fontsize", "10")] by decide,
      show Dot.Distinct [("fontname", "Courier"), ("fontsize", "9")] by decide⟩
  have elements := foldlM_elements printable
  rw [Dot.Document.reading?]
  change picture.document.elements.foldlM Dot.Reading.add (.bare picture.name) >>= _ = _
  rw [elements]
  exact if_pos plain

end Picture

end ProgramGraphs
