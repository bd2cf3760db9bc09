import ProgramGraphs.Proofs.Dot.Reading

/-! # DOT text says what the picture says

The document of a picture is read back from its text without the carriage returns in its strings. It
does not matter whether they are dropped before or after the statements are made, as no identifier
of a node or a cluster has one. So the text of a picture says exactly what the picture says
(`Picture.read?_toDot`).
-/

namespace ProgramGraphs

/-- Change the values of attributes; their keys are words. -/
def Attributes.mapTexts (change : String → String) (attributes : Attributes) : Attributes :=
  ⟨Dot.mapValues change attributes.entries⟩

/-- Change the strings of a node. -/
def PictureNode.mapTexts (change : String → String) (node : PictureNode) : PictureNode where
  id := change node.id
  label := change node.label
  attributes := node.attributes.mapTexts change
  cluster := node.cluster.map change

/-- Change the strings of an edge. -/
def PictureEdge.mapTexts (change : String → String) (edge : PictureEdge) : PictureEdge where
  source := change edge.source
  target := change edge.target
  label := edge.label.map change
  attributes := edge.attributes.mapTexts change

/-- Change the strings of a cluster. -/
def Cluster.mapTexts (change : String → String) (cluster : Cluster) : Cluster :=
  ⟨change cluster.id, change cluster.label⟩

/-- Change the strings of a picture. -/
def Picture.mapTexts (change : String → String) (picture : Picture) : Picture where
  name := change picture.name
  attributes := picture.attributes.mapTexts change
  nodes := picture.nodes.map (·.mapTexts change)
  edges := picture.edges.map (·.mapTexts change)
  clusters := picture.clusters.map (·.mapTexts change)

theorem Attributes.Keyed.mapTexts {reserved : List String} {attributes : Attributes}
    (keyed : attributes.Keyed reserved) (change : String → String) :
    (attributes.mapTexts change).Keyed reserved where
  ascending := List.pairwise_map.mpr keyed.ascending
  plain := keyed.plain.mapValues change
  free entry member := by
    obtain ⟨old, listed, rfl⟩ := List.mem_map.mp member
    exact keyed.free old listed

namespace Picture

open Dot (dropReturns dropReturns_dropReturns)

variable {picture : Picture}

/-- A picture without carriage returns can be printed if the picture can. -/
theorem Printable.mapTexts (printable : picture.Printable) :
    (picture.mapTexts dropReturns).Printable where
  attributes := printable.attributes.mapTexts dropReturns
  nodes node member := by
    obtain ⟨old, listed, rfl⟩ := List.mem_map.mp member
    exact ⟨(printable.nodes old listed).1.mapTexts dropReturns, dropReturns_dropReturns old.id⟩
  edges edge member := by
    obtain ⟨old, listed, rfl⟩ := List.mem_map.mp member
    exact (printable.edges old listed).mapTexts dropReturns
  clusters cluster member := by
    obtain ⟨old, listed, rfl⟩ := List.mem_map.mp member
    obtain ⟨named, fixed⟩ := printable.clusters old listed
    have same : (old.mapTexts dropReturns).id = old.id := fixed
    rw [same]
    exact ⟨named, fixed⟩

theorem map_id_nodes_mapTexts (printable : picture.Printable) :
    (picture.mapTexts dropReturns).nodes.map (·.id) = picture.nodes.map (·.id) := by
  rw [mapTexts, List.map_map]
  exact List.map_congr_left fun node member => (printable.nodes node member).2

theorem map_id_clusters_mapTexts (printable : picture.Printable) :
    (picture.mapTexts dropReturns).clusters.map (·.id) = picture.clusters.map (·.id) := by
  rw [mapTexts, List.map_map]
  exact List.map_congr_left fun cluster member => (printable.clusters cluster member).2

/-- A node stays in its cluster. -/
theorem cluster_mapTexts (coherent : picture.Coherent) (printable : picture.Printable)
    {node : PictureNode} (member : node ∈ picture.nodes) :
    (node.mapTexts dropReturns).cluster = node.cluster := by
  change node.cluster.map dropReturns = node.cluster
  cases placed : node.cluster with
  | none => rfl
  | some id =>
    obtain ⟨cluster, listed, rfl⟩ := List.mem_map.mp (coherent.grouped node member id placed)
    exact congrArg some (printable.clusters cluster listed).2

theorem Coherent.mapTexts (coherent : picture.Coherent) (printable : picture.Printable) :
    (picture.mapTexts dropReturns).Coherent where
  nodes_distinct := by
    rw [map_id_nodes_mapTexts printable]
    exact coherent.nodes_distinct
  clusters_distinct := by
    rw [map_id_clusters_mapTexts printable]
    exact coherent.clusters_distinct
  joined edge member := by
    obtain ⟨old, listed, rfl⟩ := List.mem_map.mp member
    have kept : ∀ id ∈ picture.nodes.map (·.id),
        dropReturns id ∈ (picture.mapTexts dropReturns).nodes.map (·.id) := by
      intro id drawn
      obtain ⟨node, inside, rfl⟩ := List.mem_map.mp drawn
      exact List.mem_map_of_mem (List.mem_map_of_mem inside)
    obtain ⟨source, target⟩ := coherent.joined old listed
    exact ⟨kept _ source, kept _ target⟩
  grouped node member cluster held := by
    obtain ⟨old, listed, rfl⟩ := List.mem_map.mp member
    rw [cluster_mapTexts coherent printable listed] at held
    rw [map_id_clusters_mapTexts printable]
    exact coherent.grouped old listed cluster held

theorem nodesIn_mapTexts (coherent : picture.Coherent) (printable : picture.Printable)
    (cluster : Option String) : (picture.mapTexts dropReturns).nodesIn cluster =
      (picture.nodesIn cluster).map (·.mapTexts dropReturns) := by
  rw [nodesIn, nodesIn, mapTexts, List.filter_map]
  refine congrArg _ (List.filter_congr fun node member => ?_)
  exact congrArg (· == cluster) (cluster_mapTexts coherent printable member)

theorem nodeStatement_mapTexts (change : String → String) (node : PictureNode) :
    nodeStatement (node.mapTexts change) = (nodeStatement node).mapTexts change := rfl

theorem edgeStatement_mapTexts (change : String → String) (edge : PictureEdge) :
    edgeStatement (edge.mapTexts change) = (edgeStatement edge).mapTexts change := by
  obtain ⟨source, target, label, attributes⟩ := edge
  cases label <;> rfl

theorem clusterElement_mapTexts (coherent : picture.Coherent) (printable : picture.Printable)
    {cluster : Cluster} (member : cluster ∈ picture.clusters) :
    (picture.mapTexts dropReturns).clusterElement (cluster.mapTexts dropReturns) =
      (picture.clusterElement cluster).mapTexts dropReturns := by
  have fixed : (cluster.mapTexts dropReturns).id = cluster.id :=
    (printable.clusters cluster member).2
  have inside := nodesIn_mapTexts coherent printable (some cluster.id)
  rw [nodesIn, nodesIn] at inside
  rw [clusterElement, fixed, inside, List.map_map]
  simp [clusterElement, Dot.Element.mapTexts, Dot.Statement.mapTexts, Cluster.mapTexts,
    nodeStatement_mapTexts, (printable.clusters cluster member).2]

/-- The defaults have no carriage return. -/
theorem defaults_mapTexts (picture : Picture) : (picture.mapTexts dropReturns).defaults =
    picture.defaults.map (·.mapTexts dropReturns) := by
  have nodes : Dot.mapValues dropReturns [("fontname", "Courier"), ("fontsize", "10")] =
      [("fontname", "Courier"), ("fontsize", "10")] := by decide
  have edges : Dot.mapValues dropReturns [("fontname", "Courier"), ("fontsize", "9")] =
      [("fontname", "Courier"), ("fontsize", "9")] := by decide
  simp only [defaults, List.map_cons, List.map_nil, Dot.Statement.mapTexts, nodes, edges]
  rfl

theorem document_mapTexts (coherent : picture.Coherent) (printable : picture.Printable) :
    (picture.mapTexts dropReturns).document = picture.document.mapTexts dropReturns := by
  have top := nodesIn_mapTexts coherent printable none
  rw [nodesIn, nodesIn] at top
  have clusters : (picture.mapTexts dropReturns).clusters.map
      (picture.mapTexts dropReturns).clusterElement =
        (picture.clusters.map picture.clusterElement).map (·.mapTexts dropReturns) := by
    rw [mapTexts, List.map_map, List.map_map]
    exact List.map_congr_left fun cluster member =>
      clusterElement_mapTexts coherent printable member
  have edges : (picture.mapTexts dropReturns).edges.map
      (fun edge => Dot.Element.statement (edgeStatement edge)) =
        (picture.edges.map fun edge => Dot.Element.statement (edgeStatement edge)).map
          (·.mapTexts dropReturns) := by
    rw [mapTexts, List.map_map, List.map_map]
    exact List.map_congr_left fun edge _ => congrArg _ (edgeStatement_mapTexts dropReturns edge)
  rw [document, document, Dot.Document.mapTexts, defaults_mapTexts, top, clusters, edges]
  simp only [List.map_append, List.map_map]
  rfl

/-- All keys of the document of a picture are identifiers. -/
theorem hasKeys_document (printable : picture.Printable) :
    ∀ element ∈ picture.document.elements, element.HasKeys := by
  have label : Dot.isKey "label" = true := by decide
  have fontname : Dot.isKey "fontname" = true := by decide
  have fontsize : Dot.isKey "fontsize" = true := by decide
  have font (size : String) : Dot.HasKeys [("fontname", "Courier"), ("fontsize", size)] :=
    List.forall_mem_cons.mpr ⟨fontname, List.forall_mem_singleton.mpr fontsize⟩
  have node : ∀ node ∈ picture.nodes, (nodeStatement node).HasKeys := fun node member =>
    List.forall_mem_cons.mpr ⟨label, (printable.nodes node member).1.plain⟩
  intro element member
  simp only [document, List.mem_append] at member
  rcases member with ((member | member) | member) | member
  · simp only [defaults, List.map_cons, List.map_nil, List.mem_cons, List.not_mem_nil,
      or_false] at member
    rcases member with rfl | rfl | rfl
    · exact printable.attributes.plain
    · exact font "10"
    · exact font "9"
  · obtain ⟨drawn, listed, rfl⟩ := List.mem_map.mp member
    exact node drawn (List.mem_filter.mp listed).1
  · obtain ⟨cluster, -, rfl⟩ := List.mem_map.mp member
    refine List.forall_mem_cons.mpr ⟨label, fun content inside => ?_⟩
    obtain ⟨drawn, listed, rfl⟩ := List.mem_map.mp inside
    exact node drawn (List.mem_filter.mp listed).1
  · obtain ⟨edge, listed, rfl⟩ := List.mem_map.mp member
    refine List.forall_mem_append.mpr ⟨fun entry inside => ?_, (printable.edges edge listed).plain⟩
    obtain ⟨text, -, rfl⟩ := List.mem_map.mp inside
    exact label

/-- The text of a picture is read as the picture without carriage returns, its nodes in the order in
which they are printed. -/
theorem read?_toDot (coherent : picture.Coherent) (printable : picture.Printable) :
    Dot.read? picture.toDot = some (picture.mapTexts dropReturns).reading := by
  rw [Dot.read?, toDot, Dot.Document.read?_text (hasKeys_document printable),
    ← document_mapTexts coherent printable]
  exact reading?_document (coherent.mapTexts printable) printable.mapTexts

end Picture

end ProgramGraphs
