import Mathlib.Data.List.Basic
import ProgramGraphs.Proofs.Graph.Walk

/-! # Graphs from lists

A graph that is made from a list of payloads and a list of edges has exactly those, in order.
-/

namespace ProgramGraphs

/-- The edge between two nodes of a graph of known size. -/
def Edge.between {n : Nat} {ε : Type} (ends : Fin n × Fin n × ε) : Edge ε :=
  ⟨ends.1, ends.2.1, ends.2.2⟩

theorem Edge.between_injective {n : Nat} {ε : Type} :
    Function.Injective (Edge.between : Fin n × Fin n × ε → Edge ε) := by
  rintro ⟨source, target, label⟩ ⟨source', target', label'⟩ same
  simp only [between, Edge.mk.injEq, Fin.val_inj] at same
  obtain ⟨rfl, rfl, rfl⟩ := same
  rfl

namespace Digraph

variable {ν ε : Type}

theorem map_between_edgeList (graph : Digraph ν ε) :
    graph.edgeList.map Edge.between = graph.edges.toList := by
  rw [edgeList, List.map_map]
  exact List.attach_map_subtype_val _

theorem mem_edgeList_iff (graph : Digraph ν ε) (source target : Fin graph.size) (label : ε) :
    (source, target, label) ∈ graph.edgeList ↔ ⟨source, target, label⟩ ∈ graph.edges.toList := by
  rw [← graph.map_between_edgeList]
  exact (List.mem_map_of_injective Edge.between_injective).symm

/-- The edges by the payloads of their ends. -/
def arrows (graph : Digraph ν ε) : List (ν × ν × ε) :=
  graph.edgeList.map fun edge => (graph.payload edge.1, graph.payload edge.2.1, edge.2.2)

theorem exists_arrow_of_joins (graph : Digraph ν ε) {source target : Fin graph.size}
    (joined : graph.Joins false source target) :
    ∃ label, (graph.payload source, graph.payload target, label) ∈ graph.arrows := by
  obtain ⟨⟨_, _, label⟩, member, rfl, rfl⟩ := joined
  refine ⟨label, List.mem_map.mpr ⟨(source, target, label), ?_, rfl⟩⟩
  exact (graph.mem_edgeList_iff source target label).mpr member

/-- The first node with a payload that passes a test. -/
theorem find?_eq_some_iff (graph : Digraph ν ε) (test : ν → Bool) (node : Fin graph.size) :
    graph.find? test = some node ↔
      test (graph.payload node) = true ∧ ∀ other < node, test (graph.payload other) = false := by
  simp only [← Bool.not_eq_true]
  exact Array.findFinIdx?_eq_some_iff

theorem nodes_foldl_addNode (payloads : List ν) (graph : Digraph ν ε) :
    (payloads.foldl addNode graph).nodes.toList = graph.nodes.toList ++ payloads := by
  induction payloads generalizing graph with
  | nil => simp
  | cons payload rest ih =>
    rw [List.foldl_cons, ih, addNode, Array.toList_push, List.append_assoc, List.singleton_append]

theorem edges_foldl_addNode (payloads : List ν) (graph : Digraph ν ε) :
    (payloads.foldl addNode graph).edges = graph.edges := by
  induction payloads generalizing graph with
  | nil => rfl
  | cons payload rest ih => exact ih (graph.addNode payload)

theorem nodes_addEdges {n : Nat} (graph : Digraph ν ε) (sized : graph.size = n)
    (edges : List (Fin n × Fin n × ε)) : (addEdges graph sized edges).1.nodes = graph.nodes := by
  induction edges generalizing graph with
  | nil => rfl
  | cons edge rest ih =>
    obtain ⟨source, target, label⟩ := edge
    exact ih (graph.addEdge (source.cast sized.symm) (target.cast sized.symm) label) sized

theorem edges_addEdges {n : Nat} (graph : Digraph ν ε) (sized : graph.size = n)
    (edges : List (Fin n × Fin n × ε)) : (addEdges graph sized edges).1.edges.toList =
      graph.edges.toList ++ edges.map fun edge => ⟨edge.1, edge.2.1, edge.2.2⟩ := by
  induction edges generalizing graph with
  | nil => simp [addEdges]
  | cons edge rest ih =>
    obtain ⟨source, target, label⟩ := edge
    refine (ih (graph.addEdge (source.cast sized.symm) (target.cast sized.symm) label)
      sized).trans ?_
    simp [addEdge]

variable (payloads : List ν) (edges : List (Fin payloads.length × Fin payloads.length × ε))

theorem nodes_ofEdges : (ofEdges payloads edges).1.nodes.toList = payloads := by
  rw [ofEdges, nodes_addEdges, nodes_foldl_addNode]
  rfl

theorem edges_ofEdges : (ofEdges payloads edges).1.edges.toList =
    edges.map fun edge => ⟨edge.1, edge.2.1, edge.2.2⟩ := by
  rw [ofEdges, edges_addEdges, edges_foldl_addNode]
  rfl

theorem size_ofEdges : (ofEdges payloads edges).1.size = payloads.length :=
  (ofEdges payloads edges).2

/-- The node at a position of the list of payloads. -/
def nodeAt (position : Fin payloads.length) : Fin (ofEdges payloads edges).1.size :=
  position.cast (size_ofEdges payloads edges).symm

theorem payload_nodeAt (position : Fin payloads.length) :
    (ofEdges payloads edges).1.payload (nodeAt payloads edges position) = payloads[position] := by
  have inside : position.val < (ofEdges payloads edges).1.nodes.toList.length := by
    rw [nodes_ofEdges]
    exact position.isLt
  change (ofEdges payloads edges).1.nodes.toList[position.val] = payloads[position.val]
  simp only [nodes_ofEdges]

theorem exists_nodeAt (node : Fin (ofEdges payloads edges).1.size) :
    ∃ position, node = nodeAt payloads edges position :=
  ⟨node.cast (size_ofEdges payloads edges), rfl⟩

theorem edgeList_ofEdges : (ofEdges payloads edges).1.edgeList = edges.map fun edge =>
    (nodeAt payloads edges edge.1, nodeAt payloads edges edge.2.1, edge.2.2) := by
  refine (List.map_injective_iff.mpr Edge.between_injective) ?_
  rw [map_between_edgeList, edges_ofEdges, List.map_map]
  rfl

theorem arrows_ofEdges : (ofEdges payloads edges).1.arrows =
    edges.map fun edge => (payloads[edge.1], payloads[edge.2.1], edge.2.2) := by
  rw [arrows, edgeList_ofEdges, List.map_map]
  refine List.map_congr_left fun edge _ => ?_
  simp only [Function.comp_apply, payload_nodeAt]

/-- Listed edges join their ends. -/
theorem joins_ofEdges {source target : Fin payloads.length} {label : ε}
    (member : (source, target, label) ∈ edges) :
    (ofEdges payloads edges).1.Joins false (nodeAt payloads edges source)
      (nodeAt payloads edges target) := by
  refine ⟨⟨source, target, label⟩, ?_, rfl, rfl⟩
  rw [edges_ofEdges]
  exact List.mem_map.mpr ⟨_, member, rfl⟩

theorem addEdge?_eq_ok {n : Nat} (graph : Digraph ν ε) (sized : graph.size = n)
    (source target : Fin n) (label : ε) : graph.addEdge? source target label =
      .ok (graph.addEdge (source.cast sized.symm) (target.cast sized.symm) label) := by
  subst sized
  simp [addEdge?]

/-- Adding listed edges one at a time, with a look at both ends, meets no missing node. -/
theorem foldlM_addEdge? {n : Nat} (graph : Digraph ν ε) (sized : graph.size = n)
    (edges : List (Fin n × Fin n × ε)) :
    edges.foldlM (fun graph edge => graph.addEdge? edge.1 edge.2.1 edge.2.2) graph =
      .ok (addEdges graph sized edges).1 := by
  induction edges generalizing graph with
  | nil => rfl
  | cons edge rest ih =>
    obtain ⟨source, target, label⟩ := edge
    rw [List.foldlM_cons, graph.addEdge?_eq_ok sized]
    exact ih (graph.addEdge (source.cast sized.symm) (target.cast sized.symm) label) sized

end Digraph

end ProgramGraphs
