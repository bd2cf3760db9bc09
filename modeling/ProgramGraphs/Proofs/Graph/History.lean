import Mathlib.Data.List.Basic
import Mathlib.Data.List.Count
import Mathlib.Order.Fin.Basic
import ProgramGraphs.Graph.Basic

/-! # Graphs by the calls that made them

A graph is made by calls, each of which asks for one more node or one more edge. Two lists tell all
that the calls leave behind: the payloads, by node number, and the edges that were not refused. An
edge is refused if an end is missing at the time of the call, whatever is added later. Every answer
of the graph, from either end of its edges, is read off these lists (`built_lists`).
-/

namespace ProgramGraphs

/-- A call that asks for a node or for an edge between numbered nodes. -/
inductive Extension (ν ε : Type) where
  | node (payload : ν)
  | edge (source target : Nat) (label : ε)

namespace Extension

variable {ν ε : Type}

/-- The payload of the node that a call adds. -/
def payload? : Extension ν ε → Option ν
  | .node payload => some payload
  | .edge .. => none

/-- The payloads of the nodes that calls add, in their order. -/
def payloads (calls : List (Extension ν ε)) : List ν :=
  calls.filterMap payload?

/-- The edges that calls add to a graph with some number of nodes, in their order. -/
def acceptedFrom (size : Nat) : List (Extension ν ε) → List (Edge ε)
  | [] => []
  | .node _ :: rest => acceptedFrom (size + 1) rest
  | .edge source target label :: rest =>
    if source < size ∧ target < size then ⟨source, target, label⟩ :: acceptedFrom size rest
    else acceptedFrom size rest

/-- The edges that calls add to the graph without nodes. -/
def accepted (calls : List (Extension ν ε)) : List (Edge ε) :=
  acceptedFrom 0 calls

end Extension

namespace Digraph

variable {ν ε : Type}

/-- The graph after a call, and its answer: the number of the node or edge that it adds, or the end
that is missing. -/
def extend (graph : Digraph ν ε) : Extension ν ε → Digraph ν ε × Except MissingNode Nat
  | .node payload => (graph.addNode payload, .ok graph.size)
  | .edge source target label =>
    match graph.addEdge? source target label with
    | .ok extended => (extended, .ok graph.edges.size)
    | .error missing => (graph, .error missing)

/-- The graph after some calls on the graph without nodes. -/
def built (calls : List (Extension ν ε)) : Digraph ν ε :=
  calls.foldl (fun graph call => (graph.extend call).1) empty

theorem extend_edge (graph : Digraph ν ε) (source target : Nat) (label : ε) :
    graph.extend (.edge source target label) =
      if sourceInside : source < graph.size then
        if targetInside : target < graph.size then
          (graph.addEdge ⟨source, sourceInside⟩ ⟨target, targetInside⟩ label, .ok graph.edges.size)
        else (graph, .error ⟨.target, target, graph.size⟩)
      else (graph, .error ⟨.source, source, graph.size⟩) := by
  by_cases sourceInside : source < graph.size
  · by_cases targetInside : target < graph.size <;>
      simp [extend, addEdge?, sourceInside, targetInside]
  · simp [extend, addEdge?, sourceInside]

/-- A call that is refused changes nothing. -/
theorem extend_eq_of_error {graph : Digraph ν ε} {call : Extension ν ε} {missing : MissingNode}
    (refused : (graph.extend call).2 = .error missing) : (graph.extend call).1 = graph := by
  cases call with
  | node payload => cases refused
  | edge source target label =>
    rw [extend_edge] at refused ⊢
    split at refused
    · split at refused
      · cases refused
      · next inside outside => rw [dif_pos inside, dif_neg outside]
    · next outside => rw [dif_neg outside]

theorem nodes_extend (graph : Digraph ν ε) (call : Extension ν ε) :
    (graph.extend call).1.nodes.toList = graph.nodes.toList ++ call.payload?.toList := by
  cases call with
  | node payload => exact Array.toList_push
  | edge source target label =>
    rw [extend_edge, Extension.payload?, Option.toList_none, List.append_nil]
    split
    · split <;> rfl
    · rfl

theorem nodes_foldl_extend (calls : List (Extension ν ε)) (graph : Digraph ν ε) :
    (calls.foldl (fun graph call => (graph.extend call).1) graph).nodes.toList =
      graph.nodes.toList ++ Extension.payloads calls := by
  induction calls generalizing graph with
  | nil => exact (List.append_nil _).symm
  | cons call rest ih =>
    rw [List.foldl_cons, ih, nodes_extend, List.append_assoc]
    simp only [Extension.payloads, List.filterMap_cons]
    cases call.payload? <;> rfl

theorem edges_foldl_extend (calls : List (Extension ν ε)) (graph : Digraph ν ε) :
    (calls.foldl (fun graph call => (graph.extend call).1) graph).edges.toList =
      graph.edges.toList ++ Extension.acceptedFrom graph.size calls := by
  induction calls generalizing graph with
  | nil => exact (List.append_nil _).symm
  | cons call rest ih =>
    rw [List.foldl_cons, ih]
    cases call with
    | node payload =>
      rw [Extension.acceptedFrom, ← graph.size_addNode payload]
      rfl
    | edge source target label =>
      rw [Extension.acceptedFrom, extend_edge]
      by_cases sourceInside : source < graph.size
      · by_cases targetInside : target < graph.size
        · rw [dif_pos sourceInside, dif_pos targetInside, if_pos ⟨sourceInside, targetInside⟩,
            size_addEdge, addEdge, Array.toList_push, List.append_assoc, List.singleton_append]
        · simp [sourceInside, targetInside]
      · simp [sourceInside]

theorem nodes_built (calls : List (Extension ν ε)) :
    (built calls).nodes.toList = Extension.payloads calls :=
  nodes_foldl_extend calls empty

theorem edges_built (calls : List (Extension ν ε)) :
    (built calls).edges.toList = Extension.accepted calls :=
  edges_foldl_extend calls empty

theorem size_built (calls : List (Extension ν ε)) :
    (built calls).size = (Extension.payloads calls).length := by
  rw [← nodes_built, Array.length_toList]
  rfl

theorem filterMap_leaving? (node : Nat) (edges : List (Edge ε)) :
    edges.filterMap (Edge.leaving? node) =
      (edges.filter (·.source == node)).map fun edge => (edge.target, edge.label) := by
  induction edges with
  | nil => rfl
  | cons edge rest ih => by_cases here : edge.source = node <;> simp [Edge.leaving?, here, ih]

theorem filterMap_entering? (node : Nat) (edges : List (Edge ε)) :
    edges.filterMap (Edge.entering? node) =
      (edges.filter (·.target == node)).map fun edge => (edge.source, edge.label) := by
  induction edges with
  | nil => rfl
  | cons edge rest ih => by_cases here : edge.target = node <;> simp [Edge.entering?, here, ih]

/-- Numbers of nodes are all found. -/
theorem map_val_filterMap_index? (graph : Digraph ν ε) (ends : List (Nat × ε))
    (inside : ∀ far ∈ ends, far.1 < graph.size) :
    (ends.filterMap fun far => graph.index? far.1).map Fin.val = ends.map Prod.fst := by
  rw [List.map_filterMap, ← List.filterMap_eq_map]
  refine List.filterMap_congr fun far member => ?_
  simp [index?, inside far member]

theorem map_val_successors (graph : Digraph ν ε) (node : Fin graph.size) :
    (graph.successors node).map Fin.val =
      (graph.edges.toList.filter (·.source == node.val)).map (·.target) := by
  rw [successors, outgoing?_eq, Option.getD_some, filterMap_leaving?, map_val_filterMap_index?]
  · rw [List.map_map]
    rfl
  · intro far member
    obtain ⟨edge, leaves, rfl⟩ := List.mem_map.mp member
    exact (graph.bounded edge (List.mem_of_mem_filter leaves)).2

theorem map_val_predecessors (graph : Digraph ν ε) (node : Fin graph.size) :
    (graph.predecessors node).map Fin.val =
      (graph.edges.toList.filter (·.target == node.val)).map (·.source) := by
  rw [predecessors, incoming?_eq, Option.getD_some, filterMap_entering?, map_val_filterMap_index?]
  · rw [List.map_map]
    rfl
  · intro far member
    obtain ⟨edge, enters, rfl⟩ := List.mem_map.mp member
    exact (graph.bounded edge (List.mem_of_mem_filter enters)).1

/-- A node precedes another as often as that succeeds it. -/
theorem count_predecessors (graph : Digraph ν ε) (source target : Fin graph.size) :
    (graph.predecessors target).count source = (graph.successors source).count target := by
  rw [← List.count_map_of_injective _ _ Fin.val_injective source,
    ← List.count_map_of_injective _ _ Fin.val_injective target, map_val_predecessors,
    map_val_successors]
  simp only [List.count_eq_countP, List.countP_map, List.countP_filter]
  refine List.countP_congr fun edge _ => ?_
  simp only [Function.comp_apply, Bool.and_eq_true, and_comm]

/-- A graph has listed payloads and edges: its nodes are numbered in the order of the payloads, and
each node has the edges at it, each once and in their order, from either end and in either
direction. -/
structure Lists (graph : Digraph ν ε) (payloads : List ν) (links : List (Edge ε)) : Prop where
  nodes_eq : graph.nodes.toList = payloads
  edges_eq : graph.edges.toList = links
  outgoing : ∀ node : Fin graph.size, graph.outgoing? node =
    some ((links.filter (·.source == node.val)).map fun edge => (edge.target, edge.label))
  incoming : ∀ node : Fin graph.size, graph.incoming? node =
    some ((links.filter (·.target == node.val)).map fun edge => (edge.source, edge.label))
  successors : ∀ node : Fin graph.size, (graph.successors node).map Fin.val =
    (links.filter (·.source == node.val)).map (·.target)
  predecessors : ∀ node : Fin graph.size, (graph.predecessors node).map Fin.val =
    (links.filter (·.target == node.val)).map (·.source)
  balanced : ∀ source target : Fin graph.size,
    (graph.predecessors target).count source = (graph.successors source).count target
  reversed : ∀ node : Fin graph.size,
    graph.adjacency.reversed.succs node = graph.predecessors node ∧
      graph.adjacency.reversed.preds node = graph.successors node

theorem lists_self (graph : Digraph ν ε) : graph.Lists graph.nodes.toList graph.edges.toList where
  nodes_eq := rfl
  edges_eq := rfl
  outgoing node := by rw [outgoing?_eq, filterMap_leaving?]
  incoming node := by rw [incoming?_eq, filterMap_entering?]
  successors := graph.map_val_successors
  predecessors := graph.map_val_predecessors
  balanced := graph.count_predecessors
  reversed _ := ⟨rfl, rfl⟩

/-- After any calls, the graph has the payloads and the edges that the calls have added. A node gets
the number of nodes before it; an edge is refused, and nothing changes, exactly if one of its ends
is missing, and gets the number of edges before it otherwise. -/
theorem built_lists (calls : List (Extension ν ε)) :
    (built calls).Lists (Extension.payloads calls) (Extension.accepted calls) ∧
    (∀ payload, ((built calls).extend (.node payload)).2 =
      .ok (Extension.payloads calls).length) ∧
    (∀ source target label, ((built calls).extend (.edge source target label)).2 =
      if (Extension.payloads calls).length ≤ source then
        .error ⟨.source, source, (Extension.payloads calls).length⟩
      else if (Extension.payloads calls).length ≤ target then
        .error ⟨.target, target, (Extension.payloads calls).length⟩
      else .ok (Extension.accepted calls).length) ∧
    ∀ call missing, ((built calls).extend call).2 = .error missing →
      ((built calls).extend call).1 = built calls := by
  refine ⟨?lists, ?node, ?edge, fun _ _ => extend_eq_of_error⟩
  case lists =>
    rw [← nodes_built, ← edges_built]
    exact lists_self _
  case node =>
    intro payload
    rw [← size_built]
    rfl
  case edge =>
    intro source target label
    rw [extend_edge, ← size_built, ← edges_built, Array.length_toList]
    by_cases sourceInside : source < (built calls).size
    · rw [dif_pos sourceInside, if_neg (Nat.not_le.mpr sourceInside)]
      by_cases targetInside : target < (built calls).size
      · rw [dif_pos targetInside, if_neg (Nat.not_le.mpr targetInside)]
      · rw [dif_neg targetInside, if_pos (Nat.not_lt.mp targetInside)]
    · rw [dif_neg sourceInside, if_pos (Nat.not_lt.mp sourceInside)]

end Digraph

end ProgramGraphs
