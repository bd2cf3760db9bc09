import ProgramGraphs.Graph.Adjacency

/-! # Directed multigraphs

Nodes are numbered in the order in which they are added and carry a payload; edges carry a label.
Both adjacency tables are kept beside the list of edges. A graph contains the proof that each row of
a table lists exactly the edges at its node, in the order in which they were added, and that every
edge joins two of its nodes.
-/

namespace ProgramGraphs

/-- An edge between numbered nodes. -/
structure Edge (ε : Type) where
  source : Nat
  target : Nat
  label : ε
  deriving DecidableEq, Repr

namespace Edge

variable {ε : Type}

/-- The far end and the label of an edge that leaves a node. -/
def leaving? (node : Nat) (edge : Edge ε) : Option (Nat × ε) :=
  if edge.source = node then some (edge.target, edge.label) else none

/-- The far end and the label of an edge that enters a node. -/
def entering? (node : Nat) (edge : Edge ε) : Option (Nat × ε) :=
  if edge.target = node then some (edge.source, edge.label) else none

end Edge

/-- The end of an edge that is no node of the graph. -/
inductive EndRole where
  | source
  | target
  deriving DecidableEq, Repr

/-- An edge was to join a node that a graph of this size lacks. -/
structure MissingNode where
  role : EndRole
  node : Nat
  size : Nat
  deriving DecidableEq, Repr

/-- The wording of a missing node. -/
def MissingNode.message (missing : MissingNode) : String :=
  let role :=
    match missing.role with
    | .source => "source"
    | .target => "target"
  role ++ " node n" ++ toString missing.node ++ " does not exist in graph with " ++
    toString missing.size ++ " nodes"

/-- A directed multigraph with payloads on its nodes and labels on its edges. -/
structure Digraph (ν ε : Type) where
  nodes : Array ν
  edges : Array (Edge ε)
  outgoing : Array (Array (Nat × ε))
  incoming : Array (Array (Nat × ε))
  outgoing_size : outgoing.size = nodes.size
  incoming_size : incoming.size = nodes.size
  bounded : ∀ edge ∈ edges.toList, edge.source < nodes.size ∧ edge.target < nodes.size
  outgoing_eq : ∀ node (inside : node < outgoing.size),
    outgoing[node].toList = edges.toList.filterMap (Edge.leaving? node)
  incoming_eq : ∀ node (inside : node < incoming.size),
    incoming[node].toList = edges.toList.filterMap (Edge.entering? node)

namespace Digraph

variable {ν ε : Type}

/-- The number of nodes. -/
def size (graph : Digraph ν ε) : Nat :=
  graph.nodes.size

/-- Whether the graph has no nodes. -/
def isEmpty (graph : Digraph ν ε) : Bool :=
  graph.nodes.isEmpty

/-- The graph without nodes. -/
def empty : Digraph ν ε where
  nodes := #[]
  edges := #[]
  outgoing := #[]
  incoming := #[]
  outgoing_size := rfl
  incoming_size := rfl
  bounded := by simp
  outgoing_eq := by simp
  incoming_eq := by simp

/-- Add a node; its number is the size that the graph had. -/
def addNode (graph : Digraph ν ε) (payload : ν) : Digraph ν ε where
  nodes := graph.nodes.push payload
  edges := graph.edges
  outgoing := graph.outgoing.push #[]
  incoming := graph.incoming.push #[]
  outgoing_size := by simp [graph.outgoing_size]
  incoming_size := by simp [graph.incoming_size]
  bounded edge member := by
    have := graph.bounded edge member
    simp only [Array.size_push]
    omega
  outgoing_eq node inside := by
    rw [Array.getElem_push]
    split
    · exact graph.outgoing_eq node _
    · next outside =>
      symm
      simp only [List.filterMap_eq_nil_iff, Edge.leaving?, ite_eq_right_iff, reduceCtorEq,
        imp_false]
      intro edge member same
      have := graph.bounded edge member
      have := graph.outgoing_size
      omega
  incoming_eq node inside := by
    rw [Array.getElem_push]
    split
    · exact graph.incoming_eq node _
    · next outside =>
      symm
      simp only [List.filterMap_eq_nil_iff, Edge.entering?, ite_eq_right_iff, reduceCtorEq,
        imp_false]
      intro edge member same
      have := graph.bounded edge member
      have := graph.incoming_size
      omega

/-- Add an edge between two nodes of the graph. -/
def addEdge (graph : Digraph ν ε) (source target : Fin graph.size) (label : ε) :
    Digraph ν ε where
  nodes := graph.nodes
  edges := graph.edges.push ⟨source, target, label⟩
  outgoing := graph.outgoing.modify source (·.push (target.val, label))
  incoming := graph.incoming.modify target (·.push (source.val, label))
  outgoing_size := by simp [graph.outgoing_size]
  incoming_size := by simp [graph.incoming_size]
  bounded edge member := by
    simp only [Array.toList_push, List.mem_append, List.mem_singleton] at member
    obtain member | rfl := member
    · exact graph.bounded edge member
    · exact ⟨source.isLt, target.isLt⟩
  outgoing_eq node inside := by
    simp only [Array.size_modify] at inside
    have held := graph.outgoing_eq node inside
    rw [Array.getElem_modify, Array.toList_push, List.filterMap_append]
    by_cases same : source.val = node <;> simp [same, held, Edge.leaving?]
  incoming_eq node inside := by
    simp only [Array.size_modify] at inside
    have held := graph.incoming_eq node inside
    rw [Array.getElem_modify, Array.toList_push, List.filterMap_append]
    by_cases same : target.val = node <;> simp [same, held, Edge.entering?]

@[simp] theorem size_addNode (graph : Digraph ν ε) (payload : ν) :
    (graph.addNode payload).size = graph.size + 1 := by
  simp [size, addNode]

@[simp] theorem size_addEdge (graph : Digraph ν ε) (source target : Fin graph.size) (label : ε) :
    (graph.addEdge source target label).size = graph.size := rfl

/-- Add an edge between numbered nodes, if they exist. -/
def addEdge? (graph : Digraph ν ε) (source target : Nat) (label : ε) :
    Except MissingNode (Digraph ν ε) :=
  if sourceInside : source < graph.size then
    if targetInside : target < graph.size then
      .ok (graph.addEdge ⟨source, sourceInside⟩ ⟨target, targetInside⟩ label)
    else .error ⟨.target, target, graph.size⟩
  else .error ⟨.source, source, graph.size⟩

/-- Add edges between the nodes of a graph of known size. -/
def addEdges {n : Nat} (graph : Digraph ν ε) (sized : graph.size = n) :
    List (Fin n × Fin n × ε) → { extended : Digraph ν ε // extended.size = n }
  | [] => ⟨graph, sized⟩
  | (source, target, label) :: rest =>
    addEdges (graph.addEdge (source.cast sized.symm) (target.cast sized.symm) label) sized rest

theorem size_foldl_addNode (payloads : List ν) (graph : Digraph ν ε) :
    (payloads.foldl addNode graph).size = graph.size + payloads.length := by
  induction payloads generalizing graph with
  | nil => rfl
  | cons payload rest ih =>
    rw [List.foldl_cons, ih, size_addNode, List.length_cons]
    omega

/-- The graph of some payloads and of edges between their positions. -/
def ofEdges (payloads : List ν) (edges : List (Fin payloads.length × Fin payloads.length × ε)) :
    { graph : Digraph ν ε // graph.size = payloads.length } :=
  addEdges (payloads.foldl addNode empty)
    (by rw [size_foldl_addNode]; exact Nat.zero_add _) edges

/-- The payload of a node. -/
def payload? (graph : Digraph ν ε) (node : Nat) : Option ν :=
  graph.nodes[node]?

/-- The payload of a node of the graph. -/
def payload (graph : Digraph ν ε) (node : Fin graph.size) : ν :=
  have inside : node.val < graph.nodes.size := node.isLt
  graph.nodes[node.val]

/-- The far ends and labels of the edges that leave a node, if there is such a node. -/
def outgoing? (graph : Digraph ν ε) (node : Nat) : Option (List (Nat × ε)) :=
  graph.outgoing[node]?.map Array.toList

/-- The far ends and labels of the edges that enter a node, if there is such a node. -/
def incoming? (graph : Digraph ν ε) (node : Nat) : Option (List (Nat × ε)) :=
  graph.incoming[node]?.map Array.toList

theorem outgoing?_eq (graph : Digraph ν ε) (node : Fin graph.size) :
    graph.outgoing? node = some (graph.edges.toList.filterMap (Edge.leaving? node)) := by
  have inside : node.val < graph.outgoing.size := by
    rw [graph.outgoing_size]
    exact node.isLt
  simp [outgoing?, Array.getElem?_eq_getElem inside, graph.outgoing_eq]

theorem incoming?_eq (graph : Digraph ν ε) (node : Fin graph.size) :
    graph.incoming? node = some (graph.edges.toList.filterMap (Edge.entering? node)) := by
  have inside : node.val < graph.incoming.size := by
    rw [graph.incoming_size]
    exact node.isLt
  simp [incoming?, Array.getElem?_eq_getElem inside, graph.incoming_eq]

/-- The number of a node, if the graph has it. -/
def index? (graph : Digraph ν ε) (node : Nat) : Option (Fin graph.size) :=
  if inside : node < graph.size then some ⟨node, inside⟩ else none

theorem index?_eq_some_iff (graph : Digraph ν ε) (node : Nat) (found : Fin graph.size) :
    graph.index? node = some found ↔ node = found := by
  unfold index?
  split
  · simp [Fin.ext_iff]
  · next outside =>
    simp only [reduceCtorEq, false_iff]
    have := found.isLt
    omega

/-- The nodes at the far ends of the edges that leave a node. -/
def successors (graph : Digraph ν ε) (node : Fin graph.size) : List (Fin graph.size) :=
  ((graph.outgoing? node).getD []).filterMap fun edge => graph.index? edge.1

/-- The nodes at the far ends of the edges that enter a node. -/
def predecessors (graph : Digraph ν ε) (node : Fin graph.size) : List (Fin graph.size) :=
  ((graph.incoming? node).getD []).filterMap fun edge => graph.index? edge.1

theorem mem_successors_iff (graph : Digraph ν ε) (source target : Fin graph.size) :
    target ∈ graph.successors source ↔
      ∃ edge ∈ graph.edges.toList, edge.source = source ∧ edge.target = target := by
  simp only [successors, outgoing?_eq, Option.getD_some, List.mem_filterMap, Edge.leaving?,
    index?_eq_some_iff]
  constructor
  · rintro ⟨_, ⟨edge, member, same⟩, ends⟩
    split at same
    · next leaves =>
      cases same
      exact ⟨edge, member, leaves, ends⟩
    · cases same
  · rintro ⟨edge, member, leaves, ends⟩
    exact ⟨(edge.target, edge.label), ⟨edge, member, by simp [leaves]⟩, ends⟩

theorem mem_predecessors_iff (graph : Digraph ν ε) (source target : Fin graph.size) :
    source ∈ graph.predecessors target ↔
      ∃ edge ∈ graph.edges.toList, edge.source = source ∧ edge.target = target := by
  simp only [predecessors, incoming?_eq, Option.getD_some, List.mem_filterMap, Edge.entering?,
    index?_eq_some_iff]
  constructor
  · rintro ⟨_, ⟨edge, member, same⟩, ends⟩
    split at same
    · next enters =>
      cases same
      exact ⟨edge, member, ends, enters⟩
    · cases same
  · rintro ⟨edge, member, ends, enters⟩
    exact ⟨(edge.source, edge.label), ⟨edge, member, by simp [enters]⟩, ends⟩

/-- The neighbours of every node. -/
def adjacency (graph : Digraph ν ε) : Adjacency graph.size where
  succs := graph.successors
  preds := graph.predecessors
  mem_preds_iff source target := by rw [mem_predecessors_iff, mem_successors_iff]

/-- The edges with their ends as nodes of the graph, in the order in which they were added. -/
def edgeList (graph : Digraph ν ε) : List (Fin graph.size × Fin graph.size × ε) :=
  graph.edges.toList.attach.map fun ⟨edge, member⟩ =>
    (⟨edge.source, (graph.bounded edge member).1⟩, ⟨edge.target, (graph.bounded edge member).2⟩,
      edge.label)

/-- The first node whose payload passes a test. -/
def find? (graph : Digraph ν ε) (test : ν → Bool) : Option (Fin graph.size) :=
  graph.nodes.findFinIdx? test

end Digraph

end ProgramGraphs
