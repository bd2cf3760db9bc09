import ProgramGraphs.Proofs.CallGraph.Unresolved
import ProgramGraphs.Proofs.ControlFlow.Dependence
import ProgramGraphs.Proofs.Picture.Identifier

/-! # Pictures hold together

In a picture that an analysis result is drawn as, nodes and clusters have identifiers of their own,
and whatever mentions a node or a cluster mentions one of the picture (`Picture.Coherent`). The
numbered nodes and edges of a graph are drawn in order; only a call graph has one more node, for
what unresolved calls reach, and an edge to it from each function that makes any (`Picture.Shows`).
-/

namespace ProgramGraphs

namespace Picture

/-- Identifiers are distinct, and whatever mentions a node or a cluster mentions one of the
picture. -/
structure Coherent (picture : Picture) : Prop where
  nodes_distinct : (picture.nodes.map (·.id)).Nodup
  clusters_distinct : (picture.clusters.map (·.id)).Nodup
  joined : ∀ edge ∈ picture.edges,
    edge.source ∈ picture.nodes.map (·.id) ∧ edge.target ∈ picture.nodes.map (·.id)
  grouped : ∀ node ∈ picture.nodes, ∀ cluster ∈ node.cluster,
    cluster ∈ picture.clusters.map (·.id)

/-- A picture shows numbered nodes and the edges between them, in order. If there are callers, one
more node comes last, and one edge from each caller to it. -/
structure Shows (picture : Picture) (nodes : List Nat) (edges : List (Nat × Nat))
    (callers : List Nat) : Prop where
  nodes_eq : picture.nodes.map (·.id) =
    nodes.map nodeId ++ if callers.isEmpty then [] else [CallGraph.unresolvedId]
  edges_eq : picture.edges.map (fun edge => (edge.source, edge.target)) =
    edges.map (fun edge => (nodeId edge.1, nodeId edge.2)) ++
      callers.map fun caller => (nodeId caller, CallGraph.unresolvedId)

/-- A picture without clusters that shows a graph holds together. -/
theorem Shows.coherent {picture : Picture} {nodes callers : List Nat} {edges : List (Nat × Nat)}
    (shows : picture.Shows nodes edges callers) (distinct : nodes.Nodup)
    (inside : ∀ edge ∈ edges, edge.1 ∈ nodes ∧ edge.2 ∈ nodes) (known : callers ⊆ nodes)
    (flat : ∀ node ∈ picture.nodes, node.cluster = none) (bare : picture.clusters = []) :
    picture.Coherent where
  nodes_distinct := by
    have numbered := distinct.map nodeId_injective
    rw [shows.nodes_eq]
    split
    · rwa [List.append_nil]
    · refine List.nodup_append.mpr
        ⟨numbered, List.nodup_singleton _, fun id member other last => ?_⟩
      obtain ⟨position, -, rfl⟩ := List.mem_map.mp member
      rw [List.mem_singleton.mp last]
      exact nodeId_ne_unresolvedId position
  clusters_distinct := by rw [bare]; exact List.nodup_nil
  joined edge member := by
    have drawn : ∀ position ∈ nodes, nodeId position ∈ picture.nodes.map (·.id) := by
      intro position member
      rw [shows.nodes_eq]
      exact List.mem_append_left _ (List.mem_map_of_mem member)
    have ends : (edge.source, edge.target) ∈
        picture.edges.map fun edge => (edge.source, edge.target) := List.mem_map_of_mem member
    rw [shows.edges_eq] at ends
    rcases List.mem_append.mp ends with ends | ends
    · obtain ⟨⟨source, target⟩, listed, same⟩ := List.mem_map.mp ends
      obtain ⟨sourceEq, targetEq⟩ := Prod.mk.inj same
      rw [← sourceEq, ← targetEq]
      exact ⟨drawn _ (inside _ listed).1, drawn _ (inside _ listed).2⟩
    · obtain ⟨caller, listed, same⟩ := List.mem_map.mp ends
      obtain ⟨sourceEq, targetEq⟩ := Prod.mk.inj same
      rw [← sourceEq, ← targetEq]
      refine ⟨drawn _ (known listed), ?_⟩
      rw [shows.nodes_eq, if_neg (by simpa using List.ne_nil_of_mem listed)]
      exact List.mem_append_right _ (List.mem_singleton.mpr rfl)
  grouped node member cluster held := by
    rw [flat node member] at held
    cases held

end Picture

/-- The edges of a graph by the numbers of their ends. -/
def Digraph.ends {ν ε : Type} (graph : Digraph ν ε) : List (Nat × Nat) :=
  graph.edges.toList.map fun edge => (edge.source, edge.target)

theorem Digraph.mem_range_of_mem_ends {ν ε : Type} (graph : Digraph ν ε) :
    ∀ edge ∈ graph.ends, edge.1 ∈ List.range graph.size ∧ edge.2 ∈ List.range graph.size := by
  intro edge member
  obtain ⟨held, listed, rfl⟩ := List.mem_map.mp member
  rw [List.mem_range, List.mem_range]
  exact graph.bounded held listed

theorem mapIdx_eq_map_range {α β : Type} (make : Nat → β) (items : List α) :
    (items.mapIdx fun position _ => make position) = (List.range items.length).map make :=
  List.ext_getElem (by simp) fun _ _ _ => by simp

open Picture (nodeId)

theorem ControlFlow.shows_draw (flow : ControlFlow) (label : String) :
    (flow.draw label).Shows (List.range flow.graph.size) flow.graph.ends [] where
  nodes_eq := by
    simp only [draw, map_mapIdx, drawBlock, mapIdx_eq_map_range]
    simp [Digraph.size]
  edges_eq := by
    simp only [draw, Digraph.ends, List.map_map]
    simp [drawEdge, Function.comp_def]

theorem ControlFlow.coherent_draw (flow : ControlFlow) (label : String) :
    (flow.draw label).Coherent := by
  refine (flow.shows_draw label).coherent List.nodup_range flow.graph.mem_range_of_mem_ends
    (List.nil_subset _) (fun node member => ?_) rfl
  obtain ⟨position, inside, rfl⟩ := List.mem_mapIdx.mp member
  rfl

theorem ControlDependence.shows_draw (dependence : ControlDependence) (label : String) :
    (dependence.draw label).Shows (List.range dependence.graph.size) dependence.graph.ends [] where
  nodes_eq := by
    simp only [draw, map_mapIdx, drawBlock, mapIdx_eq_map_range]
    simp [Digraph.size]
  edges_eq := by
    simp only [draw, Digraph.ends, List.map_map]
    simp [Function.comp_def]

theorem ControlDependence.coherent_draw (dependence : ControlDependence) (label : String) :
    (dependence.draw label).Coherent := by
  refine (dependence.shows_draw label).coherent List.nodup_range
    dependence.graph.mem_range_of_mem_ends (List.nil_subset _) (fun node member => ?_) rfl
  obtain ⟨position, inside, rfl⟩ := List.mem_mapIdx.mp member
  rfl

theorem Dominance.shows_draw (dominance : Dominance) (label : String) :
    (dominance.draw label).Shows (dominance.tree.members.map Fin.val)
      (dominance.tree.edges.map fun edge => (edge.1.val, edge.2.val)) [] where
  nodes_eq := by
    simp only [draw, List.map_map]
    simp [drawMember, Function.comp_def]
  edges_eq := by
    simp only [draw, List.map_map]
    simp [Function.comp_def]

/-- The links of both trees are settled. -/
theorem ControlFlow.mem_members_of_mem_edges (flow : ControlFlow) (kind : DominanceKind)
    {parent child : Fin (flow.dominance kind).flow.graph.size}
    (joined : (parent, child) ∈ (flow.dominance kind).tree.edges) :
    parent ∈ (flow.dominance kind).tree.members ∧ child ∈ (flow.dominance kind).tree.members := by
  cases kind <;> exact DominatorTree.mem_members_of_mem_edges
    (Ancestry.solved_dominatorTree _ _) joined

theorem ControlFlow.coherent_draw_dominance (flow : ControlFlow) (kind : DominanceKind)
    (label : String) : ((flow.dominance kind).draw label).Coherent := by
  refine ((flow.dominance kind).shows_draw label).coherent ?_ (fun edge member => ?_)
    (List.nil_subset _) (fun node member => ?_) rfl
  · exact ((List.nodup_finRange _).filter _).map Fin.val_injective
  · obtain ⟨⟨parent, child⟩, listed, rfl⟩ := List.mem_map.mp member
    obtain ⟨upper, lower⟩ := flow.mem_members_of_mem_edges kind listed
    exact ⟨List.mem_map_of_mem upper, List.mem_map_of_mem lower⟩
  · obtain ⟨position, inside, rfl⟩ := List.mem_map.mp member
    rfl

namespace CallGraph

variable {program : Program} {pointsTo : PointsTo} {calls : CallGraph}

theorem shows_draw (distinct : (program.functions.map (·.name)).Nodup)
    (yields : Attempt.Yields (ofProgram program pointsTo) calls) (label : String) :
    (calls.draw label).Shows (List.range calls.graph.size) calls.graph.ends calls.callerNodes where
  nodes_eq := by
    have drawn : (calls.graph.nodes.toList.mapIdx fun position function =>
        drawFunction function position).map (·.id) = (List.range calls.graph.size).map nodeId := by
      simp only [map_mapIdx, drawFunction, mapIdx_eq_map_range]
      simp [Digraph.size]
    have empty : calls.unresolved.isEmpty = calls.callerNodes.isEmpty := by
      rw [Bool.eq_iff_iff, List.isEmpty_iff, List.isEmpty_iff,
        callerNodes_eq_nil_iff distinct yields]
    rw [draw, empty]
    dsimp only
    split
    · rw [drawn, List.append_nil]
    · rw [List.map_append, drawn]
      rfl
  edges_eq := by
    rw [draw, List.map_append]
    refine congrArg₂ _ ?_ ?_
    · rw [Digraph.ends, List.map_map, List.map_map]
      rfl
    · rw [callerNodes, List.map_filterMap, List.map_filterMap]
      refine List.filterMap_congr fun caller _ => ?_
      cases calls.node? caller <;> rfl

theorem callerNodes_subset (calls : CallGraph) :
    calls.callerNodes ⊆ List.range calls.graph.size := by
  intro position member
  obtain ⟨caller, -, found⟩ := List.mem_filterMap.mp member
  obtain ⟨node, -, rfl⟩ := Option.map_eq_some_iff.mp found
  exact List.mem_range.mpr node.isLt

theorem coherent_draw (distinct : (program.functions.map (·.name)).Nodup)
    (yields : Attempt.Yields (ofProgram program pointsTo) calls) (label : String) :
    (calls.draw label).Coherent := by
  refine (shows_draw distinct yields label).coherent List.nodup_range
    calls.graph.mem_range_of_mem_ends calls.callerNodes_subset (fun node member => ?_) rfl
  have drawn : ∀ node ∈ calls.graph.nodes.toList.mapIdx (fun position function =>
      drawFunction function position), node.cluster = none := by
    intro node member
    obtain ⟨position, inside, rfl⟩ := List.mem_mapIdx.mp member
    rfl
  rw [draw] at member
  dsimp only at member
  split at member
  · exact drawn node member
  · rcases List.mem_append.mp member with member | member
    · exact drawn node member
    · rw [List.mem_singleton.mp member]
      rfl

/-- The order of the table of calls has no influence on the picture. -/
theorem draw_eq_of_perm {sites : List (String × List CallSite)} (same : calls.sites.Perm sites)
    (label : String) : { calls with sites := sites }.draw label = calls.draw label := by
  simp only [draw, unresolvedCallers, unresolved_eq_of_perm same, node?]

end CallGraph

namespace EscapeReport

/-- What is drawn of a function are its tracked pointers and their uses. -/
theorem cases_of_mem_functionNodes {escape : FunctionEscape} {function : Nat} {node : PictureNode}
    (member : node ∈ functionNodes escape function) :
    (∃ position pointer, node = drawPointer function pointer position) ∨
      ∃ position use place, node = drawUse function position use place := by
  obtain ⟨position, inside, member⟩ := mem_flatten_mapIdx_iff.mp member
  rcases List.mem_cons.mp member with drawn | member
  · exact .inl ⟨position, _, drawn⟩
  · obtain ⟨place, within, drawn⟩ := List.mem_mapIdx.mp member
    exact .inr ⟨position, _, place, drawn.symm⟩

/-- What is drawn of a function is in its cluster. -/
theorem cluster_of_mem_functionNodes {escape : FunctionEscape} {function : Nat} {node : PictureNode}
    (member : node ∈ functionNodes escape function) : node.cluster = some (clusterId function) := by
  obtain ⟨position, pointer, rfl⟩ | ⟨position, use, place, rfl⟩ := cases_of_mem_functionNodes member
  · rfl
  · rfl

/-- An edge leads from a tracked pointer of a function to one of its uses. -/
theorem ends_of_mem_functionEdges {escape : FunctionEscape} {function : Nat} {edge : PictureEdge}
    (member : edge ∈ functionEdges escape function) :
    edge.source ∈ (functionNodes escape function).map (·.id) ∧
      edge.target ∈ (functionNodes escape function).map (·.id) := by
  obtain ⟨position, inside, member⟩ := mem_flatten_mapIdx_iff.mp member
  obtain ⟨use, within, rfl⟩ := List.mem_mapIdx.mp member
  have drawn : ∀ id ∈ pointerIds function position escape.pointers[position],
      id ∈ (functionNodes escape function).map (·.id) := by
    intro id here
    rw [map_id_functionNodes]
    exact mem_flatten_mapIdx_iff.mpr ⟨position, inside, here⟩
  refine ⟨drawn _ List.mem_cons_self, drawn _ (List.mem_cons_of_mem _ ?_)⟩
  exact List.mem_mapIdx.mpr ⟨use, within, rfl⟩

theorem coherent_draw (report : EscapeReport) (label : String) : (report.draw label).Coherent where
  nodes_distinct := report.nodup_map_id_nodes label
  clusters_distinct := by
    simp only [draw, map_mapIdx, mapIdx_eq_map_range]
    exact List.nodup_range.map clusterId_injective
  joined edge member := by
    obtain ⟨position, inside, member⟩ := mem_flatten_mapIdx_iff.mp member
    obtain ⟨source, target⟩ := ends_of_mem_functionEdges member
    have drawn : ∀ id ∈ (functionNodes report.functions[position] position).map (·.id),
        id ∈ (report.draw label).nodes.map (·.id) := by
      intro id here
      obtain ⟨node, found, rfl⟩ := List.mem_map.mp here
      exact List.mem_map_of_mem (mem_flatten_mapIdx_iff.mpr ⟨position, inside, found⟩)
    exact ⟨drawn _ source, drawn _ target⟩
  grouped node member cluster held := by
    obtain ⟨position, inside, member⟩ := mem_flatten_mapIdx_iff.mp member
    rw [cluster_of_mem_functionNodes member] at held
    cases held
    exact List.mem_map.mpr ⟨_, List.mem_mapIdx.mpr ⟨position, inside, rfl⟩, rfl⟩

end EscapeReport

end ProgramGraphs
