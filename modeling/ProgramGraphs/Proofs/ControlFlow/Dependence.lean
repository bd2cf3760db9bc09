import Mathlib.Data.List.TakeWhile
import ProgramGraphs.ControlFlow.Dependence
import ProgramGraphs.Proofs.ControlFlow.Simulation
import ProgramGraphs.Proofs.Graph.Dominator
import ProgramGraphs.Proofs.Keyed

/-! # Control dependence is exact

The way up the post-dominator tree from the target of an edge meets the immediate post-dominator of
the source, since whatever post-dominates the source and is not the source post-dominates the
target. So the nodes before it are the post-dominators of the target that do not post-dominate the
source, the source itself among them (`mem_decided_iff`). A block that an edge leads back to at once
is left out: it post-dominates itself, so the edge is passed over.
-/

namespace ProgramGraphs

namespace Ancestry.Solved

variable {n : Nat} {graph : Adjacency n} {root : Fin n} {links : Ancestry n}

/-- Where a step leads on to a node other than the root, the way up from the start of the step meets
the parent of that node. -/
theorem exists_parent_above (solved : Solved graph root links) {source target : Fin n}
    (joined : graph.Follows target source) (settled : links.Above root target)
    (inside : source ≠ root) :
    ∃ stop, links.parent? source = some stop ∧ links.Above stop target := by
  have reached : links.Above root source := by
    rw [← solved.reached_iff] at settled ⊢
    exact settled.trans (.single joined)
  cases reached with
  | refl => exact absurd rfl inside
  | @climb stop _ linked _ =>
    have above : links.Above stop source := .climb linked .refl
    rcases solved.above_source target source stop joined settled above with rfl | above
    · exact absurd (rank_lt_of_parent linked) (Nat.lt_irrefl _)
    · exact ⟨stop, linked, above⟩

/-- The nodes before that parent and before the root are those that do not stand above the node, and
the node itself. -/
theorem mem_climb_iff (solved : Solved graph root links) {source target : Fin n}
    (joined : graph.Follows target source) (settled : links.Above root target)
    (inside : source ≠ root) (node : Fin n) :
    node ∈ (links.lineage target).takeWhile
        (fun node => some node != links.parent? source && node != root) ↔
      links.Above node target ∧ node ≠ root ∧ (node = source ∨ ¬ links.Above node source) := by
  obtain ⟨stop, linked, stopAbove⟩ := solved.exists_parent_above joined settled inside
  have beyond : node = source ∨ ¬ links.Above node source ↔ ¬ links.Above node stop := by
    rw [above_iff_of_parent linked]
    constructor
    · rintro (rfl | apart) above
      · exact not_above_of_rank_lt (rank_lt_of_parent linked) above
      · exact apart (.inr above)
    · intro apart
      by_cases same : node = source
      · exact .inl same
      · exact .inr (not_or.mpr ⟨same, apart⟩)
  rw [mem_takeWhile_lineage_iff, linked, beyond]
  simp only [Bool.and_eq_true, bne_iff_ne, ne_eq, Option.some_inj]
  refine and_congr_right fun above => ⟨fun passes => ⟨?_, fun upper => ?_⟩, ?_⟩
  · exact (passes node above .refl).2
  · exact (passes stop stopAbove upper).1 rfl
  · rintro ⟨notRoot, apart⟩ other lower upper
    refine ⟨?_, ?_⟩
    · rintro rfl
      exact apart upper
    · rintro rfl
      exact notRoot ((above_iff_of_no_parent solved.top node).mp upper)

end Ancestry.Solved

namespace ControlFlow

variable {flow : ControlFlow}

/-- An edge of a kind leads from a node to another. -/
def Leads (flow : ControlFlow) (source : flow.Node) (kind : EdgeKind) (target : flow.Node) : Prop :=
  ⟨source, target, kind⟩ ∈ flow.graph.edges.toList

theorem Leads.joins {source target : flow.Node} {kind : EdgeKind}
    (leads : flow.Leads source kind target) : flow.graph.Joins false source target :=
  ⟨_, leads, rfl, rfl⟩

/-- Control can get from a node to the exit. -/
def CanExit (flow : ControlFlow) (node : flow.Node) : Prop :=
  Reaches (flow.graph.Joins false) node flow.exit

/-- Every way from a node to the exit passes through another. -/
def PostDominates (flow : ControlFlow) (b a : flow.Node) : Prop :=
  ∀ visited, Walk (flow.graph.Joins false) a visited flow.exit → b ∈ visited

/-- A way out of a block decides about another block: on this way the other block is certain, and on
some other way out it is not. A block decides about itself where it makes itself certain again,
other than by leading to itself at once. -/
def Decides (flow : ControlFlow) (a : flow.Node) (kind : EdgeKind) (b : flow.Node) : Prop :=
  ∃ s, flow.Leads a kind s ∧ s ≠ a ∧ flow.PostDominates b s ∧
    (b = a ∨ ∃ visited, Walk (flow.graph.Joins false) a visited flow.exit ∧ b ∉ visited)

theorem not_postDominates_iff (b a : flow.Node) : ¬ flow.PostDominates b a ↔
    ∃ visited, Walk (flow.graph.Joins false) a visited flow.exit ∧ b ∉ visited := by
  simp only [PostDominates, not_forall, exists_prop]

theorem solved_postDominatorTree (flow : ControlFlow) :
    flow.postDominatorTree.links.Solved flow.graph.adjacency.reversed flow.exit :=
  Ancestry.solved_dominatorTree _ _

theorem canExit_iff_above (a : flow.Node) :
    flow.CanExit a ↔ flow.postDominatorTree.links.Above flow.exit a := by
  rw [← flow.solved_postDominatorTree.reached_iff, flow.graph.reversed_adjacency_follows]
  exact ⟨fun reaches => reaches.reverse, fun reaches => reaches.reverse⟩

/-- Above a node in the tree stand the nodes that all its ways to the exit pass through. -/
theorem postDominates_iff_above {a : flow.Node} (exits : flow.CanExit a) (b : flow.Node) :
    flow.PostDominates b a ↔ flow.postDominatorTree.links.Above b a := by
  rw [flow.solved_postDominatorTree.above_iff_dominates ((canExit_iff_above a).mp exits),
    flow.graph.reversed_adjacency_follows]
  constructor
  · intro always visited walk
    exact List.mem_reverse.mp (always _ walk.reverse)
  · intro always visited walk
    exact List.mem_reverse.mp (always _ walk.reverse)

theorem postDominatorTree_dominates_iff {a : flow.Node} (exits : flow.CanExit a) (b : flow.Node) :
    flow.postDominatorTree.dominates b a = true ↔ flow.PostDominates b a := by
  have above := (canExit_iff_above a).mp exits
  rw [postDominates_iff_above exits, DominatorTree.dominates, Bool.and_eq_true,
    List.contains_iff_mem, DominatorTree.lineage, Ancestry.mem_lineage_iff]
  exact and_iff_right ((DominatorTree.contains_iff_above flow.solved_postDominatorTree a).mpr above)

end ControlFlow

namespace ControlDependence

open ControlFlow

variable {flow : ControlFlow} {source target : flow.Node}

/-- An edge decides about the nodes that all ways from its target to the exit pass through, unless
all ways from its source do so, too, and the node is another than the source. -/
theorem mem_decided_iff (joined : flow.graph.Joins false source target)
    (exits : flow.CanExit target) (inside : source ≠ flow.exit) (node : flow.Node) :
    node ∈ decided flow flow.postDominatorTree source target ↔
      target ≠ source ∧ flow.PostDominates node target ∧ node ≠ flow.exit ∧
        (node = source ∨ ¬ flow.PostDominates node source) := by
  have exitsSource : flow.CanExit source := (Reaches.single joined).trans exits
  have follows : flow.graph.adjacency.reversed.Follows target source := by
    rw [flow.graph.reversed_adjacency_follows]
    exact joined
  have climbs := flow.solved_postDominatorTree.mem_climb_iff follows
    ((canExit_iff_above target).mp exits) inside node
  have dominates := postDominatorTree_dominates_iff exitsSource target
  simp only [postDominates_iff_above exits, postDominates_iff_above exitsSource] at dominates ⊢
  rw [decided, decide_eq_false inside, Bool.false_or]
  split
  · next dominated =>
    have upper := dominates.mp dominated
    refine iff_of_false List.not_mem_nil ?_
    rintro ⟨distinct, above, -, rfl | apart⟩
    · exact distinct (upper.antisymm above)
    · exact apart (above.trans upper)
  · next apart =>
    have distinct : target ≠ source := by
      rintro rfl
      exact apart (dominates.mpr .refl)
    exact climbs.trans (and_iff_right distinct).symm

/-- What an edge decides about is a block, and so is the node that it leaves. -/
theorem ne_exit_of_mem_decided {node : flow.Node}
    (member : node ∈ decided flow flow.postDominatorTree source target) :
    source ≠ flow.exit ∧ node ≠ flow.exit := by
  rw [decided] at member
  split at member
  · cases member
  · next inside =>
    rw [Bool.or_eq_true, decide_eq_true_eq, not_or] at inside
    have passes := List.mem_takeWhile_imp member
    rw [Bool.and_eq_true, bne_iff_ne, bne_iff_ne] at passes
    exact ⟨inside.1, passes.2⟩

theorem mem_decisions_iff (source node : flow.Node) (kind : EdgeKind) :
    (source, node, kind) ∈ decisions flow ↔ ∃ target, flow.Leads source kind target ∧
      node ∈ decided flow flow.postDominatorTree source target := by
  simp only [decisions, List.mem_eraseDups, List.mem_flatMap, List.mem_map, Prod.mk.injEq,
    Prod.exists, Digraph.mem_edgeList_iff]
  constructor
  · rintro ⟨_, target, _, leads, _, member, rfl, rfl, rfl⟩
    exact ⟨target, leads, member⟩
  · rintro ⟨target, leads, member⟩
    exact ⟨source, target, kind, leads, node, member, rfl, rfl, rfl⟩

theorem position?_eq {α : Type} {items : List α} {number : Nat} (inside : number < items.length) :
    position? items number = some ⟨number, inside⟩ :=
  dif_pos inside

/-- The labels of the blocks are the nodes of the graph of control dependences. -/
theorem length_labels (flow : ControlFlow) :
    (flow.labels.take flow.blockCount).length = flow.blockCount := by
  rw [List.length_take, labels, List.length_map, Array.length_toList]
  exact Nat.min_eq_left (Nat.sub_le _ _)

theorem lt_length_labels {node : flow.Node} (inside : node ≠ flow.exit) :
    node.val < (flow.labels.take flow.blockCount).length := by
  have bound := node.isLt
  have differ : node.val ≠ flow.graph.size - 1 := fun same => inside (Fin.ext same)
  rw [length_labels, blockCount]
  omega

/-- The edges of the graph of control dependences by the positions of their ends. -/
def edgesOf (flow : ControlFlow) : List (Fin (flow.labels.take flow.blockCount).length ×
    Fin (flow.labels.take flow.blockCount).length × EdgeKind) :=
  (decisions flow).filterMap fun (source, node, kind) => do
    let source ← position? (flow.labels.take flow.blockCount) source
    let node ← position? (flow.labels.take flow.blockCount) node
    pure (source, node, kind)

/-- No decision is lost. -/
theorem map_edgesOf (flow : ControlFlow) :
    (edgesOf flow).map (fun edge => (edge.1.val, edge.2.1.val, edge.2.2)) =
      (decisions flow).map fun edge => (edge.1.val, edge.2.1.val, edge.2.2) := by
  rw [edgesOf, List.map_filterMap, ← List.filterMap_eq_map]
  apply List.filterMap_congr
  rintro ⟨source, node, kind⟩ member
  obtain ⟨target, -, decided⟩ := (mem_decisions_iff source node kind).mp member
  obtain ⟨sourceInside, nodeInside⟩ := ne_exit_of_mem_decided decided
  simp [position?_eq (lt_length_labels sourceInside), position?_eq (lt_length_labels nodeInside)]

/-- The decisions are the edges of the graph, in order. -/
theorem edges_ofControlFlow (flow : ControlFlow) : (ofControlFlow flow).graph.edges.toList =
    (decisions flow).map Edge.between := by
  refine (Digraph.edges_ofEdges _ (edgesOf flow)).trans ?_
  have same := congrArg (List.map fun edge => (⟨edge.1, edge.2.1, edge.2.2⟩ : Edge EdgeKind))
    (map_edgesOf flow)
  rwa [List.map_map, List.map_map] at same

/-- Adding the decisions one at a time never meets a node that is missing. -/
theorem foldlM_decisions (flow : ControlFlow) :
    (decisions flow).foldlM (fun graph edge => graph.addEdge? edge.1 edge.2.1 edge.2.2)
        ((flow.labels.take flow.blockCount).foldl Digraph.addNode .empty) =
      .ok (ofControlFlow flow).graph := by
  refine Eq.trans ?_ (Digraph.foldlM_addEdge? _ _ (edgesOf flow))
  have same := congrArg (List.foldlM
    (fun (graph : Digraph String EdgeKind) edge => graph.addEdge? edge.1 edge.2.1 edge.2.2)
    ((flow.labels.take flow.blockCount).foldl Digraph.addNode .empty)) (map_edgesOf flow)
  rw [List.foldlM_map, List.foldlM_map] at same
  exact same.symm

theorem nodup_edges (flow : ControlFlow) : (ofControlFlow flow).graph.edges.toList.Nodup := by
  rw [edges_ofControlFlow]
  exact (nodup_eraseDups _).map Edge.between_injective

theorem mem_edges_iff (source node : flow.Node) (kind : EdgeKind) :
    ⟨source, node, kind⟩ ∈ (ofControlFlow flow).graph.edges.toList ↔
      (source, node, kind) ∈ decisions flow := by
  rw [edges_ofControlFlow]
  change Edge.between (source, node, kind) ∈ _ ↔ _
  exact List.mem_map_of_injective Edge.between_injective

theorem mem_decisions_iff_decides (exits : ∀ a, flow.CanExit a) {a b : flow.Node}
    (aInside : a ≠ flow.exit) (bInside : b ≠ flow.exit) (kind : EdgeKind) :
    (a, b, kind) ∈ decisions flow ↔ flow.Decides a kind b := by
  rw [mem_decisions_iff, Decides, ← not_postDominates_iff]
  refine exists_congr fun s => and_congr_right fun leads => ?_
  rw [mem_decided_iff leads.joins (exits s) aInside, and_iff_right bInside]

/-- The graph of control dependences has the blocks for its nodes. No decision fails to become an
edge of it, and where all blocks can exit, there is one edge for each decision and no other. -/
theorem ofControlFlow_exact (flow : ControlFlow) :
    (ofControlFlow flow).graph.nodes.toList = flow.labels.take flow.blockCount ∧
      (decisions flow).foldlM (fun graph edge => graph.addEdge? edge.1 edge.2.1 edge.2.2)
          ((flow.labels.take flow.blockCount).foldl Digraph.addNode .empty) =
        .ok (ofControlFlow flow).graph ∧
      ((∀ a, flow.CanExit a) → ∀ a b, a ≠ flow.exit → b ≠ flow.exit → ∀ kind,
        (flow.Decides a kind b →
            (ofControlFlow flow).graph.edges.toList.count ⟨a, b, kind⟩ = 1) ∧
          (¬ flow.Decides a kind b →
            ⟨a, b, kind⟩ ∉ (ofControlFlow flow).graph.edges.toList)) := by
  refine ⟨Digraph.nodes_ofEdges _ _, foldlM_decisions flow, ?_⟩
  intro exits a b aInside bInside kind
  rw [mem_edges_iff, ← mem_decisions_iff_decides exits aInside bInside]
  refine ⟨fun decided => ?_, id⟩
  exact List.count_eq_one_of_mem (nodup_edges flow) ((mem_edges_iff a b kind).mpr decided)

/-- A loop whose condition is tested at its head. -/
def countdown : Function where
  name := "countdown"
  body := [
    .label "head",
    .instruction { name := "br", args := ["c"], labels := ["body", "done"] },
    .label "body",
    .instruction { name := "jmp", labels := ["head"] },
    .label "done",
    .instruction { name := "ret" }]

/-- From the body of the loop there is no other way to the exit than through its head. -/
theorem exists_countdown : ∃ flow, ControlFlow.ofFunction countdown = .ok flow ∧
    (∀ a, flow.CanExit a) ∧ ∃ head body : flow.Node, body ≠ head ∧ head ≠ flow.exit ∧
      flow.Leads head .whenTrue body ∧ flow.PostDominates head body := by
  obtain ⟨flow, builds, head, body, done, apart, headInside, bodyInside, nodes, toBody, toDone,
      toExit, back⟩ : ∃ flow, ControlFlow.ofFunction countdown = .ok flow ∧
        ∃ head body done : flow.Node, body ≠ head ∧ head ≠ flow.exit ∧ body ≠ flow.exit ∧
          (∀ a, a = head ∨ a = body ∨ a = done ∨ a = flow.exit) ∧
          flow.Leads head .whenTrue body ∧ flow.Leads head .whenFalse done ∧
          flow.Leads done .leave flow.exit ∧ ∀ a, flow.graph.Joins false body a ↔ a = head := by
    refine ⟨_, rfl, ⟨0, by decide⟩, ⟨1, by decide⟩, ⟨2, by decide⟩, ?_⟩
    simp only [ControlFlow.Leads, Digraph.Joins]
    decide
  have doneExits : flow.CanExit done := .single toExit.joins
  have headExits : flow.CanExit head := (Reaches.single toDone.joins).trans doneExits
  have bodyExits : flow.CanExit body :=
    (Reaches.single ((back head).mpr rfl)).trans headExits
  refine ⟨flow, builds, fun a => ?_, head, body, apart, headInside, toBody, fun visited walk => ?_⟩
  · rcases nodes a with rfl | rfl | rfl | rfl
    · exact headExits
    · exact bodyExits
    · exact doneExits
    · exact .refl _
  · cases walk with
    | stay => exact absurd rfl bodyInside
    | onward joined rest =>
      rw [(back _).mp joined] at rest
      exact List.mem_cons_of_mem _ rest.source_mem

/-- The head of the loop decides about itself, by the way into the body. -/
theorem ofControlFlow_exact_countdown : ∃ flow, ControlFlow.ofFunction countdown = .ok flow ∧
    (∀ a, flow.CanExit a) ∧ ∃ head, head ≠ flow.exit ∧ flow.Decides head .whenTrue head ∧
      (ofControlFlow flow).graph.edges.toList.count ⟨head, head, .whenTrue⟩ = 1 := by
  obtain ⟨flow, builds, exits, head, body, apart, inside, leads, always⟩ := exists_countdown
  have decides : flow.Decides head .whenTrue head := ⟨body, leads, apart, always, .inl rfl⟩
  obtain ⟨-, -, exact⟩ := ofControlFlow_exact flow
  exact ⟨flow, builds, exits, head, inside, decides,
    (exact exits head head inside inside .whenTrue).1 decides⟩

theorem self_mem_decisions_iff {function : Function}
    (builds : ControlFlow.ofFunction function = .ok flow) {a s : flow.Node} {kind : EdgeKind}
    (leads : flow.Leads a kind s) (exits : flow.CanExit s) (always : flow.PostDominates a s) :
    (a, a, kind) ∈ decisions flow ↔ s ≠ a := by
  have describes := describes_ofFunction builds
  have leaves := (describes.edges _ _ _).mp leads
  have inside : a ≠ flow.exit := by
    rintro rfl
    exact Nat.lt_irrefl _ (describes.exit_eq ▸ leaves.source_lt)
  have decided := mem_decided_iff leads.joins exits inside a
  rw [mem_decisions_iff]
  constructor
  · rintro ⟨target, goes, member⟩
    have same : target = s := Fin.ext (Leaves.target_unique describes.distinct
      ((describes.edges _ _ _).mp goes) leaves)
    exact (decided.mp (same ▸ member)).1
  · intro distinct
    exact ⟨s, leads, decided.mpr ⟨distinct, always, inside, .inl rfl⟩⟩

/-- Where all ways from an edge to the exit come back to the block that it leaves, the block decides
about itself by that edge unless the edge itself comes back. -/
theorem mem_edges_self_iff {function : Function}
    (builds : ControlFlow.ofFunction function = .ok flow) {a s : flow.Node} {kind : EdgeKind}
    (leads : flow.Leads a kind s) (exits : flow.CanExit s) (always : flow.PostDominates a s) :
    ⟨a, a, kind⟩ ∈ (ofControlFlow flow).graph.edges.toList ↔ s ≠ a := by
  rw [mem_edges_iff, self_mem_decisions_iff builds leads exits always]

theorem mem_edges_self_iff_countdown : ∃ flow, ControlFlow.ofFunction countdown = .ok flow ∧
    ∃ head body, flow.Leads head .whenTrue body ∧ flow.CanExit body ∧
      flow.PostDominates head body ∧
        ⟨head, head, .whenTrue⟩ ∈ (ofControlFlow flow).graph.edges.toList := by
  obtain ⟨flow, builds, exits, head, body, apart, -, leads, always⟩ := exists_countdown
  exact ⟨flow, builds, head, body, leads, exits body, always,
    (mem_edges_self_iff builds leads (exits body) always).mpr apart⟩

/-- A loop of one block. -/
def spin : Function where
  name := "spin"
  body := [
    .label "spin",
    .instruction { name := "br", args := ["c"], labels := ["spin", "done"] },
    .label "done",
    .instruction { name := "ret" }]

/-- A block that tests whether to run once more does not decide about itself, though it can exit,
has two ways out and is certain on one of them. -/
theorem spin_undecided : ∃ flow, ControlFlow.ofFunction spin = .ok flow ∧
    ∃ a other, other ≠ a ∧ flow.CanExit a ∧ flow.Leads a .whenTrue a ∧
      flow.Leads a .whenFalse other ∧ flow.PostDominates a a ∧
        ⟨a, a, .whenTrue⟩ ∉ (ofControlFlow flow).graph.edges.toList := by
  obtain ⟨flow, builds, a, other, distinct, again, onward, toExit⟩ :
      ∃ flow, ControlFlow.ofFunction spin = .ok flow ∧ ∃ a other : flow.Node, other ≠ a ∧
        flow.Leads a .whenTrue a ∧ flow.Leads a .whenFalse other ∧
          flow.Leads other .leave flow.exit := by
    refine ⟨_, rfl, ⟨0, by decide⟩, ⟨1, by decide⟩, ?_⟩
    simp only [ControlFlow.Leads]
    decide
  have exits : flow.CanExit a := (Reaches.single onward.joins).trans (.single toExit.joins)
  have always : flow.PostDominates a a := fun _ walk => walk.source_mem
  refine ⟨flow, builds, a, other, distinct, exits, again, onward, always, ?_⟩
  rw [mem_edges_iff, self_mem_decisions_iff builds again exits always]
  exact not_not_intro rfl

end ControlDependence

end ProgramGraphs
