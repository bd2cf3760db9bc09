import Mathlib.Data.List.Nodup
import ProgramGraphs.Proofs.Graph.Settling

/-! # Postorder

`DepthFirst` says in which order a recursive depth-first search finishes what it enters, without a
stack and without marks. There is one such order, and it is the postorder of the search with a stack
(`postorder_depthFirst`). Every step between listed nodes goes back in it, but for those on a cycle:
a step can lead to a node that is finished later only if that node was still open, and what is
finished below an open node is reached from it.
-/

namespace ProgramGraphs.Adjacency

variable {n : Nat} {graph : Adjacency n}

/-- The order in which a recursive search of some nodes, one after the other, finishes those that it
enters; a node that has been entered before is passed over, and a node is finished when its
successors have been searched in turn. -/
inductive DepthFirst (graph : Adjacency n) : List (Fin n) → List (Fin n) → List (Fin n) → Prop
  | done (entered : List (Fin n)) : DepthFirst graph entered [] []
  | pass {entered rest order : List (Fin n)} {next : Fin n} :
      next ∈ entered → DepthFirst graph entered rest order →
        DepthFirst graph entered (next :: rest) order
  | enter {entered rest below beyond : List (Fin n)} {next : Fin n} :
      next ∉ entered → DepthFirst graph (next :: entered) (graph.succs next) below →
        DepthFirst graph (below ++ next :: entered) rest beyond →
          DepthFirst graph entered (next :: rest) (below ++ next :: beyond)

/-- The recursive search has one order. -/
theorem DepthFirst.unique {entered nodes first second : List (Fin n)}
    (one : graph.DepthFirst entered nodes first) (other : graph.DepthFirst entered nodes second) :
    first = second := by
  induction one generalizing second with
  | done =>
    cases other
    rfl
  | pass known _ ih =>
    cases other with
    | pass _ onward => exact ih onward
    | enter fresh => exact absurd known fresh
  | enter fresh _ _ within after =>
    cases other with
    | pass known => exact absurd known fresh
    | enter _ inside outside =>
      obtain rfl := within inside
      obtain rfl := after outside
      rfl

/-- An exploration finishes nodes in the order of the recursive search. -/
theorem Explores.exists_depthFirst {search after : Search n} {nodes : List (Fin n)}
    (explores : graph.Explores search nodes after) {entered : List (Fin n)}
    (same : ∀ node, node ∈ entered ↔ search.Saw node) :
    ∃ order, graph.DepthFirst entered nodes order ∧
      after.finished = order.reverse ++ search.finished := by
  induction explores generalizing entered with
  | done search => exact ⟨[], .done entered, rfl⟩
  | @skip _ _ next _ seen _ ih =>
    obtain ⟨order, onward, finished⟩ := ih same
    exact ⟨order, .pass ((same next).mpr seen) onward, finished⟩
  | @enter search inner after next rest fresh explored _ within beyond =>
    have marked : ∀ node, node ∈ next :: entered ↔ (search.mark next).Saw node := by
      intro node
      rw [List.mem_cons, Search.saw_mark, same]
    obtain ⟨below, inside, found⟩ := within marked
    obtain ⟨early, discovery⟩ := explored.exists_discovery
    have listed : early = below.reverse :=
      List.append_cancel_right (discovery.finished_eq.symm.trans found)
    have known : ∀ node, node ∈ below ++ next :: entered ↔ (inner.finish next).Saw node := by
      intro node
      rw [Search.saw_finish, discovery.saw_iff_of_mark, listed, List.mem_append, List.mem_cons,
        List.mem_reverse, same]
      exact or_left_comm
    obtain ⟨later, outside, ends⟩ := beyond known
    refine ⟨below ++ next :: later, .enter (fun member => fresh ((same next).mp member)) inside
      outside, ?_⟩
    rw [ends, Search.finished_finish, found, Search.finished_mark]
    simp

/-- Postorder is the order of the recursive search. -/
theorem depthFirst_postorder (graph : Adjacency n) (start : Fin n) :
    graph.DepthFirst [] [start] (graph.postorder start) := by
  have blank : ∀ node : Fin n, node ∈ [] ↔ Search.blank.Saw node := by simp
  obtain ⟨order, searches, finished⟩ :=
    (graph.explores_visit .blank start).exists_depthFirst blank
  have same : graph.postorder start = order := by
    rw [postorder, finished]
    simp [Search.blank]
  rwa [same]

/-- A step from a listed node goes on in reverse postorder, unless its end leads back. -/
theorem sublist_reversePostorder {start source target : Fin n}
    (listed : source ∈ graph.reversePostorder start) (joined : graph.Follows source target)
    (apart : ¬ Reaches graph.Follows target source) :
    [source, target].Sublist (graph.reversePostorder start) := by
  have found := graph.discovery_reversePostorder start
  obtain ⟨before, behind, cut⟩ := List.append_of_mem listed
  have later : target ∈ behind := by
    rcases found.successor before source behind cut target joined with seen | member | opened
    · exact absurd seen (Search.not_saw_blank target)
    · rcases List.mem_cons.mp member with rfl | member
      · exact absurd (.refl target) apart
      · exact member
    · obtain ⟨_, between, -, reaches⟩ := opened
      exact absurd (reaches source (by simp)) apart
  rw [cut]
  exact ((List.singleton_sublist.mpr later).cons_cons source).trans
    (List.sublist_append_right before _)

/-- Postorder is the order in which the recursive search finishes nodes: each node that the start
reaches, once, the start last. A step between listed nodes goes back in it, and on in reverse
postorder, unless its end leads back to its source. -/
theorem postorder_depthFirst (graph : Adjacency n) (start : Fin n) :
    (∀ order, graph.DepthFirst [] [start] order ↔ order = graph.postorder start) ∧
    (graph.postorder start).Nodup ∧
    (∀ node, node ∈ graph.postorder start ↔ Reaches graph.Follows start node) ∧
    (graph.postorder start).getLast? = some start ∧
    ∀ source ∈ graph.postorder start, ∀ target ∈ graph.postorder start,
      graph.Follows source target → ¬ Reaches graph.Follows target source →
        [target, source].Sublist (graph.postorder start) ∧
          [source, target].Sublist (graph.reversePostorder start) := by
  obtain ⟨_, guided⟩ := graph.exists_guidedOrder start
  have reversed : graph.postorder start = (graph.reversePostorder start).reverse := rfl
  refine ⟨fun order => ⟨fun searches => searches.unique (graph.depthFirst_postorder start), ?_⟩,
    ?nodup, ?reached, ?last, ?steps⟩
  · rintro rfl
    exact graph.depthFirst_postorder start
  case nodup =>
    rw [reversed, List.nodup_reverse]
    exact guided.nodup
  case reached =>
    intro node
    rw [reversed, List.mem_reverse]
    exact guided.mem_iff node
  case last => rw [reversed, List.getLast?_reverse, guided.head_eq, List.head?_cons]
  case steps =>
    intro source listed target _ joined apart
    rw [reversed, List.mem_reverse] at listed
    have onward := sublist_reversePostorder listed joined apart
    exact ⟨onward.reverse, onward⟩

end ProgramGraphs.Adjacency
