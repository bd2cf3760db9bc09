import Mathlib.Algebra.Order.Group.Nat
import ProgramGraphs.Proofs.Graph.Settling

/-! # Dominator trees are exact

Rounds end when no improvement changes a parent. By then the ancestors of a node are the node itself
and the common ancestors of its predecessors, so along every walk from the root an ancestor of the
last node is met (`mem_of_walk`). Together with the invariant, the ancestors of a node are exactly
its dominators. `DominatorTree.Describes` says what that means for the tree as it is read.
-/

namespace ProgramGraphs

variable {n : Nat} {graph : Adjacency n} {root : Fin n} {order : List (Fin n)}
variable {guide : Fin n → Fin n}

namespace Ancestry

variable {bound : Nat} {links : Ancestry n}

theorem room_assign_lt (links : Ancestry n) (node parent : Fin n)
    (lower : links.rank.get parent < links.height node) :
    (links.assign node parent lower).room < links.room := by
  have relinks := Relinks.assign links node parent lower
  have heightNode : (links.assign node parent lower).height node = links.rank.get parent := by
    rw [height, relinks.parent_eq]
    rfl
  have heightOther : ∀ other, other ≠ node →
      (links.assign node parent lower).height other = links.height other := by
    intro other distinct
    rw [height, height, relinks.others other distinct]
    rfl
  change ((List.finRange n).map (links.assign node parent lower).height).sum <
    ((List.finRange n).map links.height).sum
  apply List.sum_lt_sum
  · intro other _
    by_cases same : other = node
    · rw [same, heightNode]
      exact Nat.le_of_lt lower
    · exact Nat.le_of_eq (heightOther other same)
  · exact ⟨node, List.mem_finRange node, heightNode ▸ lower⟩

/-- Improving a node takes room or changes nothing. -/
theorem improve_eq_or_room_lt (graph : Adjacency n) (root : Fin n) (links : Ancestry n)
    (node : Fin n) :
    improve graph root links node = links ∨ (improve graph root links node).room < links.room := by
  unfold improve
  split
  · exact .inl rfl
  · split
    · exact .inr (links.room_assign_lt node _ _)
    · exact .inl rfl

theorem room_round_le (graph : Adjacency n) (root : Fin n) (order : List (Fin n))
    (links : Ancestry n) : (round graph root order links).room ≤ links.room := by
  induction order generalizing links with
  | nil => exact Nat.le_refl _
  | cons node rest ih =>
    refine Nat.le_trans (ih (improve graph root links node)) ?_
    rcases improve_eq_or_room_lt graph root links node with same | less
    · rw [same]
    · exact Nat.le_of_lt less

/-- A round that takes no room changes nothing anywhere. -/
theorem improve_eq_of_room_round (graph : Adjacency n) (root : Fin n) (order : List (Fin n))
    (links : Ancestry n) (still : ¬ (round graph root order links).room < links.room) :
    ∀ node ∈ order, improve graph root links node = links := by
  induction order with
  | nil => simp
  | cons node rest ih =>
    have unchanged : improve graph root links node = links := by
      rcases improve_eq_or_room_lt graph root links node with same | less
      · exact same
      · exact absurd (Nat.lt_of_le_of_lt (room_round_le graph root rest _) less) still
    change ¬ (round graph root rest (improve graph root links node)).room < links.room at still
    rw [unchanged] at still
    exact List.forall_mem_cons.mpr ⟨unchanged, ih still⟩

theorem round_eq_of_improve_eq (graph : Adjacency n) (root : Fin n) (order : List (Fin n))
    (links : Ancestry n) (unchanged : ∀ node ∈ order, improve graph root links node = links) :
    round graph root order links = links := by
  induction order with
  | nil => rfl
  | cons node rest ih =>
    obtain ⟨first, others⟩ := List.forall_mem_cons.mp unchanged
    change round graph root rest (improve graph root links node) = links
    rw [first, ih others]

namespace Invariant

/-- Before the first round only the root is settled. -/
theorem bare (guided : GuidedOrder graph root order guide) :
    Invariant graph root order guide 1 (.bare (rankIn order)) := by
  have orphan : ∀ node, (Ancestry.bare (rankIn order)).parent? node = none :=
    fun node => Vector.getElem_replicate node.isLt
  have childless : ∀ {node parent}, (Ancestry.bare (rankIn order)).parent? node ≠ some parent := by
    simp [orphan]
  refine ⟨rfl, orphan root, fun _ _ linked => absurd linked childless, ?_,
    fun _ _ linked => absurd linked childless, fun _ _ linked => absurd linked childless, ?_,
    fun _ _ linked => absurd linked childless⟩
  · intro node member less
    change (rankIn order).get node < 1 at less
    rw [get_rankIn, guided.head_eq] at less
    by_cases same : root = node
    · exact same ▸ .refl
    · rw [List.idxOf_cons_ne _ same] at less
      omega
  · intro node above ancestor dominates
    cases above with
    | refl =>
      obtain rfl := dominates.eq_root
      exact .refl
    | climb linked _ => exact absurd linked childless

/-- A finished round leaves the invariant as a new round needs it. -/
theorem restart (inv : Invariant graph root order guide order.length links) (bound : Nat) :
    Invariant graph root order guide bound links where
  rank_eq := inv.rank_eq
  top := inv.top
  rooted := inv.rooted
  settled node member _ := by
    refine inv.settled node member ?_
    rw [inv.rank_eq_idxOf]
    exact List.idxOf_lt_length_of_mem member
  settled_guide := inv.settled_guide
  tight := inv.tight
  kept := inv.kept
  along node parent linked ancestor above _ := by
    refine inv.along node parent linked ancestor above (.inl ?_)
    rw [inv.rank_eq_idxOf]
    exact List.idxOf_lt_length_of_mem (inv.rooted node parent linked).1

/-- The node after those that have been improved in the current round comes to its turn. -/
theorem turn (guided : GuidedOrder graph root order guide) {earlier rest : List (Fin n)}
    {node : Fin n} (cut : order = earlier ++ node :: rest) (started : earlier ≠ [])
    (inv : Invariant graph root order guide earlier.length links) :
    ∃ met, Improvement graph root order guide links node met (improve graph root links node) ∧
      Invariant graph root order guide (earlier ++ [node]).length
        (improve graph root links node) := by
  have distinct := guided.nodup
  rw [cut] at distinct
  have outside : node ∉ earlier := fun member =>
    (List.nodup_append.mp distinct).2.2 node member node List.mem_cons_self rfl
  have turn : links.rank.get node = earlier.length := by
    rw [inv.rank_eq_idxOf, cut, List.idxOf_append_of_notMem outside, List.idxOf_cons_self]
    rfl
  have notRoot : node ≠ root := by
    rintro rfl
    obtain ⟨head, others, rfl⟩ := List.exists_cons_of_ne_nil started
    have same := guided.head_eq
    rw [cut, List.cons_append, List.cons.injEq] at same
    exact outside (by simp [same.1])
  rw [← turn] at inv
  obtain ⟨met, improvement⟩ := inv.exists_improvement guided (by simp [cut]) notRoot
  refine ⟨met, improvement, ?_⟩
  rw [List.length_append, List.length_singleton, ← turn]
  exact improvement.invariant

/-- Improving the nodes in order, each comes to its turn. -/
theorem foldl_improve (guided : GuidedOrder graph root order guide) (earlier todo : List (Fin n))
    (cut : order = earlier ++ todo) (started : earlier ≠ [])
    (inv : Invariant graph root order guide earlier.length links) :
    Invariant graph root order guide order.length (todo.foldl (improve graph root) links) := by
  induction todo generalizing earlier links with
  | nil =>
    rw [List.append_nil] at cut
    rw [cut] at inv ⊢
    exact inv
  | cons node rest ih =>
    obtain ⟨met, -, next⟩ := inv.turn guided cut started
    exact ih (earlier ++ [node]) (by rw [cut, List.append_cons]) (by simp) next

theorem round (inv : Invariant graph root order guide 1 links)
    (guided : GuidedOrder graph root order guide) :
    Invariant graph root order guide order.length (round graph root order.tail links) :=
  foldl_improve guided [root] order.tail guided.head_eq (by simp) inv

/-- Rounds end with links that keep the invariant and that no improvement changes. -/
theorem settle (inv : Invariant graph root order guide 1 links)
    (guided : GuidedOrder graph root order guide) :
    Invariant graph root order guide order.length (settle graph root order.tail links) ∧
      ∀ node ∈ order.tail, improve graph root (Ancestry.settle graph root order.tail links) node =
        Ancestry.settle graph root order.tail links := by
  induction size : links.room using Nat.strongRecOn generalizing links with
  | ind size ih =>
    have next := inv.round guided
    rw [Ancestry.settle]
    split
    · next less => exact ih _ (size ▸ less) (next.restart 1) rfl
    · next still =>
      have unchanged := improve_eq_of_room_round graph root order.tail links still
      rw [round_eq_of_improve_eq graph root order.tail links unchanged] at next ⊢
      exact ⟨next, unchanged⟩

end Invariant

/-- Settled links: the parent of every node is the nearest common ancestor of its predecessors. -/
structure Solved (graph : Adjacency n) (root : Fin n) (links : Ancestry n) : Prop where
  top : links.parent? root = none
  reached_iff : ∀ node, Reaches graph.Follows root node ↔ links.Above root node
  kept : ∀ node, links.Above root node → ∀ ancestor,
    Dominates graph.Follows root ancestor node → links.Above ancestor node
  settled_of_parent : ∀ node parent, links.parent? node = some parent → links.Above root node
  above_source : ∀ source target ancestor, graph.Follows source target → links.Above root source →
    links.Above ancestor target → ancestor = target ∨ links.Above ancestor source

theorem Invariant.solved (inv : Invariant graph root order guide order.length links)
    (guided : GuidedOrder graph root order guide)
    (unchanged : ∀ node ∈ order.tail, improve graph root links node = links) :
    Solved graph root links where
  top := inv.top
  reached_iff node := by
    rw [← guided.mem_iff]
    exact ⟨fun member => (inv.restart (links.rank.get node + 1)).settled node member
      (Nat.lt_succ_self _), inv.mem_of_settled guided⟩
  kept := inv.kept
  settled_of_parent _ _ linked := inv.settled_of_parent linked
  above_source source target ancestor joined settled above := by
    by_cases same : target = root
    · rw [same] at above ⊢
      exact .inl ((above_iff_of_no_parent inv.top ancestor).mp above)
    · have reached : Reaches graph.Follows root target := by
        have start := (guided.mem_iff source).mp (inv.mem_of_settled guided settled)
        exact start.trans (.single joined)
      have member := (guided.mem_iff target).mpr reached
      obtain ⟨met, improvement⟩ := (inv.restart _).exists_improvement guided member same
      rw [unchanged target ((guided.mem_tail_iff target).mpr ⟨member, same⟩)] at improvement
      rw [above_iff_of_parent improvement.relinks.parent_eq, improvement.common] at above
      exact above.imp_right fun upper =>
        upper source ((graph.mem_preds_iff source target).mpr joined) settled

namespace Solved

theorem mem_of_walk (solved : Solved graph root links) {source target ancestor : Fin n}
    {visited : List (Fin n)} (walk : Walk graph.Follows source visited target)
    (settled : links.Above root source) (above : links.Above ancestor target) :
    ancestor ∈ visited ∨ links.Above ancestor source := by
  induction walk with
  | stay node => exact .inr above
  | @onward source next target visited joined rest ih =>
    have start := (solved.reached_iff source).mpr settled
    have onto := (solved.reached_iff next).mp (start.trans (.single joined))
    rcases ih onto above with member | upper
    · exact .inl (List.mem_cons_of_mem _ member)
    · rcases solved.above_source source next ancestor joined settled upper with rfl | upper
      · exact .inl (List.mem_cons_of_mem _ rest.source_mem)
      · exact .inr upper

/-- The ancestors of a settled node are its dominators. -/
theorem above_iff_dominates (solved : Solved graph root links) {node : Fin n}
    (settled : links.Above root node) (ancestor : Fin n) :
    links.Above ancestor node ↔ Dominates graph.Follows root ancestor node := by
  constructor
  · intro above visited walk
    rcases solved.mem_of_walk walk .refl above with member | upper
    · exact member
    · rw [(above_iff_of_no_parent solved.top ancestor).mp upper]
      exact walk.source_mem
  · exact solved.kept node settled ancestor

end Solved

/-- The links of a dominator tree are settled. -/
theorem solved_dominatorTree (graph : Adjacency n) (root : Fin n) :
    Solved graph root (graph.dominatorTree root).links := by
  obtain ⟨guide, guided⟩ := graph.exists_guidedOrder root
  obtain ⟨inv, unchanged⟩ := (Invariant.bare guided).settle guided
  exact inv.solved guided unchanged

end Ancestry

namespace DominatorTree

/-- A tree is the dominator tree of the steps of a relation from a root. -/
structure Describes (tree : DominatorTree n) (step : Fin n → Fin n → Prop) (root : Fin n) :
    Prop where
  contains_iff : ∀ b, tree.contains b = true ↔ Reaches step root b
  dominates_iff : ∀ a b,
    tree.dominates a b = true ↔ Reaches step root b ∧ Dominates step root a b
  immediate : ∀ b, Reaches step root b → b ≠ root → ∃ parent, tree.parent? b = some parent ∧
    StrictlyDominates step root parent b ∧
      ∀ a, StrictlyDominates step root a b → Dominates step root a parent
  parentless : ∀ b, b = root ∨ ¬ Reaches step root b → tree.parent? b = none
  mem_edges_iff : ∀ parent child,
    (parent, child) ∈ tree.edges ↔ tree.parent? child = some parent
  children_nodup : (tree.edges.map Prod.snd).Nodup
  mem_children_iff : ∀ b, b ∈ tree.edges.map Prod.snd ↔ Reaches step root b ∧ b ≠ root
  rooted : ∀ b, Reaches step root b →
    Reaches (fun parent child => (parent, child) ∈ tree.edges) root b

theorem mem_edges_iff_parent (tree : DominatorTree n) (parent child : Fin n) :
    (parent, child) ∈ tree.edges ↔ tree.parent? child = some parent := by
  simp [edges]

theorem mem_map_edges_iff (tree : DominatorTree n) (child : Fin n) :
    child ∈ tree.edges.map Prod.snd ↔ ∃ parent, tree.parent? child = some parent := by
  simp [edges]

/-- Every node is a child once at most. -/
theorem nodup_map_edges (tree : DominatorTree n) : (tree.edges.map Prod.snd).Nodup := by
  have listed : tree.edges.map Prod.snd =
      (List.finRange n).filter fun child => (tree.parent? child).isSome := by
    rw [edges, List.map_filterMap, ← List.filterMap_eq_filter]
    apply List.filterMap_congr
    intro child _
    cases linked : tree.parent? child <;> simp [Option.guard, linked]
  rw [listed]
  exact (List.nodup_finRange n).filter _

theorem contains_iff_above {links : Ancestry n} (solved : links.Solved graph root)
    (node : Fin n) : (⟨root, links⟩ : DominatorTree n).contains node = true ↔
      links.Above root node := by
  simp only [contains, parent?, Bool.or_eq_true, decide_eq_true_eq, Option.isSome_iff_exists]
  constructor
  · rintro (same | ⟨parent, linked⟩)
    · exact Fin.ext same ▸ .refl
    · exact solved.settled_of_parent node parent linked
  · intro above
    cases above with
    | refl => exact .inl rfl
    | climb linked _ => exact .inr ⟨_, linked⟩

/-- The edges of a tree join nodes of the tree. -/
theorem mem_members_of_mem_edges {links : Ancestry n} (solved : links.Solved graph root)
    {parent child : Fin n} (joined : (parent, child) ∈ (⟨root, links⟩ : DominatorTree n).edges) :
    parent ∈ (⟨root, links⟩ : DominatorTree n).members ∧
      child ∈ (⟨root, links⟩ : DominatorTree n).members := by
  have linked : links.parent? child = some parent := (mem_edges_iff_parent _ _ _).mp joined
  have below := solved.settled_of_parent child parent linked
  simp only [members, List.mem_filter, List.mem_finRange, true_and, contains_iff_above solved]
  refine ⟨?_, below⟩
  rcases (Ancestry.above_iff_of_parent linked root).mp below with rfl | upper
  · exact nomatch solved.top.symm.trans linked
  · exact upper

/-- Settled links describe the dominator tree of their graph. -/
theorem describes_of_solved {links : Ancestry n} (solved : links.Solved graph root) :
    (⟨root, links⟩ : DominatorTree n).Describes graph.Follows root where
  contains_iff b := by
    rw [contains_iff_above solved, solved.reached_iff]
  dominates_iff a b := by
    rw [dominates, Bool.and_eq_true, contains_iff_above solved, solved.reached_iff, lineage,
      List.contains_iff_mem, Ancestry.mem_lineage_iff]
    exact and_congr_right fun settled => solved.above_iff_dominates settled a
  immediate b reached notRoot := by
    have settled := (solved.reached_iff b).mp reached
    cases settled with
    | refl => exact absurd rfl notRoot
    | @climb parent _ linked upper =>
      have lower := Ancestry.rank_lt_of_parent linked
      have aboveIff := Ancestry.above_iff_of_parent linked
      have settled := (aboveIff root).mpr (.inr upper)
      refine ⟨parent, linked, ⟨?_, ?_⟩, ?_⟩
      · exact (solved.above_iff_dominates settled parent).mp (.climb linked .refl)
      · rintro rfl
        exact Nat.lt_irrefl _ lower
      · rintro a ⟨dominates, distinct⟩
        have above := (solved.above_iff_dominates settled a).mpr dominates
        rcases (aboveIff a).mp above with same | above
        · exact absurd same distinct
        · exact (solved.above_iff_dominates upper a).mp above
  parentless b outside := by
    rcases outside with rfl | unreached
    · exact solved.top
    · cases linked : links.parent? b with
      | none => exact linked
      | some parent =>
        exact absurd ((solved.reached_iff b).mpr (solved.settled_of_parent b parent linked))
          unreached
  mem_edges_iff := mem_edges_iff_parent _
  children_nodup := nodup_map_edges _
  mem_children_iff b := by
    rw [mem_map_edges_iff, solved.reached_iff]
    constructor
    · rintro ⟨parent, linked⟩
      refine ⟨solved.settled_of_parent b parent linked, ?_⟩
      rintro rfl
      exact absurd (solved.top.symm.trans linked) (by simp)
    · rintro ⟨above, notRoot⟩
      cases above with
      | refl => exact absurd rfl notRoot
      | climb linked _ => exact ⟨_, linked⟩
  rooted b reached := by
    have above := (solved.reached_iff b).mp reached
    clear reached
    induction above with
    | refl => exact .refl root
    | climb linked _ ih =>
      exact ih.trans (.single ((mem_edges_iff_parent _ _ _).mpr linked))

end DominatorTree

/-- The dominator tree of a graph, forward or reversed, is that of its edges from the root. -/
theorem Digraph.dominatorTree_describes {ν ε : Type} (graph : Digraph ν ε) (reversed : Bool)
    (root : Fin graph.size) :
    (graph.dominatorTree reversed root.val).Describes (graph.Joins reversed) root := by
  have index : graph.index? root.val = some root := by
    simp [index?]
  rw [dominatorTree, index]
  cases reversed with
  | false =>
    rw [← graph.adjacency_follows]
    exact DominatorTree.describes_of_solved (Ancestry.solved_dominatorTree _ root)
  | true =>
    rw [← graph.reversed_adjacency_follows]
    exact DominatorTree.describes_of_solved (Ancestry.solved_dominatorTree _ root)

end ProgramGraphs
