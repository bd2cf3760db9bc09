import Mathlib.Algebra.Order.BigOperators.Group.List
import ProgramGraphs.Proofs.Graph.Ancestry
import ProgramGraphs.Proofs.Graph.Exploration

/-! # Settling parent links

Rounds of meets over a reverse postorder keep an invariant. Every node has a guide: a predecessor
that comes before it. The invariant says that the ancestors of a node contain its dominators
(`kept`) and every common ancestor of its settled predecessors (`tight`), and that its proper
ancestors stand above its guide, as far as the current round has come (`along`). The last clause is
what makes an update safe: cutting ancestors out below a node cuts them out above the guides of all
nodes below it as well, so neither of the other clauses can break.
-/

namespace ProgramGraphs

variable {n : Nat}

theorem get_rankIn (order : List (Fin n)) (node : Fin n) :
    (rankIn order).get node = order.idxOf node :=
  Vector.getElem_ofFn node.isLt

/-- An order of all that a root reaches, in which every other node comes after its guide, which is
one of its predecessors. -/
structure GuidedOrder (graph : Adjacency n) (root : Fin n) (order : List (Fin n))
    (guide : Fin n → Fin n) : Prop where
  head_eq : order = root :: order.tail
  nodup : order.Nodup
  mem_iff : ∀ node, node ∈ order ↔ Reaches graph.Follows root node
  guided : ∀ node ∈ order, node ≠ root →
    guide node ∈ graph.preds node ∧ guide node ∈ order ∧ order.idxOf (guide node) < order.idxOf node

namespace GuidedOrder

variable {graph : Adjacency n} {root : Fin n} {order : List (Fin n)} {guide : Fin n → Fin n}

theorem root_mem (guided : GuidedOrder graph root order guide) : root ∈ order := by
  rw [guided.head_eq]
  exact List.mem_cons_self

theorem mem_tail_iff (guided : GuidedOrder graph root order guide) (node : Fin n) :
    node ∈ order.tail ↔ node ∈ order ∧ node ≠ root := by
  have distinct := guided.nodup
  rw [guided.head_eq, List.nodup_cons] at distinct
  rw [guided.head_eq, List.tail_cons, List.mem_cons]
  constructor
  · intro member
    exact ⟨.inr member, fun same => distinct.1 (same ▸ member)⟩
  · rintro ⟨same | member, other⟩
    · exact absurd same other
    · exact member

end GuidedOrder

/-- Reverse postorder is guided by the nodes from which a search entered the others. -/
theorem Adjacency.exists_guidedOrder (graph : Adjacency n) (root : Fin n) :
    ∃ guide, GuidedOrder graph root (graph.reversePostorder root) guide := by
  have found := graph.discovery_reversePostorder root
  generalize graph.reversePostorder root = order at found ⊢
  have start : root ∈ order := by
    have seen := found.saw_nodes root (List.mem_singleton.mpr rfl)
    exact ((found.saw_iff root).mp seen).resolve_right (Search.not_saw_blank root)
  have closed : ∀ node next, node ∈ order → graph.Follows node next → next ∈ order := by
    intro node next member joined
    obtain ⟨before, behind, cut⟩ := List.append_of_mem member
    rcases found.successor before node behind cut next joined with seen | later | opened
    · exact absurd seen (Search.not_saw_blank next)
    · rw [cut]
      exact List.mem_append_right _ later
    · obtain ⟨earlier, between, rfl, -⟩ := opened
      simp [cut]
  have led : ∀ node, ∃ source, node ∈ order → node ≠ root →
      source ∈ graph.preds node ∧ source ∈ order ∧ order.idxOf source < order.idxOf node := by
    intro node
    by_cases member : node ∈ order
    · obtain ⟨before, behind, cut⟩ := List.append_of_mem member
      rcases found.led before node behind cut with here | ⟨source, earlier, joined⟩
      · exact ⟨node, fun _ other => absurd (List.mem_singleton.mp here) other⟩
      · refine ⟨source, fun _ _ => ⟨(graph.mem_preds_iff source node).mpr joined, ?_, ?_⟩⟩
        · simp [cut, earlier]
        · have distinct := found.nodup
          rw [cut] at distinct ⊢
          have outside : node ∉ before := fun present =>
            (List.nodup_append.mp distinct).2.2 node present node List.mem_cons_self rfl
          rw [List.idxOf_append_of_mem earlier, List.idxOf_append_of_notMem outside,
            List.idxOf_cons_self]
          exact List.idxOf_lt_length_of_mem earlier
    · exact ⟨node, fun present => absurd present member⟩
  choose guide guided using led
  refine ⟨guide, ?_, found.nodup, ?_, guided⟩
  · cases shape : order with
    | nil =>
      rw [shape] at start
      cases start
    | cons head rest =>
      rcases found.led [] head rest shape with here | ⟨source, none, -⟩
      · rw [List.mem_singleton.mp here, List.tail_cons]
      · cases none
  · intro node
    constructor
    · intro member
      obtain ⟨first, present, reached⟩ := found.reached node member
      rwa [List.mem_singleton.mp present] at reached
    · intro reached
      exact reached.mem_of_closed (· ∈ order) start closed

namespace Ancestry

variable {graph : Adjacency n} {root : Fin n} {order : List (Fin n)} {guide : Fin n → Fin n}
variable {bound : Nat} {links renewed : Ancestry n}

/-- What holds of the links when the nodes of rank below a bound have been improved in the current
round. A node is settled once the root stands above it. -/
structure Invariant (graph : Adjacency n) (root : Fin n) (order : List (Fin n))
    (guide : Fin n → Fin n) (bound : Nat) (links : Ancestry n) : Prop where
  rank_eq : links.rank = rankIn order
  top : links.parent? root = none
  rooted : ∀ node parent, links.parent? node = some parent →
    node ∈ order ∧ links.Above root parent
  settled : ∀ node ∈ order, links.rank.get node < bound → links.Above root node
  settled_guide : ∀ node parent, links.parent? node = some parent →
    links.Above root (guide node)
  tight : ∀ node parent, links.parent? node = some parent → ∀ ancestor,
    (∀ source ∈ graph.preds node, links.Above root source → links.Above ancestor source) →
      links.Above ancestor parent
  kept : ∀ node, links.Above root node → ∀ ancestor,
    Dominates graph.Follows root ancestor node → links.Above ancestor node
  along : ∀ node parent, links.parent? node = some parent → ∀ ancestor,
    links.Above ancestor parent → links.rank.get node < bound ∨ bound ≤ links.rank.get ancestor →
      links.Above ancestor (guide node)

namespace Invariant

theorem rank_eq_idxOf (inv : Invariant graph root order guide bound links) (node : Fin n) :
    links.rank.get node = order.idxOf node := by
  rw [inv.rank_eq, get_rankIn]

theorem mem_of_settled (inv : Invariant graph root order guide bound links)
    (guided : GuidedOrder graph root order guide) {node : Fin n}
    (above : links.Above root node) : node ∈ order := by
  cases above with
  | refl => exact guided.root_mem
  | climb linked _ => exact (inv.rooted _ _ linked).1

theorem settled_of_parent (inv : Invariant graph root order guide bound links)
    {node parent : Fin n} (linked : links.parent? node = some parent) : links.Above root node :=
  .climb linked (inv.rooted node parent linked).2

theorem rootedLinks (inv : Invariant graph root order guide bound links)
    (guided : GuidedOrder graph root order guide) : links.Rooted root where
  top := inv.top
  distinct a b aboveA _ same := by
    rw [inv.rank_eq_idxOf, inv.rank_eq_idxOf] at same
    exact (List.idxOf_inj (inv.mem_of_settled guided aboveA)).mp same

theorem isSettled_iff (inv : Invariant graph root order guide bound links) (node : Fin n) :
    links.isSettled root node = true ↔ links.Above root node := by
  rw [isSettled, Bool.or_eq_true, decide_eq_true_eq, Option.isSome_iff_exists]
  constructor
  · rintro (rfl | ⟨parent, linked⟩)
    · exact .refl
    · exact inv.settled_of_parent linked
  · intro above
    cases above with
    | refl => exact .inl rfl
    | climb linked _ => exact .inr ⟨_, linked⟩

end Invariant

theorem Relinks.assign (links : Ancestry n) (node parent : Fin n)
    (lower : links.rank.get parent < links.height node) :
    links.Relinks node parent (links.assign node parent lower) where
  rank_eq := rfl
  parent_eq := Vector.getElem_set_self node.isLt
  others other distinct := by
    have apart : node.val ≠ other.val := fun same => distinct (Fin.ext same.symm)
    exact Vector.getElem_set_ne node.isLt other.isLt apart

/-- A node, come to in its turn, gets the nearest common ancestor of its settled predecessors for a
parent. -/
structure Improvement (graph : Adjacency n) (root : Fin n) (order : List (Fin n))
    (guide : Fin n → Fin n) (links : Ancestry n) (node met : Fin n) (renewed : Ancestry n) :
    Prop where
  guided : GuidedOrder graph root order guide
  inv : Invariant graph root order guide (links.rank.get node) links
  member : node ∈ order
  other : node ≠ root
  relinks : links.Relinks node met renewed
  common : ∀ ancestor, links.Above ancestor met ↔
    ∀ source ∈ graph.preds node, links.Above root source → links.Above ancestor source

/-- When a node comes to its turn, its guide is settled and of lower rank. -/
theorem Invariant.settled_guide_of_turn {node : Fin n}
    (inv : Invariant graph root order guide (links.rank.get node) links)
    (guided : GuidedOrder graph root order guide) (member : node ∈ order) (other : node ≠ root) :
    links.rank.get (guide node) < links.rank.get node ∧ links.Above root (guide node) := by
  obtain ⟨-, inside, before⟩ := guided.guided node member other
  rw [← inv.rank_eq_idxOf, ← inv.rank_eq_idxOf] at before
  exact ⟨before, inv.settled (guide node) inside before⟩

theorem improve_of_meet? {node met : Fin n}
    (found : links.meet? ((graph.preds node).filter (links.isSettled root)) = some met) :
    improve graph root links node =
      if lower : links.rank.get met < links.height node then links.assign node met lower
      else links := by
  rw [improve, found]

/-- When a node comes to its turn, its settled predecessors have a nearest common ancestor, of lower
rank than the node. -/
theorem Invariant.exists_nearest {node : Fin n}
    (inv : Invariant graph root order guide (links.rank.get node) links)
    (guided : GuidedOrder graph root order guide) (member : node ∈ order) (other : node ≠ root) :
    ∃ met, links.meet? ((graph.preds node).filter (links.isSettled root)) = some met ∧
      links.rank.get met < links.rank.get node ∧ ∀ ancestor, links.Above ancestor met ↔
        ∀ source ∈ graph.preds node, links.Above root source → links.Above ancestor source := by
  have pred := (guided.guided node member other).1
  obtain ⟨before, settledGuide⟩ := inv.settled_guide_of_turn guided member other
  let sources := (graph.preds node).filter (links.isSettled root)
  have mem_sources : ∀ source, source ∈ sources ↔
      source ∈ graph.preds node ∧ links.Above root source := by
    intro source
    rw [List.mem_filter, inv.isSettled_iff]
  have guide_mem : guide node ∈ sources := (mem_sources _).mpr ⟨pred, settledGuide⟩
  obtain ⟨met, found, nearest⟩ := (inv.rootedLinks guided).exists_meet
    (List.ne_nil_of_mem guide_mem) fun source member => ((mem_sources source).mp member).2
  refine ⟨met, found, ?_, fun ancestor => ?_⟩
  · exact Nat.lt_of_le_of_lt ((nearest met).mp .refl _ guide_mem).rank_le before
  · rw [nearest]
    simp only [mem_sources, and_imp]

/-- Improving a node in its turn is an improvement, whether or not its parent changes. -/
theorem Invariant.exists_improvement {node : Fin n}
    (inv : Invariant graph root order guide (links.rank.get node) links)
    (guided : GuidedOrder graph root order guide) (member : node ∈ order) (other : node ≠ root) :
    ∃ met, Improvement graph root order guide links node met (improve graph root links node) := by
  obtain ⟨met, found, lower, common⟩ := inv.exists_nearest guided member other
  refine ⟨met, guided, inv, member, other, ?_, common⟩
  rw [improve_of_meet? found]
  split
  · exact .assign links node met _
  · next notLower =>
    cases linked : links.parent? node with
    | none =>
      rw [height, linked] at notLower
      exact absurd lower notLower
    | some parent =>
      rw [height, linked] at notLower
      have upper := inv.tight node parent linked met ((common met).mp .refl)
      rcases upper.eq_or_rank_lt with rfl | less
      · exact ⟨rfl, linked, fun _ _ => rfl⟩
      · exact absurd less notLower

namespace Improvement

variable {node met : Fin n}

/-- What a node gets for a parent is the meet of its settled predecessors. -/
theorem meet?_eq (improvement : Improvement graph root order guide links node met renewed) :
    links.meet? ((graph.preds node).filter (links.isSettled root)) = some met := by
  obtain ⟨nearest, found, -, common⟩ :=
    improvement.inv.exists_nearest improvement.guided improvement.member improvement.other
  have lower := (improvement.common nearest).mpr ((common nearest).mp .refl)
  have upper := (common met).mpr ((improvement.common met).mp .refl)
  rw [found, lower.antisymm upper]

theorem root_above_met
    (improvement : Improvement graph root order guide links node met renewed) :
    links.Above root met :=
  (improvement.common root).mpr fun _ _ settled => settled

/-- A node with settled nodes below it is settled, so the new parent is one of its ancestors. -/
theorem above_of_above_met
    (improvement : Improvement graph root order guide links node met renewed) {low ancestor : Fin n}
    (settled : links.Above root low) (below : links.Above node low)
    (above : links.Above ancestor met) : links.Above ancestor low := by
  have upper : links.Above root node := by
    rcases settled.total below with upper | lower
    · exact upper
    · have same := (above_iff_of_no_parent improvement.inv.top node).mp lower
      exact absurd same improvement.other
  cases upper with
  | refl => exact absurd rfl improvement.other
  | climb linked _ =>
    have tight := improvement.inv.tight _ _ linked ancestor ((improvement.common ancestor).mp above)
    exact (Above.climb linked tight).trans below

/-- Ancestors of settled nodes only go away. -/
theorem above_of_renewed
    (improvement : Improvement graph root order guide links node met renewed) {low ancestor : Fin n}
    (settled : links.Above root low) (above : renewed.Above ancestor low) :
    links.Above ancestor low := by
  by_cases below : links.Above node low
  · rcases (improvement.relinks.above_iff_of_above below ancestor).mp above with ⟨old, -⟩ | upper
    · exact old
    · exact improvement.above_of_above_met settled below upper
  · exact (improvement.relinks.above_iff_of_not_above below ancestor).mp above

/-- Giving a node a parent settles that node and unsettles none. -/
theorem settled_iff
    (improvement : Improvement graph root order guide links node met renewed) (low : Fin n) :
    renewed.Above root low ↔ low = node ∨ links.Above root low := by
  by_cases below : links.Above node low
  · rw [improvement.relinks.above_iff_of_above below]
    constructor
    · intro _
      cases below with
      | refl => exact .inl rfl
      | climb linked _ => exact .inr (improvement.inv.settled_of_parent linked)
    · intro _
      exact .inr improvement.root_above_met
  · rw [improvement.relinks.above_iff_of_not_above below]
    constructor
    · exact .inr
    · rintro (rfl | settled)
      · exact absurd .refl below
      · exact settled

theorem parent_cases
    (improvement : Improvement graph root order guide links node met renewed) {low parent : Fin n}
    (linked : renewed.parent? low = some parent) :
    low = node ∧ parent = met ∨ low ≠ node ∧ links.parent? low = some parent := by
  by_cases same : low = node
  · subst same
    rw [improvement.relinks.parent_eq] at linked
    exact .inl ⟨rfl, (Option.some.inj linked).symm⟩
  · exact .inr ⟨same, (improvement.relinks.others low same) ▸ linked⟩

/-- The guide of a settled node is one of its settled predecessors and comes before it. -/
theorem guide_of_parent
    (improvement : Improvement graph root order guide links node met renewed) {low parent : Fin n}
    (linked : links.parent? low = some parent) :
    guide low ∈ graph.preds low ∧ links.Above root (guide low) ∧
      order.idxOf (guide low) < order.idxOf low := by
  have listed := (improvement.inv.rooted low parent linked).1
  have notRoot : low ≠ root := by
    rintro rfl
    rw [improvement.inv.top] at linked
    cases linked
  obtain ⟨joined, -, earlier⟩ := improvement.guided.guided low listed notRoot
  exact ⟨joined, improvement.inv.settled_guide low parent linked, earlier⟩

/-- An ancestor that stays above the guide of a node stays above its parent: what is cut out below
the improved node is cut out above the guide as well. -/
theorem stays (improvement : Improvement graph root order guide links node met renewed)
    {low parent ancestor : Fin n} (linked : links.parent? low = some parent)
    (above : links.Above ancestor parent) (stays : renewed.Above ancestor (guide low)) :
    renewed.Above ancestor parent := by
  by_cases below : links.Above node parent
  · have guides := improvement.inv.along low parent linked node below (.inr (Nat.le_refl _))
    rw [improvement.relinks.above_iff_of_above below]
    rcases (improvement.relinks.above_iff_of_above guides ancestor).mp stays with ⟨-, lower⟩ | upper
    · exact .inl ⟨above, lower⟩
    · exact .inr upper
  · exact (improvement.relinks.above_iff_of_not_above below ancestor).mpr above

theorem tight (improvement : Improvement graph root order guide links node met renewed)
    {low parent ancestor : Fin n} (linked : renewed.parent? low = some parent)
    (shared : ∀ source ∈ graph.preds low,
      renewed.Above root source → renewed.Above ancestor source) :
    renewed.Above ancestor parent := by
  have was_shared : ∀ source ∈ graph.preds low, links.Above root source →
      links.Above ancestor source := fun source joined settled =>
    improvement.above_of_renewed settled
      (shared source joined ((improvement.settled_iff source).mpr (.inr settled)))
  rcases improvement.parent_cases linked with ⟨rfl, rfl⟩ | ⟨_, old⟩
  · rw [improvement.relinks.above_parent_iff, improvement.common]
    exact was_shared
  · obtain ⟨joined, settled, -⟩ := improvement.guide_of_parent old
    exact improvement.stays old (improvement.inv.tight low parent old ancestor was_shared)
      (shared _ joined ((improvement.settled_iff _).mpr (.inr settled)))

theorem kept (improvement : Improvement graph root order guide links node met renewed)
    {low ancestor : Fin n} (settled : renewed.Above root low)
    (dominates : Dominates graph.Follows root ancestor low) : renewed.Above ancestor low := by
  -- the guide of a node comes before it, so its dominators can be assumed to be kept
  induction rank : order.idxOf low using Nat.strongRecOn generalizing low with
  | ind rank ih =>
    cases settled with
    | refl =>
      obtain rfl := dominates.eq_root
      exact .refl
    | @climb parent low linked _ =>
      by_cases same : ancestor = low
      · subst same
        exact .refl
      have onWay : ∀ source ∈ graph.preds low, Dominates graph.Follows root ancestor source :=
        fun source joined => dominates.of_step ((graph.mem_preds_iff source low).mp joined) same
      refine .climb linked ?_
      rcases improvement.parent_cases linked with ⟨rfl, rfl⟩ | ⟨_, old⟩
      · rw [improvement.relinks.above_parent_iff, improvement.common]
        exact fun source joined settled =>
          improvement.inv.kept source settled ancestor (onWay source joined)
      · obtain ⟨joined, settled, earlier⟩ := improvement.guide_of_parent old
        have was := improvement.inv.kept low (improvement.inv.settled_of_parent old) ancestor
          dominates
        exact improvement.stays old (((above_iff_of_parent old ancestor).mp was).resolve_left same)
          (ih _ (rank ▸ earlier) ((improvement.settled_iff _).mpr (.inr settled)) (onWay _ joined)
            rfl)

theorem along (improvement : Improvement graph root order guide links node met renewed)
    {low parent ancestor : Fin n} (linked : renewed.parent? low = some parent)
    (above : renewed.Above ancestor parent)
    (near : links.rank.get low < links.rank.get node + 1 ∨
      links.rank.get node + 1 ≤ links.rank.get ancestor) : renewed.Above ancestor (guide low) := by
  have inv := improvement.inv
  have relinks := improvement.relinks
  rcases improvement.parent_cases linked with ⟨rfl, rfl⟩ | ⟨distinct, old⟩
  · obtain ⟨before, settled⟩ :=
      inv.settled_guide_of_turn improvement.guided improvement.member improvement.other
    have pred := (improvement.guided.guided low improvement.member improvement.other).1
    rw [relinks.above_parent_iff, improvement.common] at above
    exact (relinks.above_iff_of_not_above (not_above_of_rank_lt before) ancestor).mpr
      (above _ pred settled)
  · have was := improvement.above_of_renewed (inv.rooted low parent old).2 above
    obtain ⟨-, -, earlier⟩ := improvement.guide_of_parent old
    rw [← inv.rank_eq_idxOf, ← inv.rank_eq_idxOf] at earlier
    have ranks : links.rank.get low ≠ links.rank.get node := by
      rw [inv.rank_eq_idxOf, inv.rank_eq_idxOf]
      exact fun same => distinct ((List.idxOf_inj (inv.rooted low parent old).1).mp same)
    have guides : links.Above ancestor (guide low) :=
      inv.along low parent old ancestor was (by omega)
    by_cases below : links.Above node (guide low)
    · refine (relinks.above_iff_of_above below ancestor).mpr (.inl ⟨guides, ?_⟩)
      rcases below.total guides with lower | upper
      · exact lower
      · have := upper.rank_le
        have := below.rank_le
        omega
    · exact (relinks.above_iff_of_not_above below ancestor).mpr guides

/-- An improvement keeps the invariant. -/
theorem invariant (improvement : Improvement graph root order guide links node met renewed) :
    Invariant graph root order guide (links.rank.get node + 1) renewed where
  rank_eq := improvement.relinks.rank_eq.trans improvement.inv.rank_eq
  top := by rw [improvement.relinks.others root improvement.other.symm, improvement.inv.top]
  rooted low parent linked := by
    rw [improvement.settled_iff]
    rcases improvement.parent_cases linked with ⟨rfl, rfl⟩ | ⟨_, old⟩
    · exact ⟨improvement.member, .inr improvement.root_above_met⟩
    · obtain ⟨listed, settled⟩ := improvement.inv.rooted low parent old
      exact ⟨listed, .inr settled⟩
  settled low listed less := by
    rw [improvement.relinks.rank_eq] at less
    rw [improvement.settled_iff]
    rcases Nat.lt_or_eq_of_le (Nat.le_of_lt_succ less) with less | same
    · exact .inr (improvement.inv.settled low listed less)
    · rw [improvement.inv.rank_eq_idxOf, improvement.inv.rank_eq_idxOf] at same
      exact .inl ((List.idxOf_inj listed).mp same)
  settled_guide low parent linked := by
    rw [improvement.settled_iff]
    rcases improvement.parent_cases linked with ⟨rfl, -⟩ | ⟨_, old⟩
    · exact .inr (improvement.inv.settled_guide_of_turn improvement.guided improvement.member
        improvement.other).2
    · exact .inr (improvement.inv.settled_guide low parent old)
  tight _ _ linked _ shared := improvement.tight linked shared
  kept _ settled _ dominates := improvement.kept settled dominates
  along _ _ linked _ above near := by
    rw [improvement.relinks.rank_eq] at near
    exact improvement.along linked above near

end Improvement

end Ancestry

end ProgramGraphs
