import ProgramGraphs.Graph.Search
import ProgramGraphs.Proofs.Graph.Walk

/-! # Recursive exploration

`Explores` is depth-first search in its recursive form: every node of a list is entered unless it
has been seen, and is finished once its successors have been explored in turn. The search with an
explicit stack computes exactly that (`explores_visit`). `Discovery` gathers what one exploration
adds to the finished nodes: each new node is led to by an earlier listed one, and a successor that
is listed earlier was still open, so it reaches everything listed in between.
-/

namespace ProgramGraphs

variable {n : Nat}

namespace Search

/-- A search has seen a node. -/
def Saw (search : Search n) (node : Fin n) : Prop :=
  search.seen.get node = true

@[simp] theorem saw_mark (search : Search n) (node other : Fin n) :
    (search.mark node).Saw other ↔ other = node ∨ search.Saw other := by
  change (search.seen.set node true node.isLt)[other.val] = true ↔
    other = node ∨ search.seen[other.val] = true
  rw [Vector.getElem_set, Fin.ext_iff]
  by_cases same : node.val = other.val
  · simp [same]
  · have swapped : ¬ other.val = node.val := fun equal => same equal.symm
    simp [same, swapped]

@[simp] theorem saw_finish (search : Search n) (node other : Fin n) :
    (search.finish node).Saw other ↔ search.Saw other :=
  Iff.rfl

@[simp] theorem not_saw_blank (node : Fin n) : ¬ (blank : Search n).Saw node := by
  simp [Saw, blank, Vector.get]

@[simp] theorem finished_mark (search : Search n) (node : Fin n) :
    (search.mark node).finished = search.finished := rfl

@[simp] theorem finished_finish (search : Search n) (node : Fin n) :
    (search.finish node).finished = node :: search.finished := rfl

theorem unseen_mark_lt (search : Search n) (node : Fin n) (fresh : ¬ search.Saw node) :
    (search.mark node).unseen < search.unseen :=
  search.unseen_mark node (Bool.eq_false_iff.mpr fresh)

end Search

namespace Adjacency

variable {graph : Adjacency n}

/-- The recursive depth-first search of a list of nodes, from a state to a state. -/
inductive Explores (graph : Adjacency n) : Search n → List (Fin n) → Search n → Prop
  | done (search : Search n) : Explores graph search [] search
  | skip {search after : Search n} {next : Fin n} {rest : List (Fin n)} :
      search.Saw next → Explores graph search rest after →
        Explores graph search (next :: rest) after
  | enter {search inner after : Search n} {next : Fin n} {rest : List (Fin n)} :
      ¬ search.Saw next → Explores graph (search.mark next) (graph.succs next) inner →
        Explores graph (inner.finish next) rest after →
          Explores graph search (next :: rest) after

theorem Explores.unseen_le {search after : Search n} {nodes : List (Fin n)}
    (explores : graph.Explores search nodes after) : after.unseen ≤ search.unseen := by
  induction explores with
  | done => exact Nat.le_refl _
  | skip _ _ ih => exact ih
  | @enter search inner after next rest fresh _ _ within beyond =>
    have marked := search.unseen_mark_lt next fresh
    rw [Search.unseen_finish] at beyond
    omega

/-- Only so many nodes can be entered, so every exploration comes to an end. -/
theorem exists_explores (graph : Adjacency n) (search : Search n) (nodes : List (Fin n)) :
    ∃ after, graph.Explores search nodes after := by
  match nodes with
  | [] => exact ⟨search, .done search⟩
  | next :: rest =>
    by_cases seen : search.Saw next
    · obtain ⟨after, explores⟩ := exists_explores graph search rest
      exact ⟨after, .skip seen explores⟩
    · have marked := search.unseen_mark_lt next seen
      obtain ⟨inner, within⟩ := exists_explores graph (search.mark next) (graph.succs next)
      have remaining : (inner.finish next).unseen < search.unseen :=
        Nat.lt_of_le_of_lt within.unseen_le marked
      obtain ⟨after, beyond⟩ := exists_explores graph (inner.finish next) rest
      exact ⟨after, .enter seen within beyond⟩
termination_by (search.unseen, nodes.length)
decreasing_by
  · exact Prod.Lex.right _ (by simp)
  · exact Prod.Lex.left _ _ marked
  · exact Prod.Lex.left _ _ remaining

/-- The stack holds what the recursion has still to come back to. -/
theorem Explores.descend_eq {search after : Search n} {nodes : List (Fin n)}
    (explores : graph.Explores search nodes after) (node : Fin n)
    (stack : List (Fin n × List (Fin n))) :
    graph.descend search ((node, nodes) :: stack) =
      graph.descend (after.finish node) stack := by
  induction explores generalizing node stack with
  | done search => rw [descend]
  | @skip search after next rest seen _ ih =>
    change search.seen.get next = true at seen
    rw [descend, if_pos seen]
    exact ih node stack
  | @enter search inner after next rest fresh _ _ within beyond =>
    change ¬ search.seen.get next = true at fresh
    rw [descend, if_neg fresh, within, beyond]

/-- A visit explores its node. -/
theorem explores_visit (graph : Adjacency n) (search : Search n) (node : Fin n) :
    graph.Explores search [node] (graph.visit search node) := by
  by_cases seen : search.seen.get node = true
  · rw [visit, if_pos seen]
    exact .skip seen (.done search)
  · obtain ⟨inner, within⟩ := exists_explores graph (search.mark node) (graph.succs node)
    rw [visit, if_neg seen, within.descend_eq, descend]
    exact .enter seen within (.done _)

end Adjacency

/-- Where a list that is put together around an element can be cut at one of its elements. -/
theorem cut_append_cons {α : Type} {late early before behind : List α} {middle node : α}
    (cut : late ++ middle :: early = before ++ node :: behind) :
    (∃ rest, late = before ++ node :: rest ∧ behind = rest ++ middle :: early) ∨
      (before = late ∧ node = middle ∧ behind = early) ∨
        ∃ rest, before = late ++ middle :: rest ∧ early = rest ++ node :: behind := by
  rcases List.append_eq_append_iff.mp cut with ⟨rest, shape, tail⟩ | ⟨rest, shape, tail⟩
  · cases rest with
    | nil =>
      simp only [List.nil_append, List.cons.injEq] at tail
      exact .inr (.inl ⟨by simp [shape], tail.1.symm, tail.2.symm⟩)
    | cons head rest =>
      simp only [List.cons_append, List.cons.injEq] at tail
      exact .inr (.inr ⟨rest, by rw [shape, tail.1], tail.2⟩)
  · cases rest with
    | nil =>
      simp only [List.nil_append, List.cons.injEq] at tail
      exact .inr (.inl ⟨by simp [shape], tail.1, tail.2⟩)
    | cons head rest =>
      simp only [List.cons_append, List.cons.injEq] at tail
      exact .inl ⟨rest, by rw [shape, tail.1], tail.2⟩

namespace Adjacency

variable {graph : Adjacency n}

/-- What an exploration of nodes from one state to another newly finishes, the latest first. -/
structure Discovery (graph : Adjacency n) (search : Search n) (nodes : List (Fin n))
    (after : Search n) (fresh : List (Fin n)) : Prop where
  finished_eq : after.finished = fresh ++ search.finished
  saw_iff : ∀ node, after.Saw node ↔ node ∈ fresh ∨ search.Saw node
  unseen : ∀ node ∈ fresh, ¬ search.Saw node
  nodup : fresh.Nodup
  saw_nodes : ∀ node ∈ nodes, after.Saw node
  reached : ∀ node ∈ fresh, ∃ start ∈ nodes, Reaches graph.Follows start node
  led : ∀ before node behind, fresh = before ++ node :: behind →
    node ∈ nodes ∨ ∃ source ∈ before, graph.Follows source node
  successor : ∀ before node behind, fresh = before ++ node :: behind →
    ∀ next, graph.Follows node next →
      search.Saw next ∨ next ∈ node :: behind ∨
        ∃ earlier between, before = earlier ++ next :: between ∧
          ∀ passed ∈ between ++ [node], Reaches graph.Follows next passed

namespace Discovery

theorem done (search : Search n) : graph.Discovery search [] search [] where
  finished_eq := rfl
  saw_iff := by simp
  unseen := by simp
  nodup := List.nodup_nil
  saw_nodes := by simp
  reached := by simp
  led := by simp
  successor := by simp

theorem skip {search after : Search n} {next : Fin n} {rest fresh : List (Fin n)}
    (seen : search.Saw next) (found : graph.Discovery search rest after fresh) :
    graph.Discovery search (next :: rest) after fresh where
  finished_eq := found.finished_eq
  saw_iff := found.saw_iff
  unseen := found.unseen
  nodup := found.nodup
  saw_nodes node member := by
    rcases List.mem_cons.mp member with rfl | member
    · exact (found.saw_iff node).mpr (.inr seen)
    · exact found.saw_nodes node member
  reached node member := by
    obtain ⟨start, present, reached⟩ := found.reached node member
    exact ⟨start, List.mem_cons_of_mem _ present, reached⟩
  led before node behind cut :=
    (found.led before node behind cut).imp_left (List.mem_cons_of_mem _)
  successor := found.successor

/-- Below a node everything that is found is reached from it. -/
theorem reaches_of_mem {search inner : Search n} {next : Fin n} {early : List (Fin n)}
    (within : graph.Discovery search (graph.succs next) inner early) {node : Fin n}
    (member : node ∈ early) : Reaches graph.Follows next node := by
  obtain ⟨start, present, reached⟩ := within.reached node member
  exact (Reaches.single present).trans reached

theorem saw_iff_of_mark {search inner : Search n} {next : Fin n} {nodes early : List (Fin n)}
    (within : graph.Discovery (search.mark next) nodes inner early) (node : Fin n) :
    inner.Saw node ↔ node = next ∨ node ∈ early ∨ search.Saw node := by
  rw [within.saw_iff, Search.saw_mark]
  exact or_left_comm

/-- Wherever the order of an entered node is cut, a successor has been seen before, is listed later,
or was still open. -/
theorem enter_successor {search inner after : Search n} {next : Fin n}
    {rest early late : List (Fin n)}
    (within : graph.Discovery (search.mark next) (graph.succs next) inner early)
    (beyond : graph.Discovery (inner.finish next) rest after late)
    {before behind : List (Fin n)} {node target : Fin n}
    (cut : late ++ next :: early = before ++ node :: behind) (joined : graph.Follows node target) :
    search.Saw target ∨ target ∈ node :: behind ∨
      ∃ earlier between, before = earlier ++ target :: between ∧
        ∀ passed ∈ between ++ [node], Reaches graph.Follows target passed := by
  rcases cut_append_cons cut with ⟨part, inLate, rfl⟩ | ⟨-, rfl, rfl⟩ | ⟨part, rfl, inEarly⟩
  · rcases beyond.successor before node part inLate target joined with seen | member | opened
    · rw [Search.saw_finish, within.saw_iff_of_mark] at seen
      rcases seen with rfl | member | seen
      · exact .inr (.inl (by simp))
      · exact .inr (.inl (by simp [member]))
      · exact .inl seen
    · refine .inr (.inl ?_)
      rcases List.mem_cons.mp member with rfl | member
      · exact List.mem_cons_self
      · exact List.mem_cons_of_mem _ (List.mem_append_left _ member)
    · exact .inr (.inr opened)
  · have seen := within.saw_nodes target joined
    rw [within.saw_iff_of_mark] at seen
    rcases seen with rfl | member | seen
    · exact .inr (.inl List.mem_cons_self)
    · exact .inr (.inl (List.mem_cons_of_mem _ member))
    · exact .inl seen
  · rcases within.successor part node behind inEarly target joined with seen | member | opened
    · rcases (search.saw_mark next target).mp seen with rfl | seen
      · -- the entered node is still open while everything below it is finished
        refine .inr (.inr ⟨late, part, rfl, fun passed member => within.reaches_of_mem ?_⟩)
        rw [inEarly]
        rcases List.mem_append.mp member with member | member
        · exact List.mem_append_left _ member
        · rw [List.mem_singleton.mp member]
          exact List.mem_append_right _ List.mem_cons_self
      · exact .inl seen
    · exact .inr (.inl member)
    · obtain ⟨earlier, between, rfl, reaches⟩ := opened
      exact .inr (.inr ⟨late ++ next :: earlier, between, by simp, reaches⟩)

/-- Entering a node finishes what is found below it, then the node, then what comes after it. -/
theorem enter {search inner after : Search n} {next : Fin n} {rest early late : List (Fin n)}
    (fresh : ¬ search.Saw next)
    (within : graph.Discovery (search.mark next) (graph.succs next) inner early)
    (beyond : graph.Discovery (inner.finish next) rest after late) :
    graph.Discovery search (next :: rest) after (late ++ next :: early) := by
  have seenInner := within.saw_iff_of_mark
  have apart : ∀ node ∈ late, node ≠ next ∧ node ∉ early ∧ ¬ search.Saw node := by
    intro node member
    have unseen := beyond.unseen node member
    simpa only [Search.saw_finish, seenInner, not_or] using unseen
  refine ⟨?finished_eq, ?saw_iff, ?unseen, ?nodup, ?saw_nodes, ?reached, ?led, ?successor⟩
  case finished_eq =>
    rw [beyond.finished_eq, Search.finished_finish, within.finished_eq, Search.finished_mark]
    simp
  case saw_iff =>
    intro node
    rw [beyond.saw_iff, Search.saw_finish, seenInner]
    simp only [List.mem_append, List.mem_cons, or_assoc]
  case unseen =>
    intro node member
    rcases List.mem_append.mp member with member | member
    · exact (apart node member).2.2
    · rcases List.mem_cons.mp member with rfl | member
      · exact fresh
      · exact fun seen => within.unseen node member ((search.saw_mark next node).mpr (.inr seen))
  case nodup =>
    have outside : next ∉ early := fun member =>
      within.unseen next member ((search.saw_mark next next).mpr (.inl rfl))
    refine List.nodup_append.mpr ⟨beyond.nodup, List.nodup_cons.mpr ⟨outside, within.nodup⟩, ?_⟩
    intro node member other present same
    subst same
    rcases List.mem_cons.mp present with same | present
    · exact (apart node member).1 same
    · exact (apart node member).2.1 present
  case saw_nodes =>
    intro node member
    rcases List.mem_cons.mp member with rfl | member
    · exact (beyond.saw_iff node).mpr (.inr ((seenInner node).mpr (.inl rfl)))
    · exact beyond.saw_nodes node member
  case reached =>
    intro node member
    rcases List.mem_append.mp member with member | member
    · obtain ⟨start, present, reached⟩ := beyond.reached node member
      exact ⟨start, List.mem_cons_of_mem _ present, reached⟩
    · rcases List.mem_cons.mp member with rfl | member
      · exact ⟨node, List.mem_cons_self, .refl node⟩
      · exact ⟨next, List.mem_cons_self, within.reaches_of_mem member⟩
  case led =>
    intro before node behind cut
    rcases cut_append_cons cut with ⟨part, inLate, -⟩ | ⟨-, rfl, -⟩ | ⟨part, rfl, inEarly⟩
    · exact (beyond.led before node part inLate).imp_left (List.mem_cons_of_mem _)
    · exact .inl List.mem_cons_self
    · right
      rcases within.led part node behind inEarly with start | ⟨source, member, joined⟩
      · exact ⟨next, by simp, start⟩
      · exact ⟨source, by simp [member], joined⟩
  case successor =>
    exact fun before node behind cut target joined => within.enter_successor beyond cut joined

end Discovery

/-- Every exploration is a discovery. -/
theorem Explores.exists_discovery {search after : Search n} {nodes : List (Fin n)}
    (explores : graph.Explores search nodes after) :
    ∃ fresh, graph.Discovery search nodes after fresh := by
  induction explores with
  | done search => exact ⟨[], .done search⟩
  | skip seen _ ih =>
    obtain ⟨fresh, found⟩ := ih
    exact ⟨fresh, found.skip seen⟩
  | enter fresh _ _ within beyond =>
    obtain ⟨early, inside⟩ := within
    obtain ⟨late, outside⟩ := beyond
    exact ⟨_, inside.enter fresh outside⟩

/-- Reverse postorder is what the search from a node discovers. -/
theorem discovery_reversePostorder (graph : Adjacency n) (node : Fin n) :
    graph.Discovery .blank [node] (graph.visit .blank node) (graph.reversePostorder node) := by
  obtain ⟨order, found⟩ := (graph.explores_visit .blank node).exists_discovery
  have same : graph.reversePostorder node = order :=
    found.finished_eq.trans (List.append_nil order)
  rwa [same]

end Adjacency

end ProgramGraphs
