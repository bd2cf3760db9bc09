import Mathlib.Data.List.Sort
import ProgramGraphs.Graph.Component
import ProgramGraphs.Proofs.Graph.Condensation

/-! # Low links

While components are searched, the nodes on the stack are those whose component is not known yet,
and the open nodes are among them. An open node reaches all that was put on the stack after it, and
whatever is on the stack reaches back to an open node that is not above it (`LowLinked`). An edge
that has been looked at and leads to a node on the stack is accounted for by the low link of some
open node between. So when a node is left with its own number as low link, no edge leads from the
nodes above it to a node below: they are one component. Each kind of step keeps all of this, and so
does a whole search.
-/

namespace ProgramGraphs

variable {n : Nat}

namespace ComponentSearch

theorem get_set {α : Type} (entries : Vector α n) (node other : Fin n) (entry : α) :
    (entries.set node entry node.isLt).get other =
      if other = node then entry else entries.get other := by
  change (entries.set node entry node.isLt)[other.val] = _
  rw [Vector.getElem_set]
  simp only [Fin.ext_iff, eq_comm]
  rfl

/-- A search has numbered a node. -/
def Found (search : ComponentSearch n) (node : Fin n) : Prop :=
  search.number.get node ≠ none

/-- The number of a node that has been found. -/
def rank (search : ComponentSearch n) (node : Fin n) : Nat :=
  (search.number.get node).getD 0

/-- A node is in a component that is known. -/
def Collected (search : ComponentSearch n) (node : Fin n) : Prop :=
  node ∈ search.components.toList.flatten

theorem number_eq_of_found (search : ComponentSearch n) {node : Fin n}
    (found : search.Found node) : search.number.get node = some (search.rank node) := by
  obtain ⟨number, same⟩ := Option.ne_none_iff_exists'.mp found
  simp [rank, same]

@[simp] theorem found_discover (search : ComponentSearch n) (node other : Fin n) :
    (search.discover node).Found other ↔ other = node ∨ search.Found other := by
  simp only [Found, discover, get_set]
  by_cases same : other = node <;> simp [same]

@[simp] theorem rank_discover_self (search : ComponentSearch n) (node : Fin n) :
    (search.discover node).rank node = search.next := by
  simp [rank, discover, get_set]

theorem rank_discover_of_ne (search : ComponentSearch n) {node other : Fin n}
    (distinct : other ≠ node) : (search.discover node).rank other = search.rank other := by
  simp [rank, discover, get_set, distinct]

@[simp] theorem low_discover_self (search : ComponentSearch n) (node : Fin n) :
    (search.discover node).low.get node = search.next := by
  simp [discover, get_set]

theorem low_discover_of_ne (search : ComponentSearch n) {node other : Fin n}
    (distinct : other ≠ node) : (search.discover node).low.get other = search.low.get other := by
  simp [discover, get_set, distinct]

theorem onStack_discover (search : ComponentSearch n) (node other : Fin n) :
    (search.discover node).onStack.get other = true ↔
      other = node ∨ search.onStack.get other = true := by
  simp only [discover, get_set]
  by_cases same : other = node <;> simp [same]

theorem low_lower_self (search : ComponentSearch n) (node : Fin n) (bound : Nat) :
    (search.lower node bound).low.get node = min (search.low.get node) bound := by
  simp [lower, get_set]

theorem low_lower_of_ne (search : ComponentSearch n) {node other : Fin n} (bound : Nat)
    (distinct : other ≠ node) : (search.lower node bound).low.get other = search.low.get other := by
  simp [lower, get_set, distinct]

theorem low_lower_le (search : ComponentSearch n) (node other : Fin n) (bound : Nat) :
    (search.lower node bound).low.get other ≤ search.low.get other := by
  by_cases same : other = node
  · rw [same, low_lower_self]
    exact Nat.min_le_left _ _
  · exact Nat.le_of_eq (search.low_lower_of_ne bound same)

theorem popThrough_append (node : Fin n) (stack : List (Fin n)) :
    (popThrough node stack).1 ++ (popThrough node stack).2 = stack := by
  fun_induction popThrough node stack with
  | case1 => rfl
  | case2 => rfl
  | case3 top rest _ ih => rw [List.cons_append, ih]

/-- What is popped from a stack with falling numbers is not below the last node popped. -/
theorem mem_popThrough_iff {rank : Fin n → Nat} {node : Fin n} {stack : List (Fin n)}
    (descending : stack.Pairwise fun upper below => rank below < rank upper)
    (present : node ∈ stack) (other : Fin n) :
    (other ∈ (popThrough node stack).1 ↔ other ∈ stack ∧ rank node ≤ rank other) ∧
      (other ∈ (popThrough node stack).2 ↔ other ∈ stack ∧ rank other < rank node) := by
  induction stack with
  | nil => exact absurd present List.not_mem_nil
  | cons top rest ih =>
    obtain ⟨above, below⟩ := List.pairwise_cons.mp descending
    rw [popThrough]
    by_cases same : top = node
    · subst same
      rw [if_pos rfl]
      have beneath : other ∈ rest → rank other < rank top := above other
      simp only [List.mem_cons]
      grind
    · rw [if_neg same]
      have deeper : node ∈ rest := (List.mem_cons.mp present).resolve_left fun equal =>
        same equal.symm
      have beneath : rank node < rank top := above node deeper
      have within := ih below deeper
      simp only [List.mem_cons, within]
      grind

theorem onStack_collect (search : ComponentSearch n) (node other : Fin n) :
    (search.collect node).onStack.get other = true ↔
      search.onStack.get other = true ∧ other ∉ (popThrough node search.stack).1 := by
  change ((popThrough node search.stack).1.foldl _ search.onStack).get other = true ↔ _
  generalize (popThrough node search.stack).1 = popped
  generalize search.onStack = marks
  induction popped generalizing marks with
  | nil => simp
  | cons top rest ih =>
    rw [List.foldl_cons, ih, get_set, List.mem_cons]
    by_cases same : other = top <;> simp [same]

theorem collected_collect (search : ComponentSearch n) (node other : Fin n) :
    (search.collect node).Collected other ↔
      search.Collected other ∨ other ∈ (popThrough node search.stack).1 := by
  simp [Collected, collect]

end ComponentSearch

/-- The nodes that a search has open, the innermost first. -/
def opened (frames : List (Fin n × List (Fin n))) : List (Fin n) :=
  frames.map (·.1)

@[simp] theorem opened_nil : opened ([] : List (Fin n × List (Fin n))) = [] := rfl

@[simp] theorem opened_cons (frame : Fin n × List (Fin n)) (frames : List (Fin n × List (Fin n))) :
    opened (frame :: frames) = frame.1 :: opened frames := rfl

/-- A successor of an open node is still to be looked at. -/
def Pending (frames : List (Fin n × List (Fin n))) (source target : Fin n) : Prop :=
  ∃ rest, (source, rest) ∈ frames ∧ target ∈ rest

namespace Pending

variable {frames : List (Fin n × List (Fin n))} {source target : Fin n}

theorem head {rest : List (Fin n)} (member : target ∈ rest) :
    Pending ((source, rest) :: frames) source target :=
  ⟨rest, List.mem_cons_self, member⟩

theorem tail {frame : Fin n × List (Fin n)} (pending : Pending frames source target) :
    Pending (frame :: frames) source target := by
  obtain ⟨rest, present, member⟩ := pending
  exact ⟨rest, List.mem_cons_of_mem _ present, member⟩

theorem of_cons {node : Fin n} {rest : List (Fin n)}
    (pending : Pending ((node, rest) :: frames) source target) :
    (source = node ∧ target ∈ rest) ∨ Pending frames source target := by
  obtain ⟨others, present, member⟩ := pending
  rcases List.mem_cons.mp present with same | deeper
  · obtain ⟨rfl, rfl⟩ := Prod.mk.inj same
    exact .inl ⟨rfl, member⟩
  · exact .inr ⟨others, deeper, member⟩

theorem mem_opened (pending : Pending frames source target) : source ∈ opened frames := by
  obtain ⟨rest, present, -⟩ := pending
  exact List.mem_map_of_mem present

/-- A node with nothing left to be looked at may be dropped. -/
theorem of_left {node : Fin n} (pending : Pending ((node, []) :: frames) source target) :
    Pending frames source target :=
  pending.of_cons.resolve_left fun none => absurd none.2 List.not_mem_nil

theorem to_look {node next : Fin n} {rest : List (Fin n)}
    (pending : Pending ((node, rest) :: frames) source target) :
    Pending ((node, next :: rest) :: frames) source target := by
  rcases pending.of_cons with ⟨rfl, member⟩ | deeper
  · exact .head (List.mem_cons_of_mem _ member)
  · exact deeper.tail

/-- Looking at a successor leaves all others to be looked at. -/
theorem of_look {node next : Fin n} {rest : List (Fin n)}
    (pending : Pending ((node, next :: rest) :: frames) source target) :
    Pending ((node, rest) :: frames) source target ∨ (source = node ∧ target = next) := by
  rcases pending.of_cons with ⟨rfl, member⟩ | deeper
  · rcases List.mem_cons.mp member with rfl | later
    · exact .inr ⟨rfl, rfl⟩
    · exact .inl (.head later)
  · exact .inl deeper.tail

end Pending

/-- What holds between the steps of a search for components. -/
structure LowLinked (graph : Adjacency n) (search : ComponentSearch n)
    (frames : List (Fin n × List (Fin n))) : Prop where
  layered : Layered graph.Follows search.components.toList
  found_iff : ∀ node, search.Found node ↔ node ∈ search.stack ∨ search.Collected node
  onStack_iff : ∀ node, search.onStack.get node = true ↔ node ∈ search.stack
  descending : search.stack.Pairwise fun upper below => search.rank below < search.rank upper
  rank_lt : ∀ node ∈ search.stack, search.rank node < search.next
  apart : ∀ node ∈ search.stack, ¬ search.Collected node
  stacked : ∀ node ∈ opened frames, node ∈ search.stack
  nested : (opened frames).Pairwise fun inner outer => search.rank outer < search.rank inner
  follows : ∀ source target, Pending frames source target → graph.Follows source target
  reaches : ∀ outer ∈ opened frames, ∀ node ∈ search.stack, search.rank outer ≤ search.rank node →
    Reaches graph.Follows outer node
  returns : ∀ node ∈ search.stack, ∃ outer ∈ opened frames,
    search.rank outer ≤ search.rank node ∧ Reaches graph.Follows node outer
  low_le : ∀ node ∈ opened frames, search.low.get node ≤ search.rank node
  attained : ∀ node ∈ opened frames, ∃ target ∈ search.stack,
    search.rank target = search.low.get node ∧ Reaches graph.Follows node target
  looked : ∀ source ∈ search.stack, ∀ target, graph.Follows source target →
    Pending frames source target ∨ search.Found target
  bounded : ∀ outer ∈ opened frames, ∀ source ∈ search.stack,
    search.rank outer ≤ search.rank source → ∀ target ∈ search.stack, graph.Follows source target →
      Pending frames source target ∨ ∃ inner ∈ opened frames,
        search.rank outer ≤ search.rank inner ∧ search.low.get inner ≤ search.rank target

namespace LowLinked

variable {graph : Adjacency n} {search : ComponentSearch n} {frames : List (Fin n × List (Fin n))}

theorem blank (graph : Adjacency n) : LowLinked graph .blank [] := by
  refine ⟨.nil, ?_, ?_, ?_, ?_, ?_, ?_, ?_, ?_, ?_, ?_, ?_, ?_, ?_, ?_⟩ <;>
    simp [ComponentSearch.blank, ComponentSearch.Found, ComponentSearch.Collected, Vector.get,
      Pending]

theorem found (linked : LowLinked graph search frames) {node : Fin n}
    (present : node ∈ search.stack) : search.Found node :=
  (linked.found_iff node).mpr (.inl present)

theorem stack_eq_nil (linked : LowLinked graph search []) : search.stack = [] := by
  rw [List.eq_nil_iff_forall_not_mem]
  intro node present
  obtain ⟨outer, member, -⟩ := linked.returns node present
  exact absurd member List.not_mem_nil

/-- A low link may be lowered to the number of a node on the stack that is reached. -/
theorem lower (linked : LowLinked graph search frames) {node target : Fin n}
    (present : node ∈ opened frames) (member : target ∈ search.stack)
    (reached : Reaches graph.Follows node target) :
    LowLinked graph (search.lower node (search.rank target)) frames where
  __ := linked
  low_le other inside := le_trans (search.low_lower_le node other _) (linked.low_le other inside)
  attained other inside := by
    by_cases same : other = node
    · subst same
      rw [search.low_lower_self]
      rcases Nat.le_total (search.low.get other) (search.rank target) with less | less
      · rw [Nat.min_eq_left less]
        exact linked.attained other inside
      · rw [Nat.min_eq_right less]
        exact ⟨target, member, rfl, reached⟩
    · rw [search.low_lower_of_ne _ same]
      exact linked.attained other inside
  bounded outer inside source above within order next joined := by
    rcases linked.bounded outer inside source above within order next joined with
      pending | ⟨inner, between, deeper, bound⟩
    · exact .inl pending
    · exact .inr ⟨inner, between, deeper, le_trans (search.low_lower_le node inner _) bound⟩

/-- Successors may be dropped once they have been found and are accounted for. -/
theorem settle (linked : LowLinked graph search frames) {after : List (Fin n × List (Fin n))}
    (same : opened after = opened frames)
    (fewer : ∀ source target, Pending after source target → Pending frames source target)
    (settled : ∀ source target, Pending frames source target → Pending after source target ∨
      (search.Found target ∧ (target ∈ search.stack → ∃ inner ∈ opened frames,
        search.rank source ≤ search.rank inner ∧ search.low.get inner ≤ search.rank target))) :
    LowLinked graph search after where
  __ := linked
  stacked := same ▸ linked.stacked
  nested := same ▸ linked.nested
  follows source target pending := linked.follows source target (fewer source target pending)
  reaches := same ▸ linked.reaches
  returns := same ▸ linked.returns
  low_le := same ▸ linked.low_le
  attained := same ▸ linked.attained
  looked source above target joined := by
    rcases linked.looked source above target joined with pending | found
    · exact (settled source target pending).imp_right And.left
    · exact .inr found
  bounded outer inside source above within target member joined := by
    rw [same] at inside ⊢
    rcases linked.bounded outer inside source above within target member joined with
      pending | known
    · rcases settled source target pending with still | ⟨-, account⟩
      · exact .inl still
      · obtain ⟨inner, between, deeper, bound⟩ := account member
        exact .inr ⟨inner, between, le_trans within deeper, bound⟩
    · exact .inr known

/-- A node that all open nodes reach may be discovered and opened. -/
theorem discover (linked : LowLinked graph search frames) {node : Fin n}
    (fresh : ¬ search.Found node)
    (reached : ∀ outer ∈ opened frames, Reaches graph.Follows outer node) :
    LowLinked graph (search.discover node) ((node, graph.succs node) :: frames) := by
  have other : ∀ old ∈ search.stack, old ≠ node := by
    rintro old present rfl
    exact fresh (linked.found present)
  have rank_eq : ∀ old ∈ search.stack, (search.discover node).rank old = search.rank old :=
    fun old present => search.rank_discover_of_ne (other old present)
  have low_eq : ∀ old ∈ opened frames, (search.discover node).low.get old = search.low.get old :=
    fun old inside => search.low_discover_of_ne (other old (linked.stacked old inside))
  have below : ∀ old ∈ search.stack,
      (search.discover node).rank old < (search.discover node).rank node := by
    intro old present
    rw [rank_eq old present, search.rank_discover_self]
    exact linked.rank_lt old present
  refine ⟨linked.layered, ?found_iff, ?onStack_iff, ?descending, ?rank_lt, ?apart, ?stacked,
    ?nested, ?follows, ?reaches, ?returns, ?low_le, ?attained, ?looked, ?bounded⟩
  case found_iff =>
    intro old
    rw [search.found_discover, linked.found_iff, ← or_assoc]
    exact or_congr_left List.mem_cons.symm
  case onStack_iff =>
    intro old
    rw [search.onStack_discover, linked.onStack_iff]
    exact List.mem_cons.symm
  case descending =>
    refine List.pairwise_cons.mpr ⟨below, ?_⟩
    refine linked.descending.imp_of_mem fun {upper under} first second order => ?_
    rwa [rank_eq upper first, rank_eq under second]
  case rank_lt =>
    refine List.forall_mem_cons.mpr ⟨?_, fun old present => ?_⟩
    · rw [search.rank_discover_self]
      exact Nat.lt_succ_self _
    · rw [rank_eq old present]
      exact Nat.lt_succ_of_lt (linked.rank_lt old present)
  case apart =>
    refine List.forall_mem_cons.mpr ⟨fun collected => ?_, linked.apart⟩
    exact fresh ((linked.found_iff node).mpr (.inr collected))
  case stacked =>
    refine List.forall_mem_cons.mpr ⟨List.mem_cons_self, fun old inside => ?_⟩
    exact List.mem_cons_of_mem _ (linked.stacked old inside)
  case nested =>
    refine List.pairwise_cons.mpr ⟨fun old inside => below old (linked.stacked old inside), ?_⟩
    refine linked.nested.imp_of_mem fun {inner outer} first second order => ?_
    rwa [rank_eq inner (linked.stacked inner first), rank_eq outer (linked.stacked outer second)]
  case follows =>
    intro source target pending
    rcases pending.of_cons with ⟨rfl, member⟩ | deeper
    · exact member
    · exact linked.follows source target deeper
  case reaches =>
    intro outer among old held order
    rcases List.mem_cons.mp among with rfl | inside
    · rcases List.mem_cons.mp held with rfl | present
      · exact .refl old
      · exact absurd (below old present) (Nat.not_lt.mpr order)
    · rcases List.mem_cons.mp held with rfl | present
      · exact reached outer inside
      · rw [rank_eq outer (linked.stacked outer inside), rank_eq old present] at order
        exact linked.reaches outer inside old present order
  case returns =>
    intro old held
    rcases List.mem_cons.mp held with rfl | present
    · exact ⟨old, List.mem_cons_self, Nat.le_refl _, .refl old⟩
    · obtain ⟨outer, inside, order, back⟩ := linked.returns old present
      refine ⟨outer, List.mem_cons_of_mem _ inside, ?_, back⟩
      rwa [rank_eq outer (linked.stacked outer inside), rank_eq old present]
  case low_le =>
    refine List.forall_mem_cons.mpr ⟨?_, fun old inside => ?_⟩
    · simp
    · rw [low_eq old inside, rank_eq old (linked.stacked old inside)]
      exact linked.low_le old inside
  case attained =>
    refine List.forall_mem_cons.mpr ⟨⟨node, List.mem_cons_self, ?_, .refl node⟩, ?_⟩
    · simp
    · intro old inside
      obtain ⟨target, present, same, reach⟩ := linked.attained old inside
      refine ⟨target, List.mem_cons_of_mem _ present, ?_, reach⟩
      rw [rank_eq target present, low_eq old inside, same]
  case looked =>
    intro source held target joined
    rcases List.mem_cons.mp held with rfl | above
    · exact .inl (.head joined)
    · rw [search.found_discover]
      rcases linked.looked source above target joined with pending | found
      · exact .inl pending.tail
      · exact .inr (.inr found)
  case bounded =>
    intro outer among source held within target lands joined
    rcases List.mem_cons.mp held with rfl | above
    · exact .inl (.head joined)
    · rcases List.mem_cons.mp among with rfl | inside
      · exact absurd (below source above) (Nat.not_lt.mpr within)
      rcases List.mem_cons.mp lands with rfl | member
      · -- the new node was not known, so every edge to it is still to be looked at
        exact .inl ((linked.looked source above target joined).resolve_right fresh).tail
      · have start := linked.stacked outer inside
        rw [rank_eq outer start, rank_eq source above] at within
        rcases linked.bounded outer inside source above within target member joined with
          pending | ⟨inner, between, deeper, bound⟩
        · exact .inl pending.tail
        · refine .inr ⟨inner, List.mem_cons_of_mem _ between, ?_, ?_⟩
          · rwa [rank_eq outer start, rank_eq inner (linked.stacked inner between)]
          · rwa [low_eq inner between, rank_eq target member]

/-- An open node whose successors have all been looked at may be left when its low link is another
number and bounds that of the innermost node that stays open. -/
theorem stay {node : Fin n} (linked : LowLinked graph search ((node, []) :: frames))
    (below : search.low.get node < search.rank node)
    (bound : ∀ outer ∈ opened frames, ∃ inner ∈ opened frames,
      search.rank outer ≤ search.rank inner ∧ search.low.get inner ≤ search.low.get node) :
    LowLinked graph search frames where
  __ := linked
  stacked := (List.forall_mem_cons.mp linked.stacked).2
  nested := (List.pairwise_cons.mp linked.nested).2
  follows source target pending := linked.follows source target pending.tail
  reaches := (List.forall_mem_cons.mp linked.reaches).2
  returns other present := by
    obtain ⟨outer, among, order, back⟩ := linked.returns other present
    rcases List.mem_cons.mp among with rfl | inside
    · -- the low link of the node that is left leads on to a node that stays open
      obtain ⟨target, member, same, reached⟩ := linked.attained outer List.mem_cons_self
      obtain ⟨further, within, less, home⟩ := linked.returns target member
      rcases List.mem_cons.mp within with rfl | inside
      · exact absurd less (by omega)
      · exact ⟨further, inside, by omega, back.trans (reached.trans home)⟩
    · exact ⟨outer, inside, order, back⟩
  low_le := (List.forall_mem_cons.mp linked.low_le).2
  attained := (List.forall_mem_cons.mp linked.attained).2
  looked source above target joined :=
    (linked.looked source above target joined).imp_left Pending.of_left
  bounded outer inside source above within target member joined := by
    rcases linked.bounded outer (List.mem_cons_of_mem _ inside) source above within target member
      joined with pending | ⟨inner, among, deeper, known⟩
    · exact .inl pending.of_left
    · rcases List.mem_cons.mp among with rfl | between
      · obtain ⟨inner, between, order, less⟩ := bound outer inside
        exact .inr ⟨inner, between, order, le_trans less known⟩
      · exact .inr ⟨inner, between, deeper, known⟩

/-- The nodes on the stack down to one that is left at its own number. -/
theorem mem_popped_iff {node : Fin n} (linked : LowLinked graph search ((node, []) :: frames))
    (other : Fin n) :
    (other ∈ (ComponentSearch.popThrough node search.stack).1 ↔
        other ∈ search.stack ∧ search.rank node ≤ search.rank other) ∧
      (other ∈ (ComponentSearch.popThrough node search.stack).2 ↔
        other ∈ search.stack ∧ search.rank other < search.rank node) :=
  ComponentSearch.mem_popThrough_iff linked.descending
    (linked.stacked node List.mem_cons_self) other

/-- A node that is left at its own number and the nodes above it reach each other. -/
theorem popped_connected {node : Fin n} (linked : LowLinked graph search ((node, []) :: frames))
    {source target : Fin n} (first : source ∈ (ComponentSearch.popThrough node search.stack).1)
    (second : target ∈ (ComponentSearch.popThrough node search.stack).1) :
    Reaches graph.Follows source target := by
  obtain ⟨start, -⟩ := (linked.mem_popped_iff source).1.mp first
  obtain ⟨stop, above⟩ := (linked.mem_popped_iff target).1.mp second
  have forth := linked.reaches node List.mem_cons_self target stop above
  obtain ⟨outer, among, -, back⟩ := linked.returns source start
  rcases List.mem_cons.mp among with rfl | inside
  · exact back.trans forth
  · have lower : search.rank outer < search.rank node :=
      (List.pairwise_cons.mp linked.nested).1 outer inside
    exact (back.trans (linked.reaches outer among node (linked.stacked node List.mem_cons_self)
      (Nat.le_of_lt lower))).trans forth

/-- From a node that is left at its own number, and from the nodes above it, all steps lead to them
or to known components. -/
theorem popped_closed {node : Fin n} (linked : LowLinked graph search ((node, []) :: frames))
    (own : search.low.get node = search.rank node) {source target : Fin n}
    (member : source ∈ (ComponentSearch.popThrough node search.stack).1)
    (joined : graph.Follows source target) :
    search.Collected target ∨ target ∈ (ComponentSearch.popThrough node search.stack).1 := by
  obtain ⟨start, above⟩ := (linked.mem_popped_iff source).1.mp member
  have deeper := (List.pairwise_cons.mp linked.nested).1
  have settled : ¬ Pending ((node, []) :: frames) source target := by
    intro pending
    exact absurd (deeper source pending.of_left.mem_opened) (Nat.not_lt.mpr above)
  have known := (linked.looked source start target joined).resolve_left settled
  rcases (linked.found_iff target).mp known with stop | collected
  · obtain ⟨inner, among, order, bound⟩ :=
      (linked.bounded node List.mem_cons_self source start above target stop joined).resolve_left
        settled
    rcases List.mem_cons.mp among with rfl | inside
    · rw [own] at bound
      exact .inr ((linked.mem_popped_iff target).1.mpr ⟨stop, bound⟩)
    · exact absurd (deeper inner inside) (Nat.not_lt.mpr order)
  · exact .inl collected

theorem layered_collect {node : Fin n} (linked : LowLinked graph search ((node, []) :: frames))
    (own : search.low.get node = search.rank node) :
    Layered graph.Follows (search.collect node).components.toList := by
  have order := linked.descending
  rw [← ComponentSearch.popThrough_append node search.stack] at order
  have distinct : (ComponentSearch.popThrough node search.stack).1.Nodup :=
    (List.pairwise_append.mp order).1.imp fun less same => by simp [same] at less
  have present : node ∈ (ComponentSearch.popThrough node search.stack).1 :=
    (linked.mem_popped_iff node).1.mpr ⟨linked.stacked node List.mem_cons_self, Nat.le_refl _⟩
  change Layered graph.Follows (search.components.push _).toList
  rw [Array.toList_push]
  have sorted : ((ComponentSearch.popThrough node search.stack).1.mergeSort (· ≤ ·)).SortedLE :=
    List.sortedLE_mergeSort
  refine linked.layered.concat ?_ (sorted.sortedLT_of_nodup distinct.mergeSort).pairwise ?_ ?_ ?_
  · exact List.ne_nil_of_mem (List.mem_mergeSort.mpr present)
  · intro other member
    rw [List.mem_mergeSort, linked.mem_popped_iff other |>.1] at member
    exact linked.apart other member.1
  · intro source first target second
    exact linked.popped_connected (List.mem_mergeSort.mp first) (List.mem_mergeSort.mp second)
  · intro source first target joined
    rw [List.mem_mergeSort]
    exact linked.popped_closed own (List.mem_mergeSort.mp first) joined

/-- A node that is left at its own number is collected with all that is above it. -/
theorem collect {node : Fin n} (linked : LowLinked graph search ((node, []) :: frames))
    (own : search.low.get node = search.rank node) :
    LowLinked graph (search.collect node) frames := by
  have deeper := (List.pairwise_cons.mp linked.nested).1
  have kept : ∀ other, other ∈ (search.collect node).stack ↔
      other ∈ search.stack ∧ search.rank other < search.rank node :=
    fun other => (linked.mem_popped_iff other).2
  have taken : ∀ other, (search.collect node).Collected other ↔ search.Collected other ∨
      other ∈ search.stack ∧ search.rank node ≤ search.rank other := by
    intro other
    rw [search.collected_collect, (linked.mem_popped_iff other).1]
  refine ⟨linked.layered_collect own, ?found_iff, ?onStack_iff, ?descending, ?rank_lt, ?apart,
    ?stacked, (List.pairwise_cons.mp linked.nested).2, ?follows, ?reaches, ?returns,
    (List.forall_mem_cons.mp linked.low_le).2, ?attained, ?looked, ?bounded⟩
  case found_iff =>
    intro other
    rw [kept, taken]
    refine (linked.found_iff other).trans ?_
    rcases Nat.lt_or_ge (search.rank other) (search.rank node) with less | more
    · simp [less, Nat.not_le.mpr less]
    · simp [more, Nat.not_lt.mpr more, or_comm]
  case onStack_iff =>
    intro other
    rw [search.onStack_collect, linked.onStack_iff, kept, (linked.mem_popped_iff other).1]
    grind
  case descending =>
    have order := linked.descending
    rw [← ComponentSearch.popThrough_append node search.stack] at order
    exact (List.pairwise_append.mp order).2.1
  case rank_lt => exact fun other present => linked.rank_lt other ((kept other).mp present).1
  case apart =>
    intro other present collected
    obtain ⟨above, less⟩ := (kept other).mp present
    rcases (taken other).mp collected with earlier | ⟨-, more⟩
    · exact linked.apart other above earlier
    · exact absurd less (Nat.not_lt.mpr more)
  case stacked =>
    intro other inside
    exact (kept other).mpr ⟨linked.stacked other (List.mem_cons_of_mem _ inside),
      deeper other inside⟩
  case follows => exact fun source target pending => linked.follows source target pending.tail
  case reaches =>
    intro outer inside other present order
    exact linked.reaches outer (List.mem_cons_of_mem _ inside) other ((kept other).mp present).1
      order
  case returns =>
    intro other present
    obtain ⟨above, less⟩ := (kept other).mp present
    obtain ⟨outer, among, order, back⟩ := linked.returns other above
    rcases List.mem_cons.mp among with rfl | inside
    · exact absurd less (Nat.not_lt.mpr order)
    · exact ⟨outer, inside, order, back⟩
  case attained =>
    intro other inside
    have low := linked.low_le other (List.mem_cons_of_mem _ inside)
    obtain ⟨target, present, same, reached⟩ :=
      linked.attained other (List.mem_cons_of_mem _ inside)
    refine ⟨target, (kept target).mpr ⟨present, ?_⟩, same, reached⟩
    have less : search.rank other < search.rank node := deeper other inside
    omega
  case looked =>
    intro source present target joined
    exact (linked.looked source ((kept source).mp present).1 target joined).imp_left Pending.of_left
  case bounded =>
    intro outer inside source above within target member joined
    obtain ⟨stop, less⟩ := (kept target).mp member
    rcases linked.bounded outer (List.mem_cons_of_mem _ inside) source ((kept source).mp above).1
      within target stop joined with pending | ⟨inner, among, order, bound⟩
    · exact .inl pending.of_left
    · rcases List.mem_cons.mp among with rfl | between
      · rw [own] at bound
        exact absurd less (Nat.not_lt.mpr bound)
      · exact .inr ⟨inner, between, order, bound⟩

end LowLinked

end ProgramGraphs
