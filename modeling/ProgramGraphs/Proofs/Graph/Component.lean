import ProgramGraphs.Proofs.Graph.LowLink

/-! # The components of a graph

Looking at a node opens it or lowers a low link, and leaving a node passes its low link on to the
innermost node that stays open: each step keeps what `LowLinked` says. A search that is started from
every node in order leaves no node open, so all that it has found is collected, and in the end
everything has been found.
-/

namespace ProgramGraphs

variable {n : Nat}

namespace LowLinked

variable {graph : Adjacency n} {search : ComponentSearch n} {frames : List (Fin n × List (Fin n))}

/-- A node is closed, with a component or without, when the innermost node that stays open has
taken over its low link. -/
theorem close {node : Fin n} (linked : LowLinked graph search ((node, []) :: frames))
    (bound : ∀ outer ∈ opened frames, ∃ inner ∈ opened frames,
      search.rank outer ≤ search.rank inner ∧ search.low.get inner ≤ search.low.get node) :
    LowLinked graph (search.close node) frames := by
  have number := search.number_eq_of_found (linked.found (linked.stacked node List.mem_cons_self))
  change search.number.get node = some (search.rank node) at number
  have below : search.low.get node ≤ search.rank node := linked.low_le node List.mem_cons_self
  rw [ComponentSearch.close, number]
  by_cases own : search.low.get node = search.rank node
  · rw [if_pos (congrArg some own)]
    exact linked.collect own
  · rw [if_neg fun same => own (Option.some.inj same)]
    exact linked.stay (Nat.lt_of_le_of_ne below own) bound

/-- Leaving a node passes its low link on and collects its component if it is the first there. -/
theorem leave {node : Fin n} (linked : LowLinked graph search ((node, []) :: frames)) :
    LowLinked graph (search.leave node frames) frames := by
  cases frames with
  | nil => exact linked.close (List.forall_mem_nil _)
  | cons frame frames =>
    obtain ⟨outer, rest⟩ := frame
    have inside : outer ∈ opened ((node, []) :: (outer, rest) :: frames) := by simp
    have deeper : search.rank outer < search.rank node :=
      (List.pairwise_cons.mp linked.nested).1 outer List.mem_cons_self
    obtain ⟨target, member, same, reached⟩ := linked.attained node List.mem_cons_self
    have onward := linked.reaches outer inside node (linked.stacked node List.mem_cons_self)
      (Nat.le_of_lt deeper)
    have lowered := linked.lower inside member (onward.trans reached)
    change search.rank target = search.low.get node at same
    rw [same] at lowered
    refine lowered.close fun further among => ⟨outer, List.mem_cons_self, ?_, ?_⟩
    · rcases List.mem_cons.mp among with rfl | beyond
      · exact Nat.le_refl _
      · have nested := (List.pairwise_cons.mp linked.nested).2
        exact Nat.le_of_lt ((List.pairwise_cons.mp nested).1 further beyond)
    · have distinct : node ≠ outer := fun equal => by simp [equal] at deeper
      rw [search.low_lower_self, search.low_lower_of_ne _ distinct]
      exact Nat.min_le_right _ _

/-- Looking at a node that has been found lowers the low link if the node is still on the stack. -/
theorem sight {node next : Fin n} {rest : List (Fin n)} {number : Nat}
    (linked : LowLinked graph search ((node, next :: rest) :: frames))
    (numbered : search.number.get next = some number) :
    LowLinked graph (search.sight node next number) ((node, rest) :: frames) := by
  have known : search.Found next := by simp [ComponentSearch.Found, numbered]
  have rank_eq : search.rank next = number := by simp [ComponentSearch.rank, numbered]
  have joined : graph.Follows node next := linked.follows node next (.head List.mem_cons_self)
  rw [ComponentSearch.sight]
  by_cases marked : search.onStack.get next = true
  · rw [if_pos marked, ← rank_eq]
    have lowered := linked.lower List.mem_cons_self ((linked.onStack_iff next).mp marked)
      (.single joined)
    refine lowered.settle rfl (fun source target pending => pending.to_look) ?_
    intro source target pending
    refine pending.of_look.imp_right ?_
    rintro ⟨rfl, rfl⟩
    refine ⟨known, fun _ => ⟨source, List.mem_cons_self, Nat.le_refl _, ?_⟩⟩
    rw [search.low_lower_self]
    exact Nat.min_le_right _ _
  · rw [if_neg marked]
    refine linked.settle rfl (fun source target pending => pending.to_look) ?_
    intro source target pending
    refine pending.of_look.imp_right ?_
    rintro ⟨rfl, rfl⟩
    exact ⟨known, fun present => absurd ((linked.onStack_iff target).mpr present) marked⟩

/-- Looking at a new node opens it. -/
theorem enter {node next : Fin n} {rest : List (Fin n)}
    (linked : LowLinked graph search ((node, next :: rest) :: frames))
    (fresh : search.number.get next = none) :
    LowLinked graph (search.discover next)
      ((next, graph.succs next) :: (node, rest) :: frames) := by
  have unknown : ¬ search.Found next := not_not_intro fresh
  have start := linked.stacked node List.mem_cons_self
  have distinct : node ≠ next := by
    rintro rfl
    exact unknown (linked.found start)
  have joined : graph.Follows node next := linked.follows node next (.head List.mem_cons_self)
  have reached : ∀ outer ∈ opened ((node, next :: rest) :: frames),
      Reaches graph.Follows outer next := by
    intro outer among
    have order : search.rank outer ≤ search.rank node := by
      rcases List.mem_cons.mp among with rfl | inside
      · exact Nat.le_refl _
      · exact Nat.le_of_lt ((List.pairwise_cons.mp linked.nested).1 outer inside)
    exact (linked.reaches outer among node start order).trans (.single joined)
  refine (linked.discover unknown reached).settle rfl ?_ ?_
  · intro source target pending
    rcases pending.of_cons with ⟨rfl, member⟩ | deeper
    · exact .head member
    · exact deeper.to_look.tail
  · intro source target pending
    rcases pending.of_cons with ⟨rfl, member⟩ | deeper
    · exact .inl (.head member)
    · refine deeper.of_look.imp Pending.tail ?_
      rintro ⟨rfl, rfl⟩
      refine ⟨by simp, fun _ => ⟨source, by simp, Nat.le_refl _, ?_⟩⟩
      rw [search.low_discover_of_ne distinct, search.rank_discover_self]
      exact le_trans (linked.low_le source List.mem_cons_self)
        (Nat.le_of_lt (linked.rank_lt source start))

/-- A search from open nodes comes to its end with all of them closed. -/
theorem connect (linked : LowLinked graph search frames) :
    LowLinked graph (graph.connect search frames) [] := by
  fun_induction graph.connect search frames with
  | case1 search => exact linked
  | case2 search node frames ih => exact ih linked.leave
  | case3 search node next rest frames fresh _ ih => exact ih (linked.enter fresh)
  | case4 search node next rest frames number numbered ih => exact ih (linked.sight numbered)

/-- A search from a node that has not been found may be started when no node is open. -/
theorem connectFrom (linked : LowLinked graph search []) (node : Fin n) :
    LowLinked graph (graph.connectFrom search node) [] := by
  rw [Adjacency.connectFrom]
  by_cases fresh : (search.number.get node).isNone = true
  · rw [if_pos fresh]
    have unknown : ¬ search.Found node := not_not_intro (Option.isNone_iff_eq_none.mp fresh)
    exact (linked.discover unknown (List.forall_mem_nil _)).connect
  · rw [if_neg fresh]
    exact linked

theorem foldl_connectFrom (linked : LowLinked graph search []) (nodes : List (Fin n)) :
    LowLinked graph (nodes.foldl graph.connectFrom search) [] := by
  induction nodes generalizing search with
  | nil => exact linked
  | cons node rest ih => exact ih (linked.connectFrom node)

end LowLinked

namespace Adjacency

variable {graph : Adjacency n} {search : ComponentSearch n} {node : Fin n}

/-- What has been found stays found. -/
theorem found_connect (frames : List (Fin n × List (Fin n))) (found : search.Found node) :
    (graph.connect search frames).Found node := by
  fun_induction graph.connect search frames with
  | case1 search => exact found
  | case2 search left frames ih =>
    exact ih (by rwa [ComponentSearch.Found, ComponentSearch.number_leave])
  | case3 search left next rest frames fresh _ ih =>
    exact ih ((search.found_discover next node).mpr (.inr found))
  | case4 search left next rest frames number numbered ih =>
    exact ih (by rwa [ComponentSearch.Found, ComponentSearch.number_sight])

theorem found_connectFrom (graph : Adjacency n) (search : ComponentSearch n) (root : Fin n)
    (found : node = root ∨ search.Found node) : (graph.connectFrom search root).Found node := by
  rw [connectFrom]
  by_cases fresh : (search.number.get root).isNone = true
  · rw [if_pos fresh]
    exact found_connect _ ((search.found_discover root node).mpr found)
  · rw [if_neg fresh]
    rcases found with rfl | found
    · exact fun unknown => fresh (Option.isNone_iff_eq_none.mpr unknown)
    · exact found

theorem found_foldl_connectFrom (graph : Adjacency n) (search : ComponentSearch n)
    (nodes : List (Fin n)) (found : node ∈ nodes ∨ search.Found node) :
    (nodes.foldl graph.connectFrom search).Found node := by
  induction nodes generalizing search with
  | nil => exact found.resolve_left List.not_mem_nil
  | cons root rest ih =>
    refine ih (graph.connectFrom search root) ?_
    rcases found with member | found
    · rcases List.mem_cons.mp member with same | later
      · exact .inr (found_connectFrom graph search root (.inl same))
      · exact .inl later
    · exact .inr (found_connectFrom graph search root (.inr found))

/-- The components of a graph are its condensation. -/
theorem components_condensation (graph : Adjacency n) :
    Condensation graph.Follows graph.components := by
  have linked := (LowLinked.blank graph).foldl_connectFrom (List.finRange n)
  refine linked.layered.condensation fun node => ?_
  have found := found_foldl_connectFrom graph .blank (List.finRange n)
    (.inl (List.mem_finRange node))
  rcases (linked.found_iff node).mp found with present | collected
  · rw [linked.stack_eq_nil] at present
    exact absurd present List.not_mem_nil
  · exact collected

end Adjacency

/-- The components of a multigraph are its condensation: they partition the nodes into the classes
of mutual reachability, and no edge leads to a later one. -/
theorem Digraph.components_condense {ν ε : Type} (graph : Digraph ν ε) :
    Condensation (graph.Joins false) graph.adjacency.components := by
  rw [← graph.adjacency_follows]
  exact graph.adjacency.components_condensation

end ProgramGraphs
