import ProgramGraphs.Proofs.Graph.ParentTable

/-! # Filling a table of parents

A table of parents is filled by going over the nodes round after round. The new parent of a node is
found by searching for the common ancestor of a predecessor and of what has been found for those
before it, in the table as it is at that moment. All searches are written down, so a filling that
has come to an end tells which ones were made: in its last round one for every predecessor with an
entry but the first (`searched_of_mem_settle`).
-/

namespace ProgramGraphs

namespace ParentTable

variable {n : Nat}

/-- A search for a common ancestor: in which table, and of which nodes. -/
structure Query (n : Nat) where
  table : ParentTable n
  first : Fin n
  second : Fin n

/-- The new parent of a node as far as its predecessors have been looked at, and all searches that
were made. -/
structure Candidate (n : Nat) where
  parent? : Option (Fin n)
  queries : List (Query n)

/-- A table that is being filled, whether the round has changed it, and all searches that were
made. -/
structure Filling (n : Nat) where
  table : ParentTable n
  changed : Bool
  queries : List (Query n)

/-- A predecessor joins those before it. One without an entry is passed over. -/
def Candidate.join (missing : Fin n → Option (Fin n)) (rank : Vector Nat n)
    (table : ParentTable n) (candidate : Candidate n) (source : Fin n) : Part (Candidate n) :=
  if (table.get source).isSome then
    match candidate.parent? with
    | none => .some { candidate with parent? := some source }
    | some current => do
      let met ← table.intersect missing rank source current
      return ⟨some met, candidate.queries ++ [⟨table, source, current⟩]⟩
  else .some candidate

/-- Searches were made with each of some nodes, in a certain table. -/
def Searched (queries : List (Query n)) (table : ParentTable n) (sources : List (Fin n)) : Prop :=
  ∀ source ∈ sources, ∃ query ∈ queries, query.table = table ∧ query.first = source

theorem Searched.mono {queries more : List (Query n)} {table : ParentTable n}
    {sources : List (Fin n)} (searched : Searched queries table sources)
    (kept : queries ⊆ more) : Searched more table sources := fun source member => by
  obtain ⟨query, made, here⟩ := searched source member
  exact ⟨query, kept made, here⟩

/-- The nodes of a list that have an entry. -/
def entered (table : ParentTable n) (sources : List (Fin n)) : List (Fin n) :=
  sources.filter fun source => (table.get source).isSome

namespace Candidate

variable {missing : Fin n → Option (Fin n)} {rank : Vector Nat n} {table : ParentTable n}
variable {candidate next : Candidate n} {source : Fin n}

/-- A predecessor is passed over, is the first one, or is searched with. -/
theorem join_cases (joins : next ∈ candidate.join missing rank table source) :
    ¬ (table.get source).isSome ∧ next = candidate ∨
      (table.get source).isSome ∧ candidate.parent? = none ∧
        next = { candidate with parent? := some source } ∨
      (table.get source).isSome ∧ ∃ current met, candidate.parent? = some current ∧
        next = ⟨some met, candidate.queries ++ [⟨table, source, current⟩]⟩ := by
  unfold join at joins
  split at joins
  · next has =>
    split at joins
    · next first => exact .inr (.inl ⟨has, first, Part.mem_some_iff.mp joins⟩)
    · next current given =>
      obtain ⟨met, -, ends⟩ := Part.mem_bind_iff.mp joins
      exact .inr (.inr ⟨has, current, met, given, Part.mem_some_iff.mp ends⟩)
  · next lacks => exact .inl ⟨lacks, Part.mem_some_iff.mp joins⟩

/-- Every predecessor with an entry is searched with, but for the first of all. -/
theorem searched_of_mem_foldlM_join (sources : List (Fin n))
    (joins : next ∈ sources.foldlM (join missing rank table) candidate) :
    candidate.queries ⊆ next.queries ∧
      Searched next.queries table (if candidate.parent?.isSome then table.entered sources
        else (table.entered sources).tail) := by
  induction sources generalizing candidate with
  | nil =>
    obtain rfl := Part.mem_some_iff.mp joins
    exact ⟨List.Subset.refl _, by simp [Searched, entered]⟩
  | cons source rest ih =>
    rw [List.foldlM_cons] at joins
    obtain ⟨between, joined, joins⟩ := Part.mem_bind_iff.mp joins
    obtain ⟨kept, searched⟩ := ih joins
    obtain ⟨lacks, rfl⟩ | ⟨has, first, rfl⟩ | ⟨has, current, met, given, rfl⟩ := join_cases joined
    · have passed : table.entered (source :: rest) = table.entered rest :=
        List.filter_cons_of_neg lacks
      rw [passed]
      exact ⟨kept, searched⟩
    · have listed : table.entered (source :: rest) = source :: table.entered rest :=
        List.filter_cons_of_pos has
      rw [listed, first]
      exact ⟨kept, searched⟩
    · have listed : table.entered (source :: rest) = source :: table.entered rest :=
        List.filter_cons_of_pos has
      rw [listed, given]
      refine ⟨fun query made => kept (List.mem_append_left _ made), ?_⟩
      have made := kept (List.mem_append_right candidate.queries (List.mem_singleton.mpr rfl))
      exact List.forall_mem_cons.mpr ⟨⟨_, made, rfl, rfl⟩, searched⟩

end Candidate

namespace Filling

variable {missing : Fin n → Option (Fin n)} {graph : Adjacency n} {rank : Vector Nat n}
variable {order : List (Fin n)} {filling next : Filling n} {candidate : Candidate n}
variable {node parent : Fin n}

/-- At the start only the root has an entry. -/
def start (root : Fin n) : Filling n :=
  ⟨(Vector.replicate n none).set root (some root) root.isLt, false, []⟩

/-- Enter the new parent of a node, if there is one and it is another one than before. -/
def improve (missing : Fin n → Option (Fin n)) (graph : Adjacency n) (rank : Vector Nat n)
    (filling : Filling n) (node : Fin n) : Part (Filling n) := do
  let candidate ← (graph.preds node).foldlM (Candidate.join missing rank filling.table)
    ⟨none, filling.queries⟩
  if candidate.parent?.isSome ∧ filling.table.get node ≠ candidate.parent? then
    return ⟨filling.table.set node candidate.parent? node.isLt, true, candidate.queries⟩
  else return { filling with queries := candidate.queries }

theorem mem_improve_of_eq (joins : candidate ∈
      (graph.preds node).foldlM (Candidate.join missing rank filling.table) ⟨none, filling.queries⟩)
    (same : filling.table.get node = candidate.parent?) :
    { filling with queries := candidate.queries } ∈ improve missing graph rank filling node := by
  refine Part.mem_bind joins ?_
  rw [if_neg fun change => change.2 same]
  exact Part.mem_some _

theorem mem_improve_of_ne (joins : candidate ∈
      (graph.preds node).foldlM (Candidate.join missing rank filling.table) ⟨none, filling.queries⟩)
    (found : candidate.parent? = some parent) (other : filling.table.get node ≠ some parent) :
    ⟨filling.table.set node (some parent) node.isLt, true, candidate.queries⟩ ∈
      improve missing graph rank filling node := by
  refine Part.mem_bind joins ?_
  rw [found, if_pos ⟨rfl, other⟩]
  exact Part.mem_some _

/-- Go over nodes in a given order. -/
def round (missing : Fin n → Option (Fin n)) (graph : Adjacency n) (rank : Vector Nat n)
    (order : List (Fin n)) (filling : Filling n) : Part (Filling n) :=
  order.foldlM (improve missing graph rank) { filling with changed := false }

/-- One round, which is the last if it changes nothing. -/
def settleStep (missing : Fin n → Option (Fin n)) (graph : Adjacency n) (rank : Vector Nat n)
    (order : List (Fin n)) : Filling n →. Filling n ⊕ Filling n := fun filling => do
  let next ← round missing graph rank order filling
  return if next.changed then .inr next else .inl next

/-- Go over nodes round after round, until a round changes nothing. -/
def settle (missing : Fin n → Option (Fin n)) (graph : Adjacency n) (rank : Vector Nat n)
    (order : List (Fin n)) : Filling n →. Filling n :=
  PFun.fix (settleStep missing graph rank order)

theorem mem_settle_of_unchanged (rounds : next ∈ round missing graph rank order filling)
    (still : ¬ next.changed = true) : next ∈ settle missing graph rank order filling := by
  refine PFun.fix_stop (Part.mem_bind rounds ?_)
  rw [if_neg still]
  exact Part.mem_some _

theorem settle_of_changed (rounds : next ∈ round missing graph rank order filling)
    (changed : next.changed = true) :
    settle missing graph rank order filling = settle missing graph rank order next := by
  refine PFun.fix_fwd_eq (Part.mem_bind rounds ?_)
  rw [if_pos changed]
  exact Part.mem_some _

/-- The searches at a node come after those made before. Where nothing changes, the table stays as
it is. -/
theorem searched_of_mem_improve (improves : next ∈ improve missing graph rank filling node) :
    filling.queries ⊆ next.queries ∧
      Searched next.queries filling.table (filling.table.entered (graph.preds node)).tail ∧
        (next.changed = false → filling.changed = false ∧ next.table = filling.table) := by
  obtain ⟨candidate, joins, ends⟩ := Part.mem_bind_iff.mp improves
  obtain ⟨kept, searched⟩ := Candidate.searched_of_mem_foldlM_join _ joins
  split at ends
  · obtain rfl := Part.mem_some_iff.mp ends
    exact ⟨kept, searched, nofun⟩
  · obtain rfl := Part.mem_some_iff.mp ends
    exact ⟨kept, searched, fun still => ⟨still, rfl⟩⟩

/-- Nodes at which nothing changes are all looked at in the same table. -/
theorem searched_of_mem_foldlM_improve (todo : List (Fin n))
    (improves : next ∈ todo.foldlM (improve missing graph rank) filling)
    (still : next.changed = false) :
    filling.changed = false ∧ next.table = filling.table ∧ filling.queries ⊆ next.queries ∧
      ∀ node ∈ todo,
        Searched next.queries next.table (next.table.entered (graph.preds node)).tail := by
  induction todo generalizing filling with
  | nil =>
    obtain rfl := Part.mem_some_iff.mp improves
    exact ⟨still, rfl, List.Subset.refl _, nofun⟩
  | cons node rest ih =>
    rw [List.foldlM_cons] at improves
    obtain ⟨between, improved, improves⟩ := Part.mem_bind_iff.mp improves
    obtain ⟨stillBetween, same, kept, others⟩ := ih improves
    obtain ⟨keptBetween, searched, keeps⟩ := searched_of_mem_improve improved
    obtain ⟨stillBefore, sameBefore⟩ := keeps stillBetween
    have unchanged := same.trans sameBefore
    refine ⟨stillBefore, unchanged, fun query made => kept (keptBetween made), ?_⟩
    rw [← unchanged] at searched
    exact List.forall_mem_cons.mpr ⟨searched.mono kept, others⟩

/-- A filling ends with a round that changes nothing. -/
theorem exists_last_round (settles : next ∈ settle missing graph rank order filling) :
    ∃ before, next ∈ round missing graph rank order before ∧ next.changed = false := by
  refine PFun.fixInduction' settles ?_ fun _ _ _ _ ends => ends
  intro before stops
  obtain ⟨last, rounds, ends⟩ := Part.mem_bind_iff.mp stops
  have ends := Part.mem_some_iff.mp ends
  split at ends
  · cases ends
  · next still =>
    cases ends
    exact ⟨before, rounds, Bool.eq_false_iff.mpr still⟩

/-- By the end of a filling, a search was made in the filled table for every predecessor with an
entry but the first. -/
theorem searched_of_mem_settle (settles : next ∈ settle missing graph rank order filling) :
    ∀ node ∈ order,
      Searched next.queries next.table (next.table.entered (graph.preds node)).tail := by
  obtain ⟨before, rounds, still⟩ := exists_last_round settles
  exact (searched_of_mem_foldlM_improve order rounds still).2.2.2

end Filling

end ParentTable

/-- Fill the table of the parents of a graph from a root. The entry of the root is taken out in the
end. -/
def Adjacency.fillParents {n : Nat} (missing : Fin n → Option (Fin n)) (graph : Adjacency n)
    (root : Fin n) : Part (ParentTable.Filling n) := do
  let order := graph.reversePostorder root
  let filling ← ParentTable.Filling.settle missing graph (rankIn order) order.tail (.start root)
  return { filling with table := filling.table.set root none root.isLt }

/-- The adjacency of a graph, or of the graph with every edge reversed. -/
def Digraph.oriented {ν ε : Type} (graph : Digraph ν ε) (reversed : Bool) : Adjacency graph.size :=
  if reversed then graph.adjacency.reversed else graph.adjacency

/-- Fill the table of the parents of a graph, or of the graph with every edge reversed, from a
node. Nothing is entered for a node that the graph lacks. -/
def Digraph.fillParents {ν ε : Type} (graph : Digraph ν ε)
    (missing : Fin graph.size → Option (Fin graph.size)) (reversed : Bool) (root : Nat) :
    Part (ParentTable.Filling graph.size) :=
  match graph.index? root with
  | some node => (graph.oriented reversed).fillParents missing node
  | none => .some ⟨Vector.replicate _ none, false, []⟩

end ProgramGraphs
