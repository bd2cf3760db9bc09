import Mathlib.Tactic.Common
import ProgramGraphs.Graph.Basic

/-! # Walks and dominance

A walk is a finite run along the steps of a relation together with the nodes that it visits, both
ends included. Reachability, dominance and strict dominance are said in terms of walks alone, so
they mention no search and no tree. The steps of a multigraph are its edges, taken forwards or
backwards.
-/

namespace ProgramGraphs

variable {α : Type} {step : α → α → Prop}

/-- A run along the steps of a relation: its first node, all nodes that it visits, its last node. -/
inductive Walk (step : α → α → Prop) : α → List α → α → Prop
  | stay (node : α) : Walk step node [node] node
  | onward {source next target : α} {visited : List α} :
      step source next → Walk step next visited target →
        Walk step source (source :: visited) target

namespace Walk

theorem source_mem {source target : α} {visited : List α}
    (walk : Walk step source visited target) : source ∈ visited := by
  cases walk with
  | stay => exact List.mem_cons_self
  | onward => exact List.mem_cons_self

/-- A walk can be continued by one step. -/
theorem concat {source target last : α} {visited : List α}
    (walk : Walk step source visited target) (joined : step target last) :
    Walk step source (visited ++ [last]) last := by
  induction walk with
  | stay node => exact .onward joined (.stay last)
  | onward first _ ih => exact .onward first (ih joined)

/-- Walks compose at their shared end. -/
theorem append {source middle target : α} {first second : List α}
    (left : Walk step source first middle) (right : Walk step middle second target) :
    ∃ visited, Walk step source visited target := by
  induction left with
  | stay node => exact ⟨second, right⟩
  | onward joined _ ih =>
    obtain ⟨visited, rest⟩ := ih right
    exact ⟨_, .onward joined rest⟩

/-- A walk can be gone backwards, against every step. -/
theorem reverse {source target : α} {visited : List α} (walk : Walk step source visited target) :
    Walk (fun first second => step second first) target visited.reverse source := by
  induction walk with
  | stay node => exact .stay node
  | onward joined _ ih =>
    rw [List.reverse_cons]
    exact ih.concat joined

end Walk

/-- Some walk leads from a node to another. -/
def Reaches (step : α → α → Prop) (source target : α) : Prop :=
  ∃ visited, Walk step source visited target

namespace Reaches

theorem refl (node : α) : Reaches step node node :=
  ⟨[node], .stay node⟩

theorem single {source target : α} (joined : step source target) : Reaches step source target :=
  ⟨[source, target], .onward joined (.stay target)⟩

theorem trans {source middle target : α} (first : Reaches step source middle)
    (second : Reaches step middle target) : Reaches step source target := by
  obtain ⟨_, left⟩ := first
  obtain ⟨_, right⟩ := second
  exact left.append right

/-- A set of nodes that is closed under steps contains all that its members reach. -/
theorem mem_of_closed {source target : α} (reached : Reaches step source target)
    (inside : α → Prop) (start : inside source)
    (closed : ∀ node next, inside node → step node next → inside next) : inside target := by
  obtain ⟨visited, walk⟩ := reached
  induction walk with
  | stay node => exact start
  | onward joined _ ih => exact ih (closed _ _ start joined)

/-- Walking against every step turns reachability around. -/
theorem reverse {source target : α} (reached : Reaches step source target) :
    Reaches (fun first second => step second first) target source := by
  obtain ⟨visited, walk⟩ := reached
  exact ⟨_, walk.reverse⟩

end Reaches

/-- Every walk from the root to a node passes through another. -/
def Dominates (step : α → α → Prop) (root a b : α) : Prop :=
  ∀ visited, Walk step root visited b → a ∈ visited

/-- A node dominates another node. -/
def StrictlyDominates (step : α → α → Prop) (root a b : α) : Prop :=
  Dominates step root a b ∧ a ≠ b

namespace Dominates

/-- Only the root dominates the root. -/
theorem eq_root {root a : α} (dominates : Dominates step root a root) : a = root :=
  List.mem_singleton.mp (dominates [root] (.stay root))

/-- What dominates the end of a step, and is not that end, dominates its start. -/
theorem of_step {root a source target : α} (dominates : Dominates step root a target)
    (joined : step source target) (other : a ≠ target) : Dominates step root a source := by
  intro visited walk
  have member := dominates _ (walk.concat joined)
  rcases List.mem_append.mp member with member | member
  · exact member
  · exact absurd (List.mem_singleton.mp member) other

end Dominates

/-- Two nodes that reach each other. -/
def Connected (step : α → α → Prop) (a b : α) : Prop :=
  Reaches step a b ∧ Reaches step b a

namespace Connected

theorem refl (node : α) : Connected step node node :=
  ⟨.refl node, .refl node⟩

theorem symm {a b : α} (connected : Connected step a b) : Connected step b a :=
  ⟨connected.2, connected.1⟩

theorem trans {a b c : α} (first : Connected step a b) (second : Connected step b c) :
    Connected step a c :=
  ⟨first.1.trans second.1, second.2.trans first.2⟩

end Connected

/-- An adjacency leads from each node to its successors. -/
def Adjacency.Follows {n : Nat} (graph : Adjacency n) (source target : Fin n) : Prop :=
  target ∈ graph.succs source

/-- An edge of a multigraph leads from a node to another, taken backwards if need be. -/
def Digraph.Joins {ν ε : Type} (graph : Digraph ν ε) (reversed : Bool)
    (source target : Fin graph.size) : Prop :=
  ∃ edge ∈ graph.edges.toList,
    if reversed then edge.source = target.val ∧ edge.target = source.val
    else edge.source = source.val ∧ edge.target = target.val

theorem Digraph.adjacency_follows {ν ε : Type} (graph : Digraph ν ε) :
    graph.adjacency.Follows = graph.Joins false := by
  funext source target
  exact propext (graph.mem_successors_iff source target)

theorem Digraph.reversed_adjacency_follows {ν ε : Type} (graph : Digraph ν ε) :
    graph.adjacency.reversed.Follows = graph.Joins true := by
  funext source target
  exact propext (graph.mem_predecessors_iff target source)

end ProgramGraphs
