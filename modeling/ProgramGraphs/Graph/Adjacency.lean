/-! # Adjacency

The algorithms on graphs see the nodes `0, …, n - 1` and, for each, its successors and predecessors
in a fixed order. The two views agree on which nodes are joined, so reversing every edge only swaps
them.
-/

namespace ProgramGraphs

/-- The neighbours of every node, edge by edge. -/
structure Adjacency (n : Nat) where
  succs : Fin n → List (Fin n)
  preds : Fin n → List (Fin n)
  mem_preds_iff : ∀ source target, source ∈ preds target ↔ target ∈ succs source

namespace Adjacency

variable {n : Nat}

/-- The same nodes with every edge reversed. -/
def reversed (graph : Adjacency n) : Adjacency n where
  succs := graph.preds
  preds := graph.succs
  mem_preds_iff source target := (graph.mem_preds_iff target source).symm

@[simp] theorem reversed_succs (graph : Adjacency n) : graph.reversed.succs = graph.preds := rfl

@[simp] theorem reversed_preds (graph : Adjacency n) : graph.reversed.preds = graph.succs := rfl

@[simp] theorem reversed_reversed (graph : Adjacency n) : graph.reversed.reversed = graph := rfl

end Adjacency

end ProgramGraphs
