import ProgramGraphs.Graph.Adjacency

/-! # Depth-first search

A search knows the nodes that it has seen and the nodes that it has finished, the latest first. It
keeps a stack of nodes with the successors still to be looked at; each step either looks at one more
successor or finishes a node, so it ends because only so many nodes are unseen. Finished nodes, the
latest first, are a reverse postorder.
-/

namespace ProgramGraphs

/-- The state of a depth-first search. -/
structure Search (n : Nat) where
  seen : Vector Bool n
  finished : List (Fin n)

namespace Search

variable {n : Nat}

/-- The search that has seen nothing. -/
def blank : Search n :=
  ⟨Vector.replicate n false, []⟩

/-- See a node. -/
def mark (search : Search n) (node : Fin n) : Search n :=
  { search with seen := search.seen.set node true node.isLt }

/-- Finish a node. -/
def finish (search : Search n) (node : Fin n) : Search n :=
  { search with finished := node :: search.finished }

/-- The number of nodes that have not been seen. -/
def unseen (search : Search n) : Nat :=
  search.seen.count false

@[simp] theorem unseen_finish (search : Search n) (node : Fin n) :
    (search.finish node).unseen = search.unseen := rfl

theorem unseen_mark (search : Search n) (node : Fin n) (fresh : search.seen.get node = false) :
    (search.mark node).unseen < search.unseen := by
  have present : 0 < search.seen.count false :=
    Vector.count_pos_iff.mpr (fresh ▸ Vector.getElem_mem node.isLt)
  have marked : (search.mark node).unseen = search.seen.count false - 1 := by
    change search.seen[node.val] = false at fresh
    simp [unseen, mark, Vector.count_set, fresh]
  rw [marked, unseen]
  omega

end Search

namespace Adjacency

variable {n : Nat}

/-- Continue a search from a stack of nodes, each with the successors still to be looked at. -/
def descend (graph : Adjacency n) (search : Search n) :
    List (Fin n × List (Fin n)) → Search n
  | [] => search
  | (node, []) :: stack => descend graph (search.finish node) stack
  | (node, next :: rest) :: stack =>
    if search.seen.get next then descend graph search ((node, rest) :: stack)
    else descend graph (search.mark next) ((next, graph.succs next) :: (node, rest) :: stack)
termination_by stack => (search.unseen, stack.length + (stack.flatMap (·.2)).length)
decreasing_by
  · simp only [Search.unseen_finish, List.length_cons, List.flatMap_cons, List.nil_append]
    exact Prod.Lex.right _ (by omega)
  · simp only [List.length_cons, List.flatMap_cons, List.length_append]
    exact Prod.Lex.right _ (by omega)
  · next fresh =>
    exact Prod.Lex.left _ _ (search.unseen_mark next (by simpa using fresh))

/-- Search everything that can be reached from a node, unless it has been seen. -/
def visit (graph : Adjacency n) (search : Search n) (node : Fin n) : Search n :=
  if search.seen.get node then search
  else graph.descend (search.mark node) [(node, graph.succs node)]

/-- The nodes that can be reached from a node, each before the nodes that led to it first. -/
def postorder (graph : Adjacency n) (node : Fin n) : List (Fin n) :=
  (graph.visit .blank node).finished.reverse

/-- The nodes that can be reached from a node, the node itself first. -/
def reversePostorder (graph : Adjacency n) (node : Fin n) : List (Fin n) :=
  (graph.visit .blank node).finished

end Adjacency

end ProgramGraphs
