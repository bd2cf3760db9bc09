import ProgramGraphs.Graph.Adjacency

/-! # Strongly connected components

One depth-first search numbers the nodes as it finds them and puts them on a stack, where they stay
until their component is known. The low link of an open node is the number of some node on the
stack that it reaches; it starts at the number of the node itself and is lowered by what is seen
below. A node that is left at its own number is the first of its component, which is then all that
is on the stack from the top down to it. So a component is collected after all that it leads to.
-/

namespace ProgramGraphs

/-- The state of a search for components. -/
structure ComponentSearch (n : Nat) where
  next : Nat
  number : Vector (Option Nat) n
  low : Vector Nat n
  onStack : Vector Bool n
  stack : List (Fin n)
  components : Array (List (Fin n))

namespace ComponentSearch

variable {n : Nat}

/-- The search that has found nothing. -/
def blank : ComponentSearch n where
  next := 0
  number := .replicate n none
  low := .replicate n 0
  onStack := .replicate n false
  stack := []
  components := #[]

/-- Give a node the next number and put it on the stack. -/
def discover (search : ComponentSearch n) (node : Fin n) : ComponentSearch n where
  next := search.next + 1
  number := search.number.set node (some search.next) node.isLt
  low := search.low.set node search.next node.isLt
  onStack := search.onStack.set node true node.isLt
  stack := node :: search.stack
  components := search.components

/-- Bound the low link of a node. -/
def lower (search : ComponentSearch n) (node : Fin n) (bound : Nat) : ComponentSearch n :=
  { search with low := search.low.set node (min (search.low.get node) bound) node.isLt }

/-- Bound the low link of a node by the number of a successor that is still on the stack. -/
def sight (search : ComponentSearch n) (node next : Fin n) (number : Nat) : ComponentSearch n :=
  if search.onStack.get next then search.lower node number else search

/-- Pop a stack until a node has been popped: what was popped, and what is left. -/
def popThrough (node : Fin n) : List (Fin n) → List (Fin n) × List (Fin n)
  | [] => ([], [])
  | top :: rest =>
    if top = node then ([top], rest)
    else ((top :: (popThrough node rest).1), (popThrough node rest).2)

/-- Take a component off the stack, down to its first node. -/
def collect (search : ComponentSearch n) (node : Fin n) : ComponentSearch n :=
  let popped := popThrough node search.stack
  { search with
    onStack := popped.1.foldl
      (fun onStack (top : Fin n) => onStack.set top false top.isLt) search.onStack
    stack := popped.2
    components := search.components.push (popped.1.mergeSort (· ≤ ·)) }

/-- Bound the low link of the innermost open node. -/
def lowerInnermost (search : ComponentSearch n) (bound : Nat) :
    List (Fin n × List (Fin n)) → ComponentSearch n
  | [] => search
  | (node, _) :: _ => search.lower node bound

/-- Take a component off the stack if the low link of a node is still its own number. -/
def close (search : ComponentSearch n) (node : Fin n) : ComponentSearch n :=
  if some (search.low.get node) = search.number.get node then search.collect node else search

/-- Leave a node whose successors have all been looked at. -/
def leave (search : ComponentSearch n) (node : Fin n) (frames : List (Fin n × List (Fin n))) :
    ComponentSearch n :=
  (search.lowerInnermost (search.low.get node) frames).close node

/-- The number of nodes that have not been found. -/
def unnumbered (search : ComponentSearch n) : Nat :=
  search.number.count none

theorem unnumbered_discover (search : ComponentSearch n) (node : Fin n)
    (fresh : search.number.get node = none) :
    (search.discover node).unnumbered < search.unnumbered := by
  have present : 0 < search.number.count none :=
    Vector.count_pos_iff.mpr (fresh ▸ Vector.getElem_mem node.isLt)
  have numbered : (search.discover node).unnumbered = search.number.count none - 1 := by
    change search.number[node.val] = none at fresh
    simp [unnumbered, discover, Vector.count_set, fresh]
  rw [numbered, unnumbered]
  omega

@[simp] theorem number_sight (search : ComponentSearch n) (node next : Fin n) (number : Nat) :
    (search.sight node next number).number = search.number := by
  rw [sight]
  split <;> rfl

@[simp] theorem number_lowerInnermost (search : ComponentSearch n) (bound : Nat)
    (frames : List (Fin n × List (Fin n))) :
    (search.lowerInnermost bound frames).number = search.number := by
  cases frames <;> rfl

@[simp] theorem number_close (search : ComponentSearch n) (node : Fin n) :
    (search.close node).number = search.number := by
  rw [close]
  split <;> rfl

@[simp] theorem number_leave (search : ComponentSearch n) (node : Fin n)
    (frames : List (Fin n × List (Fin n))) : (search.leave node frames).number = search.number := by
  simp [leave]

end ComponentSearch

namespace Adjacency

variable {n : Nat}

/-- Continue a search for components from the open nodes, the innermost first, each with the
successors still to be looked at. -/
def connect (graph : Adjacency n) (search : ComponentSearch n) :
    List (Fin n × List (Fin n)) → ComponentSearch n
  | [] => search
  | (node, []) :: frames => connect graph (search.leave node frames) frames
  | (node, next :: rest) :: frames =>
    match fresh : search.number.get next with
    | none =>
      have := search.unnumbered_discover next fresh
      connect graph (search.discover next) ((next, graph.succs next) :: (node, rest) :: frames)
    | some number => connect graph (search.sight node next number) ((node, rest) :: frames)
termination_by frames => (search.unnumbered, frames.length + (frames.flatMap (·.2)).length)
decreasing_by
  · simp only [ComponentSearch.unnumbered, ComponentSearch.number_leave, List.length_cons,
      List.flatMap_cons, List.nil_append]
    exact Prod.Lex.right _ (by omega)
  · exact Prod.Lex.left _ _ this
  · simp only [ComponentSearch.unnumbered, ComponentSearch.number_sight, List.length_cons,
      List.flatMap_cons, List.length_append]
    exact Prod.Lex.right _ (by omega)

/-- Find the components of all that a node reaches, unless the node has been found. -/
def connectFrom (graph : Adjacency n) (search : ComponentSearch n) (node : Fin n) :
    ComponentSearch n :=
  if (search.number.get node).isNone then
    graph.connect (search.discover node) [(node, graph.succs node)]
  else search

/-- The strongly connected components, each in node order; no edge leads to a later component. -/
def components (graph : Adjacency n) : List (List (Fin n)) :=
  ((List.finRange n).foldl graph.connectFrom .blank).components.toList

end Adjacency

end ProgramGraphs
