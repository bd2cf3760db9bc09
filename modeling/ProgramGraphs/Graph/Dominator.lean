import ProgramGraphs.Graph.Basic
import ProgramGraphs.Graph.Search

/-! # Dominator trees

Every node but the root gets the nearest node that all ways from the root lead through. The nodes
are ranked by reverse postorder. Rounds over that order give each node the meet of its settled
predecessors in the tree built so far; a parent is only ever replaced by one of lower rank, so the
sum of the parents' ranks falls in every round but the last.
-/

namespace ProgramGraphs

/-- Parent links that lead to lower and lower ranks. -/
structure Ancestry (n : Nat) where
  rank : Vector Nat n
  parents : Vector (Option (Fin n)) n
  descending : ∀ node parent : Fin n, parents.get node = some parent →
    rank.get parent < rank.get node

namespace Ancestry

variable {n : Nat}

/-- No node has a parent. -/
def bare (rank : Vector Nat n) : Ancestry n where
  rank := rank
  parents := Vector.replicate n none
  descending node parent linked := by simp [Vector.get] at linked

/-- The parent of a node. -/
def parent? (links : Ancestry n) (node : Fin n) : Option (Fin n) :=
  links.parents.get node

/-- The rank below which a new parent must be: that of the parent, or of a node without one. -/
def height (links : Ancestry n) (node : Fin n) : Nat :=
  match links.parent? node with
  | some parent => links.rank.get parent
  | none => links.rank.get node

theorem height_le (links : Ancestry n) (node : Fin n) :
    links.height node ≤ links.rank.get node := by
  unfold height
  split
  · next parent linked => exact Nat.le_of_lt (links.descending node parent linked)
  · exact Nat.le_refl _

/-- The sum of all heights. -/
def room (links : Ancestry n) : Nat :=
  ((List.finRange n).map links.height).foldr (· + ·) 0

/-- Give a node a parent of lower rank than any it had. -/
def assign (links : Ancestry n) (node parent : Fin n)
    (lower : links.rank.get parent < links.height node) : Ancestry n where
  rank := links.rank
  parents := links.parents.set node (some parent) node.isLt
  descending other found linked := by
    change (links.parents.set node (some parent) node.isLt)[other.val] = some found at linked
    rw [Vector.getElem_set] at linked
    split at linked
    · next same =>
      cases linked
      have : node = other := Fin.ext same
      subst this
      exact Nat.lt_of_lt_of_le lower (links.height_le node)
    · exact links.descending other found linked

/-- The nearest common ancestor of two nodes: the one of higher rank climbs. -/
def meet (links : Ancestry n) (a b : Fin n) : Fin n :=
  if links.rank.get b < links.rank.get a then
    match climbed : links.parent? a with
    | some parent =>
      have := links.descending a parent climbed
      links.meet parent b
    | none => b
  else if links.rank.get a < links.rank.get b then
    match climbed : links.parent? b with
    | some parent =>
      have := links.descending b parent climbed
      links.meet a parent
    | none => a
  else a
termination_by links.rank.get a + links.rank.get b

/-- A node, its parent, and so on upwards. -/
def lineage (links : Ancestry n) (node : Fin n) : List (Fin n) :=
  match climbed : links.parents.get node with
  | some parent =>
    have := links.descending node parent climbed
    node :: links.lineage parent
  | none => [node]
termination_by links.rank.get node

/-- The root is settled from the start, another node once it has a parent. -/
def isSettled (links : Ancestry n) (root node : Fin n) : Bool :=
  node = root || (links.parent? node).isSome

/-- The meet of the nodes of a list, the later ones joining the first. -/
def meet? (links : Ancestry n) : List (Fin n) → Option (Fin n)
  | [] => none
  | first :: rest => some (rest.foldl (fun met node => links.meet node met) first)

/-- Give a node the meet of its settled predecessors, if that is lower than the parent it has. -/
def improve (graph : Adjacency n) (root : Fin n) (links : Ancestry n) (node : Fin n) :
    Ancestry n :=
  match links.meet? ((graph.preds node).filter (links.isSettled root)) with
  | none => links
  | some parent =>
    if lower : links.rank.get parent < links.height node then links.assign node parent lower
    else links

/-- Improve nodes in a given order. -/
def round (graph : Adjacency n) (root : Fin n) (order : List (Fin n)) (links : Ancestry n) :
    Ancestry n :=
  order.foldl (improve graph root) links

/-- Improve nodes round after round, as long as that changes anything. -/
def settle (graph : Adjacency n) (root : Fin n) (order : List (Fin n)) (links : Ancestry n) :
    Ancestry n :=
  let next := round graph root order links
  if next.room < links.room then settle graph root order next else next
termination_by links.room

end Ancestry

/-- The dominator tree of a rooted graph; a node that the root does not reach is not in it. -/
structure DominatorTree (n : Nat) where
  root : Nat
  links : Ancestry n

namespace DominatorTree

variable {n : Nat}

/-- The immediate dominator of a node that is in the tree and is not the root. -/
def parent? (tree : DominatorTree n) (node : Fin n) : Option (Fin n) :=
  tree.links.parent? node

/-- Whether a node is in the tree. -/
def contains (tree : DominatorTree n) (node : Fin n) : Bool :=
  node.val = tree.root || (tree.parent? node).isSome

/-- A node of the tree and all that dominate it, the nearest first. -/
def lineage (tree : DominatorTree n) (node : Fin n) : List (Fin n) :=
  tree.links.lineage node

/-- Whether a node dominates a node of the tree. Every node of the tree dominates itself. -/
def dominates (tree : DominatorTree n) (a b : Fin n) : Bool :=
  tree.contains b && (tree.lineage b).contains a

/-- The nodes that a node immediately dominates, in order. -/
def children (tree : DominatorTree n) (node : Fin n) : List (Fin n) :=
  (List.finRange n).filter fun child => tree.parent? child = some node

/-- Each node that has an immediate dominator, after that dominator. -/
def edges (tree : DominatorTree n) : List (Fin n × Fin n) :=
  (List.finRange n).filterMap fun child => (tree.parent? child).map (·, child)

/-- The nodes of the tree, in order. -/
def members (tree : DominatorTree n) : List (Fin n) :=
  (List.finRange n).filter tree.contains

end DominatorTree

/-- The position of every node in an order, or the length of the order. -/
def rankIn {n : Nat} (order : List (Fin n)) : Vector Nat n :=
  Vector.ofFn fun node => order.idxOf node

/-- The dominator tree of a graph from a root. -/
def Adjacency.dominatorTree {n : Nat} (graph : Adjacency n) (root : Fin n) : DominatorTree n :=
  let order := graph.reversePostorder root
  ⟨root, Ancestry.settle graph root order.tail (Ancestry.bare (rankIn order))⟩

/-- The dominator tree of a graph, or of the graph with every edge reversed, from a node. Only the
node itself is in the tree of a node that the graph lacks. -/
def Digraph.dominatorTree {ν ε : Type} (graph : Digraph ν ε) (reversed : Bool) (root : Nat) :
    DominatorTree graph.size :=
  let adjacency := if reversed then graph.adjacency.reversed else graph.adjacency
  match graph.index? root with
  | some node => adjacency.dominatorTree node
  | none => ⟨root, Ancestry.bare (rankIn [])⟩

end ProgramGraphs
