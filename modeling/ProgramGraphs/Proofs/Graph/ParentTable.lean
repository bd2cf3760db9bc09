import Mathlib.Data.PFun
import ProgramGraphs.Proofs.Graph.Dominator

/-! # Parents in a plain table

The parents of settled nodes can be kept in a plain table of entries. The root is settled from the
start, so it is entered as its own parent. Nothing in a plain table keeps an entry from missing or
from leading in circles, so a search for a common ancestor is a partial function: it may go on for
ever, and it has to be told what to do where an entry is missing. In the tables of rooted links it
always comes to the meet, and what it would do where an entry is missing makes no difference
(`meet_mem_intersect`).
-/

namespace ProgramGraphs

/-- The entries of nodes. -/
abbrev ParentTable (n : Nat) := Vector (Option (Fin n)) n

namespace ParentTable

variable {n : Nat} {missing : Fin n → Option (Fin n)} {rank : Vector Nat n} {table : ParentTable n}

/-- One turn of a climb: it ends once the node does not rank above the limit. -/
def climbStep (missing : Fin n → Option (Fin n)) (rank : Vector Nat n) (table : ParentTable n)
    (limit : Nat) : Fin n →. Fin n ⊕ Fin n := fun node =>
  if limit < rank.get node then (Part.ofOption (table.get node <|> missing node)).map .inr
  else .some (.inl node)

/-- A node climbs from entry to entry as long as it ranks above a limit. -/
def climb (missing : Fin n → Option (Fin n)) (rank : Vector Nat n) (table : ParentTable n)
    (limit : Nat) : Fin n →. Fin n :=
  PFun.fix (climbStep missing rank table limit)

/-- One turn of a search: it ends once both nodes are the same. -/
def intersectStep (missing : Fin n → Option (Fin n)) (rank : Vector Nat n)
    (table : ParentTable n) : Fin n × Fin n →. Fin n ⊕ Fin n × Fin n := fun (first, second) =>
  if first = second then .some (.inl first)
  else do
    let first ← climb missing rank table (rank.get second) first
    let second ← climb missing rank table (rank.get first) second
    return .inr (first, second)

/-- Two nodes climb in turns until they are the same. -/
def intersect (missing : Fin n → Option (Fin n)) (rank : Vector Nat n) (table : ParentTable n)
    (first second : Fin n) : Part (Fin n) :=
  PFun.fix (intersectStep missing rank table) (first, second)

theorem mem_climb_of_le {limit : Nat} {node : Fin n} (low : rank.get node ≤ limit) :
    node ∈ climb missing rank table limit node := by
  refine PFun.fix_stop ?_
  rw [climbStep, if_neg (Nat.not_lt_of_le low)]
  exact Part.mem_some _

theorem climb_of_lt {limit : Nat} {node parent : Fin n} (high : limit < rank.get node)
    (entered : table.get node = some parent) :
    climb missing rank table limit node = climb missing rank table limit parent := by
  refine PFun.fix_fwd_eq ?_
  rw [climbStep, if_pos high, entered]
  exact Part.mem_map _ (Part.mem_some parent)

theorem mem_intersect_self (node : Fin n) : node ∈ intersect missing rank table node node := by
  refine PFun.fix_stop ?_
  rw [intersectStep, if_pos rfl]
  exact Part.mem_some _

theorem intersect_of_ne {a b highA highB : Fin n} (other : a ≠ b)
    (climbsA : highA ∈ climb missing rank table (rank.get b) a)
    (climbsB : highB ∈ climb missing rank table (rank.get highA) b) :
    intersect missing rank table a b = intersect missing rank table highA highB := by
  refine PFun.fix_fwd_eq ?_
  rw [intersectStep, if_neg other]
  exact Part.mem_bind climbsA (Part.mem_bind climbsB (Part.mem_some _))

/-- Following entries from a node leads to lower and lower ranks and ends at the root. -/
inductive Descends (table : ParentTable n) (rank : Vector Nat n) (root : Fin n) : Fin n → Prop
  | root (itself : table.get root = some root) : Descends table rank root root
  | entry {node parent : Fin n} (entered : table.get node = some parent)
      (lower : rank.get parent < rank.get node) (rest : Descends table rank root parent) :
      Descends table rank root node

/-- A node is another or is come to by following entries from it. -/
inductive Ancestor (table : ParentTable n) (ancestor : Fin n) : Fin n → Prop
  | refl : Ancestor table ancestor ancestor
  | entry {node parent : Fin n} (entered : table.get node = some parent)
      (rest : Ancestor table ancestor parent) : Ancestor table ancestor node

end ParentTable

namespace Ancestry

variable {n : Nat} {links renewed : Ancestry n} {root node : Fin n}

/-- The table of parent links, with the root as its own parent. -/
def table (links : Ancestry n) (root : Fin n) : ParentTable n :=
  links.parents.set root (some root) root.isLt

@[simp] theorem get_table_root (links : Ancestry n) (root : Fin n) :
    (links.table root).get root = some root :=
  Vector.getElem_set_self root.isLt

theorem get_table_of_ne (links : Ancestry n) (other : node ≠ root) :
    (links.table root).get node = links.parent? node :=
  Vector.getElem_set_ne root.isLt node.isLt fun same => other (Fin.ext same.symm)

/-- The settled nodes are those that have an entry. -/
theorem isSome_get_table (links : Ancestry n) (root node : Fin n) :
    ((links.table root).get node).isSome = links.isSettled root node := by
  by_cases same : node = root
  · subst same
    simp [isSettled]
  · rw [get_table_of_ne links same, isSettled, decide_eq_false same, Bool.false_or]

namespace Rooted

theorem ne_root_of_parent (rooted : links.Rooted root) {parent : Fin n}
    (linked : links.parent? node = some parent) : node ≠ root := by
  rintro rfl
  exact nomatch rooted.top.symm.trans linked

theorem get_table_of_parent (rooted : links.Rooted root) {parent : Fin n}
    (linked : links.parent? node = some parent) : (links.table root).get node = some parent := by
  rw [get_table_of_ne links (rooted.ne_root_of_parent linked), linked]

/-- The entries of a settled node lead down to the root. -/
theorem descends (rooted : links.Rooted root) (above : links.Above root node) :
    (links.table root).Descends links.rank root node := by
  induction above with
  | refl => exact .root (get_table_root links root)
  | climb linked _ ih =>
    exact .entry (rooted.get_table_of_parent linked) (rank_lt_of_parent linked) ih

/-- Following entries leads to the ancestors. -/
theorem ancestor_iff (rooted : links.Rooted root) (ancestor node : Fin n) :
    (links.table root).Ancestor ancestor node ↔ links.Above ancestor node := by
  constructor
  · intro leads
    induction leads with
    | refl => exact .refl
    | @entry node parent entered _ ih =>
      by_cases same : node = root
      · subst same
        rw [get_table_root] at entered
        exact Option.some.inj entered ▸ ih
      · rw [get_table_of_ne links same] at entered
        exact .climb entered ih
  · intro above
    induction above with
    | refl => exact .refl
    | climb linked _ ih => exact .entry (rooted.get_table_of_parent linked) ih

theorem meet_of_rank_lt {a b parent : Fin n} (less : links.rank.get b < links.rank.get a)
    (linked : links.parent? a = some parent) : links.meet a b = links.meet parent b := by
  fun_cases links.meet a b with
  | case1 _ parent' climbed => rw [Option.some.inj (linked.symm.trans climbed)]
  | case2 _ bare => exact nomatch linked.symm.trans bare
  | case3 notLess => exact absurd less notLess
  | case4 notLess => exact absurd less notLess
  | case5 notLess => exact absurd less notLess

theorem meet_comm (rooted : links.Rooted root) {a b : Fin n} (aboveA : links.Above root a)
    (aboveB : links.Above root b) : links.meet a b = links.meet b a := by
  have one := rooted.above_meet_iff a b aboveA aboveB
  have other := rooted.above_meet_iff b a aboveB aboveA
  exact ((other _).mpr ((one _).mp .refl).symm).antisymm ((one _).mpr ((other _).mp .refl).symm)

theorem meet_self (links : Ancestry n) (node : Fin n) : links.meet node node = node := by
  rw [meet, if_neg (Nat.lt_irrefl _), if_neg (Nat.lt_irrefl _)]

/-- A settled node climbs until it ranks no higher than another, and loses no common ancestor. -/
theorem exists_climb (rooted : links.Rooted root) {other : Fin n}
    (above : links.Above root node) (aboveOther : links.Above root other) :
    ∃ high, (∀ missing, high ∈
        (links.table root).climb missing links.rank (links.rank.get other) node) ∧
      links.Above root high ∧ links.rank.get high ≤ links.rank.get other ∧
        links.rank.get high ≤ links.rank.get node ∧
          links.meet node other = links.meet high other := by
  induction above with
  | refl =>
    have low := aboveOther.rank_le
    exact ⟨root, fun _ => ParentTable.mem_climb_of_le low, .refl, low, Nat.le_refl _, rfl⟩
  | @climb parent node linked above ih =>
    by_cases less : links.rank.get other < links.rank.get node
    · obtain ⟨high, climbs, aboveHigh, lowOther, lowParent, meets⟩ := ih
      have lower := Nat.le_trans lowParent (Nat.le_of_lt (rank_lt_of_parent linked))
      refine ⟨high, fun missing => ?_, aboveHigh, lowOther, lower, ?_⟩
      · rw [ParentTable.climb_of_lt less (rooted.get_table_of_parent linked)]
        exact climbs missing
      · rw [meet_of_rank_lt less linked, meets]
    · have low := Nat.le_of_not_lt less
      exact ⟨node, fun _ => ParentTable.mem_climb_of_le low, .climb linked above, low,
        Nat.le_refl _, rfl⟩

/-- The search for a common ancestor of settled nodes comes to their meet and finds no entry
missing. -/
theorem meet_mem_intersect (rooted : links.Rooted root) (missing : Fin n → Option (Fin n))
    {a b : Fin n} (aboveA : links.Above root a) (aboveB : links.Above root b) :
    links.meet a b ∈ (links.table root).intersect missing links.rank a b := by
  induction size : links.rank.get a + links.rank.get b using Nat.strongRecOn generalizing a b with
  | ind size ih =>
    by_cases same : a = b
    · rw [same, meet_self]
      exact ParentTable.mem_intersect_self b
    · have apart : links.rank.get a ≠ links.rank.get b := fun equal =>
        same (rooted.distinct a b aboveA aboveB equal)
      obtain ⟨highA, climbsA, aboveHighA, lowA, shrinksA, meetsA⟩ :=
        rooted.exists_climb aboveA aboveB
      obtain ⟨highB, climbsB, aboveHighB, lowB, shrinksB, meetsB⟩ :=
        rooted.exists_climb aboveB aboveHighA
      have meets : links.meet a b = links.meet highA highB := by
        rw [meetsA, rooted.meet_comm aboveHighA aboveB, meetsB,
          rooted.meet_comm aboveHighB aboveHighA]
      rw [ParentTable.intersect_of_ne same (climbsA missing) (climbsB missing), meets]
      exact ih _ (by omega) aboveHighA aboveHighB rfl

end Rooted

end Ancestry

end ProgramGraphs
