import ProgramGraphs.Proofs.Graph.Filling

/-! # Every search for a common ancestor

Step by step the table that is filled is that of the links that are being settled, so the filling
ends with the parents of the dominator tree, and every search on the way is one among settled nodes
of rooted links.
-/

namespace ProgramGraphs

namespace ParentTable

variable {n : Nat}

/-- A search among nodes whose entries lead down to the root. Whatever is done where an entry is
missing, it ends with their nearest common ancestor. -/
structure Query.Meets (rank : Vector Nat n) (root : Fin n) (query : Query n) : Prop where
  first : query.table.Descends rank root query.first
  second : query.table.Descends rank root query.second
  nearest : ∃ met, (∀ missing, met ∈ query.table.intersect missing rank query.first query.second) ∧
    query.table.Ancestor met query.first ∧ query.table.Ancestor met query.second ∧
      ∀ other, query.table.Ancestor other query.first → query.table.Ancestor other query.second →
        query.table.Ancestor other met

end ParentTable

namespace Ancestry

open ParentTable (Query Candidate Filling)

variable {n : Nat} {links : Ancestry n} {root : Fin n}

/-- A search among settled nodes comes to their nearest common ancestor. -/
theorem Rooted.meets (rooted : links.Rooted root) {a b : Fin n} (aboveA : links.Above root a)
    (aboveB : links.Above root b) :
    Query.Meets links.rank root ⟨links.table root, a, b⟩ where
  first := rooted.descends aboveA
  second := rooted.descends aboveB
  nearest := by
    have above_meet := rooted.above_meet_iff a b aboveA aboveB
    obtain ⟨upperA, upperB⟩ := (above_meet _).mp .refl
    simp only [rooted.ancestor_iff]
    exact ⟨_, fun missing => rooted.meet_mem_intersect missing aboveA aboveB, upperA, upperB,
      fun other one two => (above_meet other).mpr ⟨one, two⟩⟩

theorem meet?_concat (links : Ancestry n) (nodes : List (Fin n)) (node : Fin n) :
    links.meet? (nodes ++ [node]) =
      some ((links.meet? nodes).elim node fun met => links.meet node met) := by
  cases nodes with
  | nil => rfl
  | cons first rest => simp [meet?]

theorem Rooted.root_above_of_meet? (rooted : links.Rooted root) {nodes : List (Fin n)} {met : Fin n}
    (found : links.meet? nodes = some met) (aboveAll : ∀ node ∈ nodes, links.Above root node) :
    links.Above root met := by
  have given : nodes ≠ [] := by
    rintro rfl
    cases found
  obtain ⟨met', found', above_met⟩ := rooted.exists_meet given aboveAll
  obtain rfl := Option.some.inj (found.symm.trans found')
  exact (above_met root).mpr aboveAll

/-- A candidate is the meet of the settled ones among the nodes that were looked at. -/
structure Stands (links : Ancestry n) (root : Fin n) (sources : List (Fin n))
    (candidate : Candidate n) : Prop where
  parent_eq : candidate.parent? = links.meet? (sources.filter (links.isSettled root))
  meets : ∀ query ∈ candidate.queries, query.Meets links.rank root

/-- One more predecessor is looked at. -/
theorem Stands.exists_join (rooted : links.Rooted root)
    (isSettled_iff : ∀ node, links.isSettled root node = true ↔ links.Above root node)
    {earlier : List (Fin n)} {candidate : Candidate n}
    (stands : links.Stands root earlier candidate) (source : Fin n) : ∃ next,
      (∀ missing, next ∈ candidate.join missing links.rank (links.table root) source) ∧
        links.Stands root (earlier ++ [source]) next := by
  have entered := isSome_get_table links root source
  by_cases settled : links.isSettled root source = true
  · have listed : (earlier ++ [source]).filter (links.isSettled root) =
        earlier.filter (links.isSettled root) ++ [source] := by
      simp [settled]
    rw [settled] at entered
    cases current : candidate.parent? with
    | none =>
      refine ⟨⟨some source, candidate.queries⟩, fun missing => ?_, ?_, stands.meets⟩
      · rw [Candidate.join, if_pos entered, current]
        exact Part.mem_some _
      · rw [listed, meet?_concat, ← stands.parent_eq, current]
        rfl
    | some met =>
      have found := stands.parent_eq.symm.trans current
      have aboveMet : links.Above root met := by
        refine rooted.root_above_of_meet? found fun node member => ?_
        exact (isSettled_iff node).mp (List.mem_filter.mp member).2
      have aboveSource := (isSettled_iff source).mp settled
      let query : Query n := ⟨links.table root, source, met⟩
      refine ⟨⟨some (links.meet source met), candidate.queries ++ [query]⟩, fun missing => ?_, ?_,
        ?_⟩
      · rw [Candidate.join, if_pos entered, current]
        exact Part.mem_bind (rooted.meet_mem_intersect missing aboveSource aboveMet)
          (Part.mem_some _)
      · rw [listed, meet?_concat, found]
        rfl
      · intro query member
        rcases List.mem_append.mp member with before | now
        · exact stands.meets query before
        · obtain rfl := List.mem_singleton.mp now
          exact rooted.meets aboveSource aboveMet
  · rw [← entered] at settled
    refine ⟨candidate, fun missing => ?_, ?_, stands.meets⟩
    · rw [Candidate.join, if_neg settled]
      exact Part.mem_some _
    · simp [← entered, settled, stands.parent_eq]

/-- The predecessors are looked at one after the other. -/
theorem Stands.exists_foldlM_join (rooted : links.Rooted root)
    (isSettled_iff : ∀ node, links.isSettled root node = true ↔ links.Above root node)
    (todo : List (Fin n)) {earlier : List (Fin n)} {candidate : Candidate n}
    (stands : links.Stands root earlier candidate) : ∃ next,
      (∀ missing, next ∈
        todo.foldlM (Candidate.join missing links.rank (links.table root)) candidate) ∧
        links.Stands root (earlier ++ todo) next := by
  induction todo generalizing earlier candidate with
  | nil => exact ⟨candidate, fun _ => Part.mem_some _, by rwa [List.append_nil]⟩
  | cons source rest ih =>
    obtain ⟨between, joins, standsBetween⟩ := stands.exists_join rooted isSettled_iff source
    obtain ⟨next, runs, standsNext⟩ := ih standsBetween
    refine ⟨next, fun missing => ?_, by rwa [List.append_cons]⟩
    rw [List.foldlM_cons]
    exact Part.mem_bind (joins missing) (runs missing)

theorem Relinks.parents_eq {renewed : Ancestry n} {node parent : Fin n}
    (relinks : links.Relinks node parent renewed) :
    renewed.parents = links.parents.set node (some parent) node.isLt := by
  refine Vector.ext fun i inside => ?_
  by_cases same : node.val = i
  · subst same
    rw [Vector.getElem_set_self]
    exact relinks.parent_eq
  · rw [Vector.getElem_set_ne node.isLt inside same]
    exact relinks.others ⟨i, inside⟩ fun equal => same (Fin.val_eq_of_eq equal.symm)

/-- Another parent of a node is another entry in the table. -/
theorem Relinks.table_eq {renewed : Ancestry n} {node parent : Fin n}
    (relinks : links.Relinks node parent renewed) (other : node ≠ root) :
    renewed.table root = (links.table root).set node (some parent) node.isLt := by
  rw [table, table, relinks.parents_eq]
  exact Vector.set_comm _ _ fun same => other (Fin.ext same)

/-- The parents are what is in the table but for the entry of the root. -/
theorem Rooted.set_table_root (rooted : links.Rooted root) :
    (links.table root).set root none root.isLt = links.parents := by
  have top : links.parents[root.val] = none := rooted.top
  rw [table, Vector.set_set, ← top, Vector.set_getElem_self]

theorem improve_eq_of_parent {graph : Adjacency n} {node met : Fin n}
    (found : links.meet? ((graph.preds node).filter (links.isSettled root)) = some met)
    (same : links.parent? node = some met) : improve graph root links node = links := by
  have reached : links.height node = links.rank.get met := by rw [height, same]
  rw [improve_of_meet? found, dif_neg (reached ▸ Nat.lt_irrefl _)]

theorem room_improve_le (graph : Adjacency n) (root : Fin n) (links : Ancestry n) (node : Fin n) :
    (improve graph root links node).room ≤ links.room :=
  room_round_le graph root [node] links

/-- A filling that has come as far as some links: its table is theirs, and its searches were among
settled nodes. -/
structure Mirrors (links : Ancestry n) (root : Fin n) (filling : Filling n) : Prop where
  table_eq : filling.table = links.table root
  meets : ∀ query ∈ filling.queries, query.Meets links.rank root

variable {graph : Adjacency n} {order : List (Fin n)} {guide : Fin n → Fin n}
variable {filling : Filling n}

theorem entered_table (links : Ancestry n) (root : Fin n) (sources : List (Fin n)) :
    (links.table root).entered sources = sources.filter (links.isSettled root) :=
  List.filter_congr fun source _ => isSome_get_table links root source

namespace Mirrors

/-- A node, come to in its turn, gets the same parent in the table as in the links. -/
theorem exists_improve (mirrors : links.Mirrors root filling) {node met : Fin n}
    (improvement : Improvement graph root order guide links node met
      (improve graph root links node)) : ∃ next,
      (∀ missing, next ∈ filling.improve missing graph links.rank node) ∧
        (improve graph root links node).Mirrors root next ∧
          (next.changed = true ↔ filling.changed = true ∨
            (improve graph root links node).room < links.room) := by
  have inv := improvement.inv
  have relinks := improvement.relinks
  have blank : links.Stands root [] ⟨none, filling.queries⟩ := ⟨rfl, mirrors.meets⟩
  obtain ⟨candidate, joins, stands⟩ := blank.exists_foldlM_join
    (inv.rootedLinks improvement.guided) inv.isSettled_iff (graph.preds node)
  have proposed : candidate.parent? = some met := stands.parent_eq.trans improvement.meet?_eq
  have entry : filling.table.get node = links.parent? node := by
    rw [mirrors.table_eq, get_table_of_ne links improvement.other]
  rw [← mirrors.table_eq] at joins
  by_cases same : links.parent? node = some met
  · have unchanged := improve_eq_of_parent improvement.meet?_eq same
    refine ⟨_, fun missing => Filling.mem_improve_of_eq (joins missing) ?_, ?_, ?_⟩
    · rw [entry, same, proposed]
    · rw [unchanged]
      exact ⟨mirrors.table_eq, stands.meets⟩
    · rw [unchanged]
      exact (or_iff_left (Nat.lt_irrefl _)).symm
  · have changed : improve graph root links node ≠ links := fun still =>
      same (still ▸ relinks.parent_eq)
    have less := (improve_eq_or_room_lt graph root links node).resolve_left changed
    refine ⟨_, fun missing => Filling.mem_improve_of_ne (joins missing) proposed ?_, ⟨?_, ?_⟩,
      iff_of_true rfl (.inr less)⟩
    · rwa [entry]
    · rw [relinks.table_eq improvement.other, mirrors.table_eq]
    · rw [relinks.rank_eq]
      exact stands.meets

/-- The nodes in order come to their turns, and whether a filling has changed tells whether room was
taken. -/
theorem exists_foldlM_improve (guided : GuidedOrder graph root order guide)
    {earlier todo : List (Fin n)} (cut : order = earlier ++ todo) (started : earlier ≠ [])
    (inv : Invariant graph root order guide earlier.length links)
    (mirrors : links.Mirrors root filling) : ∃ next,
      (∀ missing, next ∈ todo.foldlM (Filling.improve missing graph (rankIn order)) filling) ∧
        (round graph root todo links).Mirrors root next ∧
          (next.changed = true ↔ filling.changed = true ∨
            (round graph root todo links).room < links.room) := by
  induction todo generalizing earlier links filling with
  | nil =>
    exact ⟨filling, fun _ => Part.mem_some _, mirrors, (or_iff_left (Nat.lt_irrefl _)).symm⟩
  | cons node rest ih =>
    obtain ⟨met, improvement, invNext⟩ := inv.turn guided cut started
    obtain ⟨between, improves, mirrorsBetween, changedBetween⟩ :=
      mirrors.exists_improve improvement
    obtain ⟨next, runs, mirrorsNext, changedNext⟩ :=
      ih (by rw [cut, List.append_cons]) (by simp) invNext mirrorsBetween
    refine ⟨next, fun missing => ?_, mirrorsNext, ?_⟩
    · rw [inv.rank_eq] at improves
      rw [List.foldlM_cons]
      exact Part.mem_bind (improves missing) (runs missing)
    · have later := room_round_le graph root rest (improve graph root links node)
      have sooner := room_improve_le graph root links node
      change _ ↔ _ ∨ (round graph root rest (improve graph root links node)).room < links.room
      rw [changedNext, changedBetween, or_assoc]
      refine or_congr_right ⟨?_, ?_⟩
      · omega
      · omega

/-- A round over the table keeps up with a round over the links. -/
theorem exists_round (guided : GuidedOrder graph root order guide)
    (inv : Invariant graph root order guide 1 links) (mirrors : links.Mirrors root filling) :
    ∃ next, (∀ missing, next ∈ filling.round missing graph (rankIn order) order.tail) ∧
      (round graph root order.tail links).Mirrors root next ∧
        (next.changed = true ↔ (round graph root order.tail links).room < links.room) := by
  have blank : links.Mirrors root { filling with changed := false } :=
    ⟨mirrors.table_eq, mirrors.meets⟩
  have cut : order = [root] ++ order.tail := guided.head_eq
  obtain ⟨next, runs, mirrorsNext, changed⟩ :=
    blank.exists_foldlM_improve guided cut (List.cons_ne_nil _ _) inv
  exact ⟨next, runs, mirrorsNext, changed.trans (or_iff_right Bool.false_ne_true)⟩

/-- The rounds end, and with the links they would end with. -/
theorem exists_settle (guided : GuidedOrder graph root order guide)
    (inv : Invariant graph root order guide 1 links) (mirrors : links.Mirrors root filling) :
    ∃ final, (∀ missing, final ∈ filling.settle missing graph (rankIn order) order.tail) ∧
      (settle graph root order.tail links).Mirrors root final := by
  induction size : links.room using Nat.strongRecOn generalizing links filling with
  | ind size ih =>
    obtain ⟨next, rounds, mirrorsNext, changed⟩ := mirrors.exists_round guided inv
    rw [Ancestry.settle]
    split
    · next less =>
      obtain ⟨final, settles, mirrorsFinal⟩ :=
        ih _ (size ▸ less) ((inv.round guided).restart 1) mirrorsNext rfl
      refine ⟨final, fun missing => ?_, mirrorsFinal⟩
      rw [Filling.settle_of_changed (rounds missing) (changed.mpr less)]
      exact settles missing
    · next still =>
      exact ⟨next, fun missing => Filling.mem_settle_of_unchanged (rounds missing)
        fun change => still (changed.mp change), mirrorsNext⟩

end Mirrors

end Ancestry

/-- The nodes of a tree are the settled ones. -/
theorem DominatorTree.contains_eq_isSettled {n : Nat} (links : Ancestry n) (root : Fin n) :
    (⟨root, links⟩ : DominatorTree n).contains = links.isSettled root := by
  funext node
  simp only [contains, parent?, Ancestry.isSettled, Fin.ext_iff]

/-- The table of the parents of a graph is that of its dominator tree. -/
theorem Adjacency.exists_fillParents {n : Nat} (graph : Adjacency n) (root : Fin n) :
    ∃ filling, (∀ missing, filling ∈ graph.fillParents missing root) ∧
      filling.table = (graph.dominatorTree root).links.parents ∧
      (∀ query ∈ filling.queries, query.Meets (rankIn (graph.reversePostorder root)) root) ∧
      ∀ node, (graph.dominatorTree root).contains node = true → node ≠ root →
        ∀ source ∈ ((graph.preds node).filter (graph.dominatorTree root).contains).tail,
          ∃ query ∈ filling.queries, query.first = source := by
  obtain ⟨guide, guided⟩ := graph.exists_guidedOrder root
  have blank : (Ancestry.bare (rankIn (graph.reversePostorder root))).Mirrors root (.start root) :=
    ⟨rfl, by simp [ParentTable.Filling.start]⟩
  have start := Ancestry.Invariant.bare guided
  obtain ⟨filling, settles, mirrors⟩ := blank.exists_settle guided start
  obtain ⟨inv, -⟩ := start.settle guided
  refine ⟨{ filling with table := filling.table.set root none root.isLt },
    fun missing => Part.mem_bind (settles missing) (Part.mem_some _), ?_, ?_, ?_⟩
  · change filling.table.set root none root.isLt = _
    rw [mirrors.table_eq]
    exact (inv.rootedLinks guided).set_table_root
  · have meets := mirrors.meets
    rwa [inv.rank_eq] at meets
  · have inTree : (graph.dominatorTree root).contains =
        (graph.dominatorTree root).links.isSettled root :=
      DominatorTree.contains_eq_isSettled (graph.dominatorTree root).links root
    rw [inTree]
    intro node settled other source member
    have listed := inv.mem_of_settled guided ((inv.isSettled_iff node).mp settled)
    have searched := ParentTable.Filling.searched_of_mem_settle (settles some) node
      ((guided.mem_tail_iff node).mpr ⟨listed, other⟩)
    rw [mirrors.table_eq, Ancestry.entered_table] at searched
    obtain ⟨query, made, -, first⟩ := searched source member
    exact ⟨query, made, first⟩

/-- Whatever is done where an entry is missing, filling the table of the parents of a graph comes to
an end, and then holds the parents of the dominator tree. Every search for a common ancestor on the
way ends with the nearest one, and there is one for every predecessor in the tree but the first. -/
theorem Digraph.fillParents_meets {ν ε : Type} (graph : Digraph ν ε) (reversed : Bool)
    (root : Nat) : ∃ filling,
      (∀ missing, filling ∈ graph.fillParents missing reversed root) ∧
      filling.table = (graph.dominatorTree reversed root).links.parents ∧
      (∀ query ∈ filling.queries, ∃ node : Fin graph.size, node.val = root ∧
        query.Meets (rankIn ((graph.oriented reversed).reversePostorder node)) node) ∧
      ∀ node, (graph.dominatorTree reversed root).contains node = true → node.val ≠ root →
        ∀ source ∈ (((graph.oriented reversed).preds node).filter
          (graph.dominatorTree reversed root).contains).tail,
          ∃ query ∈ filling.queries, query.first = source := by
  cases index : graph.index? root with
  | none =>
    have tree : graph.dominatorTree reversed root = ⟨root, .bare (rankIn [])⟩ := by
      rw [dominatorTree, index]
    have orphan : ∀ node, (Ancestry.bare (rankIn [])).parent? (n := graph.size) node = none :=
      fun node => Vector.getElem_replicate node.isLt
    rw [tree]
    refine ⟨⟨Vector.replicate _ none, false, []⟩, fun missing => ?_, rfl, List.forall_mem_nil _,
      fun node present apart => ?_⟩
    · rw [fillParents, index]
      exact Part.mem_some _
    · simp [DominatorTree.contains, DominatorTree.parent?, orphan, apart] at present
  | some node =>
    have tree : graph.dominatorTree reversed root =
        (graph.oriented reversed).dominatorTree node := by
      rw [dominatorTree, index, oriented]
    have itself := (graph.index?_eq_some_iff root node).mp index
    obtain ⟨filling, fills, table, meets, searched⟩ :=
      (graph.oriented reversed).exists_fillParents node
    rw [tree]
    refine ⟨filling, fun missing => ?_, table,
      fun query made => ⟨node, itself.symm, meets query made⟩,
      fun other present apart => searched other present fun same => apart ?_⟩
    · rw [fillParents, index]
      exact fills missing
    · rw [same, itself]

end ProgramGraphs
