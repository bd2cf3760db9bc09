import Mathlib.Tactic.Common
import ProgramGraphs.Graph.Dominator

/-! # Ancestors

Parent links say who stands above whom. Below a root whose descendants all differ in rank, the meet
of two nodes is their nearest common ancestor: what stands above it is what stands above both
(`above_meet_iff`). Giving a node another parent cuts out, below that node, the ancestors between it
and the new parent, and changes nothing elsewhere (`Relinks`).
-/

namespace ProgramGraphs.Ancestry

variable {n : Nat} {links : Ancestry n}

/-- A node is another or one of its ancestors. -/
inductive Above (links : Ancestry n) (ancestor : Fin n) : Fin n → Prop
  | refl : Above links ancestor ancestor
  | climb {parent node : Fin n} :
      links.parent? node = some parent → Above links ancestor parent → Above links ancestor node

theorem rank_lt_of_parent {node parent : Fin n} (linked : links.parent? node = some parent) :
    links.rank.get parent < links.rank.get node :=
  links.descending node parent linked

namespace Above

theorem trans {first second third : Fin n} (upper : links.Above first second)
    (lower : links.Above second third) : links.Above first third := by
  induction lower with
  | refl => exact upper
  | climb linked _ ih => exact .climb linked ih

theorem eq_or_rank_lt {ancestor node : Fin n} (above : links.Above ancestor node) :
    ancestor = node ∨ links.rank.get ancestor < links.rank.get node := by
  induction above with
  | refl => exact .inl rfl
  | @climb parent node linked _ ih =>
    have lower := rank_lt_of_parent linked
    rcases ih with rfl | less
    · exact .inr lower
    · exact .inr (Nat.lt_trans less lower)

theorem rank_le {ancestor node : Fin n} (above : links.Above ancestor node) :
    links.rank.get ancestor ≤ links.rank.get node := by
  rcases above.eq_or_rank_lt with rfl | less
  · exact Nat.le_refl _
  · exact Nat.le_of_lt less

theorem antisymm {a b : Fin n} (one : links.Above a b) (other : links.Above b a) : a = b := by
  rcases one.eq_or_rank_lt with same | less
  · exact same
  · exact absurd other.rank_le (Nat.not_le_of_lt less)

/-- The ancestors of a node form a chain. -/
theorem total {first second node : Fin n} (one : links.Above first node)
    (other : links.Above second node) : links.Above first second ∨ links.Above second first := by
  induction one with
  | refl => exact .inr other
  | @climb parent node linked upper ih =>
    cases other with
    | refl => exact .inl (.climb linked upper)
    | climb linked' above =>
      rw [linked] at linked'
      cases linked'
      exact ih above

end Above

/-- Nodes of lower rank stand below nothing of higher rank. -/
theorem not_above_of_rank_lt {ancestor node : Fin n}
    (less : links.rank.get node < links.rank.get ancestor) :
    ¬ links.Above ancestor node := fun above =>
  absurd above.rank_le (Nat.not_le_of_lt less)

theorem above_iff_of_parent {node parent : Fin n} (linked : links.parent? node = some parent)
    (ancestor : Fin n) :
    links.Above ancestor node ↔ ancestor = node ∨ links.Above ancestor parent := by
  constructor
  · intro above
    cases above with
    | refl => exact .inl rfl
    | climb linked' above =>
      rw [linked] at linked'
      cases linked'
      exact .inr above
  · rintro (rfl | above)
    · exact .refl
    · exact .climb linked above

theorem above_iff_of_no_parent {node : Fin n} (top : links.parent? node = none)
    (ancestor : Fin n) : links.Above ancestor node ↔ ancestor = node := by
  constructor
  · intro above
    cases above with
    | refl => rfl
    | climb linked _ =>
      rw [top] at linked
      cases linked
  · rintro rfl
    exact .refl

theorem mem_lineage_iff (links : Ancestry n) (ancestor node : Fin n) :
    ancestor ∈ links.lineage node ↔ links.Above ancestor node := by
  fun_induction links.lineage node with
  | case1 node parent linked _ ih =>
    rw [List.mem_cons, ih, above_iff_of_parent linked]
  | case2 node top =>
    rw [List.mem_singleton, above_iff_of_no_parent top]

/-- Climbing from a node as long as a test is passed comes to the ancestors up to which every node
on the way passes it. -/
theorem mem_takeWhile_lineage_iff (links : Ancestry n) (test : Fin n → Bool)
    (ancestor node : Fin n) : ancestor ∈ (links.lineage node).takeWhile test ↔
      links.Above ancestor node ∧
        ∀ other, links.Above other node → links.Above ancestor other → test other = true := by
  fun_induction links.lineage node with
  | case1 node parent linked _ ih =>
    by_cases passes : test node = true
    · rw [List.takeWhile_cons_of_pos passes, List.mem_cons, ih]
      constructor
      · rintro (rfl | ⟨above, between⟩)
        · refine ⟨.refl, fun other lower upper => ?_⟩
          rwa [lower.antisymm upper]
        · refine ⟨.climb linked above, fun other lower upper => ?_⟩
          rcases (above_iff_of_parent linked other).mp lower with rfl | lower
          · exact passes
          · exact between other lower upper
      · rintro ⟨above, between⟩
        rcases (above_iff_of_parent linked ancestor).mp above with rfl | above
        · exact .inl rfl
        · exact .inr ⟨above, fun other lower => between other (.climb linked lower)⟩
    · rw [List.takeWhile_cons_of_neg passes]
      exact ⟨nofun, fun ⟨above, between⟩ => absurd (between node .refl above) passes⟩
  | case2 node top =>
    by_cases passes : test node = true
    · rw [List.takeWhile_cons_of_pos passes, List.takeWhile_nil, List.mem_singleton,
        above_iff_of_no_parent top]
      refine ⟨fun same => ⟨same, fun other lower _ => ?_⟩, And.left⟩
      rwa [(above_iff_of_no_parent top other).mp lower]
    · rw [List.takeWhile_cons_of_neg passes]
      exact ⟨nofun, fun ⟨above, between⟩ => absurd (between node .refl above) passes⟩

/-- A node without a parent, below which no two nodes have the same rank. -/
structure Rooted (links : Ancestry n) (root : Fin n) : Prop where
  top : links.parent? root = none
  distinct : ∀ a b, links.Above root a → links.Above root b →
    links.rank.get a = links.rank.get b → a = b

namespace Rooted

variable {root : Fin n}

theorem eq_root_of_no_parent {node : Fin n} (above : links.Above root node)
    (bare : links.parent? node = none) : root = node :=
  (above_iff_of_no_parent bare root).mp above

theorem root_above_parent (rooted : links.Rooted root) {node parent : Fin n}
    (above : links.Above root node) (linked : links.parent? node = some parent) :
    links.Above root parent := by
  rcases (above_iff_of_parent linked root).mp above with rfl | upper
  · rw [rooted.top] at linked
    cases linked
  · exact upper

/-- The meet of two nodes is their nearest common ancestor. -/
theorem above_meet_iff (rooted : links.Rooted root) (a b : Fin n) (aboveA : links.Above root a)
    (aboveB : links.Above root b) (ancestor : Fin n) :
    links.Above ancestor (links.meet a b) ↔ links.Above ancestor a ∧ links.Above ancestor b := by
  fun_induction links.meet a b with
  | case1 a b less parent climbed _ ih =>
    rw [ih (rooted.root_above_parent aboveA climbed) aboveB, above_iff_of_parent climbed]
    constructor
    · rintro ⟨upper, other⟩
      exact ⟨.inr upper, other⟩
    · rintro ⟨rfl | upper, other⟩
      · exact absurd other (not_above_of_rank_lt less)
      · exact ⟨upper, other⟩
  | case2 a b less bare =>
    obtain rfl := eq_root_of_no_parent aboveA bare
    exact absurd aboveB (not_above_of_rank_lt less)
  | case3 a b _ less parent climbed _ ih =>
    rw [ih aboveA (rooted.root_above_parent aboveB climbed), above_iff_of_parent climbed]
    constructor
    · rintro ⟨other, upper⟩
      exact ⟨other, .inr upper⟩
    · rintro ⟨other, rfl | upper⟩
      · exact absurd other (not_above_of_rank_lt less)
      · exact ⟨other, upper⟩
  | case4 a b _ less bare =>
    obtain rfl := eq_root_of_no_parent aboveB bare
    exact absurd aboveA (not_above_of_rank_lt less)
  | case5 a b notLess notGreater =>
    obtain rfl := rooted.distinct a b aboveA aboveB (by omega)
    exact (and_self_iff).symm

theorem above_foldl_meet_iff (rooted : links.Rooted root) (nodes : List (Fin n)) (met : Fin n)
    (aboveMet : links.Above root met) (aboveAll : ∀ node ∈ nodes, links.Above root node)
    (ancestor : Fin n) :
    links.Above ancestor (nodes.foldl (fun met node => links.meet node met) met) ↔
      links.Above ancestor met ∧ ∀ node ∈ nodes, links.Above ancestor node := by
  induction nodes generalizing met with
  | nil => simp
  | cons node rest ih =>
    have aboveNode := aboveAll node List.mem_cons_self
    have aboveNext := (rooted.above_meet_iff node met aboveNode aboveMet root).mpr
      ⟨aboveNode, aboveMet⟩
    rw [List.foldl_cons, ih _ aboveNext fun other member =>
      aboveAll other (List.mem_cons_of_mem _ member),
      rooted.above_meet_iff node met aboveNode aboveMet, List.forall_mem_cons, and_right_comm,
      and_comm, and_left_comm]

/-- Some nodes below the root meet in their nearest common ancestor. -/
theorem exists_meet (rooted : links.Rooted root) {nodes : List (Fin n)} (some : nodes ≠ [])
    (aboveAll : ∀ node ∈ nodes, links.Above root node) :
    ∃ met, links.meet? nodes = .some met ∧
      ∀ ancestor, links.Above ancestor met ↔ ∀ node ∈ nodes, links.Above ancestor node := by
  cases nodes with
  | nil => exact absurd rfl some
  | cons first rest =>
    refine ⟨_, rfl, fun ancestor => ?_⟩
    rw [rooted.above_foldl_meet_iff rest first (aboveAll first List.mem_cons_self)
      (fun node member => aboveAll node (List.mem_cons_of_mem _ member)), List.forall_mem_cons]

end Rooted

/-- Links that differ from others in the parent of one node. -/
structure Relinks (links : Ancestry n) (node parent : Fin n) (renewed : Ancestry n) : Prop where
  rank_eq : renewed.rank = links.rank
  parent_eq : renewed.parent? node = some parent
  others : ∀ other, other ≠ node → renewed.parent? other = links.parent? other

namespace Relinks

variable {renewed : Ancestry n} {node parent : Fin n}

theorem rank_lt (relinks : links.Relinks node parent renewed) :
    links.rank.get parent < links.rank.get node := by
  have lower := rank_lt_of_parent relinks.parent_eq
  rwa [relinks.rank_eq] at lower

/-- Nothing changes for nodes that are not below the one with another parent. -/
theorem above_iff_of_not_above (relinks : links.Relinks node parent renewed) {other : Fin n}
    (apart : ¬ links.Above node other) (ancestor : Fin n) :
    renewed.Above ancestor other ↔ links.Above ancestor other := by
  constructor
  · intro above
    induction above with
    | refl => exact .refl
    | @climb upper other linked _ ih =>
      rw [relinks.others other (fun same => apart (same ▸ .refl))] at linked
      exact .climb linked (ih fun below => apart (.climb linked below))
  · intro above
    induction above with
    | refl => exact .refl
    | @climb upper other linked _ ih =>
      refine .climb ?_ (ih fun below => apart (.climb linked below))
      rw [relinks.others other (fun same => apart (same ▸ .refl)), linked]

theorem above_parent_iff (relinks : links.Relinks node parent renewed) (ancestor : Fin n) :
    renewed.Above ancestor parent ↔ links.Above ancestor parent :=
  relinks.above_iff_of_not_above (not_above_of_rank_lt relinks.rank_lt) ancestor

/-- Below the node with another parent, the ancestors are those up to that node and those of its
parent. -/
theorem above_iff_of_above (relinks : links.Relinks node parent renewed) {other : Fin n}
    (below : links.Above node other) (ancestor : Fin n) :
    renewed.Above ancestor other ↔
      links.Above ancestor other ∧ links.Above node ancestor ∨ links.Above ancestor parent := by
  induction below with
  | refl =>
    rw [above_iff_of_parent relinks.parent_eq, relinks.above_parent_iff]
    refine or_congr_left ⟨?_, ?_⟩
    · rintro rfl
      exact ⟨.refl, .refl⟩
    · rintro ⟨upper, lower⟩
      rcases upper.eq_or_rank_lt with same | less
      · exact same
      · exact absurd lower (not_above_of_rank_lt less)
  | @climb upper other linked below ih =>
    have distinct : other ≠ node := by
      rintro rfl
      exact absurd below (not_above_of_rank_lt (rank_lt_of_parent linked))
    rw [above_iff_of_parent ((relinks.others other distinct).trans linked), ih,
      above_iff_of_parent linked, or_and_right, or_assoc]
    refine or_congr_left ⟨?_, And.left⟩
    rintro rfl
    exact ⟨rfl, .climb linked below⟩

end Relinks

end ProgramGraphs.Ancestry
