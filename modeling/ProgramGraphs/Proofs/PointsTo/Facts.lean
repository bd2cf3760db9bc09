import Mathlib.Data.List.Perm.Subperm
import Mathlib.Data.List.ProdSigma
import Mathlib.Data.List.Sort
import Mathlib.Data.String.Basic
import ProgramGraphs.PointsTo.Inclusion

/-! # Points-to sets as facts

Points-to sets say which holders may hold which locations. Sets that are made by absorbing locations
list every holder once and its locations in ascending order (`Proper`), so they are known by their
facts, and their size is the number of those.
-/

namespace ProgramGraphs

namespace Location

theorem mem_insert_iff {location other : Location} {held : List Location} :
    other ∈ location.insert held ↔ other = location ∨ other ∈ held := by
  induction held with
  | nil => simp [insert]
  | cons first rest ih =>
    rw [insert]
    split
    · next same => simp [same]
    · split
      · rw [List.mem_cons]
      · rw [List.mem_cons, ih, List.mem_cons]
        exact or_left_comm

theorem mem_union_iff {held added : List Location} {other : Location} :
    other ∈ union held added ↔ other ∈ held ∨ other ∈ added := by
  unfold union
  induction added generalizing held with
  | nil => simp
  | cons location rest ih =>
    rw [List.foldl_cons, ih, mem_insert_iff, List.mem_cons, or_assoc, or_left_comm]

theorem precedes_trans {first second third : Location} (one : first.precedes second = true)
    (other : second.precedes third = true) : first.precedes third = true := by
  cases first <;> cases second <;> cases third <;> simp_all [precedes, -String.lt_iff_ltb]
  · exact one.trans other
  · rcases one with one | ⟨rfl, one⟩
    · rcases other with other | ⟨rfl, _⟩
      · exact .inl (one.trans other)
      · exact .inl one
    · exact other.imp_right fun ⟨same, other⟩ => ⟨same, one.trans other⟩

theorem precedes_irrefl (location : Location) : location.precedes location = false := by
  cases location <;> simp [precedes]

theorem precedes_or_precedes {first second : Location} (distinct : first ≠ second) :
    first.precedes second = true ∨ second.precedes first = true := by
  cases first with
  | function a =>
    cases second with
    | function b =>
      have names : a ≠ b := fun same => distinct (congrArg function same)
      simpa only [precedes, decide_eq_true_eq] using lt_or_gt_of_ne names
    | allocation b second => exact .inl rfl
  | allocation a first =>
    cases second with
    | function b => exact .inr rfl
    | allocation b second =>
      simp only [precedes, Bool.or_eq_true, Bool.and_eq_true, decide_eq_true_eq, beq_iff_eq]
      rcases lt_trichotomy a b with less | rfl | more
      · exact .inl (.inl less)
      · have sites : first ≠ second := fun same => distinct (congrArg (allocation a) same)
        exact (Nat.lt_or_gt_of_ne sites).imp (fun less => .inr ⟨rfl, less⟩)
          fun more => .inr ⟨rfl, more⟩
      · exact .inr (.inl more)

/-- Locations in ascending order. -/
abbrev Ascending : List Location → Prop :=
  List.Pairwise fun first second => first.precedes second = true

theorem Ascending.insert {held : List Location} (ascending : Ascending held)
    (location : Location) : Ascending (location.insert held) := by
  induction held with
  | nil => exact List.pairwise_singleton _ _
  | cons first rest ih =>
    obtain ⟨before, later⟩ := List.pairwise_cons.mp ascending
    rw [Location.insert]
    split
    · exact ascending
    · next distinct =>
      split
      · next less =>
        refine List.pairwise_cons.mpr ⟨fun other member => ?_, ascending⟩
        rcases List.mem_cons.mp member with rfl | member
        · exact less
        · exact precedes_trans less (before other member)
      · next notLess =>
        refine List.pairwise_cons.mpr ⟨fun other member => ?_, ih later⟩
        rcases mem_insert_iff.mp member with rfl | member
        · exact (precedes_or_precedes distinct).resolve_left notLess
        · exact before other member

theorem Ascending.union {held : List Location} (ascending : Ascending held)
    (added : List Location) : Ascending (union held added) := by
  unfold Location.union
  induction added generalizing held with
  | nil => exact ascending
  | cons location rest ih => exact ih (ascending.insert location)

/-- Ascending lists of the same locations are the same. -/
theorem Ascending.eq_of_mem_iff {first second : List Location} (one : Ascending first)
    (other : Ascending second) (same : ∀ location, location ∈ first ↔ location ∈ second) :
    first = second := by
  have irrefl : Std.Irrefl fun first second : Location => first.precedes second = true :=
    ⟨fun location less => by rw [precedes_irrefl] at less; cases less⟩
  have antisymm : Std.Antisymm fun first second : Location => first.precedes second = true :=
    ⟨fun a b less more => by
      have loop := precedes_trans less more
      rw [precedes_irrefl] at loop
      cases loop⟩
  exact List.Pairwise.eq_of_mem_iff one other same

end Location

/-- Which holders may hold which locations. -/
abbrev Holdings : Type :=
  Holder → Location → Prop

namespace PointsToSets

/-- What the sets say of which holders may hold which locations. -/
def Holds (sets : PointsToSets) : Holdings :=
  fun holder location => location ∈ sets.get holder

/-- Every holder is listed once, with its locations in ascending order. -/
structure Proper (sets : PointsToSets) : Prop where
  distinct : (sets.entries.map Prod.fst).Nodup
  ascending : ∀ entry ∈ sets.entries, Location.Ascending entry.2

theorem proper_empty : Proper {} :=
  ⟨List.nodup_nil, fun _ member => absurd member List.not_mem_nil⟩

theorem lookup_extend (holder : Holder) (added : List Location)
    (entries : List (Holder × List Location)) (other : Holder) :
    (extend holder added entries).lookup other =
      if other = holder then
        some (Location.union ((entries.lookup holder).getD []) added)
      else entries.lookup other := by
  have missed (one : Holder) (distinct : other ≠ one) : (other == one) = false :=
    beq_false_of_ne distinct
  induction entries with
  | nil =>
    by_cases same : other = holder
    · simp [extend, same]
    · simp [extend, List.lookup_cons, missed holder same, same]
  | cons entry rest ih =>
    obtain ⟨first, held⟩ := entry
    rw [extend]
    by_cases here : holder = first
    · subst here
      by_cases same : other = holder
      · simp [same]
      · simp [List.lookup_cons, missed holder same, same]
    · have passed : (holder == first) = false := beq_false_of_ne here
      rw [if_neg here, List.lookup_cons, List.lookup_cons, List.lookup_cons, ih, passed]
      by_cases same : other = holder
      · simp [same, passed]
      · simp [same]

@[simp]
theorem holds_absorb_iff (sets : PointsToSets) (holder : Holder) (added : List Location)
    (other : Holder) (location : Location) : (sets.absorb holder added).Holds other location ↔
      sets.Holds other location ∨ other = holder ∧ location ∈ added := by
  unfold absorb Holds
  split
  · next nothing => simp [List.isEmpty_iff.mp nothing]
  · rw [get, get, lookup_extend]
    by_cases same : other = holder
    · subst same
      simp [Location.mem_union_iff]
    · simp [same]

theorem map_fst_extend (holder : Holder) (added : List Location)
    (entries : List (Holder × List Location)) :
    (extend holder added entries).map Prod.fst =
      if holder ∈ entries.map Prod.fst then entries.map Prod.fst
      else entries.map Prod.fst ++ [holder] := by
  induction entries with
  | nil => rfl
  | cons entry rest ih =>
    obtain ⟨first, held⟩ := entry
    rw [extend]
    by_cases here : holder = first
    · simp [here]
    · rw [if_neg here, List.map_cons, ih]
      by_cases later : holder ∈ rest.map Prod.fst <;> simp [here, later]

theorem ascending_extend {holder : Holder} (added : List Location)
    {entries : List (Holder × List Location)}
    (ascending : ∀ entry ∈ entries, Location.Ascending entry.2) :
    ∀ entry ∈ extend holder added entries, Location.Ascending entry.2 := by
  induction entries with
  | nil =>
    intro entry member
    rw [List.mem_singleton.mp member]
    exact Location.Ascending.union .nil added
  | cons first rest ih =>
    obtain ⟨here, others⟩ := List.forall_mem_cons.mp ascending
    rw [extend]
    split
    · exact List.forall_mem_cons.mpr ⟨here.union added, others⟩
    · exact List.forall_mem_cons.mpr ⟨here, ih others⟩

theorem Proper.absorb {sets : PointsToSets} (proper : sets.Proper) (holder : Holder)
    (added : List Location) : (sets.absorb holder added).Proper := by
  unfold PointsToSets.absorb
  split
  · exact proper
  · refine ⟨?_, ascending_extend added proper.ascending⟩
    rw [map_fst_extend]
    split
    · exact proper.distinct
    · next absent =>
      refine List.nodup_append.mpr ⟨proper.distinct, List.nodup_singleton _, ?_⟩
      rintro other member _ added rfl
      exact absent (List.mem_singleton.mp added ▸ member)

theorem Proper.ascending_get {sets : PointsToSets} (proper : sets.Proper) (holder : Holder) :
    Location.Ascending (sets.get holder) := by
  rw [get]
  cases found : sets.entries.lookup holder with
  | none => exact .nil
  | some held =>
    obtain ⟨before, after, cut, _⟩ := List.lookup_eq_some_iff.mp found
    exact proper.ascending (holder, held) (by simp [cut])

/-- Sets with the same facts are the same for every holder. -/
theorem Proper.get_eq {sets others : PointsToSets} (proper : sets.Proper) (other : others.Proper)
    (same : sets.Holds = others.Holds) (holder : Holder) : sets.get holder = others.get holder :=
  (proper.ascending_get holder).eq_of_mem_iff (other.ascending_get holder) fun location =>
    iff_of_eq (congrFun (congrFun same holder) location)

/-- Every fact as its holder and its location. -/
def facts (sets : PointsToSets) : List (Holder × Location) :=
  sets.entries.flatMap fun entry => entry.2.map (entry.1, ·)

theorem length_facts (sets : PointsToSets) : sets.facts.length = sets.size := by
  rw [facts, List.length_flatMap, size, ← List.sum_eq_foldr]
  simp

theorem Proper.mem_facts_iff {sets : PointsToSets} (proper : sets.Proper) (holder : Holder)
    (location : Location) : (holder, location) ∈ sets.facts ↔ sets.Holds holder location := by
  simp only [facts, List.mem_flatMap, List.mem_map, Prod.mk.injEq, Holds, get]
  constructor
  · rintro ⟨⟨holder, held⟩, member, _, inside, rfl, rfl⟩
    obtain ⟨before, after, cut⟩ := List.append_of_mem member
    have distinct := proper.distinct
    rw [cut, List.map_append, List.nodup_append] at distinct
    have found : sets.entries.lookup holder = some held := by
      rw [List.lookup_eq_some_iff]
      refine ⟨before, after, cut, fun entry earlier => ?_⟩
      rw [bne_iff_ne]
      rintro same
      exact distinct.2.2 entry.1 (List.mem_map_of_mem earlier) holder List.mem_cons_self same.symm
    rw [found]
    exact inside
  · intro inside
    cases found : sets.entries.lookup holder with
    | none => simp [found] at inside
    | some held =>
      rw [found] at inside
      obtain ⟨before, after, cut, _⟩ := List.lookup_eq_some_iff.mp found
      exact ⟨(holder, held), by simp [cut], location, inside, rfl, rfl⟩

theorem Proper.nodup_facts {sets : PointsToSets} (proper : sets.Proper) : sets.facts.Nodup := by
  rw [facts, List.nodup_flatMap]
  constructor
  · intro entry member
    refine List.Nodup.map (fun _ _ same => (Prod.mk.inj same).2) ?_
    refine List.Pairwise.imp ?_ (proper.ascending entry member)
    rintro first _ less rfl
    rw [Location.precedes_irrefl] at less
    cases less
  · refine List.Pairwise.imp ?_ (List.pairwise_map.mp proper.distinct)
    intro first second distinct fact one other
    obtain ⟨_, _, rfl⟩ := List.mem_map.mp one
    obtain ⟨_, _, same⟩ := List.mem_map.mp other
    exact distinct (Prod.mk.inj same).1.symm

/-- The facts of sets are among those of others. -/
def Within (sets others : PointsToSets) : Prop :=
  ∀ holder location, sets.Holds holder location → others.Holds holder location

/-- There are at most as many facts as pairs of a holder and a location. -/
theorem Proper.size_le {sets : PointsToSets} (proper : sets.Proper) {holders : List Holder}
    {locations : List Location} (inside : ∀ holder location, sets.Holds holder location →
      holder ∈ holders ∧ location ∈ locations) :
    sets.size ≤ holders.length * locations.length := by
  rw [← length_facts, ← List.length_product holders locations]
  refine (List.subperm_of_subset proper.nodup_facts fun fact member => ?_).length_le
  obtain ⟨holder, location⟩ := fact
  exact List.mem_product.mpr (inside holder location ((proper.mem_facts_iff _ _).mp member))

/-- Sets that grow and have no more facts than before have the same facts. -/
theorem Proper.holds_eq {sets others : PointsToSets} (proper : sets.Proper)
    (other : others.Proper) (within : sets.Within others) (still : ¬ sets.size < others.size) :
    sets.Holds = others.Holds := by
  have subset : sets.facts ⊆ others.facts := by
    rintro ⟨holder, location⟩ member
    rw [proper.mem_facts_iff] at member
    rw [other.mem_facts_iff]
    exact within holder location member
  have perm : sets.facts.Perm others.facts := by
    refine (List.subperm_of_subset proper.nodup_facts subset).perm_of_length_le ?_
    rw [length_facts, length_facts]
    exact Nat.le_of_not_lt still
  funext holder location
  rw [← proper.mem_facts_iff, ← other.mem_facts_iff, perm.mem_iff]

end PointsToSets

end ProgramGraphs
