import Mathlib.Data.List.Nodup
import Mathlib.Data.List.Perm.Subperm
import ProgramGraphs.Fresh

/-! # The search for a fresh name

Candidates that differ from each other cannot all be taken: of the first ones, one more than there
are taken names, one is free. So the search for a fresh name ends at the first candidate that is
free, and goes past no more candidates than there are taken names.
-/

namespace ProgramGraphs

/-- One of the first candidates is free. -/
theorem exists_free (candidate : Nat → String) (injective : Function.Injective candidate)
    (taken : List String) : ∃ index < taken.length + 1, candidate index ∉ taken := by
  by_contra full
  push Not at full
  have subset : (List.range (taken.length + 1)).map candidate ⊆ taken := by
    intro name member
    obtain ⟨index, inRange, rfl⟩ := List.mem_map.mp member
    exact full index (List.mem_range.mp inRange)
  have distinct := List.nodup_range.map injective (l := List.range (taken.length + 1))
  have bound := (List.subperm_of_subset distinct subset).length_le
  simp only [List.length_map, List.length_range] at bound
  omega

/-- A fresh name is not taken. -/
theorem freshName_notMem (candidate : Nat → String) (injective : Function.Injective candidate)
    (taken : List String) : freshName candidate taken ∉ taken := by
  obtain ⟨free, less, unused⟩ := exists_free candidate injective taken
  cases found : (List.range (taken.length + 1)).find? fun index =>
      !taken.contains (candidate index) with
  | none =>
    have missed := List.find?_eq_none.mp found free (List.mem_range.mpr less)
    simp [unused] at missed
  | some index =>
    have accepted := List.find?_some found
    rw [freshName, freshIndex, found]
    simpa using accepted

/-- All candidates before the fresh name are taken. -/
theorem mem_of_lt_freshIndex {candidate : Nat → String} {taken : List String} {index : Nat}
    (earlier : index < freshIndex candidate taken) : candidate index ∈ taken := by
  rw [freshIndex] at earlier
  cases found : (List.range (taken.length + 1)).find? fun index =>
      !taken.contains (candidate index) with
  | none =>
    rw [found, Option.getD_none] at earlier
    exact absurd earlier (Nat.not_lt_zero _)
  | some first =>
    rw [found, Option.getD_some] at earlier
    obtain ⟨-, -, passed⟩ := List.find?_range_eq_some.mp found
    simpa using passed index earlier

/-- The search for a fresh name ends with the first candidate after those that are taken. -/
theorem freshIndex_le (candidate : Nat → String) (injective : Function.Injective candidate)
    (taken : List String) : freshIndex candidate taken ≤ taken.length := by
  obtain ⟨free, less, unused⟩ := exists_free candidate injective taken
  by_contra beyond
  apply unused
  apply mem_of_lt_freshIndex
  omega

end ProgramGraphs
