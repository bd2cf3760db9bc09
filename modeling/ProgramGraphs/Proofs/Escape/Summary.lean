import Mathlib.Algebra.Order.BigOperators.Group.List
import Mathlib.Algebra.Order.Group.Nat
import Mathlib.Data.List.Forall2
import ProgramGraphs.Escape
import ProgramGraphs.Proofs.Keyed

/-! # The order of escape summaries

A summary is within another if what escapes by the first escapes by the second. The number of
parameters that are not known to escape falls along this order, and does not stay the same unless
the summaries do (`eq_of_within`).
-/

namespace ProgramGraphs

/-- What escapes by some flags escapes by others. -/
abbrev FlagsWithin : List Bool → List Bool → Prop :=
  List.Forall₂ fun less more => less = true → more = true

namespace FlagsWithin

theorem refl (flags : List Bool) : FlagsWithin flags flags :=
  List.forall₂_same.mpr fun _ _ => id

theorem trans {first second third : List Bool} (one : FlagsWithin first second)
    (other : FlagsWithin second third) : FlagsWithin first third := by
  induction one generalizing third with
  | nil => exact other
  | cons here _ ih =>
    cases other with
    | cons there rest => exact .cons (there ∘ here) (ih rest)

/-- No flag escapes by a list without any set. -/
theorem of_replicate (flags : List Bool) :
    FlagsWithin (List.replicate flags.length false) flags := by
  induction flags with
  | nil => exact .nil
  | cons flag rest ih => exact .cons (fun impossible => nomatch impossible) ih

theorem getElem? {less more : List Bool} (within : FlagsWithin less more) (position : Nat)
    (escapes : less[position]?.getD false = true) : more[position]?.getD false = true := by
  induction within generalizing position with
  | nil => exact escapes
  | cons here _ ih =>
    cases position with
    | zero => exact here escapes
    | succ position => exact ih position escapes

theorem count_le {less more : List Bool} (within : FlagsWithin less more) :
    more.count false ≤ less.count false := by
  induction within with
  | nil => exact Nat.le_refl _
  | @cons less more _ _ here _ ih =>
    cases less <;> cases more <;> simp at here ⊢ <;> omega

theorem eq_of_count_le {less more : List Bool} (within : FlagsWithin less more)
    (count : less.count false ≤ more.count false) : less = more := by
  induction within with
  | nil => rfl
  | @cons less more _ _ here rest ih =>
    have bound := count_le rest
    cases less <;> cases more <;> simp at here count ⊢
    · exact ih count
    · omega
    · exact ih count

end FlagsWithin

namespace EscapeSummaries

variable {summaries others : EscapeSummaries}

/-- The functions that are summed up. -/
def names (summaries : EscapeSummaries) : List String :=
  summaries.entries.map Prod.fst

/-- The flags of a function; none if it is not summed up. -/
def flags (summaries : EscapeSummaries) (function : String) : List Bool :=
  (summaries.find? function).getD []

theorem find?_eq_none_iff (summaries : EscapeSummaries) (function : String) :
    summaries.find? function = none ↔ function ∉ summaries.names := by
  rw [find?, List.lookup_eq_none_iff, names, List.mem_map]
  constructor
  · rintro apart ⟨entry, member, rfl⟩
    simpa using apart entry member
  · intro absent entry member
    simpa using fun same : function = entry.1 => absent ⟨entry, member, same.symm⟩

theorem find?_eq_of_mem {function : String} (member : function ∈ summaries.names) :
    summaries.find? function = some (summaries.flags function) := by
  cases found : summaries.find? function with
  | none => exact absurd member ((find?_eq_none_iff _ _).mp found)
  | some held => rw [flags, found, Option.getD_some]

theorem find?_set (summaries : EscapeSummaries) (function : String) (held : List Bool)
    (other : String) : (summaries.set function held).find? other =
      (summaries.find? other).map fun before => if other = function then held else before :=
  lookup_map_value summaries.entries (fun name before => if name = function then held else before)
    other

@[simp]
theorem names_set (summaries : EscapeSummaries) (function : String) (held : List Bool) :
    (summaries.set function held).names = summaries.names := by
  simp [names, set, Function.comp_def]

theorem flags_set_same {function : String} (member : function ∈ summaries.names)
    (held : List Bool) : (summaries.set function held).flags function = held := by
  rw [flags, find?_set, find?_eq_of_mem member, Option.map_some, if_pos rfl, Option.getD_some]

theorem flags_set_other {function other : String} (distinct : other ≠ function)
    (held : List Bool) : (summaries.set function held).flags other = summaries.flags other := by
  rw [flags, find?_set, flags]
  simp only [if_neg distinct, Option.map_id']

theorem set_eq_self (distinct : summaries.names.Nodup) {function : String} {held : List Bool}
    (found : summaries.find? function = some held) : summaries.set function held = summaries := by
  have entries : (summaries.set function held).entries = summaries.entries := by
    refine (List.map_congr_left fun entry member => ?_).trans (List.map_id _)
    obtain ⟨name, before⟩ := entry
    by_cases same : name = function
    · have there := lookup_map_key_of_mem Prod.snd distinct member
      rw [List.map_id'' (fun _ => rfl), same] at there
      have equal : held = before := Option.some_inj.mp (found.symm.trans there)
      simp [same, equal]
    · simp [same]
  exact congrArg mk entries

/-- What escapes by one summary escapes by another of the same functions. -/
structure Within (summaries others : EscapeSummaries) : Prop where
  names_eq : summaries.names = others.names
  flags : ∀ function, FlagsWithin (summaries.flags function) (others.flags function)

theorem Within.refl (summaries : EscapeSummaries) : summaries.Within summaries :=
  ⟨rfl, fun _ => .refl _⟩

theorem Within.trans {third : EscapeSummaries} (one : summaries.Within others)
    (other : others.Within third) : summaries.Within third :=
  ⟨one.names_eq.trans other.names_eq, fun function =>
    (one.flags function).trans (other.flags function)⟩

/-- The more is known to escape and the more a policy lets escape, the more escapes to callees. -/
theorem Within.passedTo? (within : summaries.Within others) {policy wider : EscapePolicy}
    (lets : ∀ callee position, policy callee position = true → wider callee position = true)
    {callee : String} {position : Nat}
    (escapes : (summaries.passedTo? policy callee position).isSome) :
    (others.passedTo? wider callee position).isSome := by
  unfold EscapeSummaries.passedTo? at escapes ⊢
  by_cases member : callee ∈ summaries.names
  · rw [find?_eq_of_mem (within.names_eq ▸ member)]
    rw [find?_eq_of_mem member] at escapes
    have known : (summaries.flags callee)[position]?.getD false = true := by
      by_contra quiet
      simp [quiet] at escapes
    simp [(within.flags callee).getElem? position known]
  · rw [(find?_eq_none_iff others callee).mpr (within.names_eq ▸ member)]
    rw [(find?_eq_none_iff summaries callee).mpr member] at escapes
    have known : policy callee position = true := by
      by_contra quiet
      simp [quiet] at escapes
    simp [lets callee position known]

theorem entries_eq (distinct : summaries.names.Nodup) :
    summaries.entries = summaries.names.map fun name => (name, summaries.flags name) := by
  rw [names, List.map_map]
  refine (List.map_id'' (fun _ => rfl) _).symm.trans (List.map_congr_left fun entry member => ?_)
  have found := lookup_map_key_of_mem Prod.snd distinct member
  rw [List.map_id'' (fun _ => rfl)] at found
  change entry = (entry.1, (summaries.entries.lookup entry.1).getD [])
  rw [found, Option.getD_some]

theorem quiet_eq (distinct : summaries.names.Nodup) :
    summaries.quiet =
      (summaries.names.map fun name => (summaries.flags name).count false).foldr (· + ·) 0 := by
  rw [quiet, entries_eq distinct, List.map_map]
  rfl

theorem Within.quiet_le (distinct : summaries.names.Nodup) (within : summaries.Within others) :
    others.quiet ≤ summaries.quiet := by
  have distinctOthers : others.names.Nodup := within.names_eq ▸ distinct
  rw [quiet_eq distinct, quiet_eq distinctOthers, ← within.names_eq, ← List.sum_eq_foldr,
    ← List.sum_eq_foldr]
  exact List.sum_le_sum fun name _ => (within.flags name).count_le

/-- Among summaries that grow, those with as many quiet parameters are the same. -/
theorem eq_of_within (distinct : summaries.names.Nodup) (within : summaries.Within others)
    (quiet : ¬ others.quiet < summaries.quiet) : summaries = others := by
  have distinctOthers : others.names.Nodup := within.names_eq ▸ distinct
  rw [quiet_eq distinct, quiet_eq distinctOthers, ← within.names_eq, ← List.sum_eq_foldr,
    ← List.sum_eq_foldr] at quiet
  have same : ∀ name ∈ summaries.names, summaries.flags name = others.flags name := by
    intro name member
    refine (within.flags name).eq_of_count_le (Nat.le_of_not_lt fun less => quiet ?_)
    exact List.sum_lt_sum (fun name => (others.flags name).count false)
      (fun name => (summaries.flags name).count false)
      (fun other _ => (within.flags other).count_le) ⟨name, member, less⟩
  have entries : summaries.entries = others.entries := by
    rw [entries_eq distinct, entries_eq distinctOthers, ← within.names_eq]
    exact List.map_congr_left fun name member => by rw [same name member]
  cases summaries
  cases others
  exact congrArg mk entries

end EscapeSummaries

end ProgramGraphs
