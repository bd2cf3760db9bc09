import ProgramGraphs.Proofs.Module.Passes
import ProgramGraphs.Proofs.PointsTo.Solution

/-! # Strategies compared

Both strategies list the functions that a call may reach in ascending order of their names. Matching
signatures lists every function that takes as many arguments as the call passes and returns a value
exactly where the call keeps one. So of the functions of a module that points-to sets allow it
leaves out those, and only those, whose signature does not fit the call
(`trivial_covers_andersen`); a call that drops the result of a function is an example.
-/

namespace ProgramGraphs

theorem Program.map_name_signatures (program : Program) :
    program.signatures.map (·.name) = program.functionNames := by
  rw [signatures, functionNames, List.map_append, List.map_map, List.map_map]
  rfl

namespace PointsTo

theorem fits_iff {call : Instruction} {signature : Signature} : fits call signature = true ↔
    signature.arity = call.args.length - 1 ∧ signature.returns = call.dest.isSome := by
  simp [fits]

theorem mem_sortNames_iff {names : List String} {name : String} :
    name ∈ sortNames names ↔ name ∈ names :=
  (List.mergeSort_perm ..).mem_iff

/-- Distinct names are sorted into ascending order. -/
theorem pairwise_sortNames {names : List String} (distinct : names.Nodup) :
    (sortNames names).Pairwise (· < ·) := by
  have ordered_iff (a b : String) : (!decide (b < a)) = true ↔ a ≤ b := by
    rw [Bool.not_eq_true', decide_eq_false_iff_not, not_lt]
  have sorted : (sortNames names).Pairwise fun a b => (!decide (b < a)) = true := by
    refine List.pairwise_mergeSort (fun a b c first second => ?_) (fun a b => ?_) names
    · rw [ordered_iff] at first second ⊢
      exact first.trans second
    · rw [Bool.or_eq_true, ordered_iff, ordered_iff]
      exact le_total a b
  have apart : (sortNames names).Nodup := (List.mergeSort_perm ..).nodup_iff.mpr distinct
  exact sorted.imp₂ (fun a b ordered => lt_of_le_of_ne ((ordered_iff a b).mp ordered)) apart

/-- The functions in ascending locations are in ascending order. -/
theorem pairwise_function? {locations : List Location} (ascending : Location.Ascending locations) :
    (locations.filterMap Location.function?).Pairwise (· < ·) := by
  refine List.pairwise_filterMap.mpr (ascending.imp fun {first second} before a isA b isB => ?_)
  cases first <;> cases isA
  cases second <;> cases isB
  exact of_decide_eq_true before

theorem mem_targets_bySignature_iff {program : Program} {caller callee : String}
    {call : Instruction} : callee ∈ (bySignature program).targets caller call ↔
      ∃ signature ∈ program.signatures, signature.name = callee ∧ fits call signature = true := by
  rw [bySignature, mem_sortNames_iff, List.mem_map]
  refine exists_congr fun signature => ?_
  rw [List.mem_filter, and_assoc, and_comm (b := signature.name = callee)]

theorem pairwise_targets_bySignature {program : Program} (distinct : program.functionNames.Nodup)
    (caller : String) (call : Instruction) :
    ((bySignature program).targets caller call).Pairwise (· < ·) := by
  refine pairwise_sortNames (distinct.sublist ?_)
  rw [← program.map_name_signatures]
  exact List.filter_sublist.map _

end PointsTo

theorem PointsToSets.pairwise_targets_solve (program : Program) (caller : String)
    (call : Instruction) : ((solve program).result.targets caller call).Pairwise (· < ·) := by
  unfold targets
  split
  · exact PointsTo.pairwise_function? (ascending_solve program _)
  · exact .nil

namespace Strategy

/-- Of the functions of a module that points-to sets allow for a call, matching signatures leaves
out those whose signature does not fit the call, and lists the others in the same order. -/
theorem trivial_covers_andersen {name : String} {program : Program} {passes : List Pass}
    {module : Module} (loads : Attempt.Yields (Module.ofProgram name program passes) module)
    (caller : String) (call : Instruction) :
    (∀ callee ∈ (Strategy.andersen.run module.program).result.targets caller call,
      ∀ signature ∈ module.program.signatures, signature.name = callee →
        (callee ∈ (Strategy.trivial.run module.program).result.targets caller call ↔
          signature.arity = call.args.length - 1 ∧ signature.returns = call.dest.isSome)) ∧
    (((Strategy.andersen.run module.program).result.targets caller call).filter fun callee =>
        module.program.signatures.any fun signature =>
          signature.name == callee && PointsTo.fits call signature).Sublist
      ((Strategy.trivial.run module.program).result.targets caller call) := by
  have distinct := Module.nodup_functionNames loads
  constructor
  · rintro _ - signature member rfl
    rw [← PointsTo.fits_iff]
    refine PointsTo.mem_targets_bySignature_iff.trans ⟨?_, fun fits => ⟨_, member, rfl, fits⟩⟩
    rintro ⟨other, listed, same, fits⟩
    rw [← Program.map_name_signatures] at distinct
    rwa [List.inj_on_of_nodup_map distinct listed member same] at fits
  · have allowed := (PointsToSets.pairwise_targets_solve module.program caller call).filter
      fun callee => module.program.signatures.any fun signature =>
        signature.name == callee && PointsTo.fits call signature
    refine List.sublist_of_subperm_of_pairwise ?_ allowed
      (PointsTo.pairwise_targets_bySignature distinct caller call)
    refine List.subperm_of_subset (allowed.imp fun less => ne_of_lt less) fun callee member => ?_
    obtain ⟨-, declared⟩ := List.mem_filter.mp member
    obtain ⟨signature, listed, fitting⟩ := List.any_eq_true.mp declared
    rw [Bool.and_eq_true, beq_iff_eq] at fitting
    exact PointsTo.mem_targets_bySignature_iff.mpr ⟨signature, listed, fitting⟩

/-- A function that calls two others through pointers and drops the result of the first. -/
def dropsResult : Function where
  name := "main"
  body := [
    .instruction { name := "fnaddr", dest := some "p", funcs := ["count"] },
    .instruction { name := "icall", args := ["p"] },
    .instruction { name := "fnaddr", dest := some "q", funcs := ["log"] },
    .instruction { name := "icall", args := ["q"] }]

/-- A program with two functions that are only declared; one of them returns a value. -/
def callsDeclared : Program where
  functions := [dropsResult]
  externs := [{ name := "count", returnType := some (.named "int") }, { name := "log" }]

theorem loads_callsDeclared : Attempt.Yields (Module.ofProgram "m" callsDeclared Pass.defaults)
    ⟨"m", callsDeclared.promote, callsDeclared.promote.aliasClasses⟩ :=
  Module.ofProgram_yields_iff.mpr ⟨by decide, rfl⟩

theorem allows_callsDeclared (site : Nat) {pointer callee : String}
    (here : dropsResult.promote.instructions[site]? =
      some { name := "fnaddr", dest := some pointer, funcs := [callee] }) :
    callee ∈ (Strategy.andersen.run callsDeclared.promote).result.targets "main"
      { name := "icall", args := [pointer] } := by
  have held := PointsToSets.solves_solve callsDeclared.promote _ (.head _) site _ here _ _
    (.fnaddr rfl rfl rfl)
  exact List.mem_filterMap.mpr ⟨_, held, rfl⟩

/-- Both strategies list the function that returns nothing. -/
theorem trivial_covers_andersen_callsDeclared : ∃ module,
    Attempt.Yields (Module.ofProgram "m" callsDeclared Pass.defaults) module ∧
      "log" ∈ (Strategy.andersen.run module.program).result.targets "main"
        { name := "icall", args := ["q"] } ∧
      "log" ∈ (Strategy.trivial.run module.program).result.targets "main"
        { name := "icall", args := ["q"] } := by
  refine ⟨_, loads_callsDeclared, allows_callsDeclared 2 rfl, ?_⟩
  obtain ⟨covers, -⟩ := trivial_covers_andersen loads_callsDeclared "main"
    { name := "icall", args := ["q"] }
  exact (covers "log" (allows_callsDeclared 2 rfl) ⟨"log", 0, false, false⟩ (by decide)
    rfl).mpr ⟨rfl, rfl⟩

/-- Only one of them lists the function whose result the call drops. -/
theorem drops_callsDeclared : ∃ module,
    Attempt.Yields (Module.ofProgram "m" callsDeclared Pass.defaults) module ∧
      ∃ function ∈ module.functions, ∃ call ∈ function.instructions, call.opcode = .icall ∧
        ∃ callee ∈ module.program.functionNames,
          callee ∈ (Strategy.andersen.run module.program).result.targets function.name call ∧
            callee ∉ (Strategy.trivial.run module.program).result.targets function.name call := by
  refine ⟨_, loads_callsDeclared, dropsResult.promote, .head _,
    { name := "icall", args := ["p"] }, List.mem_of_getElem? (i := 1) rfl, rfl, "count", by decide,
    allows_callsDeclared 0 rfl, fun listed => ?_⟩
  exact absurd (PointsTo.mem_targets_bySignature_iff.mp listed) (by decide)

end Strategy

end ProgramGraphs
