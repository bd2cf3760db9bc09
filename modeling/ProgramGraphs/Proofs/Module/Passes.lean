import Mathlib.Logic.Function.Iterate
import ProgramGraphs.Proofs.Module

/-! # Alias classes after passes

A pass works on what the passes before it have made, and none looks back: promotion rewrites the
functions and leaves the alias classes as they are. So the classes that a module keeps are those of
its functions as the last alias pass has found them. They are the classes of the functions that the
module has where no promotion comes later (`aliasesOf_ofProgram`), and need not be where one does.
-/

namespace ProgramGraphs

namespace Module

theorem functionNames_runPass (module : Module) (pass : Pass) :
    (module.runPass pass).result.program.functionNames = module.program.functionNames := by
  cases pass with
  | promoteMemory => exact congrArg (· ++ _) module.program.map_name_promote
  | basicAlias => rfl

/-- The functions of a module, those that are only declared included, have distinct names. -/
theorem nodup_functionNames {name : String} {program : Program} {passes : List Pass}
    {module : Module} (loads : Attempt.Yields (ofProgram name program passes) module) :
    module.program.functionNames.Nodup := by
  obtain ⟨distinct, rfl⟩ := ofProgram_yields_iff.mp loads
  refine foldlM_runPass_keeps (·.program.functionNames.Nodup) (fun reached pass kept => ?_) passes
    distinct
  rwa [functionNames_runPass]

/-- The result of passes is that of the later ones on what the earlier ones have made. -/
theorem result_foldlM_append (before after : List Pass) (module : Module) :
    ((before ++ after).foldlM runPass module : Logged Module).result =
      (after.foldlM runPass (before.foldlM runPass module : Logged Module).result :
        Logged Module).result := by
  rw [List.foldlM_append, Logged.result_bind]

/-- Passes without the alias pass promote, once each, and leave the alias classes as they are. -/
theorem foldlM_runPass_of_notMem {passes : List Pass} (apart : .basicAlias ∉ passes)
    (module : Module) :
    (passes.foldlM runPass module : Logged Module).result.aliases = module.aliases ∧
      (passes.foldlM runPass module : Logged Module).result.functions =
        module.functions.map Function.promote^[passes.length] := by
  induction passes generalizing module with
  | nil => exact ⟨rfl, (List.map_id _).symm⟩
  | cons pass rest ih =>
    obtain ⟨other, later⟩ := List.ne_and_not_mem_of_not_mem_cons apart
    cases pass with
    | basicAlias => exact absurd rfl other
    | promoteMemory =>
      rw [List.foldlM_cons, Logged.result_bind]
      obtain ⟨classes, functions⟩ := ih later (module.runPass .promoteMemory).result
      refine ⟨classes, functions.trans ?_⟩
      change (module.functions.map Function.promote).map _ = _
      rw [List.map_map, List.length_cons, Function.iterate_succ]

/-- The last place of a pass among others. -/
theorem exists_last {pass : Pass} {passes : List Pass} (asked : pass ∈ passes) :
    ∃ before after, passes = before ++ pass :: after ∧ pass ∉ after := by
  obtain ⟨after, before, cut, apart⟩ := List.eq_append_cons_of_mem (List.mem_reverse.mpr asked)
  refine ⟨before.reverse, after.reverse, ?_, fun later => apart (List.mem_reverse.mp later)⟩
  rw [← List.reverse_reverse passes, cut]
  simp

/-- The alias classes of a module are those of its functions before the promotions that come after
the last alias pass; those of the functions that it has, if that pass comes last. -/
theorem aliasesOf_ofProgram {name : String} {program : Program} {passes : List Pass}
    {module : Module} (loads : Attempt.Yields (ofProgram name program passes) module)
    (asked : .basicAlias ∈ passes) :
    (∃ before after earlier, passes = before ++ .basicAlias :: after ∧ .basicAlias ∉ after ∧
      Attempt.Yields (ofProgram name program before) earlier ∧
      module.functions = earlier.functions.map Function.promote^[after.length] ∧
      ∀ function ∈ earlier.functions,
        module.aliasesOf function.name = function.aliasClasses) ∧
    (passes.getLast? = some .basicAlias → ∀ function ∈ module.functions,
      module.aliasesOf function.name = function.aliasClasses) := by
  obtain ⟨before, after, rfl, apart⟩ := exists_last asked
  obtain ⟨distinct, rfl⟩ := ofProgram_yields_iff.mp loads
  rw [result_foldlM_append, List.foldlM_cons, Logged.result_bind]
  have starts : Attempt.Yields (ofProgram name program before)
      (before.foldlM runPass ⟨name, program, []⟩ : Logged Module).result :=
    ofProgram_yields_iff.mpr ⟨distinct, rfl⟩
  generalize (before.foldlM runPass ⟨name, program, []⟩ : Logged Module).result = earlier at *
  obtain ⟨classes, functions⟩ :=
    foldlM_runPass_of_notMem apart (earlier.runPass .basicAlias).result
  generalize (after.foldlM runPass _ : Logged Module).result = module at *
  have found : ∀ function ∈ earlier.functions,
      module.aliasesOf function.name = function.aliasClasses := by
    intro function member
    have listed := lookup_map_key_of_mem Function.aliasClasses (distinct_of_ofProgram starts) member
    rw [aliasesOf, classes]
    exact congrArg (·.getD {}) listed
  refine ⟨⟨before, after, earlier, rfl, apart, starts, functions, found⟩, fun last => ?_⟩
  have done : after = [] := by
    cases after with
    | nil => rfl
    | cons pass rest =>
      rw [List.getLast?_append_cons, List.getLast?_cons_cons] at last
      exact absurd (List.mem_of_getLast? last) apart
  subst done
  intro function member
  rw [functions, List.length_nil, Function.iterate_zero, List.map_id] at member
  exact found function member

/-- A function that keeps a pointer in a slot and returns what it loads from there. -/
def keepsPointer : Function where
  name := "f"
  parameters := [⟨"p", .pointer (.named "int")⟩, ⟨"n", .named "int"⟩]
  returnType := some (.pointer (.named "int"))
  body := [
    .instruction
      { name := "alloc", dest := some "s", type := some (.pointer (.pointer (.named "int"))),
        args := ["n"] },
    .instruction { name := "store", args := ["s", "p"] },
    .instruction
      { name := "load", dest := some "q", type := some (.pointer (.named "int")),
        args := ["s"] },
    .instruction { name := "free", args := ["s"] },
    .instruction { name := "ret", args := ["q"] }]

/-- With the alias pass after promotion, the pointer that is loaded is known for a copy of the one
that is stored. -/
theorem aliasesOf_ofProgram_keepsPointer : ∃ module,
    Attempt.Yields (ofProgram "m" ⟨[keepsPointer], []⟩ [.basicAlias, .promoteMemory, .basicAlias])
      module ∧ (module.aliasesOf "f").sameClass "q" "p" = true := by
  have loads : Attempt.Yields (ofProgram "m" ⟨[keepsPointer], []⟩
      [.basicAlias, .promoteMemory, .basicAlias])
      ⟨"m", ⟨[keepsPointer.promote], []⟩, [("f", keepsPointer.promote.aliasClasses)]⟩ :=
    ofProgram_yields_iff.mpr ⟨by decide, rfl⟩
  obtain ⟨-, current⟩ := aliasesOf_ofProgram loads (by decide)
  have found : _ = keepsPointer.promote.aliasClasses := current rfl _ (.head _)
  exact ⟨_, loads, (congrArg (AliasClasses.sameClass · "q" "p") found).trans (by decide)⟩

/-- With promotion after the alias pass, the classes are not those of the promoted function. -/
theorem aliasesOf_ne_keepsPointer : ∃ module,
    Attempt.Yields (ofProgram "m" ⟨[keepsPointer], []⟩ [.basicAlias, .promoteMemory]) module ∧
      ∃ function ∈ module.functions,
        module.aliasesOf function.name ≠ function.aliasClasses := by
  refine ⟨_, ofProgram_yields_iff.mpr ⟨by decide, rfl⟩, keepsPointer.promote, .head _, ?_⟩
  decide

end Module

end ProgramGraphs
