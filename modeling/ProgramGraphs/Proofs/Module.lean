import Mathlib.Data.List.Nodup
import ProgramGraphs.Module
import ProgramGraphs.Proofs.Journal
import ProgramGraphs.Proofs.Keyed

/-! # Loaded modules

A program whose functions share no name becomes a module. After the default passes the program of
the module is the promoted one, and the alias classes kept beside it are those of its functions.
-/

namespace ProgramGraphs

theorem firstRepeatedAfter?_eq_none_iff (seen names : List String) :
    firstRepeatedAfter? seen names = none ↔ names.Nodup ∧ ∀ name ∈ names, name ∉ seen := by
  induction names generalizing seen with
  | nil => simp [firstRepeatedAfter?]
  | cons name rest ih =>
    rw [firstRepeatedAfter?]
    split
    · next repeated =>
      have known : name ∈ seen := by simpa using repeated
      simp [known]
    · next fresh =>
      have unknown : name ∉ seen := by simpa using fresh
      rw [ih, List.nodup_cons, List.forall_mem_cons]
      constructor
      · rintro ⟨distinct, apart⟩
        have notIn : name ∉ rest := fun member => apart name member List.mem_cons_self
        exact ⟨⟨notIn, distinct⟩, unknown,
          fun other member known => apart other member (List.mem_cons_of_mem _ known)⟩
      · rintro ⟨⟨notIn, distinct⟩, _, apart⟩
        refine ⟨distinct, fun other member known => ?_⟩
        rcases List.mem_cons.mp known with rfl | known
        · exact notIn member
        · exact apart other member known

/-- Names are distinct where none is found repeated. -/
theorem firstRepeated?_eq_none_iff (names : List String) :
    firstRepeated? names = none ↔ names.Nodup := by
  rw [firstRepeated?, firstRepeatedAfter?_eq_none_iff]
  simp

/-- A module whose functions have distinct names, with the alias classes of its own functions. -/
structure Module.Current (module : Module) : Prop where
  distinct : (module.functions.map (·.name)).Nodup
  aliases : module.aliases = module.program.aliasClasses

theorem Program.map_name_promote (program : Program) :
    program.promote.functions.map (·.name) = program.functions.map (·.name) := by
  rw [promote, List.map_map]
  rfl

namespace Module

/-- A program becomes a module where its functions share no name; the passes make the rest. -/
theorem ofProgram_yields_iff {name : String} {program : Program} {passes : List Pass}
    {module : Module} : Attempt.Yields (ofProgram name program passes) module ↔
      program.functionNames.Nodup ∧
        (passes.foldlM runPass ⟨name, program, []⟩ : Logged Module).result = module := by
  unfold ofProgram
  dsimp only
  split
  · next repeated =>
    have shared : ¬ program.functionNames.Nodup := by
      rw [← firstRepeated?_eq_none_iff, repeated]
      simp
    simp [shared]
  · next distinct =>
    rw [firstRepeated?_eq_none_iff] at distinct
    simp only [distinct, true_and, Attempt.yields_bind_iff, Attempt.yields_lift_iff,
      Attempt.yields_pure_iff]
    constructor
    · rintro ⟨_, made, _, rfl⟩
      exact made
    · exact fun made => ⟨_, made, (), rfl⟩

/-- The default passes promote the program and then find its alias classes. -/
theorem ofProgram_defaults {name : String} {program : Program} {module : Module}
    (loads : Attempt.Yields (ofProgram name program Pass.defaults) module) :
    module.program = program.promote ∧ module.Current := by
  obtain ⟨distinct, rfl⟩ := ofProgram_yields_iff.mp loads
  refine ⟨rfl, ?_, rfl⟩
  change (program.promote.functions.map (·.name)).Nodup
  rw [program.map_name_promote]
  exact (List.nodup_append.mp distinct).1

/-- What every pass keeps, a run of passes keeps. -/
theorem foldlM_runPass_keeps (invariant : Module → Prop)
    (kept : ∀ module pass, invariant module → invariant (module.runPass pass).result)
    (passes : List Pass) {module : Module} (first : invariant module) :
    invariant (passes.foldlM runPass module : Logged Module).result := by
  induction passes generalizing module with
  | nil => exact first
  | cons pass rest ih =>
    rw [List.foldlM_cons]
    exact ih (kept module pass first)

/-- No pass renames, adds or drops a function. -/
theorem map_name_runPass (module : Module) (pass : Pass) :
    (module.runPass pass).result.functions.map (·.name) = module.functions.map (·.name) := by
  cases pass with
  | promoteMemory => exact module.program.map_name_promote
  | basicAlias => rfl

theorem map_name_foldlM_runPass (passes : List Pass) (module : Module) :
    (passes.foldlM runPass module : Logged Module).result.functions.map (·.name) =
      module.functions.map (·.name) :=
  foldlM_runPass_keeps
    (fun reached => reached.functions.map (·.name) = module.functions.map (·.name))
    (fun reached pass same => (reached.map_name_runPass pass).trans same) passes rfl

/-- The functions of a loaded module have distinct names, whatever passes have run. -/
theorem distinct_of_ofProgram {name : String} {program : Program} {passes : List Pass}
    {module : Module} (loads : Attempt.Yields (ofProgram name program passes) module) :
    (module.functions.map (·.name)).Nodup := by
  obtain ⟨distinct, rfl⟩ := ofProgram_yields_iff.mp loads
  rw [map_name_foldlM_runPass]
  exact (List.nodup_append.mp distinct).1

namespace Current

variable {module : Module}

theorem function_eq (current : module.Current) {function : Function}
    (member : function ∈ module.functions) :
    module.program.function? function.name = some function :=
  find?_key_of_mem current.distinct member

theorem aliasesOf_eq (current : module.Current) {function : Function}
    (member : function ∈ module.functions) :
    module.aliasesOf function.name = function.aliasClasses := by
  have found := lookup_map_key_of_mem Function.aliasClasses current.distinct member
  rw [aliasesOf, current.aliases]
  exact congrArg (·.getD {}) found

end Current

end Module

end ProgramGraphs
