import ProgramGraphs.Proofs.Escape.Least

/-! # The more is let through, the more escapes

In a wider context, one with a laxer policy or with coarser alias classes, every analysis finds at
least as much. So the summaries that settle in the wider context are closed in the narrower one, and
those that settle there, the least, are within them: both runs report the same tracked pointers, and
what escapes by the first escapes by the second (`run_monotone`).
-/

namespace ProgramGraphs

/-- The same pointer is tracked, and if it escapes by the first account, it does by the second. -/
structure TrackedPointer.Within (pointer wider : TrackedPointer) : Prop where
  name_eq : pointer.name = wider.name
  origin_eq : pointer.origin = wider.origin
  escapes : pointer.escapes = true → wider.escapes = true

/-- The same pointers of the same function are tracked, and what escapes by the first account does
by the second. -/
structure FunctionEscape.Within (found wider : FunctionEscape) : Prop where
  function_eq : found.function = wider.function
  pointers : List.Forall₂ TrackedPointer.Within found.pointers wider.pointers
  parameters : FlagsWithin found.parameters wider.parameters

namespace EscapeReport

variable {report wider : EscapeReport}

/-- Two reports are on the same functions, and what escapes by the first escapes by the second, also
where it is asked for by name. -/
structure Within (report wider : EscapeReport) : Prop where
  functions : List.Forall₂ FunctionEscape.Within report.functions wider.functions
  pointers : ∀ function pointer, report.escapes? function pointer = some true →
    wider.escapes? function pointer = some true
  parameters : ∀ function position, report.parameterEscapes function position = true →
    wider.parameterEscapes function position = true

theorem exists_function? (functions : List.Forall₂ FunctionEscape.Within report.functions
    wider.functions) {name : String} {found : FunctionEscape}
    (there : report.function? name = some found) :
    ∃ other, wider.function? name = some other ∧ found.Within other :=
  exists_find?_of_forall₂ functions (fun _ _ within => by rw [within.function_eq]) there

theorem within_of_functions (functions : List.Forall₂ FunctionEscape.Within report.functions
    wider.functions) : report.Within wider := by
  refine ⟨functions, fun function pointer escapes => ?_, fun function position escapes => ?_⟩
  · obtain ⟨found, there, escapes⟩ := Option.bind_eq_some_iff.mp escapes
    obtain ⟨tracked, listed, escapes⟩ := Option.bind_eq_some_iff.mp escapes
    obtain ⟨other, thereToo, within⟩ := exists_function? functions there
    have named : ∀ tracked second, TrackedPointer.Within tracked second →
        (tracked.name == pointer) = (second.name == pointer) := by
      intro tracked second within
      rw [within.name_eq]
    obtain ⟨second, listedToo, narrower⟩ := exists_find?_of_forall₂ within.pointers named listed
    rw [escapes?, thereToo, Option.bind_eq_bind, Option.bind_some, listedToo]
    exact congrArg some (narrower.escapes (Option.some.inj escapes))
  · rw [parameterEscapes] at escapes ⊢
    cases there : report.function? function with
    | none => simp [there] at escapes
    | some found =>
      obtain ⟨other, thereToo, within⟩ := exists_function? functions there
      rw [there, Option.bind_some] at escapes
      rw [thereToo, Option.bind_some]
      exact within.parameters.getElem? position escapes

end EscapeReport

/-- What is one class without merging is in one class. -/
theorem AliasClasses.sameClass_of_blank {classes : AliasClasses} {a b : String}
    (same : sameClass {} a b = true) : classes.sameClass a b = true := by
  obtain rfl : a = b := eq_of_beq same
  exact beq_self_eq_true _

namespace EscapeContext

variable {context wider : EscapeContext} {summaries others : EscapeSummaries}

/-- An analysis finds no less in a wider context, under wider summaries. -/
theorem Below.analyse_within (below : context.Below wider) (within : summaries.Within others)
    (function : Function) :
    (context.analyse summaries function).Within (wider.analyse others function) where
  function_eq := rfl
  pointers := by
    refine List.forall₂_map_left_iff.mpr (List.forall₂_map_right_iff.mpr
      (List.forall₂_same.mpr fun tracked _ => ?_))
    exact ⟨rfl, rfl, below.pointer_escapes within⟩
  parameters := below.parameters_within within function

/-- What settles in a wider context is closed in a narrower one. -/
theorem Below.closed (below : context.Below wider) (ordered : wider.Ordered)
    (progress : wider.Progress wider.calls.bottomUp others) : context.Closed others := by
  refine ⟨progress.names_eq.trans (by rw [below.functions]), fun function member => ?_⟩
  rw [below.functions] at member
  have covered := ordered.bottomUp.covers function member
  rw [← progress.settled function member covered]
  exact below.parameters_within (.refl others) function

/-- Runs in a context and in a wider one both end, and the second reports no less. -/
theorem Below.exists_runs (below : context.Below wider) (ordered : context.Ordered)
    (orderedWider : wider.Ordered) :
    ∃ report more, Attempt.Yields context.run report ∧ Attempt.Yields wider.run more ∧
      report.Within more := by
  obtain ⟨summaries, settles, -⟩ := exists_settled ordered
  obtain ⟨others, settlesWider, progress⟩ := exists_settled orderedWider
  have within : summaries.Within others :=
    (below.closed orderedWider progress).within_of_yields ordered settles
  refine ⟨_, _, yields_run settles, yields_run settlesWider,
    EscapeReport.within_of_functions ?_⟩
  rw [← below.functions]
  exact List.forall₂_map_left_iff.mpr (List.forall₂_map_right_iff.mpr
    (List.forall₂_same.mpr fun function _ => below.analyse_within within function))

/-- What escapes under a policy escapes under every laxer one, and what escapes without alias
classes escapes with them. -/
theorem run_monotone :
    (∀ {name program passes module pointsTo calls} {policy laxer : EscapePolicy},
      Attempt.Yields (Module.ofProgram name program passes) module →
      Attempt.Yields (CallGraph.ofProgram module.program pointsTo) calls →
      (∀ callee position, policy callee position = true → laxer callee position = true) →
        ∃ report more, Attempt.Yields (run ⟨module, calls, policy⟩) report ∧
          Attempt.Yields (run ⟨module, calls, laxer⟩) more ∧ report.Within more) ∧
    (∀ {name program plain pointsTo calls} (policy : EscapePolicy),
      Attempt.Yields (Module.ofProgram name program []) plain →
      Attempt.Yields (CallGraph.ofProgram plain.program pointsTo) calls →
        ∃ merged report more, Attempt.Yields (Module.ofProgram name program [.basicAlias]) merged ∧
          Attempt.Yields (CallGraph.ofProgram merged.program pointsTo) calls ∧
          Attempt.Yields (run ⟨plain, calls, policy⟩) report ∧
          Attempt.Yields (run ⟨merged, calls, policy⟩) more ∧ report.Within more) := by
  have ordered : ∀ {name program passes module pointsTo calls} (policy : EscapePolicy),
      Attempt.Yields (Module.ofProgram name program passes) module →
        Attempt.Yields (CallGraph.ofProgram module.program pointsTo) calls →
          Ordered ⟨module, calls, policy⟩ := by
    intro name program passes module pointsTo calls policy loads builds
    have distinct := Module.distinct_of_ofProgram loads
    exact ordered_of_distinct distinct (CallGraph.describes_ofProgram distinct builds)
  constructor
  · intro name program passes module pointsTo calls policy laxer loads builds lets
    have below : Below ⟨module, calls, policy⟩ ⟨module, calls, laxer⟩ :=
      ⟨rfl, rfl, lets, fun _ _ _ => id⟩
    exact below.exists_runs (ordered policy loads builds) (ordered laxer loads builds)
  · intro name program plain pointsTo calls policy loads builds
    have orderedPlain := ordered policy loads builds
    obtain ⟨distinct, rfl⟩ := Module.ofProgram_yields_iff.mp loads
    have loadsMerged : Attempt.Yields (Module.ofProgram name program [.basicAlias])
        ⟨name, program, program.aliasClasses⟩ := Module.ofProgram_yields_iff.mpr ⟨distinct, rfl⟩
    have below : Below ⟨⟨name, program, []⟩, calls, policy⟩
        ⟨⟨name, program, program.aliasClasses⟩, calls, policy⟩ :=
      ⟨rfl, rfl, fun _ _ => id, fun _ _ _ => AliasClasses.sameClass_of_blank⟩
    obtain ⟨report, more, runs, runsMerged, within⟩ :=
      below.exists_runs orderedPlain (ordered policy loadsMerged builds)
    exact ⟨_, report, more, loadsMerged, builds, runs, runsMerged, within⟩

/-- A function that passes a copy of its parameter to a function without a body. -/
def passesCopy : Program where
  functions := [
    { name := "f", parameters := [⟨"p", .pointer (.named "int")⟩],
      body := [
        .instruction { name := "id", dest := some "q", type := some (.pointer (.named "int")),
                       args := ["p"] },
        .instruction { name := "call", funcs := ["leak"], args := ["q"] }] }]
  externs := [{ name := "leak", parameters := [⟨"x", .pointer (.named "int")⟩] }]

/-- The copy has reports under both extreme policies, without and with alias classes. -/
theorem run_monotone_passesCopy : ∃ plain merged calls,
    Attempt.Yields (Module.ofProgram "m" passesCopy []) plain ∧
    Attempt.Yields (Module.ofProgram "m" passesCopy [.basicAlias]) merged ∧
    Attempt.Yields (CallGraph.ofProgram passesCopy ⟨"none", fun _ _ => []⟩) calls ∧
    (∃ report more, Attempt.Yields (run ⟨plain, calls, fun _ _ => false⟩) report ∧
      Attempt.Yields (run ⟨plain, calls, fun _ _ => true⟩) more ∧ report.Within more) ∧
    ∃ report more, Attempt.Yields (run ⟨plain, calls, fun _ _ => true⟩) report ∧
      Attempt.Yields (run ⟨merged, calls, fun _ _ => true⟩) more ∧ report.Within more := by
  have loads : Attempt.Yields (Module.ofProgram "m" passesCopy []) ⟨"m", passesCopy, []⟩ := rfl
  obtain ⟨calls, builds⟩ : ∃ calls, Attempt.Yields
      (CallGraph.ofProgram passesCopy ⟨"none", fun _ _ => []⟩) calls := ⟨_, rfl⟩
  obtain ⟨merged, report, more, loadsMerged, -, runs, runsMerged, within⟩ :=
    run_monotone.2 (fun _ _ => true) loads builds
  exact ⟨_, merged, calls, loads, loadsMerged, builds,
    run_monotone.1 loads builds (fun _ _ _ => rfl), report, more, runs, runsMerged, within⟩

end EscapeContext

end ProgramGraphs
