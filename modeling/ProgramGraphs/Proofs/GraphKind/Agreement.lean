import ProgramGraphs.Proofs.Escape.Settling
import ProgramGraphs.Proofs.GraphKind.Checked
import ProgramGraphs.Proofs.Module

/-! # Kinds of graphs agree

The kinds of which there is a graph for every function start from its control-flow graph, and what
they make of it cannot fail (`GraphKind.ofFlow?`). So they fail together, and each because of a
function that has none. A collector has to keep the order of the results and to report a failure
that there was (`Collector.Gathers`); it need not report the first one, so two kinds may blame
different functions. The call graph and the escape analysis fail together as well: where there is a
call graph, its components are made of functions of the module. Nothing but a malformed body makes
any kind fail, and what they build is of the kind that is drawn (`GraphKind.build_agree`).
-/

namespace ProgramGraphs

/-- What a collector has to do: its results are those of all tasks in the order of the list, and a
failure that it reports is the failure of some task. -/
structure Collector.Gathers (collector : Collector) : Prop where
  yields_iff : ∀ task functions graphs, Attempt.Yields (collector.run task functions) graphs ↔
    List.Forall₂ (fun function graph => Attempt.Yields (task function) graph) functions graphs
  exists_fails : ∀ task functions error, Attempt.Fails (collector.run task functions) error →
    ∃ function ∈ functions, Attempt.Fails (task function) error

theorem Collector.gathers_inOrder : Collector.inOrder.Gathers where
  yields_iff _ _ _ := Attempt.yields_mapM_iff
  exists_fails _ _ _ := Attempt.Fails.exists_of_mapM

/-- Run the tasks from the last to the first, as may happen where they run side by side. -/
def Collector.backwards : Collector where
  run task functions := do
    let graphs ← functions.reverse.mapM task
    pure graphs.reverse

theorem Collector.gathers_backwards : Collector.backwards.Gathers where
  yields_iff task functions graphs := by
    refine Attempt.yields_bind_iff.trans ?_
    simp only [Attempt.yields_mapM_iff, Attempt.yields_pure_iff]
    constructor
    · rintro ⟨others, runs, rfl⟩
      rw [← List.forall₂_reverse_iff, List.reverse_reverse]
      exact runs
    · intro runs
      exact ⟨graphs.reverse, List.forall₂_reverse_iff.mpr runs, List.reverse_reverse graphs⟩
  exists_fails task functions error fails := by
    rcases Attempt.fails_bind_iff.mp fails with inside | ⟨graphs, -, ends⟩
    · obtain ⟨function, member, blamed⟩ := inside.exists_of_mapM
      exact ⟨function, List.mem_reverse.mp member, blamed⟩
    · exact absurd ends Attempt.fails_pure_iff.mp

namespace NamedGraph

variable {build : Function → Except Error AnalysisGraph} {function : Function}

theorem yields_ofFunction {graph : AnalysisGraph} (built : build function = .ok graph) :
    Attempt.Yields (ofFunction build function) ⟨function.name, graph⟩ := by
  rw [ofFunction, built, Attempt.yields_bind_iff]
  exact ⟨(), rfl, Attempt.yields_bind_iff.mpr ⟨graph, rfl, rfl⟩⟩

theorem fails_ofFunction {error : Error} (failed : build function = .error error) :
    Attempt.Fails (ofFunction build function) error := by
  rw [ofFunction, failed, Attempt.fails_bind_iff]
  exact .inr ⟨(), rfl, Attempt.fails_bind_iff.mpr (.inl rfl)⟩

/-- The graph of a function that a kind makes of its control-flow graph. -/
def ofFlow (make : ControlFlow → AnalysisGraph) : Function → Attempt Error NamedGraph :=
  ofFunction fun function => (make <$> ControlFlow.ofFunction function).mapError Error.malformed

variable {make : ControlFlow → AnalysisGraph}

theorem yields_ofFlow {flow : ControlFlow} (built : ControlFlow.ofFunction function = .ok flow) :
    Attempt.Yields (ofFlow make function) ⟨function.name, make flow⟩ :=
  yields_ofFunction (by rw [built]; rfl)

theorem fails_ofFlow_iff {error : Error} : Attempt.Fails (ofFlow make function) error ↔
    ∃ fault, ControlFlow.ofFunction function = .error fault ∧ error = .malformed fault := by
  cases outcome : ControlFlow.ofFunction function with
  | ok flow =>
    refine iff_of_false (yields_ofFlow outcome).not_fails ?_
    rintro ⟨fault, ⟨⟩, -⟩
  | error fault =>
    have failed : Attempt.Fails (ofFlow make function) (.malformed fault) :=
      fails_ofFunction (by rw [outcome]; rfl)
    constructor
    · exact fun fails => ⟨fault, rfl, fails.unique failed⟩
    · rintro ⟨other, ⟨⟩, rfl⟩
      exact failed

end NamedGraph

namespace GraphKind

/-- What a kind makes of the control-flow graph of a function, if there is a graph of the kind for
every function. -/
def ofFlow? : GraphKind → Option (ControlFlow → AnalysisGraph)
  | .cfg => some .cfg
  | .cdg => some fun flow => .cdg (.ofControlFlow flow)
  | .domtree => some fun flow => .domtree (flow.dominance .fromEntry)
  | .postdomtree => some fun flow => .postdomtree (flow.dominance .fromExit)
  | .cg | .escape => none

variable {kind : GraphKind} {make : ControlFlow → AnalysisGraph} {module : Module}
variable {options : AnalysisOptions} {collector : Collector}

theorem buildBy_eq_run (makes : kind.ofFlow? = some make) :
    kind.buildBy collector module options =
      collector.run (NamedGraph.ofFlow make) module.functions := by
  cases kind <;> cases makes <;> rfl

theorem kind_of_ofFlow? (makes : kind.ofFlow? = some make) (flow : ControlFlow) :
    (make flow).kind = kind := by
  cases kind <;> cases makes <;> rfl

/-- A graph of a kind can be drawn as one. -/
theorem exists_draw {graph : AnalysisGraph} (same : graph.kind = kind) (label : String) :
    ∃ picture, kind.draw label graph = .ok picture := by
  subst same
  cases graph <;> exact ⟨_, rfl⟩

/-- From the control-flow graphs of all functions, a graph is made for each. -/
theorem exists_yields_build {flows : List ControlFlow}
    (built : List.Forall₂ (fun function flow => ControlFlow.ofFunction function = .ok flow)
      module.functions flows) (makes : kind.ofFlow? = some make) :
    ∃ graphs, graphs.map (·.label) = module.functions.map (·.name) ∧
      graphs.map (·.graph) = flows.map make ∧ ∀ collector : Collector, collector.Gathers →
        Attempt.Yields (kind.buildBy collector module options) graphs := by
  obtain ⟨graphs, labels, made, yields⟩ : ∃ graphs : List NamedGraph,
      graphs.map (·.label) = module.functions.map (·.name) ∧
        graphs.map (·.graph) = flows.map make ∧ List.Forall₂ (fun function graph =>
          Attempt.Yields (NamedGraph.ofFlow make function) graph) module.functions graphs := by
    generalize module.functions = functions at built ⊢
    induction built with
    | nil => exact ⟨[], rfl, rfl, .nil⟩
    | @cons function flow functions flows here _ ih =>
      obtain ⟨graphs, labels, made, yields⟩ := ih
      exact ⟨⟨function.name, make flow⟩ :: graphs, by simp [labels], by simp [made],
        .cons (NamedGraph.yields_ofFlow here) yields⟩
  refine ⟨graphs, labels, made, fun collector gathers => ?_⟩
  rw [buildBy_eq_run makes]
  exact (gathers.yields_iff _ _ _).mpr yields

/-- Where graphs are built one after the other, the first function without a control-flow graph is
the reason for which there are none. -/
theorem fails_build {before after : List Function} {function : Function} {fault : BodyFault}
    (cut : module.functions = before ++ function :: after)
    (goes : ∀ earlier ∈ before, ∃ flow, ControlFlow.ofFunction earlier = .ok flow)
    (failed : ControlFlow.ofFunction function = .error fault)
    (makes : kind.ofFlow? = some make) :
    Attempt.Fails (kind.build module options) (.malformed fault) := by
  rw [build, buildBy_eq_run makes, cut]
  refine Attempt.Fails.mapM (fun earlier member => ?_)
    (NamedGraph.fails_ofFlow_iff.mpr ⟨fault, failed, rfl⟩)
  obtain ⟨flow, built⟩ := goes earlier member
  exact ⟨⟨earlier.name, make flow⟩, NamedGraph.yields_ofFlow built⟩

/-- A function without a control-flow graph is enough for there to be no graphs, and some such
function is the reason. -/
theorem exists_fails_buildBy (gathers : collector.Gathers) {function : Function}
    {fault : BodyFault} (member : function ∈ module.functions)
    (failed : ControlFlow.ofFunction function = .error fault) (makes : kind.ofFlow? = some make) :
    ∃ other ∈ module.functions, ∃ reason, ControlFlow.ofFunction other = .error reason ∧
      Attempt.Fails (kind.buildBy collector module options) (.malformed reason) := by
  rw [buildBy_eq_run makes]
  rcases Attempt.yields_or_fails (collector.run (NamedGraph.ofFlow make) module.functions) with
    ⟨graphs, yields⟩ | ⟨error, fails⟩
  · obtain ⟨graph, -, here⟩ := exists_related_of_mem ((gathers.yields_iff _ _ _).mp yields) member
    exact absurd (NamedGraph.fails_ofFlow_iff.mpr ⟨fault, failed, rfl⟩) here.not_fails
  · obtain ⟨other, inside, blamed⟩ := gathers.exists_fails _ _ _ fails
    obtain ⟨reason, known, rfl⟩ := NamedGraph.fails_ofFlow_iff.mp blamed
    exact ⟨other, inside, reason, known, fails⟩

/-- A call graph of the program is the call graph of the module. -/
theorem yields_callGraph {strategy : Strategy} {calls : CallGraph}
    (yields : Attempt.Yields
      (CallGraph.ofProgram module.program (strategy.run module.program).result) calls) :
    Attempt.Yields (module.callGraph strategy) calls := by
  rw [Module.callGraph, Attempt.yields_bind_iff]
  refine ⟨_, Attempt.yields_lift_iff.mpr rfl, Attempt.yields_bind_iff.mpr
    ⟨calls, Attempt.yields_adapt_iff.mpr yields, ?_⟩⟩
  dsimp only
  split
  · exact Attempt.yields_bind_iff.mpr ⟨(), rfl, rfl⟩
  · rfl

theorem fails_callGraph {strategy : Strategy} {fault : BodyFault}
    (fails : Attempt.Fails
      (CallGraph.ofProgram module.program (strategy.run module.program).result) fault) :
    Attempt.Fails (module.callGraph strategy) (.malformed fault) := by
  rw [Module.callGraph, Attempt.fails_bind_iff]
  refine .inr ⟨_, Attempt.yields_lift_iff.mpr rfl, Attempt.fails_bind_iff.mpr (.inl ?_)⟩
  exact Attempt.fails_adapt_iff.mpr ⟨fault, fails, rfl⟩

theorem yields_build_cg {calls : CallGraph}
    (yields : Attempt.Yields (CallGraph.ofProgram module.program
      (options.strategy.run module.program).result) calls) :
    Attempt.Yields (GraphKind.cg.buildBy collector module options) [⟨module.name, .cg calls⟩] :=
  Attempt.yields_bind_iff.mpr ⟨calls, yields_callGraph yields, rfl⟩

/-- Either both kinds of graphs of whole programs are built, or neither for the same reason. -/
theorem yields_or_fails_whole (distinct : (module.functions.map (·.name)).Nodup)
    (options : AnalysisOptions) :
    (∃ calls report, ∀ collector : Collector,
      Attempt.Yields (GraphKind.cg.buildBy collector module options)
        [⟨module.name, .cg calls⟩] ∧
      Attempt.Yields (GraphKind.escape.buildBy collector module options)
        [⟨module.name, .escape report⟩]) ∨
      ∃ fault, ∀ collector : Collector,
        Attempt.Fails (GraphKind.cg.buildBy collector module options) (.malformed fault) ∧
          Attempt.Fails (GraphKind.escape.buildBy collector module options)
            (.malformed fault) := by
  rcases Attempt.yields_or_fails (CallGraph.ofProgram module.program
      (options.strategy.run module.program).result) with ⟨calls, yields⟩ | ⟨fault, fails⟩
  · have described : calls.Describes module.program (options.strategy.run module.program).result :=
      CallGraph.describes_ofProgram distinct yields
    have ordered : (EscapeContext.mk module calls options.policy).Ordered :=
      EscapeContext.ordered_of_distinct distinct described
    obtain ⟨report, runs⟩ : ∃ report,
        Attempt.Yields (EscapeContext.run ⟨module, calls, options.policy⟩) report := by
      obtain ⟨summaries, runs, -⟩ := EscapeContext.exists_run ordered
      exact ⟨_, runs⟩
    exact .inl ⟨calls, report, fun _ => ⟨yields_build_cg yields, Attempt.yields_bind_iff.mpr
      ⟨calls, yields_callGraph yields, Attempt.yields_bind_iff.mpr ⟨report, runs, rfl⟩⟩⟩⟩
  · have failed := fails_callGraph fails
    exact .inr ⟨fault, fun _ => ⟨Attempt.fails_bind_iff.mpr (.inl failed),
      Attempt.fails_bind_iff.mpr (.inl failed)⟩⟩

/-- Whatever the kind, its graphs are built, or a body is malformed. -/
theorem yields_or_fails_build (distinct : (module.functions.map (·.name)).Nodup)
    (gathers : collector.Gathers) (kind : GraphKind) (options : AnalysisOptions) :
    (∃ graphs, Attempt.Yields (kind.buildBy collector module options) graphs ∧
      ∀ named ∈ graphs, named.graph.kind = kind) ∨
      ∃ fault, Attempt.Fails (kind.buildBy collector module options) (.malformed fault) := by
  have whole := yields_or_fails_whole distinct options
  have single (named : NamedGraph) (same : named.graph.kind = kind) :
      ∀ other ∈ [named], other.graph.kind = kind := List.forall_mem_singleton.mpr same
  cases makes : kind.ofFlow? with
  | some make =>
    rcases forall₂_ok_or_exists_error ControlFlow.ofFunction module.functions with
      ⟨flows, built⟩ | ⟨before, function, after, fault, cut, -, failed⟩
    · obtain ⟨graphs, -, made, yields⟩ := exists_yields_build built makes
      refine .inl ⟨graphs, yields collector gathers, fun named member => ?_⟩
      have listed : named.graph ∈ flows.map make := made ▸ List.mem_map_of_mem member
      obtain ⟨flow, -, same⟩ := List.mem_map.mp listed
      rw [← same]
      exact kind_of_ofFlow? makes flow
    · obtain ⟨-, -, reason, -, fails⟩ :=
        exists_fails_buildBy gathers (by rw [cut]; simp) failed makes
      exact .inr ⟨reason, fails⟩
  | none =>
    rcases whole with ⟨calls, report, built⟩ | ⟨fault, failed⟩ <;> cases kind <;> cases makes
    · exact .inl ⟨_, (built collector).1, single _ rfl⟩
    · exact .inl ⟨_, (built collector).2, single _ rfl⟩
    · exact .inr ⟨fault, (failed collector).1⟩
    · exact .inr ⟨fault, (failed collector).2⟩

/-- Graphs of functions are all built, one for each function in program order, or none is, each kind
because of a function whose body is malformed, the first one where graphs are built one after the
other; the graphs of the whole program are both built, or neither is for the same reason. No check
fails on the way, nothing but a malformed body is ever the reason, and all that is built can be
drawn. -/
theorem build_agree {name : String} {program : Program} {passes : List Pass} {module : Module}
    (loads : Attempt.Yields (Module.ofProgram name program passes) module)
    (options : AnalysisOptions) :
    (∀ (collector : Collector) (kind : GraphKind),
      kind.buildBy? collector module options = kind.buildBy collector module options) ∧
    ((∃ flows, List.Forall₂ (fun function flow => ControlFlow.ofFunction function = .ok flow)
        module.functions flows ∧
        ∀ (kind : GraphKind) make, kind.ofFlow? = some make →
          ∃ graphs, graphs.map (·.label) = module.functions.map (·.name) ∧
            graphs.map (·.graph) = flows.map make ∧
              ∀ collector : Collector, collector.Gathers →
                Attempt.Yields (kind.buildBy collector module options) graphs) ∨
      ∃ before function after fault, module.functions = before ++ function :: after ∧
        (∀ earlier ∈ before, ∃ flow, ControlFlow.ofFunction earlier = .ok flow) ∧
        ControlFlow.ofFunction function = .error fault ∧
        ∀ (kind : GraphKind) make, kind.ofFlow? = some make →
          Attempt.Fails (kind.build module options) (.malformed fault) ∧
            ∀ collector : Collector, collector.Gathers →
              ∃ other ∈ module.functions, ∃ reason, ControlFlow.ofFunction other = .error reason ∧
                Attempt.Fails (kind.buildBy collector module options) (.malformed reason)) ∧
    ((∃ calls report, ∀ collector : Collector,
      Attempt.Yields (GraphKind.cg.buildBy collector module options)
        [⟨module.name, .cg calls⟩] ∧
      Attempt.Yields (GraphKind.escape.buildBy collector module options)
        [⟨module.name, .escape report⟩]) ∨
      ∃ fault, ∀ collector : Collector,
        Attempt.Fails (GraphKind.cg.buildBy collector module options) (.malformed fault) ∧
          Attempt.Fails (GraphKind.escape.buildBy collector module options)
            (.malformed fault)) ∧
    ∀ collector : Collector, collector.Gathers → ∀ kind : GraphKind,
      (∀ error, Attempt.Fails (kind.buildBy collector module options) error →
        ∃ fault, error = .malformed fault) ∧
      ∀ graphs, Attempt.Yields (kind.buildBy collector module options) graphs →
        ∀ named ∈ graphs, ∃ picture, kind.draw named.label named.graph = .ok picture := by
  have distinct := Module.distinct_of_ofProgram loads
  refine ⟨fun collector kind => kind.buildBy?_eq collector module options, ?functions,
    yields_or_fails_whole distinct options, fun collector gathers kind => ⟨?reasons, ?draws⟩⟩
  case functions =>
    rcases forall₂_ok_or_exists_error ControlFlow.ofFunction module.functions with
      ⟨flows, built⟩ | ⟨before, function, after, fault, cut, goes, failed⟩
    · exact .inl ⟨flows, built, fun kind make => exists_yields_build built⟩
    · refine .inr ⟨before, function, after, fault, cut, goes, failed, fun kind make makes => ?_⟩
      exact ⟨fails_build cut goes failed makes, fun collector gathers =>
        exists_fails_buildBy gathers (by rw [cut]; simp) failed makes⟩
  case reasons =>
    intro error fails
    rcases yields_or_fails_build distinct gathers kind options with
      ⟨_, yields, -⟩ | ⟨fault, known⟩
    · exact absurd fails yields.not_fails
    · exact ⟨fault, fails.unique known⟩
  case draws =>
    intro graphs yields named member
    rcases yields_or_fails_build distinct gathers kind options with ⟨_, known, same⟩ | ⟨_, fails⟩
    · cases Except.ok.inj (yields.symm.trans known)
      exact exists_draw (same named member) named.label
    · exact absurd fails yields.not_fails

/-- A function that calls another one and never ends. -/
def spins (callee : String) : Function where
  name := "spin"
  body := [
    .label "again",
    .instruction { name := "call", funcs := [callee] },
    .instruction { name := "jmp", labels := ["again"] },
    .instruction { name := "ret" }]

/-- A function that calls another one and then goes to a label that it may lack. -/
def goesTo (name callee label : String) : Function where
  name := name
  body := [
    .instruction { name := "call", funcs := [callee] },
    .instruction { name := "jmp", labels := [label] }]

/-- Two functions that call each other, and one that calls a function that is nowhere declared; two
of the bodies are malformed. -/
def astray : Program where
  functions := [spins "first", goesTo "first" "spin" "nowhere", goesTo "second" "other" "never"]

/-- What is loaded of these functions: they have no slots to be promoted. -/
theorem exists_module_astray : ∃ module,
    Attempt.Yields (Module.ofProgram "m" astray Pass.defaults) module ∧
      module.name = "m" ∧ module.program = astray.promote :=
  ⟨_, Module.ofProgram_yields_iff.mpr ⟨by decide, rfl⟩, rfl, rfl⟩

theorem fails_first : ControlFlow.ofFunction (goesTo "first" "spin" "nowhere").promote =
    .error (.unknownTarget "nowhere" "first") := rfl

theorem fails_second : ControlFlow.ofFunction (goesTo "second" "other" "never").promote =
    .error (.unknownTarget "never" "second") := rfl

theorem functions_astray {module : Module} (promoted : module.program = astray.promote) :
    module.functions = [(spins "first").promote] ++
      (goesTo "first" "spin" "nowhere").promote :: [(goesTo "second" "other" "never").promote] := by
  rw [Module.functions, promoted]
  rfl

/-- Built in order, the graphs of all kinds fail at the first branch to an unknown label. -/
theorem fails_build_astray {module : Module} (promoted : module.program = astray.promote)
    (makes : kind.ofFlow? = some make) : Attempt.Fails (kind.build module options)
      (.malformed (.unknownTarget "nowhere" "first")) :=
  fails_build (functions_astray promoted) (List.forall_mem_singleton.mpr ⟨_, rfl⟩) fails_first makes

/-- There is no graph of any function, because of the first branch to an unknown label or, when the
tasks are run in another order, because of another one, but there are graphs of the program. -/
theorem build_agree_astray : ∃ module,
    Attempt.Yields (Module.ofProgram "m" astray Pass.defaults) module ∧
      Collector.backwards.Gathers ∧
      (∀ (kind : GraphKind) make, kind.ofFlow? = some make →
        Attempt.Fails (kind.build module {}) (.malformed (.unknownTarget "nowhere" "first")) ∧
          ∃ other ∈ module.functions, ∃ reason, ControlFlow.ofFunction other = .error reason ∧
            Attempt.Fails (kind.buildBy .backwards module {}) (.malformed reason)) ∧
      ∃ report, Attempt.Yields (GraphKind.escape.buildBy .backwards module {})
        [⟨"m", .escape report⟩] := by
  obtain ⟨module, loads, named, promoted⟩ := exists_module_astray
  obtain ⟨-, functions, whole, -⟩ := build_agree loads {}
  refine ⟨module, loads, Collector.gathers_backwards, ?functions, ?whole⟩
  case functions =>
    have first : Attempt.Fails (GraphKind.cfg.build module {})
        (.malformed (.unknownTarget "nowhere" "first")) := fails_build_astray promoted rfl
    rcases functions with ⟨flows, -, yields⟩ | ⟨before, function, after, fault, -, -, -, fails⟩
    · obtain ⟨graphs, -, -, built⟩ := yields .cfg .cfg rfl
      exact absurd first (built .inOrder Collector.gathers_inOrder).not_fails
    · obtain rfl : fault = .unknownTarget "nowhere" "first" :=
        Error.malformed.inj ((fails .cfg .cfg rfl).1.unique first)
      intro kind make makes
      obtain ⟨here, others⟩ := fails kind make makes
      exact ⟨here, others .backwards Collector.gathers_backwards⟩
  case whole =>
    rcases whole with ⟨calls, report, built⟩ | ⟨fault, failed⟩
    · exact ⟨report, named ▸ (built .backwards).2⟩
    · have sound : ∀ function ∈ astray.promote.functions, ∀ instruction ∈ function.instructions,
          instruction.opcode ≠ .icall ∧ (instruction.opcode = .call → instruction.funcs ≠ []) := by
        decide
      rcases Attempt.yields_or_fails (CallGraph.ofProgram module.program
          (Strategy.trivial.run module.program).result) with ⟨calls, yields⟩ | ⟨fault, fails⟩
      · have built : Attempt.Yields (GraphKind.cg.buildBy .backwards module {})
            [⟨module.name, .cg calls⟩] := yields_build_cg yields
        exact absurd (failed .backwards).1 built.not_fails
      · obtain ⟨function, member, instruction, inside, misses⟩ := CallGraph.fails_ofProgram fails
        obtain ⟨direct, names⟩ := sound function (promoted ▸ member) instruction inside
        cases misses with
        | callee calls nothing => exact absurd nothing (names calls)
        | pointer calls _ => exact absurd calls direct

/-- Two kinds may blame different functions, and not only the first one without a control-flow
graph: one is built from the first function to the last, the other from the last to the first. -/
theorem backwards_blames_second : ∃ module,
    Attempt.Yields (Module.ofProgram "m" astray Pass.defaults) module ∧
      Collector.inOrder.Gathers ∧ Collector.backwards.Gathers ∧
      Attempt.Fails (GraphKind.cfg.buildBy .inOrder module {})
        (.malformed (.unknownTarget "nowhere" "first")) ∧
      Attempt.Fails (GraphKind.cdg.buildBy .backwards module {})
        (.malformed (.unknownTarget "never" "second")) := by
  obtain ⟨module, loads, -, promoted⟩ := exists_module_astray
  refine ⟨module, loads, Collector.gathers_inOrder, Collector.gathers_backwards,
    fails_build_astray promoted rfl, ?_⟩
  rw [buildBy_eq_run rfl, functions_astray promoted]
  refine Attempt.fails_bind_iff.mpr (.inl ?_)
  rw [List.reverse_append, List.reverse_cons, List.reverse_singleton, List.singleton_append,
    List.cons_append, List.mapM_cons]
  exact Attempt.fails_bind_iff.mpr (.inl
    (NamedGraph.fails_ofFlow_iff.mpr ⟨_, fails_second, rfl⟩))

end GraphKind

end ProgramGraphs
