import ProgramGraphs.Proofs.GraphKind.Agreement
import ProgramGraphs.Proofs.Picture.Coherent

/-! # What is drawn

Whatever is built from a module is drawn as a picture that holds together and shows the graph, node
by node and edge by edge. Only what escapes is no graph of numbered nodes; it has a picture of its
own making.
-/

namespace ProgramGraphs

namespace AnalysisGraph

/-- The numbered nodes of a graph and the edges between them, in the order in which they are drawn.
What escapes is no graph of numbered nodes. -/
def numbered? : AnalysisGraph → Option (List Nat × List (Nat × Nat))
  | .cfg flow => some (List.range flow.graph.size, flow.graph.ends)
  | .cdg dependence => some (List.range dependence.graph.size, dependence.graph.ends)
  | .cg calls => some (List.range calls.graph.size, calls.graph.ends)
  | .domtree dominance | .postdomtree dominance =>
    some (dominance.tree.members.map Fin.val,
      dominance.tree.edges.map fun edge => (edge.1.val, edge.2.val))
  | .escape _ => none

/-- The functions that have an edge to what unresolved calls reach, in a graph of a program: in a
call graph those that call through a pointer for which no target is known. -/
def unknownCallers (program : Program) (pointsTo : PointsTo) : AnalysisGraph → List Nat
  | .cg _ => program.unknownCallers pointsTo
  | _ => []

end AnalysisGraph

namespace GraphKind

variable {kind : GraphKind} {module : Module} {options : AnalysisOptions}

/-- What graphs of a kind are made from: control-flow graphs, or the call graph of the program. -/
inductive Makes (kind : GraphKind) (module : Module) (options : AnalysisOptions) :
    AnalysisGraph → Prop
  | ofFlow {make : ControlFlow → AnalysisGraph} (flow : ControlFlow) :
      kind.ofFlow? = some make → Makes kind module options (make flow)
  | cg {calls : CallGraph} : kind = .cg → Attempt.Yields (CallGraph.ofProgram module.program
      (options.strategy.run module.program).result) calls → Makes kind module options (.cg calls)
  | escape (report : EscapeReport) : kind = .escape → Makes kind module options (.escape report)

theorem yields_ofProgram_of_callGraph {strategy : Strategy} {calls : CallGraph}
    (yields : Attempt.Yields (module.callGraph strategy) calls) :
    Attempt.Yields (CallGraph.ofProgram module.program (strategy.run module.program).result)
      calls := by
  rcases Attempt.yields_or_fails (CallGraph.ofProgram module.program
    (strategy.run module.program).result) with ⟨other, known⟩ | ⟨fault, fails⟩
  · cases Except.ok.inj (yields.symm.trans (yields_callGraph known))
    exact known
  · exact absurd (fails_callGraph fails) yields.not_fails

theorem makes_of_mem_build {graphs : List NamedGraph} {named : NamedGraph}
    (builds : Attempt.Yields (kind.build module options) graphs) (member : named ∈ graphs) :
    kind.Makes module options named.graph := by
  cases makes : kind.ofFlow? with
  | some make =>
    rcases forall₂_ok_or_exists_error ControlFlow.ofFunction module.functions with
      ⟨flows, built⟩ | ⟨before, function, after, fault, cut, goes, failed⟩
    · obtain ⟨others, known, made⟩ : ∃ others, Attempt.Yields (kind.build module options) others ∧
          others.map (·.graph) = flows.map make := by
        obtain ⟨others, -, made, known⟩ := exists_yields_build built makes
        exact ⟨others, known .inOrder Collector.gathers_inOrder, made⟩
      cases Except.ok.inj (builds.symm.trans known)
      obtain ⟨flow, -, same⟩ := List.mem_map.mp (made ▸ List.mem_map_of_mem member :
        named.graph ∈ flows.map make)
      rw [← same]
      exact .ofFlow flow makes
    · exact absurd (fails_build cut goes failed makes) builds.not_fails
  | none =>
    cases kind <;> cases makes
    · obtain ⟨calls, yields, same⟩ := Attempt.yields_bind_iff.mp builds
      cases Attempt.yields_pure_iff.mp same
      rw [List.mem_singleton.mp member]
      exact .cg rfl (yields_ofProgram_of_callGraph yields)
    · obtain ⟨calls, -, builds⟩ := Attempt.yields_bind_iff.mp builds
      obtain ⟨report, -, same⟩ := Attempt.yields_bind_iff.mp builds
      cases Attempt.yields_pure_iff.mp same
      rw [List.mem_singleton.mp member]
      exact .escape report rfl

/-- The picture of a graph that is made from a control-flow graph. -/
theorem exists_draw_ofFlow {make : ControlFlow → AnalysisGraph} (makes : kind.ofFlow? = some make)
    (flow : ControlFlow) (label : String) :
    ∃ picture, kind.draw label (make flow) = .ok picture ∧ picture.Coherent ∧
      ∀ nodes edges, (make flow).numbered? = some (nodes, edges) →
        picture.Shows nodes edges [] := by
  cases kind <;> cases makes
  · exact ⟨_, rfl, flow.coherent_draw label, by rintro _ _ ⟨⟩; exact flow.shows_draw label⟩
  · exact ⟨_, rfl, ControlDependence.coherent_draw _ label, by
      rintro _ _ ⟨⟩; exact ControlDependence.shows_draw _ label⟩
  · exact ⟨_, rfl, flow.coherent_draw_dominance _ label, by
      rintro _ _ ⟨⟩; exact Dominance.shows_draw _ label⟩
  · exact ⟨_, rfl, flow.coherent_draw_dominance _ label, by
      rintro _ _ ⟨⟩; exact Dominance.shows_draw _ label⟩

/-- Whatever is built from a module is drawn as a picture that holds together and shows the numbered
nodes and edges of the graph in order. The functions come first among the nodes of a call graph, and
those that call through a pointer for which no target is known have one edge each to what unresolved
calls reach. For that it is enough to drop each caller that repeats the one before it, and the order
of the table of calls has no influence on the picture. -/
theorem draw_coherent {name : String} {program : Program} {passes : List Pass} {module : Module}
    (loads : Attempt.Yields (Module.ofProgram name program passes) module)
    {options : AnalysisOptions} {kind : GraphKind} {graphs : List NamedGraph}
    (builds : Attempt.Yields (kind.build module options) graphs) {named : NamedGraph}
    (member : named ∈ graphs) :
    ∃ picture, kind.draw named.label named.graph = .ok picture ∧ picture.Coherent ∧
      (∀ nodes edges, named.graph.numbered? = some (nodes, edges) → ∃ callers,
        callers.Perm (named.graph.unknownCallers module.program
          (options.strategy.run module.program).result) ∧ picture.Shows nodes edges callers) ∧
      ∀ calls, named.graph = .cg calls →
        (module.functions.map fun function => CallNode.mk function.name true) <+:
          calls.graph.nodes.toList ∧
        calls.unresolvedCallers = (calls.unresolved.map (·.1)).destutter (· ≠ ·) ∧
        ∀ sites, calls.sites.Perm sites →
          kind.draw named.label (.cg { calls with sites := sites }) = .ok picture := by
  have distinct := Module.distinct_of_ofProgram loads
  obtain ⟨label, graph⟩ := named
  cases makes_of_mem_build builds member with
  | ofFlow flow makes =>
    obtain ⟨picture, draws, coherent, shows⟩ := exists_draw_ofFlow makes flow label
    refine ⟨picture, draws, coherent, fun nodes edges numbered => ⟨[], ?_, shows _ _ numbered⟩,
      fun calls same => ?_⟩
    · cases kind <;> cases makes <;> exact .refl _
    · cases kind <;> cases makes <;> cases same
  | @cg calls same yields =>
    subst same
    refine ⟨_, rfl, CallGraph.coherent_draw distinct yields label, ?_, ?_⟩
    · rintro _ _ ⟨⟩
      exact ⟨_, CallGraph.callerNodes_perm distinct yields,
        CallGraph.shows_draw distinct yields label⟩
    · rintro _ ⟨⟩
      refine ⟨?_, calls.unresolvedCallers_eq_destutter,
        fun sites same => congrArg Except.ok (CallGraph.draw_eq_of_perm same label)⟩
      rw [(CallGraph.records_ofProgram distinct yields).nodes]
      exact List.prefix_append _ _
  | escape report same =>
    subst same
    exact ⟨_, rfl, report.coherent_draw label, nofun, nofun⟩

/-- A function that calls whatever it is given. -/
def callsHook : Function where
  name := "main"
  parameters := [⟨"hook", .named "fnptr"⟩]
  body := [.instruction { name := "icall", args := ["hook"] }]

/-- A program of one function, which calls whatever it is given. -/
def callsGiven : Program where
  functions := [callsHook]

/-- No function takes no argument, so the call leads to a node of its own. -/
theorem draw_coherent_callsGiven : ∃ module graphs, ∃ named ∈ graphs, ∃ picture,
    Attempt.Yields (Module.ofProgram "m" callsGiven []) module ∧
      Attempt.Yields (GraphKind.cg.build module {}) graphs ∧
        GraphKind.cg.draw named.label named.graph = .ok picture ∧ picture.Coherent ∧
          (picture.nodes.map (·.id)).getLast? = some "unresolved" ∧
            (picture.edges.map fun edge => (edge.source, edge.target)).getLast? =
              some ("n0", "unresolved") := by
  obtain ⟨module, loads, same⟩ : ∃ module,
      Attempt.Yields (Module.ofProgram "m" callsGiven []) module ∧ module.program = callsGiven :=
    ⟨_, Module.ofProgram_yields_iff.mpr ⟨by decide, rfl⟩, rfl⟩
  have known :
      module.program.unknownCallers (Strategy.trivial.run module.program).result = [0] := by
    have nothing : (Strategy.trivial.run callsGiven).result.targets "main"
        { name := "icall", args := ["hook"] } = [] := List.mergeSort_nil
    have unknown : callsHook.callsUnknown (Strategy.trivial.run callsGiven).result = true := by
      refine List.any_eq_true.mpr ⟨{ name := "icall", args := ["hook"] },
        List.mem_singleton.mpr rfl, ?_⟩
      exact Bool.and_eq_true_iff.mpr ⟨rfl, List.isEmpty_iff.mpr nothing⟩
    rw [same]
    change List.findIdxs _ [callsHook] = [0]
    rw [List.findIdxs_cons, unknown]
    rfl
  obtain ⟨calls, builds⟩ : ∃ calls, Attempt.Yields (GraphKind.cg.build module {})
      [⟨module.name, .cg calls⟩] := by
    rcases Attempt.yields_or_fails (CallGraph.ofProgram module.program
        (Strategy.trivial.run module.program).result) with ⟨calls, yields⟩ | ⟨fault, fails⟩
    · exact ⟨calls, yields_build_cg yields⟩
    · obtain ⟨function, member, instruction, inside, misses⟩ := CallGraph.fails_ofProgram fails
      have sound : ∀ function ∈ callsGiven.functions, ∀ instruction ∈ function.instructions,
          instruction.opcode ≠ .call ∧ instruction.args ≠ [] := by decide
      obtain ⟨indirect, given⟩ := sound function (same ▸ member) instruction inside
      cases misses with
      | callee calls _ => exact absurd calls indirect
      | pointer _ nothing => exact absurd nothing given
  obtain ⟨picture, draws, coherent, numbered, -⟩ :=
    draw_coherent loads builds (List.mem_singleton.mpr rfl)
  obtain ⟨callers, perm, shows⟩ := numbered _ _ rfl
  have callers_eq : callers = [0] := List.perm_singleton.mp (perm.trans (known ▸ .refl _))
  refine ⟨module, _, _, List.mem_singleton.mpr rfl, picture, loads, builds, draws, coherent, ?_, ?_⟩
  · rw [shows.nodes_eq, callers_eq]
    exact List.getLast?_concat
  · rw [shows.edges_eq, callers_eq]
    exact List.getLast?_concat

end GraphKind

end ProgramGraphs
