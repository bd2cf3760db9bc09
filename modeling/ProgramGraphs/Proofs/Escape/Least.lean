import ProgramGraphs.Proofs.Escape.Ledger

/-! # The least summaries

Analysing every function once under the same summaries gives new summaries (`renewAll`). The
settled summaries of a module are the least that this gives back: they are given back because all
functions are settled, and they are within any others that are, and even within any that no analysis
goes beyond (`Closed`), since the blank summaries are and a renewal keeps them so
(`Closed.renew_within`).
-/

namespace ProgramGraphs.EscapeContext

variable {context : EscapeContext} {summaries others : EscapeSummaries}
variable {members : List Function}

/-- The summaries that an analysis of every function under the same summaries finds. -/
def renewAll (context : EscapeContext) (summaries : EscapeSummaries) : EscapeSummaries :=
  ⟨context.module.functions.map fun function =>
    (function.name, (context.analyse summaries function).parameters)⟩

/-- The least of all summaries that are what the analysis of every function under them finds. -/
structure Least (context : EscapeContext) (summaries : EscapeSummaries) : Prop where
  fixed : context.renewAll summaries = summaries
  within : ∀ others, context.renewAll others = others → summaries.Within others

theorem names_of_fixed (fixed : context.renewAll summaries = summaries) :
    summaries.names = context.module.functions.map (·.name) := by
  rw [← fixed, renewAll, EscapeSummaries.names, List.map_map]
  rfl

theorem flags_of_fixed (distinct : (context.module.functions.map (·.name)).Nodup)
    (fixed : context.renewAll summaries = summaries) {function : Function}
    (member : function ∈ context.module.functions) :
    summaries.flags function.name = (context.analyse summaries function).parameters := by
  have found := lookup_map_key_of_mem
    (fun function => (context.analyse summaries function).parameters) distinct member
  conv_lhs => rw [← fixed]
  exact congrArg (·.getD []) found

/-- Settled summaries are given back. -/
theorem renewAll_eq (distinct : (context.module.functions.map (·.name)).Nodup)
    (names : summaries.names = context.module.functions.map (·.name))
    (settled : ∀ function ∈ context.module.functions, context.Settled summaries function) :
    context.renewAll summaries = summaries := by
  have entries : summaries.entries = (context.renewAll summaries).entries := by
    rw [EscapeSummaries.entries_eq (names ▸ distinct), names, List.map_map]
    exact List.map_congr_left fun function member => congrArg _ (settled function member).symm
  exact congrArg EscapeSummaries.mk entries.symm

/-- Summaries of all functions that no analysis under them goes beyond. -/
structure Closed (context : EscapeContext) (summaries : EscapeSummaries) : Prop where
  names_eq : summaries.names = context.module.functions.map (·.name)
  covers : ∀ function ∈ context.module.functions, FlagsWithin
    (context.analyse summaries function).parameters (summaries.flags function.name)

theorem closed_of_fixed (distinct : (context.module.functions.map (·.name)).Nodup)
    (fixed : context.renewAll summaries = summaries) : context.Closed summaries := by
  refine ⟨names_of_fixed fixed, fun function member => ?_⟩
  rw [flags_of_fixed distinct fixed member]
  exact .refl _

theorem Closed.blank_within (ordered : context.Ordered) (closed : context.Closed others) :
    (EscapeSummaries.blank context.module.functions).Within others := by
  have start := progress_blank ordered
  refine ⟨start.names_eq.trans closed.names_eq.symm, fun name => ?_⟩
  by_cases known : name ∈ context.module.functions.map (·.name)
  · obtain ⟨function, member, rfl⟩ := List.mem_map.mp known
    have covers := closed.covers function member
    have sized : function.parameters.length = (others.flags function.name).length := by
      rw [← covers.length_eq, length_parameters]
    rw [start.blank function member List.not_mem_nil, sized]
    exact .of_replicate _
  · have absent (others : EscapeSummaries)
        (names : others.names = context.module.functions.map (·.name)) :
        others.flags name = [] := by
      rw [EscapeSummaries.flags,
        (EscapeSummaries.find?_eq_none_iff others name).mpr (names ▸ known), Option.getD_none]
    rw [absent _ start.names_eq, absent _ closed.names_eq]
    exact .nil

/-- A renewal keeps within summaries that are closed. -/
theorem Closed.renew_within (closed : context.Closed others) (within : summaries.Within others)
    {function : Function} (member : function ∈ context.module.functions) :
    (context.renew summaries function).Within others := by
  refine ⟨(names_renew summaries function).trans within.names_eq, fun name => ?_⟩
  by_cases same : name = function.name
  · have listed : function.name ∈ summaries.names := by
      rw [within.names_eq, closed.names_eq]
      exact List.mem_map_of_mem member
    rw [same, renew, EscapeSummaries.flags_set_same listed]
    exact ((Below.refl context).parameters_within within function).trans
      (closed.covers function member)
  · rw [renew_flags_of_ne same]
    exact within.flags name

/-- What renewals of some functions keep holds after all rounds over them. -/
theorem settle_keeps (holds : EscapeSummaries → Prop)
    (kept : ∀ function ∈ members, ∀ summaries, holds summaries →
      holds (context.renew summaries function)) (rounds : Nat) (first : holds summaries) :
    holds (context.settle members rounds summaries).1 := by
  have onward : ∀ todo : List Function, (∀ function ∈ todo, function ∈ members) →
      ∀ summaries, holds summaries → holds (todo.foldl context.renew summaries) := by
    intro todo inside
    induction todo with
    | nil => exact fun _ held => held
    | cons function rest ih =>
      obtain ⟨here, others⟩ := List.forall_mem_cons.mp inside
      exact fun summaries held => ih others _ (kept function here summaries held)
  induction size : summaries.quiet using Nat.strongRecOn generalizing summaries rounds with
  | ind size ih =>
    have next := onward members (fun _ member => member) summaries first
    rw [settle]
    split
    · next less => exact ih _ (size ▸ less) (rounds + 1) next rfl
    · exact next

theorem mem_of_mapM_function {module : Module} {names : List String} {members : List Function}
    (finds : names.mapM module.function = .ok members) :
    ∀ function ∈ members, function ∈ module.functions := by
  intro function member
  obtain ⟨name, -, found⟩ := exists_entry_of_mapM_eq_ok finds member
  rw [Module.function] at found
  split at found
  · next there =>
    cases found
    exact (function?_eq_some there).1
  · cases found

/-- Settled summaries are within any that are closed. -/
theorem Closed.within_of_yields (ordered : context.Ordered) (closed : context.Closed others)
    (yields : Attempt.Yields (context.calls.bottomUp.foldlM context.settleComponent
      (.blank context.module.functions)) summaries) : summaries.Within others := by
  refine Attempt.Yields.foldlM (fun _ summaries => summaries.Within others)
    (closed.blank_within ordered) (fun _ _ _ state next _ within settles => ?_) yields
  obtain ⟨members, finds, rfl⟩ := yields_settleComponent_iff.mp settles
  have inside := mem_of_mapM_function finds
  exact settle_keeps (·.Within others) (fun function member _ within =>
    closed.renew_within within (inside function member)) 0 within

/-- Settled summaries are within any that are given back. -/
theorem within_of_settled (ordered : context.Ordered) (fixed : context.renewAll others = others)
    (yields : Attempt.Yields (context.calls.bottomUp.foldlM context.settleComponent
      (.blank context.module.functions)) summaries) : summaries.Within others :=
  (closed_of_fixed ordered.distinct fixed).within_of_yields ordered yields

/-- A report is that of the least summaries: the one analysis of every function under them, once and
in the order of the program, and these summaries are what it says of the parameters. -/
structure LeastReport (context : EscapeContext) (summaries : EscapeSummaries)
    (report : EscapeReport) : Prop where
  least : context.Least summaries
  functions : report.functions = context.module.functions.map (context.analyse summaries)
  parameters : report.functions.map (fun found => (found.function, found.parameters)) =
    summaries.entries
  once : report.functions.map (·.function) = context.module.functions.map (·.name) ∧
    (report.functions.map (·.function)).Nodup

theorem leastReport_of_least (distinct : (context.module.functions.map (·.name)).Nodup)
    (least : context.Least summaries) :
    context.LeastReport summaries
      ⟨context.module.name, context.module.functions.map (context.analyse summaries)⟩ where
  least := least
  functions := rfl
  parameters := by
    conv_rhs => rw [← least.fixed]
    rw [List.map_map]
    rfl
  once := by
    have names : (context.module.functions.map (context.analyse summaries)).map (·.function) =
        context.module.functions.map (·.name) := by
      rw [List.map_map]
      rfl
    exact ⟨names, names ▸ distinct⟩

/-- The escape analysis of a module ends with the report of the least summaries, and the walk that
keeps what it finds ends with the same. -/
theorem run_reports_least {name : String} {program : Program} {passes : List Pass} {module : Module}
    {pointsTo : PointsTo} {calls : CallGraph} (policy : EscapePolicy)
    (loads : Attempt.Yields (Module.ofProgram name program passes) module)
    (builds : Attempt.Yields (CallGraph.ofProgram module.program pointsTo) calls) :
    ∃ summaries report ledger, LeastReport ⟨module, calls, policy⟩ summaries report ∧
      Attempt.Yields (run ⟨module, calls, policy⟩) report ∧
        Visits ⟨module, calls, policy⟩ calls.bottomUp ⟨.blank module.functions, []⟩ ledger ∧
          report = ⟨module.name, module.functions.filterMap fun function =>
            ledger.found.lookup function.name⟩ := by
  have distinct := Module.distinct_of_ofProgram loads
  have ordered : Ordered ⟨module, calls, policy⟩ :=
    ordered_of_distinct distinct (CallGraph.describes_ofProgram distinct builds)
  obtain ⟨ledger, visits, yields, kept⟩ := exists_visits ordered
  have least : Least ⟨module, calls, policy⟩ ledger.summaries := by
    refine ⟨renewAll_eq distinct kept.progress.names_eq fun function member => ?_,
      fun others fixed => within_of_settled ordered fixed yields⟩
    exact kept.progress.settled function member (ordered.bottomUp.covers function member)
  refine ⟨ledger.summaries, _, ledger, leastReport_of_least distinct least, ?_, visits, ?_⟩
  · rw [run, Attempt.yields_bind_iff]
    exact ⟨ledger.summaries, yields, rfl⟩
  · rw [kept.filterMap_lookup ordered]

/-- Two functions that pass a pointer to each other, and one of them stores it. -/
def pingPong : Program where
  functions := [
    { name := "ping", parameters := [⟨"p", .pointer (.named "int")⟩],
      body := [.instruction { name := "call", funcs := ["pong"], args := ["p"] }] },
    { name := "pong", parameters := [⟨"q", .pointer (.named "int")⟩],
      body := [
        .instruction { name := "call", funcs := ["ping"], args := ["q"] },
        .instruction { name := "store", args := ["q", "q"] }] }]

/-- The mutual recursion has a report. -/
theorem run_reports_least_pingPong : ∃ calls summaries report,
    Attempt.Yields (CallGraph.ofProgram pingPong ⟨"none", fun _ _ => []⟩) calls ∧
      LeastReport ⟨⟨"m", pingPong, []⟩, calls, fun _ _ => false⟩ summaries report ∧
        Attempt.Yields (run ⟨⟨"m", pingPong, []⟩, calls, fun _ _ => false⟩) report := by
  have loads : Attempt.Yields (Module.ofProgram "m" pingPong []) ⟨"m", pingPong, []⟩ := rfl
  obtain ⟨calls, builds⟩ : ∃ calls, Attempt.Yields
      (CallGraph.ofProgram pingPong ⟨"none", fun _ _ => []⟩) calls := ⟨_, rfl⟩
  obtain ⟨summaries, report, _, reports, yields, _, _⟩ :=
    run_reports_least (fun _ _ => false) loads builds
  exact ⟨calls, summaries, report, builds, reports, yields⟩

end ProgramGraphs.EscapeContext
