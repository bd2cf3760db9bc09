import ProgramGraphs.Proofs.CallGraph
import ProgramGraphs.Proofs.Escape.Analysis
import ProgramGraphs.Proofs.Module

/-! # Settled summaries

Renewing a summary lets more escape as long as no summary is ahead of its analysis (`Rising`). So
rounds end, and when they do the summaries of the component are what its analysis finds. Functions
call only into their own component and those before it: what is settled stays settled, and in the
end every summary is what the analysis of its function finds (`Settled`).
-/

namespace ProgramGraphs.EscapeContext

variable {context : EscapeContext} {summaries others : EscapeSummaries}
variable {members : List Function}

/-- No summary of some functions is ahead of their analysis. -/
def Rising (context : EscapeContext) (members : List Function) (summaries : EscapeSummaries) :
    Prop :=
  ∀ function ∈ members, FlagsWithin (summaries.flags function.name)
    (context.analyse summaries function).parameters

/-- Summaries are renewed only for some functions, each of which is summed up under a name of its
own. -/
structure Members (summaries : EscapeSummaries) (members : List Function) : Prop where
  distinct : (members.map (·.name)).Nodup
  listed : ∀ function ∈ members, function.name ∈ summaries.names

theorem renew_flags_of_ne {function : Function} {other : String}
    (distinct : other ≠ function.name) :
    (context.renew summaries function).flags other = summaries.flags other :=
  EscapeSummaries.flags_set_other distinct _

theorem names_renew (summaries : EscapeSummaries) (function : Function) :
    (context.renew summaries function).names = summaries.names :=
  EscapeSummaries.names_set summaries function.name _

theorem Rising.renew_within (rising : context.Rising members summaries)
    (own : Members summaries members) {function : Function} (member : function ∈ members) :
    summaries.Within (context.renew summaries function) := by
  refine ⟨(names_renew summaries function).symm, fun other => ?_⟩
  by_cases same : other = function.name
  · rw [same, renew, EscapeSummaries.flags_set_same (own.listed function member)]
    exact rising function member
  · rw [renew_flags_of_ne same]
    exact .refl _

/-- Renewing keeps every summary from getting ahead. -/
theorem Rising.renew (rising : context.Rising members summaries)
    (own : Members summaries members) {function : Function} (member : function ∈ members) :
    context.Rising members (context.renew summaries function) := by
  have within := rising.renew_within own member
  intro other otherMember
  refine FlagsWithin.trans ?_ ((Below.refl context).parameters_within within other)
  by_cases same : other.name = function.name
  · obtain rfl := List.inj_on_of_nodup_map own.distinct otherMember member same
    rw [EscapeContext.renew, EscapeSummaries.flags_set_same (own.listed other member)]
    exact .refl _
  · rw [renew_flags_of_ne same]
    exact rising other otherMember

theorem Members.renew (own : Members summaries members) (function : Function) :
    Members (context.renew summaries function) members :=
  ⟨own.distinct, fun other member => by rw [names_renew]; exact own.listed other member⟩

/-- What a round, or any number of them, does to the summaries of some functions. -/
structure Raised (context : EscapeContext) (members : List Function)
    (summaries raised : EscapeSummaries) : Prop where
  within : summaries.Within raised
  rising : context.Rising members raised
  own : Members raised members
  others : ∀ name, name ∉ members.map (·.name) → raised.flags name = summaries.flags name

theorem Raised.trans {first second third : EscapeSummaries}
    (one : context.Raised members first second) (other : context.Raised members second third) :
    context.Raised members first third :=
  ⟨one.within.trans other.within, other.rising, other.own, fun name outside =>
    (other.others name outside).trans (one.others name outside)⟩

theorem Raised.renew {raised : EscapeSummaries}
    (raises : context.Raised members summaries raised) {function : Function}
    (member : function ∈ members) :
    context.Raised members summaries (context.renew raised function) := by
  refine raises.trans ⟨raises.rising.renew_within raises.own member,
    raises.rising.renew raises.own member, raises.own.renew function, fun name outside => ?_⟩
  refine renew_flags_of_ne fun same => outside ?_
  exact same ▸ List.mem_map_of_mem member

theorem raised_foldl (todo : List Function) (inside : ∀ function ∈ todo, function ∈ members)
    {raised : EscapeSummaries} (raises : context.Raised members summaries raised) :
    context.Raised members summaries (todo.foldl context.renew raised) := by
  induction todo generalizing raised with
  | nil => exact raises
  | cons function rest ih =>
    exact ih (fun other member => inside other (List.mem_cons_of_mem _ member))
      (raises.renew (inside function List.mem_cons_self))

theorem raised_round (rising : context.Rising members summaries)
    (own : Members summaries members) :
    context.Raised members summaries (context.round members summaries) :=
  raised_foldl members (fun _ member => member)
    ⟨.refl summaries, rising, own, fun _ _ => rfl⟩

/-- If renewing summaries one after another changes nothing, no renewal does. -/
theorem renew_eq_of_foldl_eq (rising : context.Rising members summaries)
    (own : Members summaries members) (distinct : summaries.names.Nodup) (todo : List Function)
    (inside : ∀ function ∈ todo, function ∈ members)
    (unchanged : todo.foldl context.renew summaries = summaries) :
    ∀ function ∈ todo, context.renew summaries function = summaries := by
  induction todo with
  | nil => exact fun _ member => absurd member List.not_mem_nil
  | cons function rest ih =>
    obtain ⟨here, others⟩ := List.forall_mem_cons.mp inside
    have within := rising.renew_within own here
    have same : summaries = context.renew summaries function := by
      have back := (raised_foldl rest others
        ⟨.refl _, rising.renew own here, own.renew function, fun _ _ => rfl⟩).within
      rw [List.foldl_cons] at unchanged
      rw [unchanged] at back
      exact EscapeSummaries.eq_of_within distinct within
        (Nat.not_lt_of_le (back.quiet_le (within.names_eq ▸ distinct)))
    rw [List.foldl_cons, ← same] at unchanged
    exact List.forall_mem_cons.mpr ⟨same.symm, ih others unchanged⟩

/-- The summary of a function is what its analysis finds. -/
def Settled (context : EscapeContext) (summaries : EscapeSummaries) (function : Function) : Prop :=
  (context.analyse summaries function).parameters = summaries.flags function.name

theorem settled_of_renew_eq (own : Members summaries members) {function : Function}
    (member : function ∈ members) (unchanged : context.renew summaries function = summaries) :
    context.Settled summaries function := by
  have renewed := EscapeSummaries.flags_set_same (own.listed function member)
    (context.analyse summaries function).parameters
  change (context.renew summaries function).flags function.name = _ at renewed
  rw [unchanged] at renewed
  exact renewed.symm

/-- Rounds end with summaries that are what the analysis finds. -/
theorem settle_settled (rising : context.Rising members summaries)
    (own : Members summaries members) (distinct : summaries.names.Nodup) (rounds : Nat) :
    context.Raised members summaries (context.settle members rounds summaries).1 ∧
      ∀ function ∈ members,
        context.Settled (context.settle members rounds summaries).1 function := by
  induction size : summaries.quiet using Nat.strongRecOn generalizing summaries rounds with
  | ind size ih =>
    have raised := raised_round rising own
    rw [settle]
    split
    · next less =>
      obtain ⟨later, settled⟩ := ih _ (size ▸ less) raised.rising raised.own
        (raised.within.names_eq ▸ distinct) (rounds + 1) rfl
      exact ⟨raised.trans later, settled⟩
    · next still =>
      have same := EscapeSummaries.eq_of_within distinct raised.within still
      refine ⟨raised, fun function member => ?_⟩
      rw [← same]
      exact settled_of_renew_eq own member
        (renew_eq_of_foldl_eq rising own distinct members (fun _ inside => inside) same.symm
          function member)

/-- The calls of a module with functions of distinct names are known, callees before callers. -/
structure Ordered (context : EscapeContext) : Prop where
  distinct : (context.module.functions.map (·.name)).Nodup
  bottomUp : context.calls.BottomUp context.module.program
  listed : ∀ function ∈ context.module.functions, ∀ site instruction callee,
    function.instructions[site]? = some instruction →
      context.Calls function.name site instruction callee →
        ∃ found ∈ context.calls.sitesOf function.name, callee ∈ found.targets

theorem ordered_of_distinct {pointsTo : PointsTo}
    (distinct : (context.module.functions.map (·.name)).Nodup)
    (describes : context.calls.Describes context.module.program pointsTo) : context.Ordered where
  distinct := distinct
  bottomUp := describes.bottomUp
  listed function member site instruction callee here calls := by
    have noted := describes.site_eq function member site instruction here
    have targets : callee ∈
        ((context.calls.siteAt? function.name site).map (·.targets)).getD [] := by
      rcases calls with ⟨operation, head⟩ | ⟨_, reached⟩
      · obtain ⟨others, funcs⟩ := List.head?_eq_some_iff.mp head
        simp only [CallGraph.siteOf?, operation, funcs, Except.ok.injEq] at noted
        rw [← noted]
        simp
      · exact reached
    cases found : context.calls.siteAt? function.name site with
    | none => simp [found] at targets
    | some held =>
      rw [found] at targets
      exact ⟨held, List.mem_of_find?_eq_some found, targets⟩

theorem ordered_of_describes {pointsTo : PointsTo} (current : context.module.Current)
    (describes : context.calls.Describes context.module.program pointsTo) : context.Ordered :=
  ordered_of_distinct current.distinct describes

theorem function?_eq_some {program : Program} {name : String} {function : Function}
    (found : program.function? name = some function) :
    function ∈ program.functions ∧ function.name = name :=
  mem_of_find?_key found

/-- The functions of names that have bodies are found. -/
theorem exists_mapM_function (module : Module) (names : List String)
    (defined : ∀ name ∈ names, module.program.defines name = true) :
    ∃ members, names.mapM module.function = .ok members ∧ members.map (·.name) = names ∧
      ∀ function ∈ members, function ∈ module.functions := by
  induction names with
  | nil => exact ⟨[], rfl, rfl, fun _ member => absurd member List.not_mem_nil⟩
  | cons name rest ih =>
    obtain ⟨here, others⟩ := List.forall_mem_cons.mp defined
    obtain ⟨members, finds, names, inside⟩ := ih others
    obtain ⟨function, found⟩ := Option.isSome_iff_exists.mp here
    obtain ⟨member, named⟩ := function?_eq_some found
    refine ⟨function :: members, ?_, by simp [named, names],
      List.forall_mem_cons.mpr ⟨member, inside⟩⟩
    rw [List.mapM_cons, finds, Module.function, found]
    rfl

theorem settle_nil (rounds : Nat) (summaries : EscapeSummaries) :
    (context.settle [] rounds summaries).1 = summaries := by
  rw [settle]
  simp [round]

/-- Settling a component is settling its functions with bodies. -/
theorem yields_settleComponent_iff {component : List String} {settled : EscapeSummaries} :
    Attempt.Yields (context.settleComponent summaries component) settled ↔
      ∃ members, (component.filter fun name => !context.calls.isExternal name).mapM
          context.module.function = .ok members ∧
        (context.settle members 0 summaries).1 = settled := by
  rw [settleComponent, Attempt.yields_bind_iff]
  refine exists_congr fun members => ?_
  rw [Attempt.yields_ofExcept_iff]
  refine and_congr_right fun _ => ?_
  cases members with
  | nil => rw [settle_nil, Attempt.yields_pure_iff]
  | cons first rest =>
    dsimp only
    split
    · rw [Attempt.yields_bind_iff]
      exact ⟨fun ⟨_, _, ends⟩ => Attempt.yields_pure_iff.mp ends, fun ends => ⟨(), rfl, ends ▸ rfl⟩⟩
    · rw [Attempt.yields_pure_iff]

/-- The summaries when some components are settled and the others have not been touched. -/
structure Progress (context : EscapeContext) (before : List (List String))
    (summaries : EscapeSummaries) : Prop where
  names_eq : summaries.names = context.module.functions.map (·.name)
  settled : ∀ function ∈ context.module.functions, function.name ∈ before.flatten →
    context.Settled summaries function
  blank : ∀ function ∈ context.module.functions, function.name ∉ before.flatten →
    summaries.flags function.name = List.replicate function.parameters.length false

theorem progress_blank (ordered : context.Ordered) :
    context.Progress [] (.blank context.module.functions) := by
  refine ⟨?_, fun _ _ member => absurd member List.not_mem_nil, fun function member _ => ?_⟩
  · simp [EscapeSummaries.names, EscapeSummaries.blank, Function.comp_def]
  · have found := lookup_map_key_of_mem
      (fun function : Function => List.replicate function.parameters.length false)
      ordered.distinct member
    exact congrArg (·.getD []) found

/-- What settled functions call is settled too. -/
theorem Ordered.callee_mem (ordered : context.Ordered) {before after : List (List String)}
    (cut : context.calls.bottomUp = before ++ after) {function : Function}
    (member : function ∈ context.module.functions) (inside : function.name ∈ before.flatten)
    {site : Nat} {instruction : Instruction} {callee : String}
    (here : function.instructions[site]? = some instruction)
    (calls : context.Calls function.name site instruction callee) :
    callee ∈ before.flatten := by
  obtain ⟨component, listed, held⟩ := List.mem_flatten.mp inside
  obtain ⟨earlier, later, rfl⟩ := List.append_of_mem listed
  obtain ⟨found, foundIn, reached⟩ :=
    ordered.listed function member site instruction callee here calls
  have order := ordered.bottomUp.callees_first earlier component (later ++ after)
    (by rw [cut, List.append_assoc, List.cons_append]) function member held found foundIn callee
    reached
  rw [List.flatten_append, List.flatten_cons, List.mem_append, List.mem_append]
  exact order.imp_right .inl

/-- Raising the summaries of other functions does not change what is found in settled ones. -/
theorem analyse_eq_of_raised (ordered : context.Ordered) {before after : List (List String)}
    (cut : context.calls.bottomUp = before ++ after) {raised : EscapeSummaries}
    (raises : context.Raised members summaries raised)
    (apart : ∀ name ∈ before.flatten, name ∉ members.map (·.name)) {function : Function}
    (member : function ∈ context.module.functions) (inside : function.name ∈ before.flatten) :
    context.analyse raised function = context.analyse summaries function := by
  refine analyse_congr fun site instruction callee here calls => ?_
  have earlier := ordered.callee_mem cut member inside here calls
  have flags := raises.others callee (apart callee earlier)
  by_cases known : callee ∈ summaries.names
  · rw [EscapeSummaries.find?_eq_of_mem known,
      EscapeSummaries.find?_eq_of_mem (raises.within.names_eq ▸ known), flags]
  · rw [(EscapeSummaries.find?_eq_none_iff summaries callee).mpr known,
      (EscapeSummaries.find?_eq_none_iff raised callee).mpr (raises.within.names_eq ▸ known)]

/-- Raising the summaries of other functions keeps what is settled. -/
theorem settled_of_raised (ordered : context.Ordered) {before after : List (List String)}
    (cut : context.calls.bottomUp = before ++ after) {raised : EscapeSummaries}
    (raises : context.Raised members summaries raised)
    (apart : ∀ name ∈ before.flatten, name ∉ members.map (·.name)) {function : Function}
    (member : function ∈ context.module.functions) (inside : function.name ∈ before.flatten)
    (settled : context.Settled summaries function) : context.Settled raised function := by
  rw [Settled, analyse_eq_of_raised ordered cut raises apart member inside,
    raises.others function.name (apart function.name inside)]
  exact settled

/-- Functions that have not been touched may be renewed. -/
theorem Progress.rising {before : List (List String)} {component : List String}
    (progress : context.Progress before summaries)
    (apart : ∀ name ∈ component, name ∉ before.flatten)
    (inside : ∀ function ∈ members,
      function ∈ context.module.functions ∧ function.name ∈ component) :
    context.Rising members summaries := by
  intro function member
  obtain ⟨known, here⟩ := inside function member
  rw [progress.blank function known (apart function.name here),
    ← context.length_parameters summaries function]
  exact .of_replicate _

theorem Progress.own {before : List (List String)} {component : List String}
    (progress : context.Progress before summaries) (distinct : component.Nodup)
    (named : members.map (·.name) = component.filter context.module.program.defines) :
    Members summaries members := by
  refine ⟨named ▸ distinct.filter _, fun function member => ?_⟩
  have listed : function.name ∈ members.map (·.name) := List.mem_map_of_mem member
  rw [named] at listed
  obtain ⟨_, defined⟩ := List.mem_filter.mp listed
  obtain ⟨found, finds⟩ := Option.isSome_iff_exists.mp defined
  obtain ⟨known, same⟩ := function?_eq_some finds
  rw [progress.names_eq, ← same]
  exact List.mem_map_of_mem known

/-- The functions with bodies of the next component are found, and may be renewed. -/
theorem Progress.exists_members (ordered : context.Ordered) {before after : List (List String)}
    {component : List String} (cut : context.calls.bottomUp = before ++ component :: after)
    (progress : context.Progress before summaries) :
    ∃ members, (component.filter fun name => !context.calls.isExternal name).mapM
        context.module.function = .ok members ∧
      context.Rising members summaries ∧ Members summaries members ∧
        ∀ function, function ∈ members ↔
          function ∈ context.module.functions ∧ function.name ∈ component := by
  have whole := ordered.bottomUp.distinct
  rw [cut, List.flatten_append, List.flatten_cons] at whole
  have apart : ∀ name ∈ component, name ∉ before.flatten := fun name inside earlier =>
    (List.nodup_append.mp whole).2.2 name earlier name (List.mem_append_left _ inside) rfl
  have distinct : component.Nodup := (List.nodup_append.mp (List.nodup_append.mp whole).2.1).1
  have names : (component.filter fun name => !context.calls.isExternal name) =
      component.filter context.module.program.defines := by
    refine List.filter_congr fun name member => ?_
    rw [ordered.bottomUp.isExternal_eq name, Bool.not_not]
    rw [cut]
    exact List.mem_flatten.mpr ⟨component, by simp, member⟩
  obtain ⟨members, finds, named, inside⟩ := exists_mapM_function context.module
    (component.filter context.module.program.defines)
    (fun name member => (List.mem_filter.mp member).2)
  have iff : ∀ function, function ∈ members ↔
      function ∈ context.module.functions ∧ function.name ∈ component := by
    intro function
    constructor
    · intro member
      have listed : function.name ∈ members.map (·.name) := List.mem_map_of_mem member
      rw [named] at listed
      exact ⟨inside function member, (List.mem_filter.mp listed).1⟩
    · rintro ⟨known, here⟩
      have listed : function.name ∈ members.map (·.name) := by
        rw [named]
        exact List.mem_filter.mpr ⟨here, CallGraph.defines_of_mem known⟩
      obtain ⟨other, member, same⟩ := List.mem_map.mp listed
      exact List.inj_on_of_nodup_map ordered.distinct (inside other member) known same ▸ member
  exact ⟨members, names ▸ finds, progress.rising apart fun function member =>
    (iff function).mp member, progress.own distinct named, iff⟩

/-- Raising the summaries of the next component until they are settled is progress. -/
theorem Progress.raise (ordered : context.Ordered) {before after : List (List String)}
    {component : List String} (cut : context.calls.bottomUp = before ++ component :: after)
    (progress : context.Progress before summaries)
    (inside : ∀ function, function ∈ members ↔
      function ∈ context.module.functions ∧ function.name ∈ component)
    {settled : EscapeSummaries} (raised : context.Raised members summaries settled)
    (done : ∀ function ∈ members, context.Settled settled function) :
    context.Progress (before ++ [component]) settled := by
  have whole := ordered.bottomUp.distinct
  rw [cut, List.flatten_append, List.flatten_cons] at whole
  have names : ∀ name ∈ members.map (·.name), name ∈ component := by
    intro name listed
    obtain ⟨function, member, rfl⟩ := List.mem_map.mp listed
    exact ((inside function).mp member).2
  refine ⟨?_, fun function known here => ?_, fun function known beyond => ?_⟩
  · rw [← raised.within.names_eq, progress.names_eq]
  · rw [List.flatten_append, List.mem_append, List.flatten_singleton] at here
    rcases here with earlier | here
    · refine settled_of_raised ordered cut raised (fun name early member => ?_) known earlier
        (progress.settled function known earlier)
      exact (List.nodup_append.mp whole).2.2 name early name
        (List.mem_append_left _ (names name member)) rfl
    · exact done function ((inside function).mpr ⟨known, here⟩)
  · rw [List.flatten_append, List.mem_append, List.flatten_singleton, not_or] at beyond
    rw [raised.others function.name fun member => beyond.2 (names _ member)]
    exact progress.blank function known beyond.1

/-- Settling the next component is progress. -/
theorem Progress.step (ordered : context.Ordered) {before after : List (List String)}
    {component : List String} (cut : context.calls.bottomUp = before ++ component :: after)
    (progress : context.Progress before summaries) :
    ∃ settled, Attempt.Yields (context.settleComponent summaries component) settled ∧
      context.Progress (before ++ [component]) settled := by
  obtain ⟨members, finds, rising, own, inside⟩ := progress.exists_members ordered cut
  obtain ⟨raised, done⟩ :=
    settle_settled rising own (progress.names_eq ▸ ordered.distinct) 0
  exact ⟨_, yields_settleComponent_iff.mpr ⟨members, finds, rfl⟩,
    progress.raise ordered cut inside raised done⟩

/-- All components are settled in the end. -/
theorem exists_settled (ordered : context.Ordered) : ∃ summaries,
    Attempt.Yields (context.calls.bottomUp.foldlM context.settleComponent
        (.blank context.module.functions)) summaries ∧
      context.Progress context.calls.bottomUp summaries :=
  Attempt.exists_yields_foldlM (fun before summaries => context.Progress before summaries)
    (progress_blank ordered) (fun _ _ _ _ cut progress => progress.step ordered cut)

/-- The analysis of a module reports the analyses of its functions under the settled summaries. -/
theorem yields_run (yields : Attempt.Yields (context.calls.bottomUp.foldlM context.settleComponent
      (.blank context.module.functions)) summaries) :
    Attempt.Yields context.run
      ⟨context.module.name, context.module.functions.map (context.analyse summaries)⟩ := by
  rw [run, Attempt.yields_bind_iff]
  exact ⟨summaries, yields, rfl⟩

/-- The analysis of a module ends with the analyses of its functions under summaries that are what
these analyses find. -/
theorem exists_run (ordered : context.Ordered) : ∃ summaries,
    Attempt.Yields context.run
        ⟨context.module.name, context.module.functions.map (context.analyse summaries)⟩ ∧
      summaries.names = context.module.functions.map (·.name) ∧
        ∀ function ∈ context.module.functions, context.Settled summaries function := by
  obtain ⟨summaries, yields, progress⟩ := exists_settled ordered
  exact ⟨summaries, yields_run yields, progress.names_eq, fun function member =>
    progress.settled function member (ordered.bottomUp.covers function member)⟩

end ProgramGraphs.EscapeContext
