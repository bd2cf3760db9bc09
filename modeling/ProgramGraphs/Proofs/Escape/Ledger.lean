import ProgramGraphs.Proofs.Escape.Settling

/-! # The walk that keeps what it finds

The analysis need not look at a module a second time when its summaries are settled. A walk over the
components that keeps the latest analysis of every function, and replaces summaries in place, has
all analyses under the settled summaries when it ends: the last sweep over a component replaces no
summary, so all of it is done under the same ones, and what later components raise is called by
nothing before them (`exists_visits`).
-/

namespace ProgramGraphs

namespace EscapeContext

variable {context : EscapeContext} {summaries others : EscapeSummaries}
variable {members : List Function}

/-- The summaries so far, and what has been found of each function, the latest first. -/
structure Ledger where
  summaries : EscapeSummaries
  found : List (String × FunctionEscape)

/-- Analyse some functions one after another. What is found is kept, and a summary is replaced where
it is another. Whether any was is told. -/
def sweep (context : EscapeContext) : List Function → Ledger → Ledger × Bool
  | [], ledger => (ledger, false)
  | function :: rest, ledger =>
    let result := context.analyse ledger.summaries function
    let found := (function.name, result) :: ledger.found
    if ledger.summaries.find? function.name = some result.parameters then
      context.sweep rest ⟨ledger.summaries, found⟩
    else
      ((context.sweep rest ⟨ledger.summaries.set function.name result.parameters, found⟩).1, true)

/-- Sweeps over some functions until one replaces no summary. -/
inductive Sweeps (context : EscapeContext) (members : List Function) : Ledger → Ledger → Prop
  | last {ledger next : Ledger} :
      context.sweep members ledger = (next, false) → Sweeps context members ledger next
  | again {ledger next final : Ledger} :
      context.sweep members ledger = (next, true) → Sweeps context members next final →
        Sweeps context members ledger final

/-- Sweeps over the functions with bodies of one component after another. -/
inductive Visits (context : EscapeContext) : List (List String) → Ledger → Ledger → Prop
  | done (ledger : Ledger) : Visits context [] ledger ledger
  | pass {component : List String} {rest : List (List String)} {ledger final : Ledger} :
      (component.filter fun name => !context.calls.isExternal name).mapM
        context.module.function = .ok [] → Visits context rest ledger final →
          Visits context (component :: rest) ledger final
  | settle {component : List String} {rest : List (List String)} {members : List Function}
      {ledger next final : Ledger} :
      (component.filter fun name => !context.calls.isExternal name).mapM
        context.module.function = .ok members → members ≠ [] →
          Sweeps context members ledger next → Visits context rest next final →
            Visits context (component :: rest) ledger final

/-- Sweeps end in one way at most. -/
theorem Sweeps.unique {ledger final other : Ledger} (one : context.Sweeps members ledger final)
    (two : context.Sweeps members ledger other) : final = other := by
  induction one with
  | last ends =>
    cases two with
    | last same => exact congrArg Prod.fst (ends.symm.trans same)
    | again same _ => cases congrArg Prod.snd (ends.symm.trans same)
  | again goes _ ih =>
    cases two with
    | last same => cases congrArg Prod.snd (goes.symm.trans same)
    | again same rest =>
      obtain rfl := congrArg Prod.fst (goes.symm.trans same)
      exact ih rest

/-- A walk ends in one way at most. -/
theorem Visits.unique {components : List (List String)} {ledger final other : Ledger}
    (one : context.Visits components ledger final) (two : context.Visits components ledger other) :
    final = other := by
  induction one with
  | done => cases two; rfl
  | pass finds _ ih =>
    cases two with
    | pass _ rest => exact ih rest
    | settle same present =>
      exact absurd (Except.ok.inj (same.symm.trans finds)) present
  | settle finds present sweeps _ ih =>
    cases two with
    | pass same => exact absurd (Except.ok.inj (finds.symm.trans same)) present
    | settle same _ others rest =>
      obtain rfl := Except.ok.inj (finds.symm.trans same)
      obtain rfl := sweeps.unique others
      exact ih rest

theorem summaries_sweep (todo : List Function) (ledger : Ledger)
    (distinct : ledger.summaries.names.Nodup) :
    (context.sweep todo ledger).1.summaries = todo.foldl context.renew ledger.summaries := by
  induction todo generalizing ledger with
  | nil => rfl
  | cons function rest ih =>
    rw [sweep, List.foldl_cons]
    split
    · next same =>
      have kept : context.renew ledger.summaries function = ledger.summaries :=
        EscapeSummaries.set_eq_self distinct same
      rw [kept]
      exact ih _ distinct
    · refine ih _ ?_
      rw [EscapeSummaries.names_set]
      exact distinct

/-- A sweep finds nothing of other functions. -/
theorem lookup_sweep_of_notMem {name : String} {todo : List Function}
    (outside : name ∉ todo.map (·.name)) (ledger : Ledger) :
    (context.sweep todo ledger).1.found.lookup name = ledger.found.lookup name := by
  induction todo generalizing ledger with
  | nil => rfl
  | cons function rest ih =>
    rw [List.map_cons, List.mem_cons, not_or] at outside
    have skip : ((function.name, context.analyse ledger.summaries function) ::
        ledger.found).lookup name = ledger.found.lookup name := by
      rw [List.lookup_cons, beq_eq_false_iff_ne.mpr outside.1]
    rw [sweep]
    split
    · exact (ih outside.2 _).trans skip
    · exact (ih outside.2 _).trans skip

/-- A sweep replaces no summary if all are what is found, and then all is found under them. -/
theorem sweep_of_settled {todo : List Function} (distinct : (todo.map (·.name)).Nodup)
    (same : ∀ function ∈ todo, summaries.find? function.name =
      some (context.analyse summaries function).parameters)
    (found : List (String × FunctionEscape)) :
    (context.sweep todo ⟨summaries, found⟩).2 = false ∧ ∀ function ∈ todo,
      (context.sweep todo ⟨summaries, found⟩).1.found.lookup function.name =
        some (context.analyse summaries function) := by
  induction todo generalizing found with
  | nil => exact ⟨rfl, fun _ member => absurd member List.not_mem_nil⟩
  | cons function rest ih =>
    obtain ⟨here, others⟩ := List.forall_mem_cons.mp same
    rw [List.map_cons, List.nodup_cons] at distinct
    rw [sweep, if_pos here]
    refine (ih distinct.2 others _).imp_right fun later => List.forall_mem_cons.mpr ⟨?_, later⟩
    rw [lookup_sweep_of_notMem distinct.1, List.lookup_cons_self]

/-- A sweep that replaces no summary leaves them as they are. -/
theorem summaries_eq_of_sweep (todo : List Function) (ledger : Ledger)
    (still : (context.sweep todo ledger).2 = false) :
    (context.sweep todo ledger).1.summaries = ledger.summaries := by
  induction todo generalizing ledger with
  | nil => rfl
  | cons function rest ih =>
    rw [sweep] at still ⊢
    split at still
    · next same =>
      rw [if_pos same]
      exact ih _ still
    · cases still

/-- Sweeps end, with the summaries that rounds settle on, and all is found under these. -/
theorem exists_sweeps {ledger : Ledger} (rising : context.Rising members ledger.summaries)
    (own : Members ledger.summaries members) (distinct : ledger.summaries.names.Nodup)
    (rounds : Nat) :
    ∃ final, context.Sweeps members ledger final ∧
      final.summaries = (context.settle members rounds ledger.summaries).1 ∧
        (∀ function ∈ members, final.found.lookup function.name =
          some (context.analyse final.summaries function)) ∧
        ∀ name, name ∉ members.map (·.name) →
          final.found.lookup name = ledger.found.lookup name := by
  induction size : ledger.summaries.quiet using Nat.strongRecOn generalizing ledger rounds with
  | ind size ih =>
    have raised := raised_round rising own
    have goes : (context.sweep members ledger).1.summaries =
        context.round members ledger.summaries := summaries_sweep members ledger distinct
    rw [settle]
    split
    · next less =>
      have changed : (context.sweep members ledger).2 = true := by
        by_contra still
        have same := summaries_eq_of_sweep members ledger (eq_false_of_ne_true still)
        rw [← goes, same] at less
        exact Nat.lt_irrefl _ less
      rw [← goes] at less
      have rises : context.Rising members (context.sweep members ledger).1.summaries :=
        goes ▸ raised.rising
      have owned : Members (context.sweep members ledger).1.summaries members :=
        goes ▸ raised.own
      obtain ⟨final, sweeps, ends, found, others⟩ := ih _ (size ▸ less) rises owned
        (by rw [goes, ← raised.within.names_eq]; exact distinct) (rounds + 1) rfl
      refine ⟨final, .again (Prod.ext rfl changed) sweeps, ?_, found, fun name outside => ?_⟩
      · rw [ends, goes]
      · rw [others name outside, lookup_sweep_of_notMem outside]
    · next stays =>
      have same := EscapeSummaries.eq_of_within distinct raised.within stays
      have settled : ∀ function ∈ members, ledger.summaries.find? function.name =
          some (context.analyse ledger.summaries function).parameters := by
        intro function member
        have kept := renew_eq_of_foldl_eq rising own distinct members (fun _ inside => inside)
          same.symm function member
        rw [EscapeSummaries.find?_eq_of_mem (own.listed function member),
          ← settled_of_renew_eq own member kept]
      obtain ⟨still, found⟩ := sweep_of_settled own.distinct settled ledger.found
      refine ⟨_, .last (Prod.ext rfl still), goes, fun function member => ?_, fun name outside =>
        lookup_sweep_of_notMem outside ledger⟩
      rw [found function member, goes, ← same]

/-- The ledger when some components have been visited. -/
structure Kept (context : EscapeContext) (before : List (List String)) (ledger : Ledger) :
    Prop where
  progress : context.Progress before ledger.summaries
  found : ∀ function ∈ context.module.functions, function.name ∈ before.flatten →
    ledger.found.lookup function.name = some (context.analyse ledger.summaries function)

/-- Visiting the next component keeps the ledger, and settles the component. -/
theorem Kept.step (ordered : context.Ordered) {before after : List (List String)}
    {component : List String} (cut : context.calls.bottomUp = before ++ component :: after)
    {ledger : Ledger} (kept : context.Kept before ledger) :
    ∃ next, Attempt.Yields (context.settleComponent ledger.summaries component) next.summaries ∧
      context.Kept (before ++ [component]) next ∧ ∀ final, context.Visits after next final →
        context.Visits (component :: after) ledger final := by
  obtain ⟨members, finds, rising, own, inside⟩ := kept.progress.exists_members ordered cut
  have distinct : ledger.summaries.names.Nodup := kept.progress.names_eq ▸ ordered.distinct
  obtain ⟨raised, done⟩ := settle_settled rising own distinct 0
  obtain ⟨next, sweeps, settles, found, others⟩ := exists_sweeps rising own distinct 0
  rw [← settles] at raised done
  have whole := ordered.bottomUp.distinct
  rw [cut, List.flatten_append, List.flatten_cons] at whole
  have apart : ∀ name ∈ before.flatten, name ∉ members.map (·.name) := by
    intro name early listed
    obtain ⟨function, member, rfl⟩ := List.mem_map.mp listed
    exact (List.nodup_append.mp whole).2.2 _ early _
      (List.mem_append_left _ ((inside function).mp member).2) rfl
  have keeps : context.Kept (before ++ [component]) next := by
    refine ⟨kept.progress.raise ordered cut inside raised done, fun function known here => ?_⟩
    rw [List.flatten_append, List.mem_append, List.flatten_singleton] at here
    rcases here with earlier | here
    · rw [others _ (apart _ earlier), kept.found function known earlier,
        analyse_eq_of_raised ordered cut raised apart known earlier]
    · exact found function ((inside function).mpr ⟨known, here⟩)
  cases members with
  | nil =>
    rw [settle_nil] at settles
    refine ⟨ledger, ?_, ⟨settles ▸ keeps.progress, fun function known here => ?_⟩,
      fun final visits => .pass finds visits⟩
    · exact yields_settleComponent_iff.mpr ⟨[], finds, settle_nil 0 ledger.summaries⟩
    · rw [← others function.name List.not_mem_nil, keeps.found function known here, settles]
  | cons first rest =>
    exact ⟨next, yields_settleComponent_iff.mpr ⟨_, finds, settles.symm⟩, keeps,
      fun final visits => .settle finds (List.cons_ne_nil first rest) sweeps visits⟩

/-- The walk ends with the summaries that are settled component by component, and with the analysis
of every function under these. -/
theorem exists_visits (ordered : context.Ordered) : ∃ ledger,
    context.Visits context.calls.bottomUp ⟨.blank context.module.functions, []⟩ ledger ∧
      Attempt.Yields (context.calls.bottomUp.foldlM context.settleComponent
          (.blank context.module.functions)) ledger.summaries ∧
        context.Kept context.calls.bottomUp ledger := by
  have onward : ∀ after before ledger, context.calls.bottomUp = before ++ after →
      context.Kept before ledger → ∃ final, context.Visits after ledger final ∧
        Attempt.Yields (after.foldlM context.settleComponent ledger.summaries) final.summaries ∧
          context.Kept context.calls.bottomUp final := by
    intro after
    induction after with
    | nil =>
      intro before ledger cut kept
      rw [List.append_nil] at cut
      exact ⟨ledger, .done ledger, rfl, cut ▸ kept⟩
    | cons component rest ih =>
      intro before ledger cut kept
      obtain ⟨next, settles, keeps, visits⟩ := kept.step ordered cut
      obtain ⟨final, others, yields, ends⟩ := ih (before ++ [component]) next (by simp [cut]) keeps
      refine ⟨final, visits final others, ?_, ends⟩
      rw [List.foldlM_cons, Attempt.yields_bind_iff]
      exact ⟨next.summaries, settles, yields⟩
  exact onward _ [] _ rfl
    ⟨progress_blank ordered, fun _ _ member => absurd member List.not_mem_nil⟩

/-- What is kept of the functions of a module, in their order. -/
theorem Kept.filterMap_lookup (ordered : context.Ordered) {ledger : Ledger}
    (kept : context.Kept context.calls.bottomUp ledger) :
    (context.module.functions.filterMap fun function => ledger.found.lookup function.name) =
      context.module.functions.map (context.analyse ledger.summaries) := by
  rw [← List.filterMap_eq_map]
  refine List.filterMap_congr fun function member => ?_
  exact kept.found function member (ordered.bottomUp.covers function member)

end EscapeContext

end ProgramGraphs
