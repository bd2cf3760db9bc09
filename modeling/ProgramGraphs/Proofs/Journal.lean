import Mathlib.Data.List.Forall2
import ProgramGraphs.Journal

/-! # Results of attempts

An attempt that is made of steps succeeds exactly where each of them does; what is told on the way
has no influence on that. So does a computation over the entries of a list.
-/

namespace ProgramGraphs

variable {ε α β σ : Type}

/-- A computation of two parts succeeds where both do. -/
theorem bind_eq_ok_iff {first : Except ε α} {second : α → Except ε β} {result : β} :
    first >>= second = .ok result ↔ ∃ value, first = .ok value ∧ second value = .ok result := by
  cases first with
  | error fault => exact ⟨nofun, nofun⟩
  | ok value => exact ⟨fun ends => ⟨value, rfl, ends⟩, fun ⟨_, rfl, ends⟩ => ends⟩

/-- A computation of two parts ends with the error of the part that fails first. -/
theorem bind_eq_error_iff {first : Except ε α} {second : α → Except ε β} {fault : ε} :
    first >>= second = .error fault ↔
      first = .error fault ∨ ∃ value, first = .ok value ∧ second value = .error fault := by
  cases first with
  | error other =>
    constructor
    · rintro ⟨⟩
      exact .inl rfl
    · rintro (⟨⟨⟩⟩ | ⟨_, ⟨⟩, _⟩)
      rfl
  | ok value =>
    constructor
    · exact fun ends => .inr ⟨value, rfl, ends⟩
    · rintro (⟨⟨⟩⟩ | ⟨_, ⟨⟩, fails⟩)
      exact fails

theorem exists_bind_eq_ok_iff {first : Except ε α} {second : α → Except ε β} :
    (∃ result, first >>= second = .ok result) ↔
      ∃ value, first = .ok value ∧ ∃ result, second value = .ok result := by
  simp only [bind_eq_ok_iff]
  exact ⟨fun ⟨result, value, here, there⟩ => ⟨value, here, result, there⟩,
    fun ⟨value, here, result, there⟩ => ⟨result, value, here, there⟩⟩

theorem exists_pure_eq_ok (value : α) : ∃ result, (pure value : Except ε α) = .ok result :=
  ⟨value, rfl⟩

/-- What a computation gives that is run on every entry of a list. -/
theorem map_eq_of_mapM_eq_ok {run : α → Except ε β} {entries : List α}
    {results : List β} (runs : entries.mapM run = .ok results) :
    entries.map run = results.map .ok := by
  induction entries generalizing results with
  | nil =>
    cases runs
    rfl
  | cons entry rest ih =>
    rw [List.mapM_cons] at runs
    obtain ⟨first, here, runs⟩ := bind_eq_ok_iff.mp runs
    obtain ⟨others, there, runs⟩ := bind_eq_ok_iff.mp runs
    cases runs
    rw [List.map_cons, List.map_cons, here, ih there]

theorem forall₂_of_mapM_eq_ok {run : α → Except ε β} {entries : List α} {results : List β}
    (runs : entries.mapM run = .ok results) :
    List.Forall₂ (fun entry result => run entry = .ok result) entries results := by
  have given : List.Forall₂ Eq (entries.map run) (results.map .ok) := by
    rw [map_eq_of_mapM_eq_ok runs]
    exact List.forall₂_refl _
  exact List.forall₂_map_right_iff.mp (List.forall₂_map_left_iff.mp given)

theorem exists_entry_of_mapM_eq_ok {run : α → Except ε β} {entries : List α}
    {results : List β} (runs : entries.mapM run = .ok results) {result : β}
    (member : result ∈ results) : ∃ entry ∈ entries, run entry = .ok result := by
  have given := List.mem_map_of_mem (f := Except.ok (ε := ε)) member
  rwa [← map_eq_of_mapM_eq_ok runs, List.mem_map] at given

theorem exists_result_of_mapM_eq_ok {run : α → Except ε β} {entries : List α}
    {results : List β} (runs : entries.mapM run = .ok results) {entry : α}
    (member : entry ∈ entries) : ∃ result ∈ results, run entry = .ok result := by
  have given := List.mem_map_of_mem (f := run) member
  rw [map_eq_of_mapM_eq_ok runs, List.mem_map] at given
  obtain ⟨result, listed, same⟩ := given
  exact ⟨result, listed, same.symm⟩

/-- A computation over a list succeeds where it does for every entry. -/
theorem exists_mapM_eq_ok_iff {run : α → Except ε β} {entries : List α} :
    (∃ results, entries.mapM run = .ok results) ↔
      ∀ entry ∈ entries, ∃ result, run entry = .ok result := by
  constructor
  · rintro ⟨results, runs⟩ entry member
    obtain ⟨result, -, given⟩ := exists_result_of_mapM_eq_ok runs member
    exact ⟨result, given⟩
  · intro goes
    induction entries with
    | nil => exact ⟨[], rfl⟩
    | cons entry rest ih =>
      obtain ⟨⟨result, here⟩, others⟩ := List.forall_mem_cons.mp goes
      obtain ⟨results, there⟩ := ih others
      refine ⟨result :: results, ?_⟩
      rw [List.mapM_cons, here, there]
      rfl

/-- In related lists every entry of the first is related to one of the second. -/
theorem exists_related_of_mem {related : α → β → Prop} {entries : List α} {results : List β}
    (pairs : List.Forall₂ related entries results) {entry : α} (member : entry ∈ entries) :
    ∃ result ∈ results, related entry result := by
  induction pairs with
  | nil => exact absurd member List.not_mem_nil
  | cons here _ ih =>
    rcases List.mem_cons.mp member with rfl | later
    · exact ⟨_, List.mem_cons_self, here⟩
    · obtain ⟨result, inside, found⟩ := ih later
      exact ⟨result, List.mem_cons_of_mem _ inside, found⟩

/-- Either a computation goes well for every entry of a list, or there is a first for which it does
not. -/
theorem forall₂_ok_or_exists_error (run : α → Except ε β) (entries : List α) :
    (∃ results, List.Forall₂ (fun entry result => run entry = .ok result) entries results) ∨
      ∃ before entry after fault, entries = before ++ entry :: after ∧
        (∀ earlier ∈ before, ∃ result, run earlier = .ok result) ∧ run entry = .error fault := by
  induction entries with
  | nil => exact .inl ⟨[], .nil⟩
  | cons entry rest ih =>
    cases outcome : run entry with
    | error fault =>
      exact .inr ⟨[], entry, rest, fault, rfl, fun _ none => absurd none List.not_mem_nil, outcome⟩
    | ok result =>
      rcases ih with ⟨results, runs⟩ | ⟨before, other, after, fault, rfl, goes, fails⟩
      · exact .inl ⟨result :: results, .cons outcome runs⟩
      · exact .inr ⟨entry :: before, other, after, fault, rfl,
          List.forall_mem_cons.mpr ⟨⟨result, outcome⟩, goes⟩, fails⟩

namespace Logged

@[simp]
theorem events_map (step : Logged α) (change : α → β) :
    (change <$> step).events = step.events :=
  List.append_nil step.events

end Logged

namespace Attempt

/-- An attempt ends well, with a result. -/
def Yields (attempt : Attempt ε α) (result : α) : Prop :=
  attempt.run.result = .ok result

theorem yields_bind_iff {first : Attempt ε α} {next : α → Attempt ε β} {result : β} :
    Yields (first >>= next) result ↔
      ∃ middle, Yields first middle ∧ Yields (next middle) result := by
  unfold Yields
  rw [ExceptT.run_bind, Logged.result_bind]
  cases outcome : first.run.result with
  | ok middle =>
    constructor
    · exact fun ends => ⟨middle, rfl, ends⟩
    · rintro ⟨_, ⟨⟩, ends⟩
      exact ends
  | error fault =>
    constructor
    · rintro ⟨⟩
    · rintro ⟨_, ⟨⟩, _⟩

@[simp]
theorem yields_pure_iff {value result : α} :
    Yields (pure value : Attempt ε α) result ↔ value = result := by
  constructor
  · rintro ⟨⟩
    rfl
  · rintro rfl
    rfl

@[simp]
theorem yields_throw_iff {fault : ε} {result : α} :
    Yields (throw fault : Attempt ε α) result ↔ False :=
  iff_of_false (fun ends => nomatch ends) id

@[simp]
theorem yields_lift_iff {step : Logged α} {result : α} :
    Yields (liftM step : Attempt ε α) result ↔ step.result = result := by
  constructor
  · rintro ⟨⟩
    rfl
  · rintro rfl
    rfl

@[simp]
theorem yields_ofExcept_iff {outcome : Except ε α} {result : α} :
    Yields (MonadExcept.ofExcept outcome : Attempt ε α) result ↔ outcome = .ok result := by
  cases outcome with
  | ok value =>
    constructor
    · rintro ⟨⟩
      rfl
    · rintro ⟨⟩
      rfl
  | error fault =>
    constructor
    · rintro ⟨⟩
    · rintro ⟨⟩

/-- An attempt ends well, with a result, after telling some events. -/
def Tells (attempt : Attempt ε α) (result : α) (events : List Event) : Prop :=
  attempt.run = ⟨.ok result, events⟩

theorem Yields.tells {attempt : Attempt ε α} {result : α} (yields : Yields attempt result) :
    Tells attempt result attempt.run.events :=
  congrArg (Logged.mk · attempt.run.events) yields

theorem Tells.yields {attempt : Attempt ε α} {result : α} {events : List Event}
    (tells : Tells attempt result events) : Yields attempt result :=
  congrArg Logged.result tells

theorem tells_bind_iff {first : Attempt ε α} {next : α → Attempt ε β} {result : β}
    {events : List Event} : Tells (first >>= next) result events ↔
      ∃ middle before after, Tells first middle before ∧ Tells (next middle) result after ∧
        events = before ++ after := by
  constructor
  · intro tells
    obtain ⟨middle, starts, ends⟩ := yields_bind_iff.mp tells.yields
    refine ⟨middle, _, _, starts.tells, ends.tells, ?_⟩
    have told := congrArg Logged.events tells
    rw [ExceptT.run_bind, Logged.events_bind, starts] at told
    exact told.symm
  · rintro ⟨middle, before, after, starts, ends, rfl⟩
    unfold Tells
    rw [ExceptT.run_bind, starts]
    change Logged.mk (next middle).run.result (before ++ (next middle).run.events) = _
    rw [ends]

@[simp]
theorem tells_pure_iff {value result : α} {events : List Event} :
    Tells (pure value : Attempt ε α) result events ↔ value = result ∧ events = [] := by
  constructor
  · rintro ⟨⟩
    exact ⟨rfl, rfl⟩
  · rintro ⟨rfl, rfl⟩
    rfl

@[simp]
theorem tells_throw_iff {fault : ε} {result : α} {events : List Event} :
    Tells (throw fault : Attempt ε α) result events ↔ False :=
  iff_of_false (fun ends => nomatch ends) id

@[simp]
theorem tells_lift_iff {step : Logged α} {result : α} {events : List Event} :
    Tells (liftM step : Attempt ε α) result events ↔
      step.result = result ∧ step.events = events := by
  constructor
  · intro tells
    refine ⟨yields_lift_iff.mp tells.yields, (List.append_nil step.events).symm.trans ?_⟩
    exact congrArg Logged.events tells
  · rintro ⟨rfl, rfl⟩
    exact congrArg (Logged.mk (Except.ok step.result)) (List.append_nil step.events)

/-- What holds at first and is kept by every step of a fold and what it tells holds at its end. -/
theorem Tells.foldlM {step : σ → α → Attempt ε σ} (invariant : List α → σ → List Event → Prop)
    {items : List α} {start final : σ} {events : List Event} (first : invariant [] start [])
    (kept : ∀ before item after state next told more, items = before ++ item :: after →
      invariant before state told → Tells (step state item) next more →
        invariant (before ++ [item]) next (told ++ more))
    (tells : Tells (items.foldlM step start) final events) : invariant items final events := by
  have onward : ∀ todo before state told rest, items = before ++ todo →
      invariant before state told → Tells (todo.foldlM step state) final rest →
        invariant items final (told ++ rest) := by
    intro todo
    induction todo with
    | nil =>
      intro before state told rest cut holds ends
      obtain ⟨rfl, rfl⟩ := tells_pure_iff.mp ends
      rw [cut, List.append_nil, List.append_nil]
      exact holds
    | cons item todo ih =>
      intro before state told rest cut holds ends
      rw [List.foldlM_cons, tells_bind_iff] at ends
      obtain ⟨next, more, others, steps, ends, rfl⟩ := ends
      rw [← List.append_assoc]
      exact ih (before ++ [item]) next (told ++ more) others (by simp [cut])
        (kept before item todo state next told more cut holds steps) ends
  exact onward items [] start [] events rfl first tells

/-- What holds at first and is kept by every step of a fold holds at its end. -/
theorem Yields.foldlM {step : σ → α → Attempt ε σ} (invariant : List α → σ → Prop)
    {items : List α} {start final : σ} (first : invariant [] start)
    (kept : ∀ before item after state next, items = before ++ item :: after →
      invariant before state → Yields (step state item) next → invariant (before ++ [item]) next)
    (yields : Yields (items.foldlM step start) final) : invariant items final :=
  yields.tells.foldlM (fun before state _ => invariant before state) first
    fun before item after state next _ _ cut holds tells =>
      kept before item after state next cut holds tells.yields

/-- A fold ends well if what holds at first lets every step end well and is kept by it. -/
theorem exists_yields_foldlM {step : σ → α → Attempt ε σ} (invariant : List α → σ → Prop)
    {items : List α} {start : σ} (first : invariant [] start)
    (goes : ∀ before item after state, items = before ++ item :: after → invariant before state →
      ∃ next, Yields (step state item) next ∧ invariant (before ++ [item]) next) :
    ∃ final, Yields (items.foldlM step start) final ∧ invariant items final := by
  have onward : ∀ todo before state, items = before ++ todo → invariant before state →
      ∃ final, Yields (todo.foldlM step state) final ∧ invariant items final := by
    intro todo
    induction todo with
    | nil =>
      intro before state cut holds
      refine ⟨state, rfl, ?_⟩
      rw [cut, List.append_nil]
      exact holds
    | cons item rest ih =>
      intro before state cut holds
      obtain ⟨next, steps, holds⟩ := goes before item rest state cut holds
      obtain ⟨final, ends, holds⟩ := ih (before ++ [item]) next (by simp [cut]) holds
      exact ⟨final, by rw [List.foldlM_cons, yields_bind_iff]; exact ⟨next, steps, ends⟩, holds⟩
  exact onward items [] start rfl first

/-- An attempt ends with a fault. -/
def Fails (attempt : Attempt ε α) (fault : ε) : Prop :=
  attempt.run.result = .error fault

theorem yields_or_fails (attempt : Attempt ε α) :
    (∃ result, Yields attempt result) ∨ ∃ fault, Fails attempt fault := by
  cases outcome : attempt.run.result with
  | ok result => exact .inl ⟨result, outcome⟩
  | error fault => exact .inr ⟨fault, outcome⟩

theorem Yields.not_fails {attempt : Attempt ε α} {result : α} {fault : ε}
    (yields : Yields attempt result) : ¬ Fails attempt fault := fun fails =>
  nomatch yields.symm.trans fails

theorem fails_bind_iff {first : Attempt ε α} {next : α → Attempt ε β} {fault : ε} :
    Fails (first >>= next) fault ↔
      Fails first fault ∨ ∃ middle, Yields first middle ∧ Fails (next middle) fault := by
  unfold Fails Yields
  rw [ExceptT.run_bind, Logged.result_bind]
  cases outcome : first.run.result with
  | ok middle => simp
  | error other => simp

@[simp]
theorem fails_pure_iff {value : α} {fault : ε} : Fails (pure value : Attempt ε α) fault ↔ False :=
  iff_of_false (fun ends => nomatch ends) id

@[simp]
theorem fails_throw_iff {fault other : ε} :
    Fails (throw fault : Attempt ε α) other ↔ fault = other := by
  constructor
  · rintro ⟨⟩
    rfl
  · rintro rfl
    rfl

@[simp]
theorem fails_lift_iff {step : Logged α} {fault : ε} :
    Fails (liftM step : Attempt ε α) fault ↔ False :=
  iff_of_false (fun ends => nomatch ends) id

/-- A fold fails where one of its steps does. -/
theorem Fails.exists_of_foldlM {step : σ → α → Attempt ε σ} {items : List α} {start : σ} {fault : ε}
    (fails : Fails (items.foldlM step start) fault) :
    ∃ item ∈ items, ∃ state, Fails (step state item) fault := by
  induction items generalizing start with
  | nil => exact absurd fails fails_pure_iff.mp
  | cons item rest ih =>
    rw [List.foldlM_cons, fails_bind_iff] at fails
    rcases fails with fails | ⟨state, -, fails⟩
    · exact ⟨item, List.mem_cons_self, start, fails⟩
    · obtain ⟨other, member, found⟩ := ih fails
      exact ⟨other, List.mem_cons_of_mem _ member, found⟩

theorem Fails.unique {attempt : Attempt ε α} {fault other : ε} (fails : Fails attempt fault)
    (again : Fails attempt other) : fault = other :=
  Except.error.inj (fails.symm.trans again)

theorem run_adapt {φ : Type} (change : ε → φ) (attempt : Attempt ε α) :
    (ExceptT.adapt change attempt : Attempt φ α).run =
      ⟨attempt.run.result.mapError change, attempt.run.events⟩ := by
  change (Except.mapError change <$> attempt.run) = _
  exact congrArg (Logged.mk _) (Logged.events_map _ _)

@[simp]
theorem yields_adapt_iff {φ : Type} {change : ε → φ} {attempt : Attempt ε α} {result : α} :
    Yields (ExceptT.adapt change attempt : Attempt φ α) result ↔ Yields attempt result := by
  rw [Yields, Yields, run_adapt]
  cases attempt.run.result <;> simp [Except.mapError]

@[simp]
theorem fails_adapt_iff {φ : Type} {change : ε → φ} {attempt : Attempt ε α} {fault : φ} :
    Fails (ExceptT.adapt change attempt : Attempt φ α) fault ↔
      ∃ cause, Fails attempt cause ∧ change cause = fault := by
  simp only [Fails, run_adapt]
  cases attempt.run.result <;> simp [Except.mapError]

theorem adapt_bind {φ : Type} (change : ε → φ) (first : Attempt ε α) (next : α → Attempt ε β) :
    (ExceptT.adapt change (first >>= next) : Attempt φ β) =
      ExceptT.adapt change first >>= fun middle => ExceptT.adapt change (next middle) := by
  refine ExceptT.ext ?_
  rw [run_adapt, ExceptT.run_bind, ExceptT.run_bind, run_adapt]
  cases outcome : first.run with
  | mk result events =>
    cases result with
    | error fault => rfl
    | ok middle =>
      change _ = Logged.mk (ExceptT.adapt change (next middle)).run.result
        (events ++ (ExceptT.adapt change (next middle)).run.events)
      rw [run_adapt]
      rfl

/-- What follows a first part matters only for what that part can yield. -/
theorem bind_congr {first : Attempt ε α} {next other : α → Attempt ε β}
    (same : ∀ middle, Yields first middle → next middle = other middle) :
    first >>= next = first >>= other := by
  refine ExceptT.ext ?_
  rw [ExceptT.run_bind, ExceptT.run_bind]
  cases outcome : first.run with
  | mk result events =>
    cases result with
    | error fault => rfl
    | ok middle =>
      have yields : Yields first middle := congrArg Logged.result outcome
      change Logged.bind _ _ = Logged.bind _ _
      simp only [Logged.bind, same middle yields]

theorem yields_mapM_iff {run : α → Attempt ε β} {entries : List α} {results : List β} :
    Yields (entries.mapM run) results ↔
      List.Forall₂ (fun entry result => Yields (run entry) result) entries results := by
  induction entries generalizing results with
  | nil =>
    rw [List.mapM_nil, yields_pure_iff, List.forall₂_nil_left_iff]
    exact eq_comm
  | cons entry rest ih =>
    rw [List.mapM_cons, yields_bind_iff]
    constructor
    · rintro ⟨first, here, ends⟩
      obtain ⟨others, there, ends⟩ := yields_bind_iff.mp ends
      obtain rfl := yields_pure_iff.mp ends
      exact .cons here (ih.mp there)
    · intro runs
      obtain ⟨first, others, here, there, rfl⟩ := List.forall₂_cons_left_iff.mp runs
      exact ⟨first, here, yields_bind_iff.mpr ⟨others, ih.mpr there, rfl⟩⟩

/-- A computation over the entries of a list fails where it does for one of them. -/
theorem Fails.exists_of_mapM {run : α → Attempt ε β} {entries : List α} {fault : ε}
    (fails : Fails (entries.mapM run) fault) : ∃ entry ∈ entries, Fails (run entry) fault := by
  induction entries with
  | nil => exact absurd fails fails_pure_iff.mp
  | cons entry rest ih =>
    rw [List.mapM_cons, fails_bind_iff] at fails
    rcases fails with here | ⟨first, -, later⟩
    · exact ⟨entry, List.mem_cons_self, here⟩
    · rcases fails_bind_iff.mp later with there | ⟨others, -, ends⟩
      · obtain ⟨other, member, found⟩ := ih there
        exact ⟨other, List.mem_cons_of_mem _ member, found⟩
      · exact absurd ends fails_pure_iff.mp

/-- A computation over the entries of a list ends with the fault of the first that fails. -/
theorem Fails.mapM {run : α → Attempt ε β} {before after : List α} {item : α} {fault : ε}
    (goes : ∀ earlier ∈ before, ∃ result, Yields (run earlier) result)
    (fails : Fails (run item) fault) : Fails ((before ++ item :: after).mapM run) fault := by
  induction before with
  | nil =>
    rw [List.nil_append, List.mapM_cons, fails_bind_iff]
    exact .inl fails
  | cons first rest ih =>
    obtain ⟨⟨result, here⟩, others⟩ := List.forall_mem_cons.mp goes
    rw [List.cons_append, List.mapM_cons, fails_bind_iff]
    exact .inr ⟨result, here, fails_bind_iff.mpr (.inl (ih others))⟩

end Attempt

end ProgramGraphs
