import Mathlib.Data.List.Nodup
import Mathlib.Order.Fin.Basic
import ProgramGraphs.Proofs.Graph.Walk

/-! # Condensations

A condensation lists the classes of nodes that reach each other, with sinks first. It is enough
that every list is of nodes that reach each other and that every step leads to the same list or to
an earlier one (`Layered`): then no walk leads to a later list, so nodes of different lists do not
reach each other both ways. Such lists are put together one by one, each in view of those before.
-/

namespace ProgramGraphs

variable {n : Nat}

/-- Lists of nodes that are the classes of mutual reachability, each in node order, such that every
step between classes leads to an earlier one. -/
structure Condensation (step : Fin n → Fin n → Prop) (components : List (List (Fin n))) :
    Prop where
  inhabited : ∀ component ∈ components, component ≠ []
  unique : ∀ node, ∃! position : Fin components.length, node ∈ components[position]
  connected_iff : ∀ a b,
    (∃ component ∈ components, a ∈ component ∧ b ∈ component) ↔ Connected step a b
  ascending : ∀ component ∈ components, component.Pairwise (· < ·)
  sinks_first : ∀ first second : Fin components.length, first ≠ second →
    ∀ source ∈ components[first], ∀ target ∈ components[second],
      step source target → second < first

namespace Condensation

variable {step : Fin n → Fin n → Prop} {components : List (List (Fin n))}

theorem mem_flatten (condensation : Condensation step components) (node : Fin n) :
    node ∈ components.flatten := by
  obtain ⟨position, inside, _⟩ := condensation.unique node
  exact List.mem_flatten.mpr ⟨_, List.getElem_mem _, inside⟩

theorem nodup_flatten (condensation : Condensation step components) :
    components.flatten.Nodup := by
  rw [List.nodup_flatten]
  constructor
  · intro component member
    exact (condensation.ascending component member).imp fun less => ne_of_lt less
  · rw [List.pairwise_iff_getElem]
    intro first second firstInside secondInside less node inFirst inSecond
    obtain ⟨position, _, only⟩ := condensation.unique node
    have one := only ⟨first, firstInside⟩ inFirst
    have other := only ⟨second, secondInside⟩ inSecond
    rw [← other, Fin.mk.injEq] at one
    omega

/-- A step out of a component leads to an earlier one. -/
theorem mem_of_step {earlier later : List (List (Fin n))} {component : List (Fin n)}
    (condensation : Condensation step components) (cut : components = earlier ++ component :: later)
    {source target : Fin n} (inside : source ∈ component) (joined : step source target) :
    target ∈ earlier.flatten ∨ target ∈ component := by
  subst cut
  obtain ⟨position, held, _⟩ := condensation.unique target
  have bound : earlier.length < (earlier ++ component :: later).length := by simp
  have here : (earlier ++ component :: later)[(⟨earlier.length, bound⟩ : Fin _)] = component := by
    simp
  rcases lt_trichotomy position ⟨earlier.length, bound⟩ with less | same | more
  · have early : position.val < earlier.length := less
    rw [Fin.getElem_fin, List.getElem_append_left early] at held
    exact .inl (List.mem_flatten.mpr ⟨_, List.getElem_mem _, held⟩)
  · rw [same, here] at held
    exact .inr held
  · have order := condensation.sinks_first ⟨earlier.length, bound⟩ position (ne_of_lt more) source
      (by rwa [here]) target held joined
    exact absurd order (lt_asymm more)

end Condensation

/-- Lists of nodes in ascending order, each of nodes that reach each other, such that every step
leads to the same list or to an earlier one. -/
structure Layered (step : Fin n → Fin n → Prop) (components : List (List (Fin n))) : Prop where
  inhabited : ∀ component ∈ components, component ≠ []
  ascending : ∀ component ∈ components, component.Pairwise (· < ·)
  distinct : components.flatten.Nodup
  connected : ∀ component ∈ components, ∀ source ∈ component, ∀ target ∈ component,
    Reaches step source target
  closed : ∀ earlier component later, components = earlier ++ component :: later →
    ∀ source ∈ component, ∀ target, step source target →
      target ∈ earlier.flatten ∨ target ∈ component

namespace Layered

variable {step : Fin n → Fin n → Prop} {components : List (List (Fin n))}

theorem nil : Layered step [] where
  inhabited := List.forall_mem_nil _
  ascending := List.forall_mem_nil _
  distinct := List.nodup_nil
  connected := List.forall_mem_nil _
  closed earlier component later cut := by simp at cut

/-- One more list may follow if all steps from it lead to what is there. -/
theorem concat (layered : Layered step components) {component : List (Fin n)}
    (inhabited : component ≠ []) (ascending : component.Pairwise (· < ·))
    (apart : ∀ node ∈ component, node ∉ components.flatten)
    (connected : ∀ source ∈ component, ∀ target ∈ component, Reaches step source target)
    (closed : ∀ source ∈ component, ∀ target, step source target →
      target ∈ components.flatten ∨ target ∈ component) :
    Layered step (components ++ [component]) where
  inhabited := by
    simpa [or_imp, forall_and] using ⟨layered.inhabited, inhabited⟩
  ascending := by
    simpa only [List.forall_mem_append, List.forall_mem_singleton] using
      ⟨layered.ascending, ascending⟩
  distinct := by
    rw [List.flatten_append, List.flatten_singleton, List.nodup_append]
    refine ⟨layered.distinct, ascending.imp fun less => ne_of_lt less, ?_⟩
    rintro node present other inside rfl
    exact apart node inside present
  connected := by
    simpa only [List.forall_mem_append, List.forall_mem_singleton] using
      ⟨layered.connected, connected⟩
  closed earlier other later cut := by
    rcases List.append_eq_append_iff.mp cut with ⟨between, rfl, shape⟩ | ⟨between, rfl, shape⟩
    · cases between with
      | nil =>
        simp only [List.nil_append, List.cons.injEq] at shape
        simpa [← shape.1] using closed
      | cons head rest => simp at shape
    · cases between with
      | nil =>
        simp only [List.nil_append, List.cons.injEq] at shape
        simpa [shape.1] using closed
      | cons head rest =>
        simp only [List.cons_append, List.cons.injEq] at shape
        obtain ⟨rfl, -⟩ := shape
        exact layered.closed earlier _ rest rfl

/-- No walk leads out of a list and those before it. -/
theorem mem_of_reaches (layered : Layered step components) {earlier later : List (List (Fin n))}
    {component : List (Fin n)} (cut : components = earlier ++ component :: later)
    {source target : Fin n} (inside : source ∈ component) (reached : Reaches step source target) :
    target ∈ earlier.flatten ∨ target ∈ component := by
  have within := reached.mem_of_closed (fun node => node ∈ (earlier ++ [component]).flatten)
    (by simp [inside]) ?_
  · simpa using within
  · intro node next member joined
    obtain ⟨holder, present, held⟩ := List.mem_flatten.mp member
    obtain ⟨before, behind, shape⟩ := List.append_of_mem present
    have whole : components = before ++ holder :: (behind ++ later) := by
      rw [cut, List.append_cons, shape]
      simp
    rw [shape]
    rcases layered.closed before holder _ whole node held next joined with early | here
    · simp only [List.flatten_append, List.mem_append]
      exact .inl early
    · simp [here]

/-- A node of one list is in no list before. -/
theorem notMem_earlier (layered : Layered step components) {earlier later : List (List (Fin n))}
    {component : List (Fin n)} (cut : components = earlier ++ component :: later)
    {node : Fin n} (inside : node ∈ component) : node ∉ earlier.flatten := by
  have distinct := layered.distinct
  rw [cut, List.flatten_append, List.flatten_cons] at distinct
  exact fun early => (List.nodup_append.mp distinct).2.2 node early node
    (List.mem_append_left _ inside) rfl

/-- Nodes that reach each other are in one list. -/
theorem mem_of_connected (layered : Layered step components)
    {earlier later : List (List (Fin n))} {component : List (Fin n)}
    (cut : components = earlier ++ component :: later) {source target : Fin n}
    (inside : source ∈ component) (connected : Connected step source target) :
    target ∈ component := by
  refine (layered.mem_of_reaches cut inside connected.1).resolve_left fun early => ?_
  obtain ⟨holder, present, held⟩ := List.mem_flatten.mp early
  obtain ⟨before, behind, rfl⟩ := List.append_of_mem present
  have whole : components = before ++ holder :: (behind ++ component :: later) := by simp [cut]
  refine layered.notMem_earlier cut inside ?_
  rcases layered.mem_of_reaches whole held connected.2 with source_early | source_here
  · simp [List.mem_flatten.mp source_early]
  · simp [source_here]

theorem cut_at (components : List (List (Fin n))) (position : Fin components.length) :
    components = components.take position ++
      components[position] :: components.drop (position + 1) := by
  conv_lhs => rw [← List.take_append_drop position.val components]
  rw [List.drop_eq_getElem_cons position.isLt]
  rfl

theorem mem_take_flatten {first second : Fin components.length} (order : first < second)
    {node : Fin n} (inside : node ∈ components[first]) :
    node ∈ (components.take second).flatten :=
  List.mem_flatten.mpr ⟨_, List.mem_take_iff_getElem.mpr ⟨first, by
    rw [Nat.lt_min]
    exact ⟨order, first.isLt⟩, rfl⟩, inside⟩

/-- Every node is in at most one of the lists. -/
theorem position_unique (layered : Layered step components) {first second : Fin components.length}
    {node : Fin n} (one : node ∈ components[first]) (other : node ∈ components[second]) :
    first = second := by
  rcases lt_trichotomy first second with less | same | more
  · exact absurd (mem_take_flatten less one) (layered.notMem_earlier (cut_at _ second) other)
  · exact same
  · exact absurd (mem_take_flatten more other) (layered.notMem_earlier (cut_at _ first) one)

/-- Layers that cover all nodes are the condensation. -/
theorem condensation (layered : Layered step components)
    (covered : ∀ node, node ∈ components.flatten) : Condensation step components := by
  refine ⟨layered.inhabited, ?unique, ?connected_iff, layered.ascending, ?sinks_first⟩
  case unique =>
    intro node
    obtain ⟨component, present, inside⟩ := List.mem_flatten.mp (covered node)
    obtain ⟨position, bound, rfl⟩ := List.getElem_of_mem present
    exact ⟨⟨position, bound⟩, inside, fun other held => layered.position_unique held inside⟩
  case connected_iff =>
    intro a b
    constructor
    · rintro ⟨component, present, first, second⟩
      exact ⟨layered.connected component present a first b second,
        layered.connected component present b second a first⟩
    · intro connected
      obtain ⟨component, present, inside⟩ := List.mem_flatten.mp (covered a)
      obtain ⟨earlier, later, cut⟩ := List.append_of_mem present
      exact ⟨component, present, inside, layered.mem_of_connected cut inside connected⟩
  case sinks_first =>
    intro first second distinct source inside target member joined
    rcases layered.closed _ _ _ (cut_at components first) source inside target joined with
      early | here
    · obtain ⟨component, present, held⟩ := List.mem_flatten.mp early
      obtain ⟨position, bound, rfl⟩ := List.mem_take_iff_getElem.mp present
      have less : position < first.val := (Nat.lt_min.mp bound).1
      have same : (⟨position, less.trans first.isLt⟩ : Fin components.length) = second :=
        layered.position_unique held member
      rw [← same]
      exact less
    · exact absurd (layered.position_unique here member) distinct

end Layered

end ProgramGraphs
