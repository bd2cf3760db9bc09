import Mathlib.Algebra.Order.BigOperators.Group.List
import Mathlib.Algebra.Order.Group.Nat
import ProgramGraphs.Proofs.Keyed
import ProgramGraphs.Proofs.PointsTo.Constraint

/-! # The least points-to sets

Only locations of the program are demanded, and only of holders of the program, so there is room for
finitely many facts. A round that adds none meets all demands, in whatever order it visits the
instructions, and what it ends with is within every solution: rounds end, and they end with the
least solution.
-/

namespace ProgramGraphs

/-- An instruction to be visited, with its function and its position there. -/
structure Visit where
  function : String
  site : Nat
  instruction : Instruction

/-- The parameters, the assigned variables and the result of a function. -/
def Function.holders (function : Function) : List Holder :=
  function.parameters.map (fun parameter => .var function.name parameter.name) ++
    function.dests.map (.var function.name) ++ [.result function.name]

theorem Function.length_holders (function : Function) :
    function.holders.length = function.parameters.length + function.dests.length + 1 := by
  rw [holders, List.length_append, List.length_append, List.length_map, List.length_map,
    List.length_singleton]

namespace Program

/-- All instructions, in the order in which they are written. -/
def visits (program : Program) : List Visit :=
  program.functions.flatMap fun function =>
    function.instructions.zipIdx.map fun (instruction, site) =>
      ⟨function.name, site, instruction⟩

theorem mem_visits_iff (program : Program) (visit : Visit) : visit ∈ program.visits ↔
    ∃ function ∈ program.functions, visit.function = function.name ∧
      function.instructions[visit.site]? = some visit.instruction := by
  simp only [visits, List.mem_flatMap, List.mem_map, Prod.exists, List.mem_zipIdx_iff_getElem?]
  constructor
  · rintro ⟨function, member, instruction, site, here, rfl⟩
    exact ⟨function, member, rfl, here⟩
  · rintro ⟨function, member, named, here⟩
    refine ⟨function, member, visit.instruction, visit.site, here, ?_⟩
    rw [← named]

/-- The location that an instruction of a function makes, if it makes one. -/
def locationOf? (function : String) (site : Nat) (instruction : Instruction) : Option Location :=
  match instruction.opcode with
  | .fnaddr => instruction.funcs.head?.map .function
  | .alloc => some (.allocation function site)
  | _ => none

/-- The locations that instructions make. -/
def locations (program : Program) : List Location :=
  program.functions.flatMap fun function =>
    function.instructions.zipIdx.filterMap fun (instruction, site) =>
      locationOf? function.name site instruction

/-- The holders that something may be demanded of. -/
def holders (program : Program) : List Holder :=
  program.functions.flatMap Function.holders ++ program.locations.map .memory

theorem length_locations_le (program : Program) :
    program.locations.length ≤ program.locationCount := by
  rw [locations, locationCount, List.length_flatMap, List.countP_flatMap]
  refine List.sum_le_sum fun function _ => ?_
  rw [List.length_filterMap_eq_countP, Function.comp_apply,
    ← List.zipIdx_map_fst 0 function.instructions, List.countP_map, List.zipIdx_map_fst]
  refine List.countP_mono_left fun ⟨instruction, site⟩ _ makes => ?_
  cases operation : instruction.opcode <;> simp_all [locationOf?]

theorem length_holders_le (program : Program) :
    program.holders.length ≤ program.holderCount := by
  have total : ∀ (counts : List Nat) (start : Nat),
      counts.foldr (· + ·) start = counts.sum + start := by
    intro counts start
    induction counts with
    | nil => simp
    | cons count rest ih => rw [List.foldr_cons, ih, List.sum_cons, Nat.add_assoc]
  rw [holders, holderCount, total, List.length_append, List.length_map, List.length_flatMap,
    funext Function.length_holders]
  exact Nat.add_le_add_left program.length_locations_le _

theorem var_mem_holders {program : Program} {function : Function}
    (member : function ∈ program.functions) {dest : String} {instruction : Instruction}
    (listed : instruction ∈ function.instructions) (assigns : instruction.dest = some dest) :
    Holder.var function.name dest ∈ program.holders := by
  refine List.mem_append_left _ (List.mem_flatMap.mpr ⟨function, member, ?_⟩)
  refine List.mem_append_left _ (List.mem_append_right _ (List.mem_map_of_mem ?_))
  exact List.mem_filterMap.mpr ⟨instruction, listed, assigns⟩

theorem mem_locations {program : Program} {function : Function}
    (member : function ∈ program.functions) {site : Nat} {instruction : Instruction}
    (here : function.instructions[site]? = some instruction) {location : Location}
    (makes : locationOf? function.name site instruction = some location) :
    location ∈ program.locations :=
  List.mem_flatMap.mpr ⟨function, member,
    List.mem_filterMap.mpr ⟨(instruction, site), List.mem_zipIdx_iff_getElem?.mpr here, makes⟩⟩

/-- Nothing but locations of a program is demanded, and of nothing but its holders. -/
theorem solves_holders_locations (program : Program) :
    program.Solves fun holder location =>
      holder ∈ program.holders ∧ location ∈ program.locations := by
  intro function member site instruction here holder location demands
  have listed := List.mem_of_getElem? here
  cases demands with
  | fnaddr operation named head =>
    refine ⟨var_mem_holders member listed named, mem_locations member here ?_⟩
    simp [locationOf?, operation, head]
  | alloc operation named =>
    refine ⟨var_mem_holders member listed named, mem_locations member here ?_⟩
    simp [locationOf?, operation]
  | copy _ named _ held => exact ⟨var_mem_holders member listed named, held.2⟩
  | ptradd _ named _ held => exact ⟨var_mem_holders member listed named, held.2⟩
  | load _ named _ _ held => exact ⟨var_mem_holders member listed named, held.2⟩
  | store _ _ points held => exact ⟨List.mem_append_right _ (List.mem_map_of_mem points.2), held.2⟩
  | ret _ _ held =>
    refine ⟨List.mem_append_left _ (List.mem_flatMap.mpr ⟨function, member, ?_⟩), held.2⟩
    exact List.mem_append_right _ (List.mem_singleton.mpr rfl)
  | @pass _ _ _ target parameter _ _ found bound held =>
    obtain ⟨known, rfl⟩ := mem_of_find?_key found
    refine ⟨List.mem_append_left _ (List.mem_flatMap.mpr ⟨target, known, ?_⟩), held.2⟩
    refine List.mem_append_left _ (List.mem_append_left _ ?_)
    exact List.mem_map.mpr ⟨parameter, (List.of_mem_zip bound).1, rfl⟩
  | deliver _ _ named held => exact ⟨var_mem_holders member listed named, held.2⟩

end Program

namespace PointsToSets

variable {program : Program} {sets : PointsToSets}

/-- Visit instructions in a given order. -/
def follow (program : Program) (order : List Visit) (sets : PointsToSets) : PointsToSets :=
  order.foldl (fun sets visit =>
    apply program visit.function visit.site visit.instruction sets) sets

theorem round_eq_follow (program : Program) (sets : PointsToSets) :
    round program sets = follow program program.visits sets := by
  rw [round, follow, Program.visits, List.foldl_flatMap]
  simp only [List.foldl_map]
  rfl

theorem derives_follow {order : List Visit} (inside : ∀ visit ∈ order, visit ∈ program.visits)
    (sets : PointsToSets) : Derives program sets (follow program order sets) := by
  refine Derives.foldl _ fun visit listed grown _ => ?_
  obtain ⟨function, member, named, here⟩ := (program.mem_visits_iff visit).mp (inside visit listed)
  rw [named]
  exact derives_apply member here

/-- Visits of all instructions that add no fact leave a solution. -/
theorem solves_of_follow {order : List Visit}
    (all : ∀ visit, visit ∈ order ↔ visit ∈ program.visits)
    (still : (follow program order sets).Holds = sets.Holds) : program.Solves sets.Holds := by
  intro function member site instruction here holder location demands
  have listed : (⟨function.name, site, instruction⟩ : Visit) ∈ order :=
    (all _).mpr ((program.mem_visits_iff _).mpr ⟨function, member, rfl, here⟩)
  rw [← still]
  refine holds_foldl_of_mem (fun visit inside grown => ?_) listed fun grown within =>
    holds_apply_of_demands (demands.mono within)
  obtain ⟨other, known, named, there⟩ := (program.mem_visits_iff visit).mp ((all visit).mp inside)
  rw [named]
  exact (derives_apply known there).within

/-- There is room for the facts of all sets that are derived from nothing. -/
theorem Derives.size_le (derives : Derives program {} sets) :
    sets.size ≤ program.holderCount * program.locationCount := by
  refine Nat.le_trans ((derives.proper proper_empty).size_le ?_)
    (Nat.mul_le_mul program.length_holders_le program.length_locations_le)
  exact derives.holds_of_solves program.solves_holders_locations fun _ _ held =>
    absurd held List.not_mem_nil

/-- A round that adds no fact to sets derived from nothing leaves the facts as they are. -/
theorem Derives.holds_follow (derives : Derives program {} sets) {order : List Visit}
    (inside : ∀ visit ∈ order, visit ∈ program.visits)
    (still : ¬ sets.size < (follow program order sets).size) :
    sets.Holds = (follow program order sets).Holds :=
  (derives.proper proper_empty).holds_eq
    ((derives.trans (derives_follow inside sets)).proper proper_empty)
    (derives_follow inside sets).within still

/-- Rounds end with a solution. -/
theorem iterate_solves (rounds : Nat) (derives : Derives program {} sets) :
    Derives program {} (iterate program rounds sets).1 ∧
      program.Solves (iterate program rounds sets).1.Holds := by
  fun_induction iterate program rounds sets with
  | case1 rounds sets next grown ih =>
    refine ih (derives.trans ?_)
    rw [show next = follow program program.visits sets from round_eq_follow program sets]
    exact derives_follow (fun _ => id) sets
  | case2 rounds sets next still =>
    have visited : next = follow program program.visits sets := round_eq_follow program sets
    have goes : Derives program {} next := by
      rw [visited]
      exact derives.trans (derives_follow (fun _ => id) sets)
    have stays : ¬ sets.size < next.size := fun less => still ⟨less, goes.size_le⟩
    rw [visited] at stays
    have same := derives.holds_follow (fun _ => id) stays
    refine ⟨goes, ?_⟩
    rw [visited, ← same]
    exact solves_of_follow (fun _ => Iff.rfl) same.symm

/-- The sets after a number of rounds, each of which has an order of its own. -/
def after (program : Program) (order : Nat → List Visit) : Nat → PointsToSets
  | 0 => {}
  | rounds + 1 => follow program (order rounds) (after program order rounds)

theorem derives_after {order : Nat → List Visit}
    (inside : ∀ round, ∀ visit ∈ order round, visit ∈ program.visits) (rounds : Nat) :
    Derives program {} (after program order rounds) := by
  induction rounds with
  | zero => exact .refl
  | succ rounds ih => exact ih.trans (derives_follow (inside rounds) _)

/-- As long as every round adds a fact, there are at least as many facts as rounds. -/
theorem exists_still_or_le_size (program : Program) (order : Nat → List Visit) (rounds : Nat) :
    (∃ round, ¬ (after program order round).size < (after program order (round + 1)).size) ∨
      rounds ≤ (after program order rounds).size := by
  induction rounds with
  | zero => exact .inr (Nat.zero_le _)
  | succ rounds ih =>
    by_cases grows : (after program order rounds).size < (after program order (rounds + 1)).size
    · exact ih.imp_right fun enough => Nat.lt_of_le_of_lt enough grows
    · exact .inl ⟨rounds, grows⟩

/-- The points-to sets of a program are the least solution of its constraints. Rounds in any order
come to one that changes nothing, and each that changes nothing has found these sets. -/
theorem solve_least (program : Program) :
    program.Solves (solve program).result.Holds ∧
      (∀ holdings, program.Solves holdings → ∀ holder location,
        (solve program).result.Holds holder location → holdings holder location) ∧
      ∀ order : Nat → List Visit, (∀ round, (order round).Perm program.visits) →
        (∃ rounds, (after program order (rounds + 1)).get = (after program order rounds).get) ∧
          ∀ rounds, (after program order (rounds + 1)).get = (after program order rounds).get →
            (after program order rounds).get = (solve program).result.get := by
  have start : Derives program {} {} := .refl
  obtain ⟨derives, solves⟩ := iterate_solves 0 start
  have nothing {holdings : Holdings} : ∀ holder location,
      Holds {} holder location → holdings holder location :=
    fun _ _ held => absurd held List.not_mem_nil
  refine ⟨solves, fun holdings other => derives.holds_of_solves other nothing,
    fun order permutes => ?_⟩
  have inside : ∀ round, ∀ visit ∈ order round, visit ∈ program.visits :=
    fun round _ listed => (permutes round).mem_iff.mp listed
  have proper := fun rounds => (derives_after inside rounds).proper proper_empty
  refine ⟨?ends, fun rounds still => ?same⟩
  case ends =>
    have bound := (derives_after inside
      (program.holderCount * program.locationCount + 1)).size_le
    obtain ⟨round, still⟩ := (exists_still_or_le_size program order _).resolve_right
      (Nat.not_le_of_lt (Nat.lt_succ_of_le bound))
    have same := (derives_after inside round).holds_follow (inside round) still
    exact ⟨round, funext fun holder => (proper (round + 1)).get_eq (proper round) same.symm holder⟩
  case same =>
    have facts : (after program order (rounds + 1)).Holds = (after program order rounds).Holds := by
      funext holder location
      rw [Holds, Holds, still]
    have met := solves_of_follow (fun visit => (permutes rounds).mem_iff) facts
    refine funext fun holder => (proper rounds).get_eq (derives.proper proper_empty) ?_ holder
    funext holder location
    exact propext ⟨(derives_after inside rounds).holds_of_solves solves nothing holder location,
      derives.holds_of_solves met nothing holder location⟩

theorem solves_solve (program : Program) : program.Solves (solve program).result.Holds :=
  (iterate_solves 0 .refl).2

/-- The points-to sets of a program are within every solution. -/
theorem holds_of_solve {holdings : Holdings} (solves : program.Solves holdings) {holder : Holder}
    {location : Location} (held : (solve program).result.Holds holder location) :
    holdings holder location :=
  (iterate_solves 0 .refl).1.holds_of_solves solves
    (fun _ _ nothing => absurd nothing List.not_mem_nil) holder location held

theorem ascending_solve (program : Program) (holder : Holder) :
    Location.Ascending ((solve program).result.get holder) :=
  ((iterate_solves 0 .refl).1.proper proper_empty).ascending_get holder

end PointsToSets

end ProgramGraphs
