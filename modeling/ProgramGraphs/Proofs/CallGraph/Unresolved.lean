import Mathlib.Data.List.Destutter
import Mathlib.Data.Prod.Lex
import Mathlib.Data.String.Basic
import ProgramGraphs.Picture.Draw
import ProgramGraphs.Proofs.CallGraph.Record

/-! # Unresolved calls

Unresolved calls are put in order before anything is made of them, so the order in which the table
of calls is gone through has no influence. In that order all calls of a caller stand together, and
dropping every caller that repeats the one before it leaves each caller once. The callers are the
functions that call through a pointer for which no target is known.
-/

namespace ProgramGraphs

/-- In ascending order all repetitions stand next to each other. -/
theorem destutter_ne_eq_eraseDups {α : Type} [LinearOrder α] {items : List α}
    (ascending : items.Pairwise (· ≤ ·)) : items.destutter (· ≠ ·) = items.eraseDups := by
  cases items with
  | nil => rfl
  | cons item rest =>
    rw [List.destutter_cons']
    induction rest generalizing item with
    | nil => rfl
    | cons next rest ih =>
      obtain ⟨least, later⟩ := List.pairwise_cons.mp ascending
      rcases (least next List.mem_cons_self).eq_or_lt with rfl | before
      · rw [List.destutter'_cons_neg _ (not_not.mpr rfl), ih item later, List.eraseDups_cons,
          List.eraseDups_cons, List.filter_cons_of_neg (by simp)]
      · have beyond : ∀ other ∈ next :: rest, (!other == item) = true := by
          intro other member
          have above : next ≤ other := by
            rcases List.mem_cons.mp member with rfl | member
            · exact le_rfl
            · exact (List.pairwise_cons.mp later).1 other member
          simpa using (before.trans_le above).ne'
        rw [List.destutter'_cons_pos _ before.ne, ih next later, List.eraseDups_cons (a := item),
          List.filter_eq_self.mpr beyond]

/-- Whether a function calls through a pointer for which no target is known. -/
def Function.callsUnknown (pointsTo : PointsTo) (function : Function) : Bool :=
  function.instructions.any fun instruction =>
    decide (instruction.opcode = .icall) && (pointsTo.targets function.name instruction).isEmpty

/-- The positions of the functions that call through a pointer for which no target is known. -/
def Program.unknownCallers (program : Program) (pointsTo : PointsTo) : List Nat :=
  program.functions.findIdxs (·.callsUnknown pointsTo)

theorem Function.callsUnknown_iff (pointsTo : PointsTo) (function : Function) :
    function.callsUnknown pointsTo = true ↔
      ∃ site ∈ function.callSites pointsTo, site.isUnresolved = true := by
  simp only [callsUnknown, List.any_eq_true, Bool.and_eq_true, decide_eq_true_eq, callSites,
    List.mem_filterMap, Prod.exists, Instruction.callSite?]
  constructor
  · rintro ⟨instruction, member, operation, unknown⟩
    obtain ⟨index, here⟩ := List.getElem?_of_mem member
    have call : instruction.call? pointsTo function.name =
        some (.indirect, pointsTo.targets function.name instruction) := by
      rw [Instruction.call?, operation]
    refine ⟨⟨index, .indirect, _⟩, ⟨instruction, index, List.mk_mem_zipIdx_iff_getElem?.mpr here,
      by rw [call, Option.map_some]⟩, ?_⟩
    rw [CallSite.isUnresolved, unknown]
    rfl
  · rintro ⟨site, ⟨instruction, index, listed, made⟩, unresolved⟩
    refine ⟨instruction, List.mem_of_getElem? (List.mk_mem_zipIdx_iff_getElem?.mp listed), ?_⟩
    obtain ⟨⟨kind, targets⟩, call, rfl⟩ := Option.map_eq_some_iff.mp made
    rw [Instruction.call?] at call
    split at call <;> cases call
    · cases unresolved
    · next operation => exact ⟨operation, unresolved⟩

namespace CallGraph

variable {program : Program} {pointsTo : PointsTo} {calls : CallGraph}

/-- The order of unresolved calls: by caller, then by position. -/
def isBefore (first second : String × Nat) : Bool :=
  decide (first.1 < second.1) || (first.1 == second.1 && decide (first.2 ≤ second.2))

theorem isBefore_iff (first second : String × Nat) :
    isBefore first second = true ↔ toLex first ≤ toLex second := by
  simp [isBefore, Prod.Lex.toLex_le_toLex]

/-- Unresolved calls are in ascending order. -/
theorem pairwise_unresolved (calls : CallGraph) :
    calls.unresolved.Pairwise fun first second => toLex first ≤ toLex second := by
  have sorted : calls.unresolved.Pairwise fun first second => isBefore first second = true := by
    refine @List.pairwise_mergeSort _ isBefore (fun a b c first second => ?_) (fun a b => ?_) _
    · rw [isBefore_iff] at first second ⊢
      exact first.trans second
    · rw [Bool.or_eq_true, isBefore_iff, isBefore_iff]
      exact le_total _ _
  exact sorted.imp fun {a b} before => (isBefore_iff a b).mp before

theorem mem_unresolved_iff (calls : CallGraph) (caller : String) (index : Nat) :
    (caller, index) ∈ calls.unresolved ↔ ∃ sites, (caller, sites) ∈ calls.sites ∧
      ∃ site ∈ sites, site.isUnresolved = true ∧ site.index = index := by
  rw [unresolved, List.mem_mergeSort, List.mem_flatMap]
  constructor
  · rintro ⟨⟨_, sites⟩, listed, member⟩
    obtain ⟨site, found, same⟩ := List.mem_map.mp member
    cases same
    exact ⟨sites, listed, site, List.mem_of_mem_filter found, (List.mem_filter.mp found).2, rfl⟩
  · rintro ⟨sites, listed, site, found, unknown, rfl⟩
    exact ⟨_, listed, List.mem_map.mpr ⟨site, List.mem_filter.mpr ⟨found, unknown⟩, rfl⟩⟩

/-- The order of the table of calls has no influence on the unresolved calls. -/
theorem unresolved_eq_of_perm {sites : List (String × List CallSite)}
    (same : calls.sites.Perm sites) :
    { calls with sites := sites }.unresolved = calls.unresolved := by
  refine List.Perm.eq_of_pairwise (fun a b _ _ first second => ?_)
    (pairwise_unresolved _) (pairwise_unresolved _) ?_
  · exact toLex.injective (first.antisymm second)
  · refine (List.mergeSort_perm _ _).trans (List.Perm.trans ?_ (List.mergeSort_perm _ _).symm)
    exact (same.symm.flatMap_right _)

/-- Dropping every caller that repeats the one before it leaves each caller once. -/
theorem unresolvedCallers_eq_destutter (calls : CallGraph) :
    calls.unresolvedCallers = (calls.unresolved.map (·.1)).destutter (· ≠ ·) := by
  refine (destutter_ne_eq_eraseDups ?_).symm
  refine List.pairwise_map.mpr (calls.pairwise_unresolved.imp fun {a b} before => ?_)
  rcases Prod.Lex.toLex_le_toLex.mp before with less | ⟨same, -⟩
  · exact less.le
  · exact same.le

theorem mem_unresolvedCallers_iff (calls : CallGraph) (caller : String) :
    caller ∈ calls.unresolvedCallers ↔ ∃ sites, (caller, sites) ∈ calls.sites ∧
      ∃ site ∈ sites, site.isUnresolved = true := by
  rw [unresolvedCallers, List.mem_eraseDups, List.mem_map]
  constructor
  · rintro ⟨⟨_, index⟩, member, rfl⟩
    obtain ⟨sites, listed, site, found, unknown, -⟩ := (mem_unresolved_iff _ _ _).mp member
    exact ⟨sites, listed, site, found, unknown⟩
  · rintro ⟨sites, listed, site, found, unknown⟩
    exact ⟨_, (mem_unresolved_iff _ _ _).mpr ⟨sites, listed, site, found, unknown, rfl⟩, rfl⟩

theorem name_of_node? {name : String} {node : Fin calls.graph.size}
    (found : calls.node? name = some node) : (calls.graph.payload node).name = name :=
  eq_of_beq ((calls.graph.find?_eq_some_iff _ node).mp found).1

/-- The nodes of the functions that make unresolved calls, by number. -/
def callerNodes (calls : CallGraph) : List Nat :=
  calls.unresolvedCallers.filterMap fun caller => (calls.node? caller).map Fin.val

theorem Records.node?_name (records : calls.Records program pointsTo) {function : Function}
    {position : Nat} (here : program.functions[position]? = some function) :
    (calls.node? function.name).map Fin.val = some position := by
  have listed : calls.graph.nodes.toList[position]? = some ⟨function.name, true⟩ := by
    have inside : position < (program.functions.map fun function =>
        (⟨function.name, true⟩ : CallNode)).length := by
      rw [List.length_map]
      exact (List.getElem?_eq_some_iff.mp here).1
    rw [records.nodes, List.getElem?_append_left inside, List.getElem?_map, here]
    rfl
  obtain ⟨bound, payload⟩ := List.getElem?_eq_some_iff.mp listed
  have named : (calls.graph.payload ⟨position, bound⟩).name = function.name :=
    congrArg CallNode.name payload
  obtain ⟨node, found, same⟩ := exists_node? named
  have positions : node.val = position := by
    refine (List.getElem?_inj ?_ records.names_distinct).mp ?_
    · rw [List.length_map]
      exact node.isLt
    · rw [List.getElem?_map, List.getElem?_map, listed,
        List.getElem?_eq_getElem (by exact node.isLt)]
      exact congrArg some same
  rw [found, Option.map_some, positions]

/-- The callers are the functions that call through a pointer for which no target is known. -/
theorem mem_unresolvedCallers_ofProgram_iff
    (yields : Attempt.Yields (ofProgram program pointsTo) calls) (caller : String) :
    caller ∈ calls.unresolvedCallers ↔
      ∃ function ∈ program.functions, function.name = caller ∧
        function.callsUnknown pointsTo = true := by
  have sites : calls.sites = program.functions.map fun function =>
      (function.name, function.callSites pointsTo) := by
    obtain ⟨-, nodes, made, -⟩ := tells_ofProgram yields.tells
    rw [made]
    rfl
  simp only [mem_unresolvedCallers_iff, sites, List.mem_map, Prod.mk.injEq,
    Function.callsUnknown_iff]
  constructor
  · rintro ⟨_, ⟨function, member, named, rfl⟩, unknown⟩
    exact ⟨function, member, named, unknown⟩
  · rintro ⟨function, member, named, unknown⟩
    exact ⟨_, ⟨function, member, named, rfl⟩, unknown⟩

/-- Every caller has its node, each once. -/
theorem callerNodes_perm (distinct : (program.functions.map (·.name)).Nodup)
    (yields : Attempt.Yields (ofProgram program pointsTo) calls) :
    calls.callerNodes.Perm (program.unknownCallers pointsTo) := by
  have records := records_ofProgram distinct yields
  have nodup : calls.callerNodes.Nodup := by
    refine (nodup_eraseDups _).filterMap fun first second position one other => ?_
    obtain ⟨node, found, rfl⟩ := Option.map_eq_some_iff.mp one
    obtain ⟨rival, foundToo, same⟩ := Option.map_eq_some_iff.mp other
    rw [← name_of_node? found, ← name_of_node? foundToo, Fin.ext same]
  refine (List.perm_ext_iff_of_nodup nodup List.nodup_findIdxs).mpr fun position => ?_
  rw [List.mem_findIdxs_iff_exists_getElem_pos, callerNodes, List.mem_filterMap]
  simp only [mem_unresolvedCallers_ofProgram_iff yields]
  constructor
  · rintro ⟨_, ⟨function, member, rfl, unknown⟩, found⟩
    obtain ⟨place, here⟩ := List.getElem?_of_mem member
    obtain rfl := Option.some.inj ((records.node?_name here).symm.trans found)
    obtain ⟨bound, rfl⟩ := List.getElem?_eq_some_iff.mp here
    exact ⟨bound, unknown⟩
  · rintro ⟨bound, unknown⟩
    exact ⟨_, ⟨_, List.getElem_mem bound, rfl, unknown⟩,
      records.node?_name (List.getElem?_eq_getElem bound)⟩

theorem callerNodes_eq_nil_iff (distinct : (program.functions.map (·.name)).Nodup)
    (yields : Attempt.Yields (ofProgram program pointsTo) calls) :
    calls.callerNodes = [] ↔ calls.unresolved = [] := by
  constructor
  · intro nothing
    refine List.eq_nil_iff_forall_not_mem.mpr fun call member => ?_
    have caller : call.1 ∈ calls.unresolvedCallers :=
      List.mem_eraseDups.mpr (List.mem_map_of_mem member)
    obtain ⟨function, defined, named, -⟩ :=
      (mem_unresolvedCallers_ofProgram_iff yields call.1).mp caller
    obtain ⟨position, here⟩ := List.getElem?_of_mem defined
    have found := (records_ofProgram distinct yields).node?_name here
    rw [callerNodes, List.filterMap_eq_nil_iff] at nothing
    rw [named, nothing call.1 caller] at found
    cases found
  · intro nothing
    rw [callerNodes, unresolvedCallers, nothing]
    rfl

end CallGraph

end ProgramGraphs
