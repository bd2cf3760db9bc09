import ProgramGraphs.Proofs.CallGraph

/-! # Call graphs record every call

The survey enters each call target once, as it is first met, with a warning if it is nowhere
declared: what has been warned of is at all times what stands among the nodes undeclared (`Enters`).
So the nodes, the sites, the edges and the warnings can all be read off the calls that stand in the
bodies. Functions without a body call nothing, which leaves each of them alone in its component.
-/

namespace ProgramGraphs

/-- The kind of call that an instruction makes, if it makes one, and the functions that it may
reach. -/
def Instruction.call? (pointsTo : PointsTo) (caller : String) (instruction : Instruction) :
    Option (CallKind × List String) :=
  match instruction.opcode with
  | .call => some (.direct, instruction.funcs.take 1)
  | .icall => some (.indirect, pointsTo.targets caller instruction)
  | _ => none

/-- What is wrong with a call that names no function, or no variable that holds one. -/
inductive Instruction.Misses (caller : String) (instruction : Instruction) : BodyFault → Prop
  | callee : instruction.opcode = .call → instruction.funcs = [] →
      Misses caller instruction (.missingCallee caller)
  | pointer : instruction.opcode = .icall → instruction.args = [] →
      Misses caller instruction (.missingFunctionPointer caller)

/-- The call of an instruction, numbered by the place of the instruction. -/
def Instruction.callSite? (pointsTo : PointsTo) (caller : String) (numbered : Instruction × Nat) :
    Option CallSite :=
  (numbered.1.call? pointsTo caller).map fun call => ⟨numbered.2, call.1, call.2⟩

namespace Function

/-- The calls of a function in body order, numbered by their places among the instructions. -/
def callSites (pointsTo : PointsTo) (function : Function) : List CallSite :=
  function.instructions.zipIdx.filterMap (Instruction.callSite? pointsTo function.name)

/-- The functions that the calls of a function may reach, in the order of the calls. -/
def callTargets (pointsTo : PointsTo) (function : Function) : List String :=
  (function.callSites pointsTo).flatMap (·.targets)

end Function

namespace Program

/-- The functions that are called and have no body, in the order in which they are first called. -/
def outsiders (program : Program) (pointsTo : PointsTo) : List String :=
  ((program.functions.flatMap (Function.callTargets pointsTo)).filter
    (!program.defines ·)).eraseDups

/-- Whether a function is neither defined nor declared. -/
def isUndeclared (program : Program) (name : String) : Bool :=
  !program.defines name && (program.declaration? name).isNone

end Program

/-- The function that a warning is about. -/
def Event.undeclared? : Event → Option String
  | .undeclaredCallee _ callee => some callee
  | _ => none

namespace CallGraph

variable {program : Program} {pointsTo : PointsTo}

theorem siteOf?_eq_error_iff (pointsTo : PointsTo) {caller : String} (index : Nat)
    {instruction : Instruction} {fault : BodyFault} :
    siteOf? pointsTo caller index instruction = .error fault ↔
      instruction.Misses caller fault := by
  constructor
  · intro outcome
    unfold siteOf? at outcome
    split at outcome
    · next calls =>
      split at outcome
      · cases outcome
      · next nothing =>
        cases outcome
        exact .callee calls nothing
    · next calls =>
      split at outcome
      · next nothing =>
        cases outcome
        exact .pointer calls (List.isEmpty_iff.mp nothing)
      · cases outcome
    · cases outcome
  · rintro (⟨calls, nothing⟩ | ⟨calls, nothing⟩)
    · simp [siteOf?, calls, nothing]
    · simp [siteOf?, calls, nothing]

theorem site_eq_of_siteOf? {caller : String} {index : Nat} {instruction : Instruction}
    {site? : Option CallSite} (outcome : siteOf? pointsTo caller index instruction = .ok site?) :
    site? = Instruction.callSite? pointsTo caller (instruction, index) := by
  unfold Instruction.callSite?
  unfold siteOf? at outcome
  split at outcome
  · next calls =>
    split at outcome
    · next callee rest listed =>
      cases outcome
      simp [Instruction.call?, calls, listed]
    · cases outcome
  · next calls =>
    split at outcome
    · cases outcome
    · cases outcome
      simp [Instruction.call?, calls]
  · next others pointers =>
    cases outcome
    rw [Instruction.call?]
    split
    · next calls => exact absurd calls others
    · next calls => exact absurd calls pointers
    · rfl

/-- Enter a function among the nodes, unless it is there. -/
def enter (program : Program) (nodes : List CallNode) (callee : String) : List CallNode :=
  if callee ∈ nodes.map (·.name) then nodes else nodes ++ [⟨callee, program.defines callee⟩]

/-- Functions have been entered, and whatever of them is nowhere declared has been warned of. -/
structure Enters (program : Program) (nodes : List CallNode) (callees : List String)
    (grown : List CallNode) (events : List Event) : Prop where
  grown_eq : grown = callees.foldl (enter program) nodes
  warned : (grown.map (·.name)).filter program.isUndeclared =
    (nodes.map (·.name)).filter program.isUndeclared ++ events.filterMap Event.undeclared?

namespace Enters

theorem nil (nodes : List CallNode) : Enters program nodes [] nodes [] :=
  ⟨rfl, by simp⟩

theorem append {first second third : List CallNode} {before after : List String}
    {told more : List Event} (one : Enters program first before second told)
    (other : Enters program second after third more) :
    Enters program first (before ++ after) third (told ++ more) where
  grown_eq := by rw [other.grown_eq, one.grown_eq, List.foldl_append]
  warned := by rw [other.warned, one.warned, List.append_assoc, List.filterMap_append]

theorem register (program : Program) (caller : String) (nodes : List CallNode) (callee : String) :
    Enters program nodes [callee] (register program caller nodes callee).result
      (register program caller nodes callee).events := by
  refine ⟨result_register program caller nodes callee, ?_⟩
  unfold CallGraph.register
  have known : nodes.any (·.name == callee) = true ↔ callee ∈ nodes.map (·.name) := by simp
  rw [if_congr known rfl rfl]
  split
  · simp
  · dsimp only
    split
    · next outside =>
      have undeclared : program.isUndeclared callee = true := outside
      simp [undeclared, Logged.tell, Event.undeclared?, -bind_pure_comp]
    · next within =>
      have declared : program.isUndeclared callee = false := Bool.eq_false_iff.mpr within
      simp [declared]

theorem foldlM_register (program : Program) (caller : String) (callees : List String)
    (nodes : List CallNode) :
    Enters program nodes callees (callees.foldlM (CallGraph.register program caller) nodes).result
      (callees.foldlM (CallGraph.register program caller) nodes).events := by
  induction callees generalizing nodes with
  | nil => exact .nil nodes
  | cons callee rest ih =>
    rw [List.foldlM_cons]
    exact (register program caller nodes callee).append (ih _)

/-- The nodes are those that were there, then the new names as they first occur. -/
theorem grown_eq_append {nodes grown : List CallNode} {callees : List String}
    {events : List Event} (enters : Enters program nodes callees grown events) :
    grown = nodes ++ ((callees.filter (· ∉ nodes.map (·.name))).eraseDups.map fun callee =>
      ⟨callee, program.defines callee⟩) := by
  rw [enters.grown_eq]
  clear enters
  induction callees generalizing nodes with
  | nil => simp
  | cons callee rest ih =>
    rw [List.foldl_cons, enter]
    split
    · next known =>
      rw [ih, List.filter_cons_of_neg (by simpa using known)]
    · next fresh =>
      rw [ih, List.filter_cons_of_pos (by simpa using fresh), List.eraseDups_cons, List.map_cons,
        List.append_assoc, List.singleton_append, List.filter_filter]
      have unlisted : ∀ other,
          decide (other ∉ (nodes ++ [CallNode.mk callee (program.defines callee)]).map (·.name)) =
            (!other == callee && decide (other ∉ nodes.map (·.name))) := by
        intro other
        rw [Bool.eq_iff_iff, List.map_append, List.map_singleton]
        simp only [List.mem_append, List.mem_singleton, not_or, decide_eq_true_eq, Bool.and_eq_true,
          Bool.not_eq_true', beq_eq_false_iff_ne, ne_eq, and_comm]
      simp only [unlisted]

end Enters

/-- What is noted of an instruction: its call, and the functions that it may reach. -/
theorem tells_note {function : Function} {found next : List CallNode × List CallSite}
    {numbered : Instruction × Nat} {events : List Event}
    (tells : Attempt.Tells (note program pointsTo function found numbered) next events) :
    ∃ site?, siteOf? pointsTo function.name numbered.2 numbered.1 = .ok site? ∧
      next.2 = found.2 ++ site?.toList ∧
        Enters program found.1 (site?.toList.flatMap (·.targets)) next.1 events := by
  unfold note at tells
  split at tells
  · simp at tells
  · next outcome =>
    obtain ⟨rfl, rfl⟩ := Attempt.tells_pure_iff.mp tells
    exact ⟨none, outcome, by simp, .nil _⟩
  · next site outcome =>
    rw [Attempt.tells_bind_iff] at tells
    obtain ⟨nodes, entering, rest, registers, tells, rfl⟩ := tells
    rw [Attempt.tells_lift_iff] at registers
    have enters := Enters.foldlM_register program function.name site.targets found.1
    rw [registers.1, registers.2] at enters
    have result : (nodes, found.2 ++ [site]) = next ∧ rest.filterMap Event.undeclared? = [] := by
      split at tells
      · rw [Attempt.tells_bind_iff] at tells
        obtain ⟨_, _, _, told, ends, rfl⟩ := tells
        obtain ⟨rfl, rfl⟩ := Attempt.tells_pure_iff.mp ends
        rw [Attempt.tells_lift_iff] at told
        exact ⟨rfl, by rw [← told.2]; rfl⟩
      · obtain ⟨rfl, rfl⟩ := Attempt.tells_pure_iff.mp tells
        exact ⟨rfl, rfl⟩
    obtain ⟨rfl, quiet⟩ := result
    refine ⟨some site, outcome, rfl, ?_⟩
    refine ⟨by simpa using enters.grown_eq, ?_⟩
    rw [enters.warned, List.filterMap_append, quiet, List.append_nil]

/-- What is noted of a function: its calls in body order, and the functions that they may reach. No
instruction of it is at fault. -/
theorem tells_survey {function : Function}
    {found next : List CallNode × List (String × List CallSite)} {events : List Event}
    (tells : Attempt.Tells (survey program pointsTo found function) next events) :
    (∀ instruction ∈ function.instructions, ∀ fault, ¬ instruction.Misses function.name fault) ∧
      next.2 = found.2 ++ [(function.name, function.callSites pointsTo)] ∧
        Enters program found.1 (function.callTargets pointsTo) next.1 events := by
  rw [survey, Attempt.tells_bind_iff] at tells
  obtain ⟨⟨nodes, sites⟩, told, _, folds, ends, rfl⟩ := tells
  obtain ⟨rfl, rfl⟩ := Attempt.tells_pure_iff.mp ends
  -- of the instructions so far none is missing what it calls, and their calls have been entered
  have kept := folds.foldlM (fun visited state told =>
    (∀ numbered ∈ visited, ∀ fault, ¬ numbered.1.Misses function.name fault) ∧
      state.2 = visited.filterMap (Instruction.callSite? pointsTo function.name) ∧
        Enters program found.1 (state.2.flatMap (·.targets)) state.1 told)
    ⟨by simp, rfl, .nil _⟩ (by
      rintro before numbered after state next told more - ⟨sound, listed, enters⟩ notes
      obtain ⟨site?, outcome, sites, grows⟩ := tells_note notes
      refine ⟨fun other member fault => ?_, ?_, ?_⟩
      · rcases List.mem_append.mp member with member | last
        · exact sound other member fault
        · rw [List.mem_singleton.mp last, ← siteOf?_eq_error_iff pointsTo numbered.2, outcome]
          rintro ⟨⟩
      · rw [sites, listed, List.filterMap_append, site_eq_of_siteOf? outcome]
        cases missed : Instruction.callSite? pointsTo function.name numbered <;>
          simp [missed]
      · rw [sites, List.flatMap_append]
        exact enters.append grows)
  obtain ⟨sound, rfl, enters⟩ := kept
  refine ⟨fun instruction member => ?_, rfl, ?_⟩
  · obtain ⟨index, found⟩ := List.getElem?_of_mem member
    exact sound (instruction, index) (List.mem_zipIdx_iff_getElem?.mpr found)
  · rw [List.append_nil]
    exact enters

/-- What has been found and told once all functions of a program have been surveyed. -/
theorem tells_foldlM_survey {found : List CallNode × List (String × List CallSite)}
    {events : List Event}
    (tells : Attempt.Tells (program.functions.foldlM (survey program pointsTo)
      (program.functions.map fun function => ⟨function.name, true⟩, [])) found events) :
    (∀ function ∈ program.functions, ∀ instruction ∈ function.instructions, ∀ fault,
        ¬ instruction.Misses function.name fault) ∧
      found.2 = program.functions.map (fun function =>
        (function.name, function.callSites pointsTo)) ∧
        Enters program (program.functions.map fun function => ⟨function.name, true⟩)
          (program.functions.flatMap (Function.callTargets pointsTo)) found.1 events :=
  tells.foldlM (fun visited state told =>
    (∀ function ∈ visited, ∀ instruction ∈ function.instructions, ∀ fault,
        ¬ instruction.Misses function.name fault) ∧
      state.2 = visited.map (fun function => (function.name, function.callSites pointsTo)) ∧
        Enters program (program.functions.map fun function => ⟨function.name, true⟩)
          (visited.flatMap (Function.callTargets pointsTo)) state.1 told)
    ⟨by simp, rfl, .nil _⟩ (by
      rintro before function after state next told more - ⟨sound, listed, enters⟩ surveys
      obtain ⟨faultless, sites, grows⟩ := tells_survey surveys
      refine ⟨fun other member => ?_, by rw [sites, listed, List.map_append]; rfl, ?_⟩
      · rcases List.mem_append.mp member with member | last
        · exact sound other member
        · rw [List.mem_singleton.mp last]
          exact faultless
      · rw [List.flatMap_append, List.flatMap_singleton]
        exact enters.append grows)

/-- The nodes and sites from which the call graph of a program is made, and what has been told. -/
theorem tells_ofProgram {calls : CallGraph} {events : List Event}
    (tells : Attempt.Tells (ofProgram program pointsTo) calls events) :
    (∀ function ∈ program.functions, ∀ instruction ∈ function.instructions, ∀ fault,
        ¬ instruction.Misses function.name fault) ∧
      ∃ nodes, calls = ofSites pointsTo.strategy nodes (program.functions.map fun function =>
          (function.name, function.callSites pointsTo)) ∧
        Enters program (program.functions.map fun function => ⟨function.name, true⟩)
          (program.functions.flatMap (Function.callTargets pointsTo)) nodes events := by
  rw [ofProgram, Attempt.tells_bind_iff] at tells
  obtain ⟨⟨nodes, sites⟩, told, _, folds, ends, rfl⟩ := tells
  obtain ⟨rfl, rfl⟩ := Attempt.tells_pure_iff.mp ends
  obtain ⟨sound, rfl, enters⟩ := tells_foldlM_survey folds
  refine ⟨sound, nodes, rfl, ?_⟩
  rw [List.append_nil]
  exact enters

/-- The making of a call graph fails at a call that misses something, and only there. -/
theorem fails_ofProgram {fault : BodyFault}
    (fails : Attempt.Fails (ofProgram program pointsTo) fault) :
    ∃ function ∈ program.functions, ∃ instruction ∈ function.instructions,
      instruction.Misses function.name fault := by
  rw [ofProgram, Attempt.fails_bind_iff] at fails
  rcases fails with fails | ⟨_, _, fails⟩
  · obtain ⟨function, member, found, fails⟩ := fails.exists_of_foldlM
    rw [survey, Attempt.fails_bind_iff] at fails
    rcases fails with fails | ⟨_, _, fails⟩
    · obtain ⟨numbered, inside, state, fails⟩ := fails.exists_of_foldlM
      refine ⟨function, member, numbered.1, List.fst_mem_of_mem_zipIdx inside, ?_⟩
      rw [← siteOf?_eq_error_iff pointsTo numbered.2]
      unfold note at fails
      split at fails
      · next outcome =>
        rw [outcome, Attempt.fails_throw_iff.mp fails]
      · exact absurd fails Attempt.fails_pure_iff.mp
      · simp only [Attempt.fails_bind_iff, Attempt.fails_lift_iff, false_or] at fails
        obtain ⟨_, _, fails⟩ := fails
        split at fails <;>
          simp only [Attempt.fails_bind_iff, Attempt.fails_lift_iff, Attempt.fails_pure_iff,
            and_false, exists_false, or_self] at fails
    · exact absurd fails Attempt.fails_pure_iff.mp
  · exact absurd fails Attempt.fails_pure_iff.mp

theorem defines_iff (name : String) :
    program.defines name = true ↔ name ∈ program.functions.map (·.name) := by
  simp [Program.defines, Program.function?]

/-- The nodes are the functions with bodies, then the called ones without. -/
theorem Enters.eq_append_outsiders {nodes : List CallNode} {events : List Event}
    (enters : Enters program (program.functions.map fun function => ⟨function.name, true⟩)
      (program.functions.flatMap (Function.callTargets pointsTo)) nodes events) :
    nodes = program.functions.map (fun function => ⟨function.name, true⟩) ++
      (program.outsiders pointsTo).map fun name => ⟨name, false⟩ := by
  have unlisted : ∀ name, decide (name ∉ (program.functions.map fun function =>
      (⟨function.name, true⟩ : CallNode)).map (·.name)) = !program.defines name := by
    intro name
    rw [List.map_map, Bool.eq_iff_iff, decide_eq_true_eq, Bool.not_eq_true', ← Bool.not_eq_true,
      defines_iff]
    rfl
  rw [enters.grown_eq_append]
  simp only [unlisted]
  congr 1
  apply List.map_congr_left
  intro name member
  have outside := (List.mem_filter.mp (List.mem_eraseDups.mp member)).2
  rw [Bool.not_eq_true'] at outside
  rw [outside]

theorem Enters.names_eq {nodes : List CallNode} {events : List Event}
    (enters : Enters program (program.functions.map fun function => ⟨function.name, true⟩)
      (program.functions.flatMap (Function.callTargets pointsTo)) nodes events) :
    nodes.map (·.name) = program.functions.map (·.name) ++ program.outsiders pointsTo := by
  rw [enters.eq_append_outsiders, List.map_append, List.map_map, List.map_map]
  exact congrArg _ (List.map_id _)

/-- One warning has been told of each called function that is nowhere declared. -/
theorem Enters.undeclared_eq {nodes : List CallNode} {events : List Event}
    (enters : Enters program (program.functions.map fun function => ⟨function.name, true⟩)
      (program.functions.flatMap (Function.callTargets pointsTo)) nodes events) :
    events.filterMap Event.undeclared? =
      (program.outsiders pointsTo).filter program.isUndeclared := by
  have declared : (program.functions.map (·.name)).filter program.isUndeclared = [] := by
    rw [List.filter_eq_nil_iff]
    intro name member undeclared
    rw [Program.isUndeclared, (defines_iff name).mpr member] at undeclared
    cases undeclared
  have warned := enters.warned
  rw [enters.names_eq, List.filter_append, List.map_map] at warned
  change (program.functions.map (·.name)).filter _ ++ _ =
    (program.functions.map (·.name)).filter _ ++ _ at warned
  rw [declared, List.nil_append, List.nil_append] at warned
  exact warned.symm

theorem nodup_names (pointsTo : PointsTo) (distinct : (program.functions.map (·.name)).Nodup) :
    (program.functions.map (·.name) ++ program.outsiders pointsTo).Nodup := by
  refine List.nodup_append.mpr ⟨distinct, nodup_eraseDups _, ?_⟩
  rintro name inside other outside rfl
  have apart := (List.mem_filter.mp (List.mem_eraseDups.mp outside)).2
  rw [(defines_iff name).mpr inside] at apart
  cases apart

/-- The edges of a call graph by the names of their ends. -/
def arrows (calls : CallGraph) : List (String × String × CallKind) :=
  calls.graph.arrows.map fun arrow => (arrow.1.name, arrow.2.1.name, arrow.2.2)

/-- Between nodes that have the names of all callers and callees, every link is an edge. -/
theorem arrows_ofSites (strategy : String) {nodes : List CallNode}
    {sites : List (String × List CallSite)}
    (known : ∀ caller callee kind, (caller, callee, kind) ∈ links sites →
      caller ∈ nodes.map (·.name) ∧ callee ∈ nodes.map (·.name)) :
    (ofSites strategy nodes sites).arrows = links sites := by
  have listed : (ofSites strategy nodes sites).graph.arrows =
      (edgesOf nodes sites).map fun edge => (nodes[edge.1], nodes[edge.2.1], edge.2.2) :=
    Digraph.arrows_ofEdges nodes (edgesOf nodes sites)
  rw [arrows, listed, List.map_map, edgesOf, List.map_filterMap]
  refine (List.filterMap_congr ?_).trans List.filterMap_some
  rintro ⟨caller, callee, kind⟩ member
  obtain ⟨callerKnown, calleeKnown⟩ := known caller callee kind member
  obtain ⟨source, findsSource, rfl⟩ := exists_position callerKnown
  obtain ⟨target, findsTarget, rfl⟩ := exists_position calleeKnown
  simp only [findsSource, findsTarget]
  rfl

/-- What a call graph records of a program. -/
structure Records (calls : CallGraph) (program : Program) (pointsTo : PointsTo) : Prop where
  /-- The nodes are the functions with bodies, then the called ones without as they are first
  called. -/
  nodes : calls.graph.nodes.toList =
    program.functions.map (fun function => ⟨function.name, true⟩) ++
      (program.outsiders pointsTo).map fun name => ⟨name, false⟩
  /-- No two nodes have the same name. -/
  names_distinct : (calls.graph.nodes.toList.map (·.name)).Nodup
  /-- A node says whether there is a body for it. -/
  defined_iff : ∀ node ∈ calls.graph.nodes.toList,
    node.defined = true ↔ node.name ∈ program.functions.map (·.name)
  /-- No two edges have the same ends and the same kind. -/
  arrows_distinct : calls.arrows.Nodup
  /-- There is an edge where a call of its kind in the body of its source may reach its target. -/
  mem_arrows_iff : ∀ caller callee kind, (caller, callee, kind) ∈ calls.arrows ↔
    ∃ function ∈ program.functions, function.name = caller ∧
      ∃ site ∈ function.callSites pointsTo, site.kind = kind ∧ callee ∈ site.targets
  /-- The calls of a function are those in its body. -/
  sites : ∀ function ∈ program.functions,
    calls.sitesOf function.name = function.callSites pointsTo
  /-- Every node is in one component, once. -/
  components : calls.bottomUp.flatten.Perm (calls.graph.nodes.toList.map (·.name))
  /-- A function without a body is alone in its component. -/
  alone : ∀ component ∈ calls.bottomUp, ∀ name ∈ component,
    name ∉ program.functions.map (·.name) → component = [name]
  /-- No call leads to a later component. -/
  callees_first : ∀ first second : Fin calls.bottomUp.length, ∀ function ∈ program.functions,
    function.name ∈ calls.bottomUp[first] → ∀ site ∈ function.callSites pointsTo,
      ∀ target ∈ site.targets, target ∈ calls.bottomUp[second] → second ≤ first

theorem mem_links_callSites_iff (program : Program) (pointsTo : PointsTo) (caller callee : String)
    (kind : CallKind) : (caller, callee, kind) ∈ links (program.functions.map fun function =>
        (function.name, function.callSites pointsTo)) ↔
      ∃ function ∈ program.functions, function.name = caller ∧
        ∃ site ∈ function.callSites pointsTo, site.kind = kind ∧ callee ∈ site.targets := by
  rw [mem_links_iff]
  simp only [List.mem_map, Prod.mk.injEq]
  constructor
  · rintro ⟨_, ⟨function, member, rfl, rfl⟩, site, inside, reached, same⟩
    exact ⟨function, member, rfl, site, inside, same, reached⟩
  · rintro ⟨function, member, rfl, site, inside, same, reached⟩
    exact ⟨_, ⟨function, member, rfl, rfl⟩, site, inside, reached, same⟩

/-- Whatever a call may reach has a body or is one of the called functions without. -/
theorem mem_names_of_mem_targets {function : Function} (member : function ∈ program.functions)
    {site : CallSite} (listed : site ∈ function.callSites pointsTo) {target : String}
    (reached : target ∈ site.targets) :
    target ∈ program.functions.map (·.name) ++ program.outsiders pointsTo := by
  rw [List.mem_append]
  cases within : program.defines target with
  | true => exact .inl ((defines_iff target).mp within)
  | false =>
    right
    rw [Program.outsiders, List.mem_eraseDups, List.mem_filter, within]
    refine ⟨?_, rfl⟩
    exact List.mem_flatMap.mpr ⟨function, member, List.mem_flatMap.mpr ⟨site, listed, reached⟩⟩

theorem mem_names_iff {calls : CallGraph} {name : String} :
    name ∈ calls.graph.nodes.toList.map (·.name) ↔
      ∃ node, (calls.graph.payload node).name = name := by
  rw [List.mem_map]
  constructor
  · rintro ⟨payload, member, rfl⟩
    obtain ⟨node, inside, rfl⟩ := List.getElem_of_mem member
    exact ⟨⟨node, inside⟩, rfl⟩
  · rintro ⟨node, rfl⟩
    exact ⟨_, Array.getElem_mem_toList node.isLt, rfl⟩

/-- A node that no edge leaves is alone in its component. -/
theorem eq_singleton_of_sink {calls : CallGraph} {component : List (Fin calls.graph.size)}
    (present : component ∈ calls.graph.adjacency.components) {node : Fin calls.graph.size}
    (inside : node ∈ component) (sink : ∀ other, ¬ calls.graph.Joins false node other) :
    component = [node] := by
  have condensation := calls.graph.adjacency.components_condensation
  rw [calls.graph.adjacency_follows] at condensation
  have same : ∀ other ∈ component, other = node := by
    intro other member
    obtain ⟨⟨visited, walk⟩, -⟩ :=
      (condensation.connected_iff node other).mp ⟨component, present, inside, member⟩
    cases walk with
    | stay => rfl
    | onward joined _ => exact absurd joined (sink _)
  have distinct : component.Nodup :=
    (condensation.ascending component present).imp fun less => ne_of_lt less
  refine List.perm_singleton.mp ((List.perm_ext_iff_of_nodup distinct
    (List.nodup_singleton node)).mpr fun other => ?_)
  rw [List.mem_singleton]
  constructor
  · exact same other
  · rintro rfl
    exact inside

/-- Callers and callees are among the nodes. -/
theorem mem_nodes_of_links {nodes : List CallNode} {events : List Event}
    (enters : Enters program (program.functions.map fun function => ⟨function.name, true⟩)
      (program.functions.flatMap (Function.callTargets pointsTo)) nodes events)
    {caller callee : String} {kind : CallKind}
    (linked : (caller, callee, kind) ∈ links (program.functions.map fun function =>
      (function.name, function.callSites pointsTo))) :
    caller ∈ nodes.map (·.name) ∧ callee ∈ nodes.map (·.name) := by
  obtain ⟨function, member, rfl, site, inside, -, reached⟩ :=
    (mem_links_callSites_iff program pointsTo caller callee kind).mp linked
  rw [enters.names_eq]
  exact ⟨List.mem_append_left _ (List.mem_map_of_mem member),
    mem_names_of_mem_targets member inside reached⟩

theorem arrows_ofProgram {calls : CallGraph}
    (yields : Attempt.Yields (ofProgram program pointsTo) calls) :
    calls.arrows = links (program.functions.map fun function =>
      (function.name, function.callSites pointsTo)) := by
  obtain ⟨-, nodes, made, enters⟩ := tells_ofProgram yields.tells
  rw [made]
  exact arrows_ofSites _ fun _ _ _ => mem_nodes_of_links enters

/-- No edge leaves a function without a body, so it is alone in its component. -/
theorem eq_singleton_of_outside {calls : CallGraph}
    (arrows : calls.arrows = links (program.functions.map fun function =>
      (function.name, function.callSites pointsTo)))
    {component : List String} (present : component ∈ calls.bottomUp) {name : String}
    (inside : name ∈ component) (outside : name ∉ program.functions.map (·.name)) :
    component = [name] := by
  obtain ⟨members, found, rfl⟩ := List.mem_map.mp present
  obtain ⟨node, held, rfl⟩ := List.mem_map.mp inside
  suffices sink : ∀ other, ¬ calls.graph.Joins false node other by
    have alone : members = [node] := eq_singleton_of_sink found held sink
    rw [alone, List.map_singleton]
  intro other joined
  obtain ⟨label, arrow⟩ := calls.graph.exists_arrow_of_joins joined
  have named := List.mem_map_of_mem (f := fun arrow => (arrow.1.name, arrow.2.1.name, arrow.2.2))
    arrow
  change _ ∈ calls.arrows at named
  rw [arrows, mem_links_callSites_iff] at named
  obtain ⟨function, member, same, -⟩ := named
  exact outside (same ▸ List.mem_map_of_mem member)

/-- What a function calls stands in no later component. -/
theorem BottomUp.le_of_called {calls : CallGraph} (bottomUp : calls.BottomUp program)
    {first second : Fin calls.bottomUp.length} {function : Function}
    (member : function ∈ program.functions) (inside : function.name ∈ calls.bottomUp[first])
    {site : CallSite} (listed : site ∈ calls.sitesOf function.name) {target : String}
    (reached : target ∈ site.targets) (held : target ∈ calls.bottomUp[second]) :
    second ≤ first := by
  by_contra later
  -- a name that stood before the caller's component or in it would stand twice
  have apart := List.pairwise_iff_getElem.mp (List.nodup_flatten.mp bottomUp.distinct).2
  have cut : calls.bottomUp = calls.bottomUp.take first ++ calls.bottomUp[first] ::
      calls.bottomUp.drop (first + 1) := by simp
  rcases bottomUp.callees_first _ _ _ cut function member inside site listed target reached with
    earlier | same
  · obtain ⟨component, early, found⟩ := List.mem_flatten.mp earlier
    obtain ⟨position, bound, rfl⟩ := List.getElem_of_mem early
    rw [List.getElem_take] at found
    rw [List.length_take] at bound
    exact apart position second (by omega) second.isLt (by omega) found held
  · exact apart first second first.isLt second.isLt (by omega) same held

/-- The call graph of a program whose functions have distinct names records its calls. -/
theorem records_ofProgram {calls : CallGraph} (distinct : (program.functions.map (·.name)).Nodup)
    (yields : Attempt.Yields (ofProgram program pointsTo) calls) :
    calls.Records program pointsTo := by
  have describes := describes_ofProgram distinct yields
  have bottomUp := describes.bottomUp
  obtain ⟨-, nodes, made, enters⟩ := tells_ofProgram yields.tells
  have listed : calls.graph.nodes.toList = nodes := by
    rw [made]
    exact Digraph.nodes_ofEdges nodes (edgesOf nodes _)
  have names := enters.names_eq
  have arrows := arrows_ofProgram yields
  have sites : ∀ function ∈ program.functions,
      calls.sitesOf function.name = function.callSites pointsTo := by
    intro function member
    have table := lookup_map_key_of_mem (Function.callSites pointsTo) distinct member
    rw [sitesOf, made]
    exact congrArg (·.getD []) table
  refine ⟨listed.trans enters.eq_append_outsiders, ?names, ?defined, ?distinct, ?edges, sites,
    ?components, ?alone, ?first⟩
  case names =>
    rw [listed, names]
    exact nodup_names pointsTo distinct
  case defined =>
    intro node member
    obtain ⟨position, inside, rfl⟩ := List.getElem_of_mem member
    rw [← defines_iff]
    exact Bool.eq_iff_iff.mp (describes.defined_eq ⟨position, inside⟩)
  case distinct =>
    rw [arrows]
    exact nodup_eraseDups _
  case edges =>
    intro caller callee kind
    rw [arrows, mem_links_callSites_iff]
  case components =>
    refine (List.perm_ext_iff_of_nodup bottomUp.distinct ?_).mpr fun name => ?_
    · rw [listed, names]
      exact nodup_names pointsTo distinct
    · rw [flatten_bottomUp, List.mem_map, mem_names_iff]
      have covered := calls.graph.adjacency.components_condensation.mem_flatten
      exact exists_congr fun node => and_iff_right (covered node)
  case alone =>
    exact fun component present name inside outside =>
      eq_singleton_of_outside arrows present inside outside
  case first =>
    intro first second function member inside site listed target reached held
    rw [← sites function member] at listed
    exact bottomUp.le_of_called member inside listed reached held

/-- Making the call graph of a program whose functions have distinct names fails where a call misses
what it calls, and only there. Otherwise a graph is made that records every call, and one warning
has been told of each called function that is nowhere declared. -/
theorem ofProgram_records (program : Program) (pointsTo : PointsTo)
    (distinct : (program.functions.map (·.name)).Nodup) :
    ((∃ fault, Attempt.Fails (ofProgram program pointsTo) fault) ↔
        ∃ function ∈ program.functions, ∃ instruction ∈ function.instructions,
          (instruction.opcode = .call ∧ instruction.funcs = []) ∨
            (instruction.opcode = .icall ∧ instruction.args = [])) ∧
      (∀ fault, Attempt.Fails (ofProgram program pointsTo) fault →
        ∃ function ∈ program.functions, ∃ instruction ∈ function.instructions,
          instruction.Misses function.name fault) ∧
      ((∀ fault, ¬ Attempt.Fails (ofProgram program pointsTo) fault) →
        ∃ calls, Attempt.Yields (ofProgram program pointsTo) calls ∧
          calls.Records program pointsTo ∧
            (ofProgram program pointsTo).run.events.filterMap Event.undeclared? =
              (program.outsiders pointsTo).filter program.isUndeclared) := by
  refine ⟨⟨?misses, ?fails⟩, fun _ => fails_ofProgram, ?made⟩
  case misses =>
    rintro ⟨fault, fails⟩
    obtain ⟨function, member, instruction, inside, misses⟩ := fails_ofProgram fails
    refine ⟨function, member, instruction, inside, ?_⟩
    rcases misses with ⟨calls, nothing⟩ | ⟨calls, nothing⟩
    · exact .inl ⟨calls, nothing⟩
    · exact .inr ⟨calls, nothing⟩
  case fails =>
    rintro ⟨function, member, instruction, inside, missed⟩
    rcases (ofProgram program pointsTo).yields_or_fails with ⟨calls, yields⟩ | fails
    · obtain ⟨faultless, -⟩ := tells_ofProgram yields.tells
      rcases missed with ⟨calls, nothing⟩ | ⟨calls, nothing⟩
      · exact absurd (.callee calls nothing) (faultless function member instruction inside _)
      · exact absurd (.pointer calls nothing) (faultless function member instruction inside _)
    · exact fails
  case made =>
    intro faultless
    rcases (ofProgram program pointsTo).yields_or_fails with ⟨calls, yields⟩ | ⟨fault, fails⟩
    · obtain ⟨-, nodes, -, enters⟩ := tells_ofProgram yields.tells
      exact ⟨calls, yields, records_ofProgram distinct yields, enters.undeclared_eq⟩
    · exact absurd fails (faultless fault)

/-- Two functions that call each other, and one that calls a declared function by name and through a
pointer one that is not. -/
def relay : Program where
  functions := [
    { name := "main", parameters := [⟨"hook", .named "fnptr"⟩],
      body := [.instruction { name := "call", funcs := ["even"] }, .label "next",
        .instruction { name := "call", funcs := ["puts"] },
        .instruction { name := "icall", args := ["hook"] }] },
    { name := "even", body := [.instruction { name := "call", funcs := ["odd"] }] },
    { name := "odd", body := [.instruction { name := "call", funcs := ["even"] }] }]
  externs := [{ name := "puts" }]

theorem ofProgram_records_relay : (relay.functions.map (·.name)).Nodup ∧
    ∃ calls, Attempt.Yields (ofProgram relay ⟨"table", fun _ _ => ["odd", "missing"]⟩) calls ∧
      calls.graph.nodes.toList = [⟨"main", true⟩, ⟨"even", true⟩, ⟨"odd", true⟩, ⟨"puts", false⟩,
        ⟨"missing", false⟩] ∧
        calls.sitesOf "main" = [⟨0, .direct, ["even"]⟩, ⟨1, .direct, ["puts"]⟩,
          ⟨2, .indirect, ["odd", "missing"]⟩] ∧
          (ofProgram relay ⟨"table", fun _ _ => ["odd", "missing"]⟩).run.events.filterMap
            Event.undeclared? = ["missing"] := by
  have distinct : (relay.functions.map (·.name)).Nodup := by decide
  obtain ⟨misses, -, made⟩ :=
    ofProgram_records relay ⟨"table", fun _ _ => ["odd", "missing"]⟩ distinct
  have faultless : ¬ ∃ function ∈ relay.functions, ∃ instruction ∈ function.instructions,
      (instruction.opcode = .call ∧ instruction.funcs = []) ∨
        (instruction.opcode = .icall ∧ instruction.args = []) := by decide
  obtain ⟨calls, yields, records, warned⟩ :=
    made fun fault fails => faultless (misses.mp ⟨fault, fails⟩)
  refine ⟨distinct, calls, yields, records.nodes.trans (by rfl), ?_, warned.trans (by decide)⟩
  exact (records.sites relay.functions[0] (by simp)).trans (by rfl)

end CallGraph

end ProgramGraphs
