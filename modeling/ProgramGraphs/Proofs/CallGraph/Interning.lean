import ProgramGraphs.Error
import ProgramGraphs.Proofs.CallGraph.Record

/-! # Interning callees while calls are linked

A call graph can also be made in one go: each callee is given a number when a call first reaches it,
and an edge is added at once, by number and with a look at both ends, unless the same edge has been
seen (`Draft`). What has been entered keeps its number, so at all times the edges are the calls so
far, each once (`Draft.Holds`). This makes the same graph as listing all calls first
(`draft?_eq_ok`).
-/

namespace ProgramGraphs

theorem eraseDups_concat {α : Type} [BEq α] [LawfulBEq α] (items : List α) (item : α)
    [Decidable (item ∈ items)] : (items ++ [item]).eraseDups =
      if item ∈ items then items.eraseDups else items.eraseDups ++ [item] := by
  rw [List.eraseDups_append]
  by_cases known : item ∈ items
  · simp [List.removeAll, known]
  · simp [List.removeAll, known, List.eraseDups_cons]

namespace Digraph

variable {ν ε : Type}

/-- The tables of a graph only repeat what its nodes and edges say. -/
theorem eq_of_nodes_of_edges {graph other : Digraph ν ε} (nodes : graph.nodes = other.nodes)
    (edges : graph.edges = other.edges) : graph = other := by
  have outgoing : graph.outgoing = other.outgoing := by
    refine Array.ext (by rw [graph.outgoing_size, other.outgoing_size, nodes]) ?_
    intro node here there
    rw [← Array.toList_inj, graph.outgoing_eq node here, other.outgoing_eq node there, edges]
  have incoming : graph.incoming = other.incoming := by
    refine Array.ext (by rw [graph.incoming_size, other.incoming_size, nodes]) ?_
    intro node here there
    rw [← Array.toList_inj, graph.incoming_eq node here, other.incoming_eq node there, edges]
  cases graph
  cases other
  simp only [mk.injEq]
  exact ⟨nodes, edges, outgoing, incoming⟩

end Digraph

namespace CallGraph

variable {program : Program} {pointsTo : PointsTo}

/-- A link by the numbers of its ends among some nodes; the number of an end that is not among them
is too great. -/
def number (nodes : List CallNode) (link : String × String × CallKind) : Edge CallKind :=
  ⟨nodes.findIdx (·.name == link.1), nodes.findIdx (·.name == link.2.1), link.2.2⟩

theorem findIdx_eq {nodes : List CallNode} {name : String} {position : Fin nodes.length}
    (found : nodes.findFinIdx? (·.name == name) = some position) :
    nodes.findIdx (·.name == name) = position := by
  have index : nodes.findIdx? (·.name == name) = some position.val := by
    rw [List.findIdx?_eq_map_findFinIdx?_val, found]
    rfl
  exact (List.findIdx?_eq_some_iff_findIdx_eq.mp index).2

/-- Between nodes that have the names of all callers and callees, links are numbered by the
positions of their ends. -/
theorem map_number_links {nodes : List CallNode} {sites : List (String × List CallSite)}
    (known : ∀ caller callee kind, (caller, callee, kind) ∈ links sites →
      caller ∈ nodes.map (·.name) ∧ callee ∈ nodes.map (·.name)) :
    (links sites).map (number nodes) = (edgesOf nodes sites).map Edge.between := by
  rw [edgesOf, List.map_filterMap, ← List.filterMap_eq_map]
  refine List.filterMap_congr ?_
  rintro ⟨caller, callee, kind⟩ member
  obtain ⟨callerKnown, calleeKnown⟩ := known caller callee kind member
  obtain ⟨source, findsSource, -⟩ := exists_position callerKnown
  obtain ⟨target, findsTarget, -⟩ := exists_position calleeKnown
  simp only [findsSource, findsTarget, Function.comp_apply, number, findIdx_eq findsSource,
    findIdx_eq findsTarget]
  rfl

/-- A name that has been entered keeps its number. -/
theorem findIdx_enter (program : Program) {nodes : List CallNode} {name : String}
    (known : name ∈ nodes.map (·.name)) (callee : String) :
    (enter program nodes callee).findIdx (·.name == name) = nodes.findIdx (·.name == name) := by
  rw [enter]
  split
  · rfl
  · obtain ⟨node, member, rfl⟩ := List.mem_map.mp known
    have inside : nodes.findIdx (·.name == node.name) < nodes.length :=
      List.findIdx_lt_length_of_exists ⟨node, member, by simp⟩
    rw [List.findIdx_append, if_pos inside]

theorem mem_names_enter (program : Program) {nodes : List CallNode} {name : String}
    (known : name ∈ nodes.map (·.name)) (callee : String) :
    name ∈ (enter program nodes callee).map (·.name) := by
  rw [enter]
  split
  · exact known
  · rw [List.map_append]
    exact List.mem_append_left _ known

theorem mem_names_enter_self (program : Program) (nodes : List CallNode) (callee : String) :
    callee ∈ (enter program nodes callee).map (·.name) := by
  rw [enter]
  split
  · next known => exact known
  · simp

theorem name_findIdx {nodes : List CallNode} {name : String}
    (known : name ∈ nodes.map (·.name)) :
    ∃ inside : nodes.findIdx (·.name == name) < nodes.length,
      nodes[nodes.findIdx (·.name == name)].name = name := by
  obtain ⟨node, member, rfl⟩ := List.mem_map.mp known
  have inside : nodes.findIdx (·.name == node.name) < nodes.length :=
    List.findIdx_lt_length_of_exists ⟨node, member, by simp⟩
  exact ⟨inside, by simpa using List.findIdx_getElem (w := inside)⟩

/-- Links between known names are told apart by their numbers. -/
theorem number_injective {nodes : List CallNode} {link other : String × String × CallKind}
    (source : link.1 ∈ nodes.map (·.name)) (target : link.2.1 ∈ nodes.map (·.name))
    (otherSource : other.1 ∈ nodes.map (·.name)) (otherTarget : other.2.1 ∈ nodes.map (·.name))
    (same : number nodes link = number nodes other) : link = other := by
  obtain ⟨sources, targets, kinds⟩ := Edge.mk.inj same
  have one {name again : String} (known : name ∈ nodes.map (·.name))
      (knownAgain : again ∈ nodes.map (·.name))
      (equal : nodes.findIdx (·.name == name) = nodes.findIdx (·.name == again)) :
      name = again := by
    obtain ⟨inside, named⟩ := name_findIdx known
    obtain ⟨_, namedAgain⟩ := name_findIdx knownAgain
    rw [← named, ← namedAgain]
    simp only [equal]
  exact Prod.ext (one source otherSource sources)
    (Prod.ext (one target otherTarget targets) kinds)

/-- Every callee of a caller and the kind of the call, in the order of the calls. -/
def linksOf (caller : String) (sites : List CallSite) : List (String × String × CallKind) :=
  sites.flatMap fun site => site.targets.map fun target => (caller, target, site.kind)

theorem linksOf_append (caller : String) (first second : List CallSite) :
    linksOf caller (first ++ second) = linksOf caller first ++ linksOf caller second :=
  List.flatMap_append

/-- A call graph that is being made, and the edges that it has been given. -/
structure Draft where
  graph : Digraph CallNode CallKind
  seen : List (Nat × Nat × CallKind)

namespace Draft

/-- The number of a function, which is entered if it has none. -/
def intern (draft : Draft) (node : CallNode) : Draft × Nat :=
  match draft.graph.find? (·.name == node.name) with
  | some found => (draft, found)
  | none => ({ draft with graph := draft.graph.addNode node }, draft.graph.size)

/-- Link a caller to a function that it may reach, unless that edge has been seen. -/
def link (program : Program) (caller : Nat) (kind : CallKind) (draft : Draft) (target : String) :
    Except MissingNode Draft :=
  let interned := draft.intern ⟨target, program.defines target⟩
  if (caller, interned.2, kind) ∈ interned.1.seen then .ok interned.1
  else do
    let graph ← interned.1.graph.addEdge? caller interned.2 kind
    .ok ⟨graph, (caller, interned.2, kind) :: interned.1.seen⟩

/-- Link a caller to all that an instruction may call. -/
def note (program : Program) (pointsTo : PointsTo) (function : Function) (caller : Nat)
    (draft : Draft) (numbered : Instruction × Nat) : Except Error Draft := do
  match ← (siteOf? pointsTo function.name numbered.2 numbered.1).mapError Error.malformed with
  | none => pure draft
  | some site => (site.targets.foldlM (link program caller site.kind) draft).mapError Error.graph

/-- Link a function to all that its instructions may call. -/
def survey (program : Program) (pointsTo : PointsTo) (draft : Draft) (function : Function) :
    Except Error Draft :=
  let interned := draft.intern ⟨function.name, true⟩
  function.instructions.zipIdx.foldlM (note program pointsTo function interned.2) interned.1

end Draft

/-- Make a call graph in one go, once all functions with bodies have been entered. -/
def draft? (program : Program) (pointsTo : PointsTo) : Except Error Draft :=
  program.functions.foldlM (Draft.survey program pointsTo)
    (program.functions.foldl (fun draft function => (draft.intern ⟨function.name, true⟩).1)
      ⟨.empty, []⟩)

namespace Draft

variable {draft : Draft} {nodes : List CallNode} {calls : List (String × String × CallKind)}

/-- A draft has some nodes and an edge for each of some calls, and it has seen just these edges. -/
structure Holds (draft : Draft) (nodes : List CallNode)
    (calls : List (String × String × CallKind)) : Prop where
  nodes_eq : draft.graph.nodes.toList = nodes
  edges_eq : draft.graph.edges.toList = calls.eraseDups.map (number nodes)
  seen_iff : ∀ source target kind, (source, target, kind) ∈ draft.seen ↔
    ⟨source, target, kind⟩ ∈ draft.graph.edges.toList
  known : ∀ call ∈ calls, call.1 ∈ nodes.map (·.name) ∧ call.2.1 ∈ nodes.map (·.name)

theorem holds_blank : Holds ⟨.empty, []⟩ [] [] where
  nodes_eq := rfl
  edges_eq := rfl
  seen_iff := by simp [Digraph.empty]
  known := List.forall_mem_nil _

theorem Holds.size_eq (holds : draft.Holds nodes calls) : draft.graph.size = nodes.length := by
  rw [← holds.nodes_eq, Array.length_toList]
  rfl

/-- A function with a number keeps it. -/
theorem Holds.intern_eq (holds : draft.Holds nodes calls) {node : CallNode}
    (known : node.name ∈ nodes.map (·.name)) :
    draft.intern node = (draft, nodes.findIdx (·.name == node.name)) := by
  have located : (draft.graph.nodes.findFinIdx? (·.name == node.name)).map (·.val) =
      some (nodes.findIdx (·.name == node.name)) := by
    have listed : draft.graph.nodes = nodes.toArray := by rw [← holds.nodes_eq]
    rw [← Array.findIdx?_eq_map_findFinIdx?_val, listed, List.findIdx?_toArray,
      List.findIdx?_eq_some_iff_findIdx_eq]
    exact ⟨(name_findIdx known).1, rfl⟩
  obtain ⟨found, finds, same⟩ := Option.map_eq_some_iff.mp located
  have finds : draft.graph.find? (·.name == node.name) = some found := finds
  rw [intern, finds, ← same]

/-- A function without a number gets the next one. -/
theorem Holds.intern_eq_of_notMem (holds : draft.Holds nodes calls) (node : CallNode)
    (fresh : node.name ∉ nodes.map (·.name)) :
    draft.intern node = (⟨draft.graph.addNode node, draft.seen⟩, nodes.length) := by
  have missing : draft.graph.find? (·.name == node.name) = none := by
    refine Array.findFinIdx?_eq_none_iff.mpr fun other member => ?_
    rw [Bool.not_eq_true, beq_eq_false_iff_ne]
    rintro same
    refine fresh (List.mem_map.mpr ⟨other, ?_, same⟩)
    rw [← holds.nodes_eq]
    exact Array.mem_toList_iff.mpr member
  rw [intern, missing]
  exact congrArg (Prod.mk _) holds.size_eq

/-- New nodes leave the edges as they are. -/
theorem Holds.addNode (holds : draft.Holds nodes calls) (node : CallNode) :
    Holds ⟨draft.graph.addNode node, draft.seen⟩ (nodes ++ [node]) calls where
  nodes_eq := by rw [← holds.nodes_eq, Digraph.addNode, Array.toList_push]
  edges_eq := by
    refine holds.edges_eq.trans (List.map_congr_left fun call member => ?_)
    obtain ⟨source, target⟩ := holds.known call (List.mem_eraseDups.mp member)
    rw [number, number, List.findIdx_append, List.findIdx_append, if_pos (name_findIdx source).1,
      if_pos (name_findIdx target).1]
  seen_iff := holds.seen_iff
  known call member := by
    obtain ⟨source, target⟩ := holds.known call member
    rw [List.map_append]
    exact ⟨List.mem_append_left _ source, List.mem_append_left _ target⟩

/-- A callee is entered unless it is there, and its number is its place among the nodes. -/
theorem Holds.intern (holds : draft.Holds nodes calls) (program : Program) (callee : String) :
    ∃ after : Draft, after.Holds (enter program nodes callee) calls ∧
      Draft.intern draft ⟨callee, program.defines callee⟩ =
        (after, (enter program nodes callee).findIdx (·.name == callee)) := by
  by_cases known : callee ∈ nodes.map (·.name)
  · rw [enter, if_pos known]
    exact ⟨draft, holds, holds.intern_eq known⟩
  · rw [enter, if_neg known]
    refine ⟨_, holds.addNode _, ?_⟩
    rw [holds.intern_eq_of_notMem _ known]
    have none : ¬ nodes.findIdx (·.name == callee) < nodes.length := by
      intro inside
      refine known (List.mem_map.mpr ⟨_, List.getElem_mem inside, ?_⟩)
      simpa using List.findIdx_getElem (w := inside)
    rw [List.findIdx_append, if_neg none]
    simp

/-- Linking a caller to a function enters the function and adds the edge unless it is there. -/
theorem Holds.link (holds : draft.Holds nodes calls) (program : Program) {caller : String}
    (known : caller ∈ nodes.map (·.name)) (kind : CallKind) (target : String) :
    ∃ after : Draft,
      after.Holds (enter program nodes target) (calls ++ [(caller, target, kind)]) ∧
      Draft.link program (nodes.findIdx (·.name == caller)) kind draft target = .ok after := by
  obtain ⟨entered, holds, interned⟩ := holds.intern program target
  have source := mem_names_enter program known target
  have goal := mem_names_enter_self program nodes target
  have stays := findIdx_enter program known target
  rw [Draft.link, interned, ← stays]
  generalize enter program nodes target = grown at holds source goal
  have numbered : number grown (caller, target, kind) ∈ entered.graph.edges.toList ↔
      (caller, target, kind) ∈ calls := by
    rw [holds.edges_eq, List.mem_map]
    constructor
    · rintro ⟨call, member, same⟩
      have inside := List.mem_eraseDups.mp member
      obtain ⟨first, second⟩ := holds.known call inside
      rwa [← number_injective first second source goal same]
    · exact fun member => ⟨_, List.mem_eraseDups.mpr member, rfl⟩
  have known : ∀ call ∈ calls ++ [(caller, target, kind)],
      call.1 ∈ grown.map (·.name) ∧ call.2.1 ∈ grown.map (·.name) :=
    List.forall_mem_append.mpr ⟨holds.known, List.forall_mem_singleton.mpr ⟨source, goal⟩⟩
  have seen : (grown.findIdx (·.name == caller), grown.findIdx (·.name == target), kind) ∈
      entered.seen ↔ (caller, target, kind) ∈ calls :=
    (holds.seen_iff _ _ kind).trans numbered
  dsimp only
  by_cases member : (caller, target, kind) ∈ calls
  · rw [if_pos (seen.mpr member)]
    exact ⟨entered, ⟨holds.nodes_eq, by rw [eraseDups_concat, if_pos member, holds.edges_eq],
      holds.seen_iff, known⟩, rfl⟩
  · rw [if_neg fun listed => member (seen.mp listed),
      entered.graph.addEdge?_eq_ok holds.size_eq ⟨_, (name_findIdx source).1⟩
        ⟨_, (name_findIdx goal).1⟩]
    refine ⟨_, ?held, rfl⟩
    refine ⟨holds.nodes_eq, ?edges_eq, ?seen_iff, known⟩
    case edges_eq =>
      rw [eraseDups_concat, if_neg member, List.map_append, ← holds.edges_eq]
      exact Array.toList_push
    case seen_iff =>
      intro first second other
      change _ ↔ _ ∈ (entered.graph.edges.push _).toList
      rw [Array.toList_push, List.mem_append, ← holds.seen_iff, List.mem_cons, List.mem_singleton,
        or_comm]
      simp

theorem Holds.foldlM_link (holds : draft.Holds nodes calls) (program : Program) {caller : String}
    (known : caller ∈ nodes.map (·.name)) (kind : CallKind) (targets : List String) :
    ∃ after : Draft, after.Holds (targets.foldl (enter program) nodes)
        (calls ++ targets.map fun target => (caller, target, kind)) ∧
      targets.foldlM (Draft.link program (nodes.findIdx (·.name == caller)) kind) draft =
        .ok after := by
  induction targets generalizing draft nodes calls with
  | nil => exact ⟨draft, by simpa using holds, rfl⟩
  | cons target rest ih =>
    obtain ⟨next, holds, linked⟩ := holds.link program known kind target
    obtain ⟨after, ends, runs⟩ := ih holds (mem_names_enter program known target)
    rw [findIdx_enter program known target] at runs
    refine ⟨after, by simpa using ends, ?_⟩
    rw [List.foldlM_cons, linked]
    exact runs

theorem known_foldl_enter (program : Program) {name : String} (known : name ∈ nodes.map (·.name))
    (callees : List String) : name ∈ (callees.foldl (enter program) nodes).map (·.name) ∧
      (callees.foldl (enter program) nodes).findIdx (·.name == name) =
        nodes.findIdx (·.name == name) := by
  induction callees generalizing nodes with
  | nil => exact ⟨known, rfl⟩
  | cons callee rest ih =>
    rw [List.foldl_cons, ← findIdx_enter program known callee]
    exact ih (mem_names_enter program known callee)

/-- Looking at an instruction that misses nothing links its caller to all that it may call. -/
theorem Holds.note (holds : draft.Holds nodes calls) (program : Program) (pointsTo : PointsTo)
    {function : Function}
    (known : function.name ∈ nodes.map (·.name)) (numbered : Instruction × Nat)
    (sound : ∀ fault, ¬ numbered.1.Misses function.name fault) :
    ∃ after : Draft,
      after.Holds
        (((Instruction.callSite? pointsTo function.name numbered).toList.flatMap
          (·.targets)).foldl (enter program) nodes)
        (calls ++ linksOf function.name
          (Instruction.callSite? pointsTo function.name numbered).toList) ∧
      Draft.note program pointsTo function (nodes.findIdx (·.name == function.name)) draft
        numbered = .ok after := by
  cases outcome : siteOf? pointsTo function.name numbered.2 numbered.1 with
  | error fault =>
    exact absurd ((siteOf?_eq_error_iff pointsTo numbered.2).mp outcome) (sound fault)
  | ok site? =>
    rw [← show site? = Instruction.callSite? pointsTo function.name numbered from
      site_eq_of_siteOf? outcome, Draft.note, outcome]
    cases site? with
    | none => exact ⟨draft, by simpa [linksOf] using holds, rfl⟩
    | some site =>
      obtain ⟨after, ends, runs⟩ := holds.foldlM_link program known site.kind site.targets
      refine ⟨after, by simpa [linksOf] using ends, ?_⟩
      change Except.mapError Error.graph _ = _
      rw [runs]
      rfl

/-- Looking at instructions one by one links their caller to all that they may call. -/
theorem Holds.foldlM_note (holds : draft.Holds nodes calls) (program : Program)
    (pointsTo : PointsTo) {function : Function} (known : function.name ∈ nodes.map (·.name))
    (numbered : List (Instruction × Nat))
    (sound : ∀ entry ∈ numbered, ∀ fault, ¬ entry.1.Misses function.name fault) :
    ∃ after : Draft,
      after.Holds
        (((numbered.filterMap (Instruction.callSite? pointsTo function.name)).flatMap
          (·.targets)).foldl (enter program) nodes)
        (calls ++ linksOf function.name
          (numbered.filterMap (Instruction.callSite? pointsTo function.name))) ∧
      numbered.foldlM (Draft.note program pointsTo function
        (nodes.findIdx (·.name == function.name))) draft = .ok after := by
  induction numbered generalizing draft nodes calls with
  | nil => exact ⟨draft, by simpa [linksOf] using holds, rfl⟩
  | cons entry rest ih =>
    obtain ⟨here, later⟩ := List.forall_mem_cons.mp sound
    obtain ⟨next, holds, notes⟩ := holds.note program pointsTo known entry here
    have entered := known_foldl_enter program known
      ((Instruction.callSite? pointsTo function.name entry).toList.flatMap (·.targets))
    obtain ⟨after, ends, runs⟩ := ih holds entered.1 later
    have split : (entry :: rest).filterMap (Instruction.callSite? pointsTo function.name) =
        (Instruction.callSite? pointsTo function.name entry).toList ++
          rest.filterMap (Instruction.callSite? pointsTo function.name) := by
      rw [List.filterMap_cons]
      cases Instruction.callSite? pointsTo function.name entry <;> rfl
    rw [entered.2] at runs
    refine ⟨after, ?_, by rw [List.foldlM_cons, notes]; exact runs⟩
    rw [split, List.flatMap_append, List.foldl_append, linksOf_append, ← List.append_assoc]
    exact ends

/-- Surveying functions links them to all that they may call. -/
theorem Holds.foldlM_survey (holds : draft.Holds nodes calls) (program : Program)
    (pointsTo : PointsTo) (functions : List Function)
    (known : ∀ function ∈ functions, function.name ∈ nodes.map (·.name))
    (sound : ∀ function ∈ functions, ∀ instruction ∈ function.instructions, ∀ fault,
      ¬ instruction.Misses function.name fault) :
    ∃ after : Draft,
      after.Holds ((functions.flatMap (Function.callTargets pointsTo)).foldl (enter program) nodes)
        (calls ++ functions.flatMap fun function =>
          linksOf function.name (function.callSites pointsTo)) ∧
      functions.foldlM (Draft.survey program pointsTo) draft = .ok after := by
  induction functions generalizing draft nodes calls with
  | nil => exact ⟨draft, by simpa using holds, rfl⟩
  | cons function rest ih =>
    obtain ⟨here, later⟩ := List.forall_mem_cons.mp known
    obtain ⟨soundHere, soundLater⟩ := List.forall_mem_cons.mp sound
    obtain ⟨next, notes, runs⟩ := holds.foldlM_note program pointsTo here
      function.instructions.zipIdx
      fun entry member => soundHere entry.1 (List.fst_mem_of_mem_zipIdx member)
    have surveys : Draft.survey program pointsTo draft function = .ok next := by
      rw [Draft.survey, holds.intern_eq here]
      exact runs
    obtain ⟨after, ends, others⟩ := ih notes
      (fun other member => (known_foldl_enter program (later other member) _).1) soundLater
    refine ⟨after, ?_, by rw [List.foldlM_cons, surveys]; exact others⟩
    rw [List.flatMap_cons, List.flatMap_cons, List.foldl_append, ← List.append_assoc]
    exact ends

/-- Entering functions with different names gives each of them a node. -/
theorem holds_foldl_intern (functions : List Function)
    (distinct : (functions.map (·.name)).Nodup) :
    Holds (functions.foldl (fun draft function => (draft.intern ⟨function.name, true⟩).1)
      ⟨.empty, []⟩) (functions.map fun function => ⟨function.name, true⟩) [] := by
  have onward : ∀ (todo before : List Function) (draft : Draft), functions = before ++ todo →
      draft.Holds (before.map fun function => ⟨function.name, true⟩) [] →
        Holds (todo.foldl (fun draft function => (draft.intern ⟨function.name, true⟩).1) draft)
          (functions.map fun function => ⟨function.name, true⟩) [] := by
    intro todo
    induction todo with
    | nil =>
      intro before draft cut holds
      rw [cut, List.append_nil]
      exact holds
    | cons function rest ih =>
      intro before draft cut holds
      have fresh : function.name ∉
          (before.map fun function => (⟨function.name, true⟩ : CallNode)).map (·.name) := by
        rw [cut, List.map_append, List.nodup_append] at distinct
        rw [List.map_map]
        intro member
        exact distinct.2.2 _ member _ List.mem_cons_self rfl
      rw [List.foldl_cons, holds.intern_eq_of_notMem ⟨function.name, true⟩ fresh]
      refine ih (before ++ [function]) _ (by simp [cut]) ?_
      rw [List.map_append]
      exact holds.addNode _
  exact onward functions [] _ rfl holds_blank

end Draft

/-- Making a call graph in one go makes the same graph: no edge is refused, and where all calls are
complete none of them is left out. -/
theorem draft?_eq_ok (distinct : (program.functions.map (·.name)).Nodup) {made : CallGraph}
    (yields : Attempt.Yields (ofProgram program pointsTo) made) :
    ∃ seen, draft? program pointsTo = .ok ⟨made.graph, seen⟩ := by
  obtain ⟨sound, nodes, rfl, enters⟩ := tells_ofProgram yields.tells
  obtain ⟨after, holds, runs⟩ :=
    (Draft.holds_foldl_intern program.functions distinct).foldlM_survey program pointsTo
      program.functions (fun _ member => List.mem_map_of_mem (List.mem_map_of_mem member)) sound
  rw [← enters.grown_eq, List.nil_append] at holds
  refine ⟨after.seen, runs.trans (congrArg Except.ok ?_)⟩
  have known := fun caller callee kind => @mem_nodes_of_links program pointsTo nodes _ enters
    caller callee kind
  have same : after.graph = (ofSites pointsTo.strategy nodes (program.functions.map fun function =>
      (function.name, function.callSites pointsTo))).graph := by
    refine Digraph.eq_of_nodes_of_edges (Array.toList_inj.mp ?_) (Array.toList_inj.mp ?_)
    · exact holds.nodes_eq.trans (Digraph.nodes_ofEdges nodes _).symm
    · refine Eq.trans ?_ (Digraph.edges_ofEdges nodes _).symm
      refine Eq.trans ?_ (map_number_links known)
      rw [holds.edges_eq, links, List.flatMap_map]
      rfl
  rw [← same]

end CallGraph

end ProgramGraphs
