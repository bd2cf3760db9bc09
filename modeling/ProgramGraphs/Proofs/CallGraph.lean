import Mathlib.Data.List.Nodup
import ProgramGraphs.CallGraph
import ProgramGraphs.Proofs.Graph.Building
import ProgramGraphs.Proofs.Graph.Component
import ProgramGraphs.Proofs.Journal
import ProgramGraphs.Proofs.Keyed

/-! # What call graphs say

The survey of a program visits its functions and their instructions in order. What it has noted so
far is right for the instructions that it has visited (`Noted`), and the nodes so far have names of
their own (`NodesOf`). So the graph has a node for each function and each call target, and an edge
for each call; its components are listed with callees before callers (`BottomUp`).
-/

namespace ProgramGraphs

theorem Logged.result_foldlM {α σ : Type} (step : σ → α → Logged σ) (items : List α) (start : σ) :
    (items.foldlM step start).result =
      items.foldl (fun state item => (step state item).result) start := by
  induction items generalizing start with
  | nil => rfl
  | cons item rest ih => exact ih (step start item).result

namespace CallGraph

variable {program : Program} {pointsTo : PointsTo}

/-- Nodes with names of their own that know whether there is a body for them. -/
structure NodesOf (program : Program) (nodes : List CallNode) : Prop where
  distinct : (nodes.map (·.name)).Nodup
  defined_eq : ∀ node ∈ nodes, node.defined = program.defines node.name

/-- Nodes that others have been added to. -/
structure Grown (program : Program) (nodes grown : List CallNode) : Prop where
  nodesOf : NodesOf program nodes → NodesOf program grown
  names : ∀ name ∈ nodes.map (·.name), name ∈ grown.map (·.name)

theorem Grown.refl (nodes : List CallNode) : Grown program nodes nodes :=
  ⟨id, fun _ member => member⟩

theorem Grown.trans {first second third : List CallNode} (one : Grown program first second)
    (other : Grown program second third) : Grown program first third :=
  ⟨fun nodes => other.nodesOf (one.nodesOf nodes),
    fun name member => other.names name (one.names name member)⟩

theorem result_register (program : Program) (caller : String) (nodes : List CallNode)
    (callee : String) : (register program caller nodes callee).result =
      if callee ∈ nodes.map (·.name) then nodes
      else nodes ++ [⟨callee, program.defines callee⟩] := by
  have known : nodes.any (·.name == callee) = true ↔ callee ∈ nodes.map (·.name) := by simp
  unfold register
  rw [if_congr known rfl rfl]
  split
  · rfl
  · dsimp only
    split <;> rfl

/-- A function that is registered is among the nodes. -/
theorem register_grown (program : Program) (caller : String) (nodes : List CallNode)
    (callee : String) : Grown program nodes (register program caller nodes callee).result ∧
      callee ∈ (register program caller nodes callee).result.map (·.name) := by
  rw [result_register]
  split
  · next member => exact ⟨.refl nodes, member⟩
  · next absent =>
    refine ⟨⟨fun nodesOf => ⟨?_, ?_⟩, fun name member => ?_⟩, by simp⟩
    · rw [List.map_append, List.nodup_append]
      refine ⟨nodesOf.distinct, List.nodup_singleton _, ?_⟩
      rintro name member other added rfl
      rw [List.mem_singleton.mp added] at member
      exact absent member
    · intro node member
      rcases List.mem_append.mp member with member | added
      · exact nodesOf.defined_eq node member
      · rw [List.mem_singleton.mp added]
    · rw [List.map_append]
      exact List.mem_append_left _ member

theorem foldl_register_grown (program : Program) (caller : String) (callees : List String)
    (nodes : List CallNode) :
    Grown program nodes (callees.foldlM (register program caller) nodes).result ∧
      ∀ callee ∈ callees,
        callee ∈ (callees.foldlM (register program caller) nodes).result.map (·.name) := by
  rw [Logged.result_foldlM]
  induction callees generalizing nodes with
  | nil => exact ⟨.refl nodes, fun _ member => absurd member List.not_mem_nil⟩
  | cons callee rest ih =>
    obtain ⟨grown, added⟩ := register_grown program caller nodes callee
    obtain ⟨later, others⟩ := ih (register program caller nodes callee).result
    refine ⟨grown.trans later, fun other member => ?_⟩
    rcases List.mem_cons.mp member with rfl | member
    · exact later.names other added
    · exact others other member

/-- What is noted of an instruction: its call and the functions that it may reach. -/
theorem note_yields {function : Function} {found next : List CallNode × List CallSite}
    {numbered : Instruction × Nat}
    (yields : Attempt.Yields (note program pointsTo function found numbered) next) :
    ∃ site?, siteOf? pointsTo function.name numbered.2 numbered.1 = .ok site? ∧
      next.2 = found.2 ++ site?.toList ∧ Grown program found.1 next.1 ∧
        ∀ site ∈ site?.toList, ∀ target ∈ site.targets, target ∈ next.1.map (·.name) := by
  unfold note at yields
  split at yields
  · simp at yields
  · next outcome =>
    obtain rfl := Attempt.yields_pure_iff.mp yields
    exact ⟨none, outcome, by simp, .refl _, by simp⟩
  · next site outcome =>
    rw [Attempt.yields_bind_iff] at yields
    obtain ⟨nodes, registers, yields⟩ := yields
    rw [Attempt.yields_lift_iff] at registers
    have result : (nodes, found.2 ++ [site]) = next := by
      split at yields
      · rw [Attempt.yields_bind_iff] at yields
        obtain ⟨_, _, yields⟩ := yields
        exact Attempt.yields_pure_iff.mp yields
      · exact Attempt.yields_pure_iff.mp yields
    obtain ⟨grown, targets⟩ := foldl_register_grown program function.name site.targets found.1
    rw [registers] at grown targets
    subst result
    exact ⟨some site, outcome, rfl, grown, by simpa using targets⟩

theorem index_of_siteOf? {caller : String} {index : Nat} {instruction : Instruction}
    {site : CallSite} (outcome : siteOf? pointsTo caller index instruction = .ok (some site)) :
    site.index = index := by
  unfold siteOf? at outcome
  split at outcome
  · split at outcome <;> cases outcome
    rfl
  · split at outcome <;> cases outcome
    rfl
  · cases outcome

/-- The call sites found for the first instructions of a function. -/
structure Noted (pointsTo : PointsTo) (caller : String) (visited : List (Instruction × Nat))
    (sites : List CallSite) : Prop where
  found : ∀ instruction index, (instruction, index) ∈ visited →
    siteOf? pointsTo caller index instruction = .ok (sites.find? (·.index == index))
  earlier : ∀ site ∈ sites, site.index < visited.length

theorem Noted.step {caller : String} {visited : List (Instruction × Nat)} {sites : List CallSite}
    (noted : Noted pointsTo caller visited sites) {instruction : Instruction}
    {site? : Option CallSite}
    (outcome : siteOf? pointsTo caller visited.length instruction = .ok site?)
    (numbered : ∀ entry ∈ visited, entry.2 < visited.length) :
    Noted pointsTo caller (visited ++ [(instruction, visited.length)]) (sites ++ site?.toList) := by
  have ofSite : ∀ site ∈ site?.toList, site.index = visited.length := by
    rintro site member
    cases site? with
    | none => cases member
    | some held =>
      rw [Option.toList_some, List.mem_singleton] at member
      rw [member]
      exact index_of_siteOf? outcome
  refine ⟨fun other index member => ?_, fun site member => ?_⟩
  · rw [List.find?_append]
    rcases List.mem_append.mp member with member | member
    · have missed : site?.toList.find? (·.index == index) = none := by
        rw [List.find?_eq_none]
        intro site inside same
        have before := numbered (other, index) member
        rw [beq_iff_eq, ofSite site inside] at same
        omega
      rw [missed, Option.or_none]
      exact noted.found other index member
    · cases List.mem_singleton.mp member
      have missed : sites.find? (·.index == visited.length) = none := by
        rw [List.find?_eq_none]
        intro site inside same
        have before := noted.earlier site inside
        rw [beq_iff_eq] at same
        omega
      rw [missed, Option.none_or, outcome]
      cases site? with
      | none => rfl
      | some site => simp [ofSite site (by simp)]
  · rw [List.length_append, List.length_singleton]
    rcases List.mem_append.mp member with member | member
    · have := noted.earlier site member
      omega
    · rw [ofSite site member]
      exact Nat.lt_succ_self _

theorem length_of_zipIdx {function : Function} {before after : List (Instruction × Nat)}
    {entry : Instruction × Nat} (cut : function.instructions.zipIdx = before ++ entry :: after) :
    entry.2 = before.length ∧ ∀ other ∈ before, other.2 < before.length := by
  have position : ∀ index (numbered : Instruction × Nat),
      function.instructions.zipIdx[index]? = some numbered → numbered.2 = index := by
    intro index numbered listed
    rw [List.getElem?_zipIdx, Option.map_eq_some_iff] at listed
    obtain ⟨_, _, rfl⟩ := listed
    exact Nat.zero_add index
  rw [cut] at position
  refine ⟨position before.length entry (by simp), fun other member => ?_⟩
  obtain ⟨index, inside, rfl⟩ := List.getElem_of_mem member
  rw [position index before[index] (by rw [List.getElem?_append_left inside]; simp)]
  exact inside

/-- The calls of a function have been noted, and the functions that they may reach are nodes. -/
structure Surveyed (pointsTo : PointsTo) (function : Function) (nodes : List CallNode)
    (sites : List CallSite) : Prop where
  noted : Noted pointsTo function.name function.instructions.zipIdx sites
  registered : ∀ site ∈ sites, ∀ target ∈ site.targets, target ∈ nodes.map (·.name)

theorem Surveyed.grow {function : Function} {nodes grown : List CallNode} {sites : List CallSite}
    (surveyed : Surveyed pointsTo function nodes sites) (grows : Grown program nodes grown) :
    Surveyed pointsTo function grown sites :=
  ⟨surveyed.noted, fun site inside target member =>
    grows.names target (surveyed.registered site inside target member)⟩

theorem survey_yields {function : Function}
    {found next : List CallNode × List (String × List CallSite)}
    (yields : Attempt.Yields (survey program pointsTo found function) next) :
    ∃ sites, next.2 = found.2 ++ [(function.name, sites)] ∧ Grown program found.1 next.1 ∧
      Surveyed pointsTo function next.1 sites := by
  rw [survey, Attempt.yields_bind_iff] at yields
  obtain ⟨⟨nodes, sites⟩, folds, yields⟩ := yields
  obtain rfl := Attempt.yields_pure_iff.mp yields
  have kept := folds.foldlM (fun visited state => Grown program found.1 state.1 ∧
    Noted pointsTo function.name visited state.2 ∧
      ∀ site ∈ state.2, ∀ target ∈ site.targets, target ∈ state.1.map (·.name))
    ⟨.refl _, ⟨by simp, by simp⟩, by simp⟩ (by
      rintro before ⟨instruction, index⟩ after state next cut ⟨grown, noted, registered⟩ notes
      obtain ⟨rfl, earlier⟩ := length_of_zipIdx cut
      obtain ⟨site?, outcome, sites, grows, targets⟩ := note_yields notes
      refine ⟨grown.trans grows, sites ▸ noted.step outcome earlier, fun site member => ?_⟩
      rw [sites] at member
      rcases List.mem_append.mp member with member | added
      · exact fun target inside => grows.names target (registered site member target inside)
      · exact targets site added)
  obtain ⟨grown, noted, registered⟩ := kept
  exact ⟨sites, rfl, grown, noted, registered⟩

/-- A call graph describes the calls of a program. -/
structure Describes (calls : CallGraph) (program : Program) (pointsTo : PointsTo) : Prop where
  names_distinct : ∀ a b, (calls.graph.payload a).name = (calls.graph.payload b).name → a = b
  defined_eq : ∀ node,
    (calls.graph.payload node).defined = program.defines (calls.graph.payload node).name
  has_node : ∀ function ∈ program.functions,
    ∃ node, (calls.graph.payload node).name = function.name
  site_eq : ∀ function ∈ program.functions, ∀ index instruction,
    function.instructions[index]? = some instruction →
      siteOf? pointsTo function.name index instruction =
        .ok (calls.siteAt? function.name index)
  joins : ∀ function ∈ program.functions, ∀ site ∈ calls.sitesOf function.name,
    ∀ target ∈ site.targets, ∃ a b, (calls.graph.payload a).name = function.name ∧
      (calls.graph.payload b).name = target ∧ calls.graph.Joins false a b

/-- The nodes and sites from which the call graph of a program is made. -/
theorem ofProgram_yields {calls : CallGraph}
    (yields : Attempt.Yields (ofProgram program pointsTo) calls) :
    ∃ nodes sites, calls = ofSites pointsTo.strategy nodes sites ∧
      Grown program (program.functions.map fun function => ⟨function.name, true⟩) nodes ∧
        sites.map Prod.fst = program.functions.map (·.name) ∧
          ∀ function ∈ program.functions, ∃ found, (function.name, found) ∈ sites ∧
            Surveyed pointsTo function nodes found := by
  rw [ofProgram, Attempt.yields_bind_iff] at yields
  obtain ⟨⟨nodes, sites⟩, folds, yields⟩ := yields
  obtain rfl := Attempt.yields_pure_iff.mp yields
  have kept := folds.foldlM (fun before state =>
    Grown program (program.functions.map fun function => ⟨function.name, true⟩) state.1 ∧
      state.2.map Prod.fst = before.map (·.name) ∧
        ∀ function ∈ before, ∃ found, (function.name, found) ∈ state.2 ∧
          Surveyed pointsTo function state.1 found)
    ⟨.refl _, rfl, by simp⟩ (by
      rintro before function after state next _ ⟨grown, names, surveyed⟩ surveys
      obtain ⟨found, added, grows, here⟩ := survey_yields surveys
      refine ⟨grown.trans grows, by simp [added, names], fun other member => ?_⟩
      rw [added]
      rcases List.mem_append.mp member with member | last
      · obtain ⟨held, inside, known⟩ := surveyed other member
        exact ⟨held, List.mem_append_left _ inside, known.grow grows⟩
      · cases List.mem_singleton.mp last
        exact ⟨found, by simp, here⟩)
  exact ⟨nodes, sites, rfl, kept⟩

theorem defines_of_mem {function : Function} (member : function ∈ program.functions) :
    program.defines function.name = true := by
  rw [Program.defines, Program.function?, List.find?_isSome]
  exact ⟨function, member, beq_self_eq_true _⟩

theorem nodesOf_functions (distinct : (program.functions.map (·.name)).Nodup) :
    NodesOf program (program.functions.map fun function => ⟨function.name, true⟩) := by
  refine ⟨?_, fun node member => ?_⟩
  · rw [List.map_map]
    exact distinct
  · obtain ⟨function, inside, rfl⟩ := List.mem_map.mp member
    exact (defines_of_mem inside).symm

/-- The edges of a call graph by the positions of their ends among the nodes. -/
def edgesOf (nodes : List CallNode) (sites : List (String × List CallSite)) :
    List (Fin nodes.length × Fin nodes.length × CallKind) :=
  (links sites).filterMap fun (caller, callee, kind) => do
    let source ← nodes.findFinIdx? (·.name == caller)
    let target ← nodes.findFinIdx? (·.name == callee)
    pure (source, target, kind)

theorem exists_position {nodes : List CallNode} {name : String}
    (member : name ∈ nodes.map (·.name)) :
    ∃ position, nodes.findFinIdx? (·.name == name) = some position ∧
      nodes[position].name = name := by
  cases found : nodes.findFinIdx? (·.name == name) with
  | none =>
    obtain ⟨node, inside, rfl⟩ := List.mem_map.mp member
    have missed := List.findFinIdx?_eq_none_iff.mp found node inside
    simp at missed
  | some position =>
    have passes := (List.findFinIdx?_eq_some_iff.mp found).1
    exact ⟨position, rfl, by simpa using passes⟩

theorem mem_links_iff (sites : List (String × List CallSite)) (caller callee : String)
    (kind : CallKind) : (caller, callee, kind) ∈ links sites ↔
      ∃ found, (caller, found) ∈ sites ∧ ∃ site ∈ found, callee ∈ site.targets ∧
        site.kind = kind := by
  simp only [links, List.mem_eraseDups, List.mem_flatMap, List.mem_map, Prod.mk.injEq]
  constructor
  · rintro ⟨⟨_, found⟩, inside, site, listed, target, member, rfl, rfl, rfl⟩
    exact ⟨found, inside, site, listed, member, rfl⟩
  · rintro ⟨found, inside, site, listed, member, rfl⟩
    exact ⟨(caller, found), inside, site, listed, callee, member, rfl, rfl, rfl⟩

/-- The call graph of a program whose functions have distinct names describes its calls. -/
theorem describes_ofProgram {calls : CallGraph} (distinct : (program.functions.map (·.name)).Nodup)
    (yields : Attempt.Yields (ofProgram program pointsTo) calls) :
    calls.Describes program pointsTo := by
  obtain ⟨nodes, sites, rfl, grown, names, surveyed⟩ := ofProgram_yields yields
  have nodesOf := grown.nodesOf (nodesOf_functions distinct)
  have payload : ∀ position, (ofSites pointsTo.strategy nodes sites).graph.payload
      (Digraph.nodeAt nodes (edgesOf nodes sites) position) = nodes[position] :=
    Digraph.payload_nodeAt nodes (edgesOf nodes sites)
  have sitesOf : ∀ caller found, (caller, found) ∈ sites →
      (ofSites pointsTo.strategy nodes sites).sitesOf caller = found := by
    intro caller found inside
    have distinctKeys : (sites.map Prod.fst).Nodup := names ▸ distinct
    have table := lookup_map_key_of_mem Prod.snd distinctKeys inside
    rw [List.map_id'' (fun _ => rfl)] at table
    rw [CallGraph.sitesOf]
    exact congrArg (·.getD []) table
  refine ⟨?names_distinct, ?defined_eq, ?has_node, ?site_eq, ?joins⟩
  case names_distinct =>
    intro a b same
    obtain ⟨first, rfl⟩ := Digraph.exists_nodeAt nodes (edgesOf nodes sites) a
    obtain ⟨second, rfl⟩ := Digraph.exists_nodeAt nodes (edgesOf nodes sites) b
    rw [payload, payload] at same
    have nodesEq : nodes[first.val] = nodes[second.val] :=
      List.inj_on_of_nodup_map nodesOf.distinct (List.getElem_mem _) (List.getElem_mem _) same
    have positions : first = second :=
      Fin.ext ((List.Nodup.of_map _ nodesOf.distinct).getElem_inj_iff.mp nodesEq)
    exact congrArg (Digraph.nodeAt nodes (edgesOf nodes sites)) positions
  case defined_eq =>
    intro node
    obtain ⟨position, rfl⟩ := Digraph.exists_nodeAt nodes (edgesOf nodes sites) node
    rw [payload]
    exact nodesOf.defined_eq _ (List.getElem_mem _)
  case has_node =>
    intro function member
    have listed := grown.names function.name (by simpa using ⟨function, member, rfl⟩)
    obtain ⟨position, _, same⟩ := exists_position listed
    exact ⟨Digraph.nodeAt nodes (edgesOf nodes sites) position, by rw [payload, same]⟩
  case site_eq =>
    intro function member index instruction listed
    obtain ⟨found, inside, surveyed⟩ := surveyed function member
    rw [siteAt?, sitesOf _ _ inside]
    refine surveyed.noted.found instruction index ?_
    exact List.mem_zipIdx_iff_getElem?.mpr listed
  case joins =>
    intro function member site inside target reached
    obtain ⟨found, listed, surveyed⟩ := surveyed function member
    rw [sitesOf _ _ listed] at inside
    have caller := grown.names function.name (by simpa using ⟨function, member, rfl⟩)
    obtain ⟨a, foundA, sameA⟩ := exists_position caller
    obtain ⟨b, foundB, sameB⟩ := exists_position (surveyed.registered site inside target reached)
    have edge : (a, b, site.kind) ∈ edgesOf nodes sites := by
      refine List.mem_filterMap.mpr ⟨(function.name, target, site.kind), ?_, ?_⟩
      · exact (mem_links_iff sites _ _ _).mpr ⟨found, listed, site, inside, reached, rfl⟩
      · simp [foundA, foundB]
    exact ⟨Digraph.nodeAt nodes (edgesOf nodes sites) a,
      Digraph.nodeAt nodes (edgesOf nodes sites) b, by rw [payload, sameA], by rw [payload, sameB],
      Digraph.joins_ofEdges nodes (edgesOf nodes sites) edge⟩

/-- The names of the functions are listed by components, callees before callers. -/
structure BottomUp (calls : CallGraph) (program : Program) : Prop where
  covers : ∀ function ∈ program.functions, function.name ∈ calls.bottomUp.flatten
  distinct : calls.bottomUp.flatten.Nodup
  isExternal_eq : ∀ name ∈ calls.bottomUp.flatten, calls.isExternal name = !program.defines name
  callees_first : ∀ before component after, calls.bottomUp = before ++ component :: after →
    ∀ function ∈ program.functions, function.name ∈ component →
      ∀ site ∈ calls.sitesOf function.name, ∀ target ∈ site.targets,
        target ∈ before.flatten ∨ target ∈ component

variable {calls : CallGraph}

theorem flatten_bottomUp (calls : CallGraph) : calls.bottomUp.flatten =
    calls.graph.adjacency.components.flatten.map fun node => (calls.graph.payload node).name := by
  rw [bottomUp, List.map_flatten]

theorem exists_node? {name : String} {node : Fin calls.graph.size}
    (named : (calls.graph.payload node).name = name) :
    ∃ found, calls.node? name = some found ∧ (calls.graph.payload found).name = name := by
  cases found : calls.node? name with
  | none =>
    have missed := Array.findFinIdx?_eq_none_iff.mp found (calls.graph.payload node)
      (Array.getElem_mem _)
    simp [named] at missed
  | some other =>
    have passes := (Array.findFinIdx?_eq_some_iff.mp found).1
    exact ⟨other, rfl, eq_of_beq passes⟩

/-- The components of a call graph go from callees to callers. -/
theorem Describes.bottomUp (describes : calls.Describes program pointsTo) :
    calls.BottomUp program := by
  have condensation := calls.graph.adjacency.components_condensation
  refine ⟨?covers, ?distinct, ?isExternal_eq, ?callees_first⟩
  case covers =>
    intro function member
    obtain ⟨node, named⟩ := describes.has_node function member
    rw [flatten_bottomUp]
    exact List.mem_map.mpr ⟨node, condensation.mem_flatten node, named⟩
  case distinct =>
    rw [flatten_bottomUp]
    exact condensation.nodup_flatten.map fun a b => describes.names_distinct a b
  case isExternal_eq =>
    intro name member
    rw [flatten_bottomUp] at member
    obtain ⟨node, _, named⟩ := List.mem_map.mp member
    obtain ⟨found, finds, same⟩ := exists_node? named
    rw [isExternal, finds]
    dsimp only
    rw [describes.defined_eq, same]
  case callees_first =>
    intro before component after cut function member inside site listed target reached
    obtain ⟨earlier, rest, shape, rfl, tail⟩ := List.map_eq_append_iff.mp cut
    obtain ⟨nodes, later, rfl, rfl, rfl⟩ := List.map_eq_cons_iff.mp tail
    obtain ⟨caller, callerInside, callerNamed⟩ := List.mem_map.mp inside
    obtain ⟨a, b, aNamed, bNamed, joins⟩ :=
      describes.joins function member site listed target reached
    obtain rfl := describes.names_distinct a caller (aNamed.trans callerNamed.symm)
    rw [← calls.graph.adjacency_follows] at joins
    rcases condensation.mem_of_step shape callerInside joins with early | same
    · left
      rw [← List.map_flatten]
      exact List.mem_map.mpr ⟨b, early, bNamed⟩
    · exact .inr (List.mem_map.mpr ⟨b, same, bNamed⟩)

end CallGraph

end ProgramGraphs
