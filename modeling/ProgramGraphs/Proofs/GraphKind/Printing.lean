import ProgramGraphs.Proofs.Dot.Faithful
import ProgramGraphs.Proofs.GraphKind.Drawing
import ProgramGraphs.Proofs.Json.Normal

/-! # What is printed

Attributes are set one at a time, under keys that are identifiers, and the identifiers of nodes and
clusters are made of letters and digits. So whatever is drawn can be printed, and its text says what
the picture says, whatever texts the program has.
-/

namespace ProgramGraphs

open Dot (dropReturns dropReturns_eq_self)

namespace Attributes

/-- Attributes are put in order as the members of an object are. -/
theorem map_insertEntry (key value : String) (entries : List (String × String)) :
    (insertEntry key value entries).map (Prod.map id Json.Value.string) =
      Json.Value.insertMember key (.string value)
        (entries.map (Prod.map id Json.Value.string)) := by
  fun_induction insertEntry key value entries with
  | case1 => rfl
  | case2 held rest => simp [Json.Value.insertMember]
  | case3 other held rest distinct less => simp [Json.Value.insertMember, distinct, less]
  | case4 other held rest distinct notLess ih =>
    simp [Json.Value.insertMember, distinct, notLess, ih]

theorem mem_insertEntry {key value : String} {entries : List (String × String)}
    {entry : String × String} (member : entry ∈ insertEntry key value entries) :
    entry = (key, value) ∨ entry ∈ entries := by
  have inside : Prod.map id Json.Value.string entry ∈
      (insertEntry key value entries).map (Prod.map id Json.Value.string) :=
    List.mem_map_of_mem member
  rw [map_insertEntry] at inside
  refine (Json.Value.mem_insertMember inside).imp (fun same => ?_) fun listed => ?_
  · obtain ⟨keyEq, valueEq⟩ := Prod.mk.inj same
    exact Prod.ext keyEq (Json.Value.string.inj valueEq)
  · obtain ⟨old, listed, same⟩ := List.mem_map.mp listed
    obtain ⟨keyEq, valueEq⟩ := Prod.mk.inj same
    exact Prod.ext keyEq (Json.Value.string.inj valueEq) ▸ listed

variable {reserved : List String} {attributes : Attributes}

theorem Keyed.empty : ({} : Attributes).Keyed reserved :=
  ⟨.nil, List.forall_mem_nil _, List.forall_mem_nil _⟩

/-- One more attribute is as good as the others. -/
theorem Keyed.set (keyed : attributes.Keyed reserved) {key : String}
    (plain : Dot.isKey key = true) (free : key ∉ reserved) (value : String) :
    (attributes.set key value).Keyed reserved where
  ascending := by
    have members : Json.Value.Ascending
        (attributes.entries.map (Prod.map id Json.Value.string)) :=
      List.pairwise_map.mpr keyed.ascending
    have inserted := members.insertMember key (.string value)
    rw [← map_insertEntry, Json.Value.Ascending, List.pairwise_map] at inserted
    exact inserted
  plain entry member := by
    rcases mem_insertEntry member with rfl | listed
    · exact plain
    · exact keyed.plain entry listed
  free entry member := by
    rcases mem_insertEntry member with rfl | listed
    · exact free
    · exact keyed.free entry listed

theorem Keyed.fill (keyed : attributes.Keyed ["label"]) (color : String) :
    (attributes.fill color).Keyed ["label"] :=
  (keyed.set (by decide) (by decide) "filled").set (by decide) (by decide) color

theorem Keyed.shaped (shape : String) : (({} : Attributes).set "shape" shape).Keyed ["label"] :=
  Keyed.empty.set (by decide) (by decide) shape

theorem Keyed.styled (style : String) : (({} : Attributes).set "style" style).Keyed ["label"] :=
  Keyed.empty.set (by decide) (by decide) style

theorem Keyed.colored (keyed : attributes.Keyed ["label"]) (color : String) :
    (attributes.set "color" color).Keyed ["label"] :=
  keyed.set (by decide) (by decide) color

end Attributes

open Attributes (Keyed)

@[simp]
theorem return_notMem_toDigits (number : Nat) : '\r' ∉ Nat.toDigits 10 number :=
  fun member => absurd (Nat.isDigit_of_mem_toDigits (by decide) (by decide) member) (by decide)

namespace Picture

theorem dropReturns_nodeId (position : Nat) : dropReturns (nodeId position) = nodeId position :=
  dropReturns_eq_self (by simp [nodeId, String.toList_append])

theorem keyed_titled (name : String) : (titled name).attributes.Keyed [] :=
  (Keyed.empty.set (by decide) (by decide) name).set (by decide) (by decide) "t"

end Picture

namespace EscapeReport

theorem dropReturns_clusterId (function : Nat) :
    dropReturns (clusterId function) = clusterId function :=
  dropReturns_eq_self (by simp [clusterId, String.toList_append])

theorem isCluster_clusterId (function : Nat) : Dot.isCluster (clusterId function) = true := by
  rw [Dot.isCluster, clusterId, String.toList_append, List.isPrefixOf_iff_prefix]
  exact ⟨'_' :: (toString function).toList, rfl⟩

theorem dropReturns_pointerId (function pointer : Nat) :
    dropReturns (pointerId function pointer) = pointerId function pointer :=
  dropReturns_eq_self (by simp [toList_pointerId])

theorem dropReturns_useId (function pointer use : Nat) :
    dropReturns (useId function pointer use) = useId function pointer use :=
  dropReturns_eq_self (by simp [toList_useId])

end EscapeReport

/-! ## Pictures that are drawn -/

open Picture (dropReturns_nodeId keyed_titled)

theorem ControlFlow.keyed_drawBlock (block : Block) (position : Nat) :
    (drawBlock block position).attributes.Keyed ["label"] := by
  have shaped := Keyed.shaped "box"
  unfold drawBlock
  dsimp only
  split_ifs
  · exact shaped.fill _
  · exact shaped.fill _
  · exact shaped

theorem ControlFlow.keyed_drawEdge (edge : Edge EdgeKind) :
    (drawEdge edge).attributes.Keyed ["label"] := by
  unfold drawEdge
  dsimp only
  split
  · exact Keyed.styled _
  · exact Keyed.empty

theorem ControlFlow.printable_draw (flow : ControlFlow) (label : String) :
    (flow.draw label).Printable where
  attributes := (keyed_titled _).set (by decide) (by decide) _
  nodes node member := by
    obtain ⟨position, inside, rfl⟩ := List.mem_mapIdx.mp member
    exact ⟨keyed_drawBlock _ position, dropReturns_nodeId position⟩
  edges edge member := by
    obtain ⟨drawn, -, rfl⟩ := List.mem_map.mp member
    exact keyed_drawEdge drawn
  clusters := List.forall_mem_nil _

theorem ControlDependence.printable_draw (dependence : ControlDependence) (label : String) :
    (dependence.draw label).Printable where
  attributes := keyed_titled _
  nodes node member := by
    obtain ⟨position, inside, rfl⟩ := List.mem_mapIdx.mp member
    refine ⟨?_, dropReturns_nodeId position⟩
    unfold drawBlock
    dsimp only
    split_ifs
    · exact Keyed.empty.fill _
    · exact Keyed.empty
  edges edge member := by
    obtain ⟨drawn, -, rfl⟩ := List.mem_map.mp member
    exact Keyed.empty
  clusters := List.forall_mem_nil _

theorem Dominance.printable_draw (dominance : Dominance) (label : String) :
    (dominance.draw label).Printable where
  attributes := keyed_titled _
  nodes node member := by
    obtain ⟨position, -, rfl⟩ := List.mem_map.mp member
    refine ⟨?_, dropReturns_nodeId position⟩
    unfold drawMember
    dsimp only
    split_ifs
    · exact Keyed.empty.fill _
    · exact Keyed.empty
  edges edge member := by
    obtain ⟨drawn, -, rfl⟩ := List.mem_map.mp member
    exact Keyed.empty
  clusters := List.forall_mem_nil _

namespace CallGraph

theorem keyed_drawFunction (function : CallNode) (position : Nat) :
    (drawFunction function position).attributes.Keyed ["label"] := by
  have shaped := Keyed.shaped "box"
  unfold drawFunction
  dsimp only
  split_ifs
  · exact shaped
  · exact shaped.fill _

theorem keyed_drawEdge (edge : Edge CallKind) : (drawEdge edge).attributes.Keyed ["label"] := by
  unfold drawEdge
  dsimp only
  split
  · exact Keyed.styled _
  · exact Keyed.empty

theorem printable_draw (calls : CallGraph) (label : String) : (calls.draw label).Printable where
  attributes := keyed_titled _
  nodes node member := by
    have drawn : node ∈ (calls.graph.nodes.toList.mapIdx fun position function =>
        drawFunction function position) ∨ node = unresolvedNode := by
      rw [draw] at member
      dsimp only at member
      split at member
      · exact .inl member
      · exact (List.mem_append.mp member).imp id List.mem_singleton.mp
    rcases drawn with listed | rfl
    · obtain ⟨position, inside, rfl⟩ := List.mem_mapIdx.mp listed
      exact ⟨keyed_drawFunction _ position, dropReturns_nodeId position⟩
    · exact ⟨(Keyed.shaped _).fill _, by decide⟩
  edges edge member := by
    rcases List.mem_append.mp member with member | member
    · obtain ⟨drawn, -, rfl⟩ := List.mem_map.mp member
      exact keyed_drawEdge drawn
    · obtain ⟨caller, -, found⟩ := List.mem_filterMap.mp member
      obtain ⟨position, -, rfl⟩ := Option.map_eq_some_iff.mp found
      exact (Keyed.styled _).colored _
  clusters := List.forall_mem_nil _

end CallGraph

namespace EscapeReport

theorem keyed_of_mem_functionNodes {escape : FunctionEscape} {function : Nat} {node : PictureNode}
    (member : node ∈ functionNodes escape function) : node.attributes.Keyed ["label"] := by
  obtain ⟨position, pointer, rfl⟩ | ⟨position, use, place, rfl⟩ := cases_of_mem_functionNodes member
  · exact (Keyed.shaped _).fill _
  · exact Keyed.shaped _

theorem keyed_of_mem_functionEdges {escape : FunctionEscape} {function : Nat} {edge : PictureEdge}
    (member : edge ∈ functionEdges escape function) : edge.attributes.Keyed ["label"] := by
  obtain ⟨position, inside, member⟩ := mem_flatten_mapIdx_iff.mp member
  obtain ⟨use, -, rfl⟩ := List.mem_mapIdx.mp member
  unfold drawUseEdge
  dsimp only
  split_ifs
  · exact Keyed.empty.colored _
  · exact Keyed.empty

theorem dropReturns_of_mem_functionNodes {escape : FunctionEscape} {function : Nat}
    {node : PictureNode} (member : node ∈ functionNodes escape function) :
    dropReturns node.id = node.id := by
  obtain ⟨position, pointer, rfl⟩ | ⟨position, use, place, rfl⟩ := cases_of_mem_functionNodes member
  · exact dropReturns_pointerId function position
  · exact dropReturns_useId function position place

theorem printable_draw (report : EscapeReport) (label : String) :
    (report.draw label).Printable where
  attributes := (keyed_titled _).set (by decide) (by decide) _
  nodes node member := by
    obtain ⟨position, inside, member⟩ := mem_flatten_mapIdx_iff.mp member
    exact ⟨keyed_of_mem_functionNodes member, dropReturns_of_mem_functionNodes member⟩
  edges edge member := by
    obtain ⟨position, inside, member⟩ := mem_flatten_mapIdx_iff.mp member
    exact keyed_of_mem_functionEdges member
  clusters cluster member := by
    obtain ⟨position, inside, rfl⟩ := List.mem_mapIdx.mp member
    exact ⟨isCluster_clusterId position, dropReturns_clusterId position⟩

end EscapeReport

namespace GraphKind

variable {kind : GraphKind}

/-- Whatever is drawn can be printed. -/
theorem printable_of_draw {label : String} {graph : AnalysisGraph} {picture : Picture}
    (draws : kind.draw label graph = .ok picture) : picture.Printable := by
  cases kind <;> cases graph <;> cases draws
  · exact ControlFlow.printable_draw _ label
  · exact ControlDependence.printable_draw _ label
  · exact CallGraph.printable_draw _ label
  · exact Dominance.printable_draw _ label
  · exact Dominance.printable_draw _ label
  · exact EscapeReport.printable_draw _ label

variable {module : Module} {options : AnalysisOptions}

theorem Makes.exists_coherent_draw (distinct : (module.program.functions.map (·.name)).Nodup)
    {graph : AnalysisGraph} (makes : kind.Makes module options graph) (label : String) :
    ∃ picture, kind.draw label graph = .ok picture ∧ picture.Coherent := by
  cases makes with
  | ofFlow flow makes =>
    obtain ⟨picture, draws, coherent, -⟩ := exists_draw_ofFlow makes flow label
    exact ⟨picture, draws, coherent⟩
  | cg same yields =>
    subst same
    exact ⟨_, rfl, CallGraph.coherent_draw distinct yields label⟩
  | escape report same =>
    subst same
    exact ⟨_, rfl, report.coherent_draw label⟩

/-- Whatever is built from a module is drawn as a picture whose text says what the picture says, but
for carriage returns: its name and attributes, every node once and in its cluster, every cluster and
every edge, in order. -/
theorem exists_read?_toDot {name : String} {program : Program} {passes : List Pass}
    (loads : Attempt.Yields (Module.ofProgram name program passes) module)
    {graphs : List NamedGraph} (builds : Attempt.Yields (kind.build module options) graphs)
    {named : NamedGraph} (member : named ∈ graphs) :
    ∃ picture, kind.draw named.label named.graph = .ok picture ∧
      Dot.read? picture.toDot = some (picture.mapTexts dropReturns).reading ∧
      (picture.mapTexts dropReturns).arranged.nodes.Perm (picture.mapTexts dropReturns).nodes := by
  have distinct := Module.distinct_of_ofProgram loads
  obtain ⟨picture, draws, coherent⟩ :=
    (makes_of_mem_build builds member).exists_coherent_draw distinct named.label
  have printable := printable_of_draw draws
  exact ⟨picture, draws, Picture.read?_toDot coherent printable,
    Picture.perm_arranged (coherent.mapTexts printable)⟩

/-- A function with a label that would end a string, and a line. -/
def breaksOut : Function where
  name := "main"
  body := [.label "\" -> \\\r\n", .instruction { name := "ret" }]

/-- A program of one function, with such a label. -/
def breaksOutOnly : Program where
  functions := [breaksOut]

/-- The label is read as it was, but for the carriage return. -/
theorem exists_read?_toDot_breaksOut : ∃ module graphs, ∃ named ∈ graphs, ∃ picture reading,
    Attempt.Yields (Module.ofProgram "m" breaksOutOnly []) module ∧
      Attempt.Yields (GraphKind.cfg.build module {}) graphs ∧
        GraphKind.cfg.draw named.label named.graph = .ok picture ∧
          Dot.read? picture.toDot = some reading ∧
            picture.nodes.map (·.label) = ["\" -> \\\r\n (entry)\nret\n", "<exit>\n"] ∧
              reading.picture.nodes.map (·.label) =
                ["\" -> \\\n (entry)\nret\n", "<exit>\n"] := by
  obtain ⟨module, loads, same⟩ : ∃ module,
      Attempt.Yields (Module.ofProgram "m" breaksOutOnly []) module ∧
        module.program = breaksOutOnly :=
    ⟨_, Module.ofProgram_yields_iff.mpr ⟨by decide, rfl⟩, rfl⟩
  obtain ⟨flow, built⟩ : ∃ flow, ControlFlow.ofFunction breaksOut = .ok flow := ⟨_, rfl⟩
  have flows : List.Forall₂ (fun function flow => ControlFlow.ofFunction function = .ok flow)
      module.functions [flow] := by
    rw [Module.functions, same]
    exact .cons built .nil
  obtain ⟨graphs, labels, made, yields⟩ : ∃ graphs,
      graphs.map (·.label) = module.functions.map (·.name) ∧
        graphs.map (·.graph) = [.cfg flow] ∧ ∀ collector : Collector, collector.Gathers →
          Attempt.Yields (GraphKind.cfg.buildBy collector module {}) graphs :=
    exists_yields_build flows rfl
  have builds : Attempt.Yields (GraphKind.cfg.build module {}) graphs :=
    yields .inOrder Collector.gathers_inOrder
  obtain ⟨⟨label, graph⟩, rfl, rfl⟩ := List.map_eq_singleton_iff.mp made
  rw [Module.functions, same] at labels
  cases labels
  obtain ⟨picture, draws, reads, -⟩ := exists_read?_toDot loads builds (List.mem_singleton.mpr rfl)
  refine ⟨module, _, _, List.mem_singleton.mpr rfl, picture, _, loads, builds, draws, reads, ?_⟩
  cases draws
  cases built
  exact ⟨by decide, by decide⟩

end GraphKind

end ProgramGraphs
