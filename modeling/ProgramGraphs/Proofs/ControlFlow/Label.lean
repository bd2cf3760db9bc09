import ProgramGraphs.Proofs.ControlFlow.Dependence
import ProgramGraphs.Proofs.Fresh
import ProgramGraphs.Proofs.Numbering

/-! # Labels of blocks

A block without a label gets a name that no label of the body has, and two such names differ in
their numbers. So the labels of the blocks are distinct where the declared labels are, and a block
is found by its label. The exit has a label of its own, which nothing keeps a body from declaring:
then the block of that label is found in its place.
-/

namespace ProgramGraphs

theorem Section.generatedName_toList (position underscores : Nat) :
    (generatedName position underscores).toList =
      'b' :: ((toString position).toList ++ List.replicate underscores '_') := by
  simp [generatedName, String.toList_append]

/-- Generated names differ if they are for different positions or have different lengths. -/
theorem Section.generatedName_inj {first second few many : Nat} :
    generatedName first few = generatedName second many ↔ first = second ∧ few = many := by
  have ends (underscores : Nat) : EndsDigits (List.replicate underscores '_') := by
    cases underscores with
    | zero => exact endsDigits_nil
    | succ underscores => exact endsDigits_cons (by decide) _
  rw [← String.toList_inj, generatedName_toList, generatedName_toList, List.cons_inj_right,
    toString_append_inj (ends few) (ends many), List.replicate_left_inj]

/-- The name that a section at a position is given, if it has no label. -/
def Section.givenName? (declared : List String) (content : Section) (position : Nat) :
    Option String :=
  if content.label.isSome then none else some (freshName (generatedName position) declared)

theorem Section.freshName_generatedName_notMem (position : Nat) (declared : List String) :
    freshName (generatedName position) declared ∉ declared :=
  freshName_notMem _ (fun _ _ same => (generatedName_inj.mp same).2) declared

theorem Block.label_ofSection_eq_iff {declared : List String} {content : Section} {position : Nat}
    {name : String} : (ofSection declared content position).label = name ↔
      content.label = some name ∨ content.givenName? declared position = some name := by
  rw [ofSection, Section.givenName?]
  cases content.label <;> simp

/-- Blocks at different positions have the same label only where both declare it. -/
theorem Block.label_ne_iff {declared : List String} {content other : Section}
    {position place : Nat} (apart : position ≠ place)
    (known : ∀ name ∈ content.label, name ∈ declared)
    (otherKnown : ∀ name ∈ other.label, name ∈ declared) :
    (ofSection declared content position).label ≠ (ofSection declared other place).label ↔
      ∀ name, content.label = some name → ∀ rival, other.label = some rival → name ≠ rival := by
  have fresh (position : Nat) : freshName (Section.generatedName position) declared ∉ declared :=
    Section.freshName_generatedName_notMem position declared
  simp only [ofSection]
  cases labelled : content.label with
  | none =>
    cases otherLabelled : other.label with
    | none =>
      have differ : freshName (Section.generatedName position) declared ≠
          freshName (Section.generatedName place) declared :=
        fun same => apart (Section.generatedName_inj.mp same).1
      simpa using differ
    | some rival =>
      have differ : freshName (Section.generatedName position) declared ≠ rival :=
        fun same => fresh position (same ▸ otherKnown rival otherLabelled)
      simpa using differ
  | some name =>
    cases otherLabelled : other.label with
    | none =>
      have differ : name ≠ freshName (Section.generatedName place) declared :=
        fun same => fresh place (same ▸ known name labelled)
      simpa using differ
    | some rival => simp

namespace Function

/-- The names that the blocks without a label are given. -/
def generatedNames (function : Function) : List String :=
  (Section.ofBody function.body).zipIdx.filterMap fun (content, position) =>
    content.givenName? function.declaredLabels position

theorem mem_generatedNames_iff (function : Function) (name : String) :
    name ∈ function.generatedNames ↔
      ∃ (position : Nat) (inside : position < (Section.ofBody function.body).length),
        (Section.ofBody function.body)[position].givenName? function.declaredLabels position =
          some name := by
  simp only [generatedNames, List.mem_filterMap, Prod.exists, List.mk_mem_zipIdx_iff_getElem?,
    List.getElem?_eq_some_iff]
  constructor
  · rintro ⟨_, position, ⟨inside, rfl⟩, given⟩
    exact ⟨position, inside, given⟩
  · rintro ⟨position, inside, given⟩
    exact ⟨_, position, ⟨inside, rfl⟩, given⟩

theorem label_mem_declaredLabels {function : Function} {content : Section}
    (member : content ∈ Section.ofBody function.body) {name : String}
    (named : content.label = some name) : name ∈ function.declaredLabels := by
  rw [function.declaredLabels_eq]
  exact List.mem_filterMap.mpr ⟨content, member, named⟩

/-- A block has a declared label or a generated name. -/
theorem mem_labels_blocks_iff (function : Function) (name : String) :
    name ∈ function.blocks.map (·.label) ↔
      name ∈ function.declaredLabels ∨ name ∈ function.generatedNames := by
  simp only [blocks, List.mem_map, List.mem_mapIdx, ← function.declaredLabels_eq,
    mem_generatedNames_iff]
  constructor
  · rintro ⟨_, ⟨position, inside, rfl⟩, named⟩
    rcases Block.label_ofSection_eq_iff.mp named with labelled | given
    · exact .inl (label_mem_declaredLabels (List.getElem_mem inside) labelled)
    · exact .inr ⟨position, inside, given⟩
  · rintro (declared | ⟨position, inside, given⟩)
    · rw [function.declaredLabels_eq] at declared
      obtain ⟨content, member, labelled⟩ := List.mem_filterMap.mp declared
      obtain ⟨position, inside, rfl⟩ := List.getElem_of_mem member
      exact ⟨_, ⟨position, inside, rfl⟩, Block.label_ofSection_eq_iff.mpr (.inl labelled)⟩
    · exact ⟨_, ⟨position, inside, rfl⟩, Block.label_ofSection_eq_iff.mpr (.inr given)⟩

/-- The labels of the blocks are distinct where the declared labels are. -/
theorem nodup_labels_blocks_iff (function : Function) :
    (function.blocks.map (·.label)).Nodup ↔ function.declaredLabels.Nodup := by
  have known : ∀ content ∈ Section.ofBody function.body, ∀ name ∈ content.label,
      name ∈ function.declaredLabels := fun content member name => label_mem_declaredLabels member
  have declared : function.declaredLabels.Nodup ↔ (Section.ofBody function.body).Pairwise
      fun content other => ∀ name, content.label = some name → ∀ rival, other.label = some rival →
        name ≠ rival := by
    rw [function.declaredLabels_eq]
    exact List.pairwise_filterMap
  rw [declared, List.nodup_iff_pairwise_ne, List.pairwise_iff_getElem, List.pairwise_iff_getElem]
  simp only [blocks, ← function.declaredLabels_eq, List.length_map, List.length_mapIdx,
    List.getElem_map, List.getElem_mapIdx]
  refine forall_congr' fun position => forall_congr' fun place => forall_congr' fun inside =>
    forall_congr' fun within => imp_congr_right fun before => ?_
  exact Block.label_ne_iff (Nat.ne_of_lt before) (known _ (List.getElem_mem inside))
    (known _ (List.getElem_mem within))

/-- No generated name is the label of the exit. -/
theorem exitLabel_notMem_generatedNames (function : Function) :
    Block.exitLabel ∉ function.generatedNames := by
  intro generated
  obtain ⟨position, inside, given⟩ := (mem_generatedNames_iff _ _).mp generated
  rw [Section.givenName?] at given
  split at given
  · cases given
  · have head := congrArg String.toList (Option.some.inj given)
    rw [freshName, Section.generatedName_toList] at head
    exact absurd (List.cons.inj head).1 (by decide)

end Function

namespace ControlFlow

variable {function : Function} {flow : ControlFlow}

theorem Describes.labels_eq (describes : flow.Describes function) :
    flow.labels = function.blocks.map (·.label) ++ [Block.exitLabel] := by
  rw [labels, describes.nodes, List.map_append]
  rfl

/-- The labels of all nodes are distinct where no label is declared that is that of the exit. -/
theorem Describes.nodup_labels_iff (describes : flow.Describes function) :
    flow.labels.Nodup ↔ Block.exitLabel ∉ function.declaredLabels := by
  rw [describes.labels_eq, List.nodup_append_comm, List.singleton_append, List.nodup_cons,
    and_iff_left describes.distinct, function.mem_labels_blocks_iff,
    or_iff_left function.exitLabel_notMem_generatedNames]

/-- A block is told by its label from the nodes before it, and the exit is where no block has the
label of the exit. -/
theorem Describes.label_ne (describes : flow.Describes function) {node other : flow.Node}
    (told : node ≠ flow.exit ∨ Block.exitLabel ∉ function.declaredLabels) (before : other < node) :
    (flow.block other).label ≠ (flow.block node).label := by
  intro same
  rcases describes.node_cases other with there | ⟨last, -⟩
  · rcases describes.node_cases node with here | ⟨ends, exits⟩
    · have equal : other.val = node.val := eq_of_label_eq describes.distinct there here same
      exact absurd (Fin.ext equal) (Fin.ne_of_lt before)
    · have declares : Block.exitLabel ∈ function.blocks.map (·.label) := by
        rw [exits] at same
        exact List.mem_map.mpr ⟨_, List.mem_of_getElem? there, same⟩
      rw [function.mem_labels_blocks_iff,
        or_iff_left function.exitLabel_notMem_generatedNames] at declares
      exact told.elim (absurd ends) (absurd declares)
  · rw [last] at before
    have bound := node.isLt
    have beyond : flow.graph.size - 1 < node.val := before
    omega

/-- A node that its label tells from the nodes before it is found by its label. -/
theorem find?_label {node : flow.Node}
    (told : ∀ other < node, (flow.block other).label ≠ (flow.block node).label) :
    flow.find? (flow.block node).label = some node :=
  (flow.graph.find?_eq_some_iff _ _).mpr
    ⟨beq_self_eq_true _, fun other before => beq_false_of_ne (told other before)⟩

end ControlFlow

theorem Dominance.parentOf?_eq (dominance : Dominance) {label : String} {node : dominance.flow.Node}
    (found : dominance.flow.find? label = some node) :
    dominance.parentOf? label =
      (dominance.tree.parent? node).map fun parent => (dominance.flow.block parent).label := by
  have named (node : dominance.flow.Node) :
      dominance.label node = (dominance.flow.block node).label := by
    have listed : dominance.flow.graph.payload? node = some (dominance.flow.block node) :=
      Array.getElem?_eq_getElem node.isLt
    rw [Dominance.label, listed]
    rfl
  rw [parentOf?, found]
  cases linked : dominance.tree.parent? node with
  | none => simp [linked]
  | some parent => simp [linked, named]

namespace ControlDependence

variable {flow : ControlFlow}

/-- The blocks are numbered as in the control-flow graph, and keep their labels. -/
theorem payload?_eq {node : flow.Node} (inside : node ≠ flow.exit) :
    (ofControlFlow flow).graph.payload? node = some (flow.block node).label := by
  have bound := lt_length_labels inside
  rw [length_labels] at bound
  have listed : (ofControlFlow flow).graph.nodes.toList = flow.labels.take flow.blockCount :=
    Digraph.nodes_ofEdges _ _
  rw [Digraph.payload?, ← Array.getElem?_toList, listed, List.getElem?_take_of_lt bound,
    ControlFlow.labels, List.getElem?_map, Array.getElem?_toList,
    Array.getElem?_eq_getElem (by exact node.isLt)]
  rfl

theorem lt_size {node : flow.Node} (inside : node ≠ flow.exit) :
    node.val < (ofControlFlow flow).graph.size := by
  have bound := lt_length_labels inside
  rwa [← Digraph.size_ofEdges _ (edgesOf flow)] at bound

theorem payload_eq {node : flow.Node} (inside : node ≠ flow.exit) :
    (ofControlFlow flow).graph.payload ⟨node, lt_size inside⟩ = (flow.block node).label := by
  have found := payload?_eq inside
  rw [Digraph.payload?, Array.getElem?_eq_getElem (by exact lt_size inside)] at found
  exact Option.some.inj found

/-- A block that its label tells from the blocks before it is found by its label. -/
theorem find?_label {node : flow.Node} (inside : node ≠ flow.exit)
    (told : ∀ other < node, (flow.block other).label ≠ (flow.block node).label) :
    (ofControlFlow flow).graph.find? (· == (flow.block node).label) =
      some ⟨node, lt_size inside⟩ := by
  refine (Digraph.find?_eq_some_iff _ _ _).mpr ⟨?_, fun other before => ?_⟩
  · rw [payload_eq inside, beq_self_eq_true]
  · have early : other.val < node.val := before
    have block : (⟨other, early.trans node.isLt⟩ : flow.Node) ≠ flow.exit := by
      intro last
      have ends : other.val = flow.graph.size - 1 := congrArg Fin.val last
      have bound := node.isLt
      omega
    exact beq_false_of_ne (payload_eq block ▸ told ⟨other, early.trans node.isLt⟩ early)

/-- The blocks that decide about a block are found by its label. -/
theorem controllers_label {node : flow.Node} (inside : node ≠ flow.exit)
    (told : ∀ other < node, (flow.block other).label ≠ (flow.block node).label) :
    (ofControlFlow flow).controllers (flow.block node).label =
      ((decisions flow).filter (·.2.1 = node)).map fun edge =>
        ((flow.block edge.1).label, edge.2.2) := by
  rw [controllers, find?_label inside told]
  dsimp only
  rw [Digraph.incoming?_eq _ ⟨node, lt_size inside⟩, Option.getD_some, edges_ofControlFlow,
    List.filterMap_map, List.filterMap_filterMap, ← List.filterMap_eq_map, List.filterMap_filter]
  refine List.filterMap_congr fun edge member => ?_
  obtain ⟨source, target, kind⟩ := edge
  obtain ⟨_, -, decided⟩ := (mem_decisions_iff source target kind).mp member
  have listed := payload?_eq (ne_exit_of_mem_decided decided).1
  by_cases enters : target = node
  · simp [Edge.entering?, Edge.between, enters, listed]
  · simp [Edge.entering?, Edge.between, enters, Fin.val_inj]

end ControlDependence

namespace ControlFlow

/-- The labels of the blocks are distinct, and those of all nodes are unless the label of the exit
is declared. A node is found by its label, and so are its immediate dominator and post-dominator, if
it is a block or that label is not declared. The blocks that decide about a block are found by its
label in any case. -/
theorem labels_identify {function : Function} {flow : ControlFlow}
    (builds : ofFunction function = .ok flow) :
    (flow.labels.take flow.blockCount).Nodup ∧
    (flow.labels.Nodup ↔ Block.exitLabel ∉ function.declaredLabels) ∧
    (∀ node : flow.Node, node ≠ flow.exit ∨ Block.exitLabel ∉ function.declaredLabels →
      flow.find? (flow.block node).label = some node ∧
        (flow.dominance .fromEntry).parentOf? (flow.block node).label =
          (flow.dominatorTree.parent? node).map (fun parent => (flow.block parent).label) ∧
        (flow.dominance .fromExit).parentOf? (flow.block node).label =
          (flow.postDominatorTree.parent? node).map fun parent => (flow.block parent).label) ∧
    ∀ node : flow.Node, node ≠ flow.exit →
      List.Forall₂ (fun (edge : Edge EdgeKind) entry => ∃ source : flow.Node,
          edge.source = source ∧ entry = ((flow.block source).label, edge.label))
        ((ControlDependence.ofControlFlow flow).graph.edges.toList.filter (·.target = node.val))
        ((ControlDependence.ofControlFlow flow).controllers (flow.block node).label) := by
  have describes := describes_ofFunction builds
  refine ⟨?blocks, describes.nodup_labels_iff, ?found, ?controllers⟩
  case blocks =>
    have count : flow.blockCount = (function.blocks.map (·.label)).length := by
      rw [List.length_map]
      exact describes.exit_eq
    rw [describes.labels_eq, count, List.take_left]
    exact describes.distinct
  case found =>
    intro node told
    have found := find?_label fun other => describes.label_ne told
    exact ⟨found, Dominance.parentOf?_eq (flow.dominance .fromEntry) found,
      Dominance.parentOf?_eq (flow.dominance .fromExit) found⟩
  case controllers =>
    intro node inside
    rw [ControlDependence.controllers_label inside fun other => describes.label_ne (.inl inside),
      ControlDependence.edges_ofControlFlow, List.filter_map, List.forall₂_map_left_iff,
      List.forall₂_map_right_iff]
    have same : (fun edge : Edge EdgeKind => decide (edge.target = node.val)) ∘ Edge.between =
        fun edge : flow.Node × flow.Node × EdgeKind => decide (edge.2.1 = node) := by
      funext edge
      exact decide_eq_decide.mpr Fin.val_inj
    rw [same, List.forall₂_same]
    exact fun edge _ => ⟨edge.1, rfl, rfl⟩

/-- A body that starts without a label and then takes the name that the first block would get. -/
def displaced : Function where
  name := "displaced"
  body := [
    .instruction { name := "const", dest := some "one" },
    .label "b0",
    .instruction { name := "br", args := ["one"], labels := ["b0", "done"] },
    .label "done",
    .instruction { name := "ret" }]

theorem labels_identify_displaced : ∃ flow, ofFunction displaced = .ok flow ∧
    flow.labels = ["b0_", "b0", "done", "<exit>"] ∧ flow.labels.Nodup ∧
      ∀ node : flow.Node, flow.find? (flow.block node).label = some node := by
  obtain ⟨flow, builds, labels⟩ : ∃ flow, ofFunction displaced = .ok flow ∧
      flow.labels = ["b0_", "b0", "done", "<exit>"] := ⟨_, rfl, by decide⟩
  have undeclared : Block.exitLabel ∉ displaced.declaredLabels := by decide
  obtain ⟨-, distinct, found, -⟩ := labels_identify builds
  exact ⟨flow, builds, labels, distinct.mpr undeclared,
    fun node => (found node (.inr undeclared)).1⟩

/-- A body that declares the label of the exit. -/
def posesAsExit : Function where
  name := "posesAsExit"
  body := [.label "<exit>", .instruction { name := "ret" }]

/-- Under the label of the exit the first block is found instead, so the exit, which that block
dominates, seems to have no dominator. -/
theorem posesAsExit_hides_exit : ∃ flow, ofFunction posesAsExit = .ok flow ∧
    ¬ flow.labels.Nodup ∧ flow.find? (flow.block flow.exit).label ≠ some flow.exit ∧
      (flow.dominance .fromEntry).parentOf? (flow.block flow.exit).label ≠
        (flow.dominatorTree.parent? flow.exit).map fun parent => (flow.block parent).label := by
  obtain ⟨flow, builds, shared, same, distinct, joined⟩ : ∃ flow,
      ofFunction posesAsExit = .ok flow ∧ ¬ flow.labels.Nodup ∧
        (flow.block flow.exit).label = (flow.block flow.entry).label ∧ flow.exit ≠ flow.entry ∧
          flow.graph.Joins false flow.entry flow.exit := by
    refine ⟨_, rfl, by decide, by decide, by decide, ?_⟩
    simp only [Digraph.Joins]
    decide
  have solved := Ancestry.solved_dominatorTree flow.graph.adjacency flow.entry
  have found : flow.find? (flow.block flow.exit).label = some flow.entry := by
    rw [same]
    exact find?_label fun other before => absurd before (Nat.not_lt_zero _)
  have reached : Reaches flow.graph.adjacency.Follows flow.entry flow.exit := by
    rw [flow.graph.adjacency_follows]
    exact .single joined
  obtain ⟨parent, linked, -, -⟩ :=
    (DominatorTree.describes_of_solved solved).immediate flow.exit reached distinct
  refine ⟨flow, builds, shared, ?_, ?_⟩
  · rw [found]
    exact fun sameNode => distinct (Option.some.inj sameNode).symm
  · have orphan : flow.dominatorTree.parent? flow.entry = none := solved.top
    have climbs : flow.dominatorTree.parent? flow.exit = some parent := linked
    rw [Dominance.parentOf?_eq (flow.dominance .fromEntry) found, climbs]
    intro sameLabel
    cases (congrArg (Option.map _) orphan).symm.trans sameLabel

end ControlFlow

end ProgramGraphs
