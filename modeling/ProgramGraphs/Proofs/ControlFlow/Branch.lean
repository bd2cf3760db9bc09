import ProgramGraphs.Proofs.ControlFlow.Dependence

/-! # What decides in a control-flow graph

Where a block can exit and control leaves it in one way only, the block that it leads to
post-dominates it, so that way decides about nothing: what decides is a branch. A block that cannot
exit is in no post-dominator tree. The way up from it is the block alone, and nothing stops it, so
every edge to such a block counts as a decision about it (`decided_of_not_canExit`), even if it is
the only one from where it comes (`edges_branch_or_caught`).
-/

namespace ProgramGraphs

/-- Whether control moves along an edge because of the condition of a branch. -/
def EdgeKind.isBranch : EdgeKind → Bool
  | .whenTrue | .whenFalse => true
  | _ => false

namespace Block

/-- The last instruction of a block is a branch with a condition. -/
def Branches (block : Block) : Prop :=
  ∃ last, block.instructions.getLast? = some last ∧ last.opcode = .br

/-- How control leaves a block that does not end in a branch. -/
def onlyWay (block : Block) : EdgeKind :=
  match block.instructions.getLast?.map Instruction.opcode with
  | some .jmp => .jump
  | some .ret => .leave
  | _ => .fallthrough

theorem Branches.opcode_eq {block : Block} {last : Instruction} (branches : block.Branches)
    (final : block.instructions.getLast? = some last) : last.opcode = .br := by
  obtain ⟨other, ends, operation⟩ := branches
  rwa [Option.some.inj (final.symm.trans ends)]

theorem onlyWay_eq_fallthrough {block : Block}
    (falls : ∀ last, block.instructions.getLast? = some last → last.isTerminator = false) :
    block.onlyWay = .fallthrough := by
  rw [onlyWay]
  split
  · next ends =>
    obtain ⟨last, final, operation⟩ := Option.map_eq_some_iff.mp ends
    cases (falls last final).symm.trans (congrArg Opcode.isTerminator operation)
  · next ends =>
    obtain ⟨last, final, operation⟩ := Option.map_eq_some_iff.mp ends
    cases (falls last final).symm.trans (congrArg Opcode.isTerminator operation)
  · rfl

end Block

namespace ControlFlow

/-- Control leaves a block by a branch that ends it, or in the only way that there is. -/
theorem Leaves.branch_or_onlyWay {blocks : List Block} {source target : Nat} {kind : EdgeKind}
    {block : Block} (leaves : Leaves blocks source kind target)
    (here : blocks[source]? = some block) :
    kind.isBranch = true ∧ block.Branches ∨
      kind.isBranch = false ∧ ¬ block.Branches ∧ kind = block.onlyWay := by
  cases leaves with
  | transfer found final _ transfers =>
    obtain rfl := Option.some.inj (here.symm.trans found)
    cases transfers with
    | jump operation =>
      refine .inr ⟨rfl, fun branches => ?_, by simp [Block.onlyWay, final, operation]⟩
      cases operation.symm.trans (branches.opcode_eq final)
    | whenTrue operation => exact .inl ⟨rfl, _, final, operation⟩
    | whenFalse operation => exact .inl ⟨rfl, _, final, operation⟩
  | leave found final operation =>
    obtain rfl := Option.some.inj (here.symm.trans found)
    refine .inr ⟨rfl, fun branches => ?_, by simp [Block.onlyWay, final, operation]⟩
    cases operation.symm.trans (branches.opcode_eq final)
  | onward found falls =>
    obtain rfl := Option.some.inj (here.symm.trans found)
    refine .inr ⟨rfl, ?_, (Block.onlyWay_eq_fallthrough falls).symm⟩
    rintro ⟨last, final, operation⟩
    cases (falls last final).symm.trans (congrArg Opcode.isTerminator operation)

/-- Where control leaves a block otherwise than by a branch, it leaves it in no other way. -/
theorem Leaves.target_unique_of_plain {blocks : List Block}
    (distinct : (blocks.map (·.label)).Nodup) {source first second : Nat} {kind way : EdgeKind}
    (one : Leaves blocks source kind first) (plain : kind.isBranch = false)
    (other : Leaves blocks source way second) : second = first := by
  have here := List.getElem?_eq_getElem one.source_lt
  rcases one.branch_or_onlyWay here with ⟨branch, -⟩ | ⟨-, single, same⟩
  · cases plain.symm.trans branch
  · rcases other.branch_or_onlyWay here with ⟨-, branches⟩ | ⟨-, -, equal⟩
    · exact absurd branches single
    · rw [equal, ← same] at other
      exact other.target_unique distinct one

variable {flow : ControlFlow}

/-- All ways to the exit go through the only block that control goes on to. -/
theorem postDominates_of_only {a s : flow.Node} (inside : a ≠ flow.exit)
    (only : ∀ next, flow.graph.Joins false a next → next = s) : flow.PostDominates s a := by
  intro visited walk
  cases walk with
  | stay => exact absurd rfl inside
  | onward joined rest =>
    rw [only _ joined] at rest
    exact List.mem_cons_of_mem _ rest.source_mem

theorem canExit_exit (flow : ControlFlow) : flow.CanExit flow.exit :=
  .refl _

/-- A node that cannot exit stands above no node that can. -/
theorem not_above_of_not_canExit {a b : flow.Node} (caught : ¬ flow.CanExit b)
    (exits : flow.CanExit a) : ¬ flow.postDominatorTree.links.Above b a := by
  intro above
  rw [canExit_iff_above] at caught exits
  rcases above.total exits with upper | lower
  · rw [Ancestry.above_iff_of_no_parent flow.solved_postDominatorTree.top] at upper
    exact caught (upper ▸ .refl)
  · exact caught lower

theorem canExit_of_parent? {node parent : flow.Node}
    (linked : flow.postDominatorTree.parent? node = some parent) : flow.CanExit node :=
  (canExit_iff_above node).mpr
    (flow.solved_postDominatorTree.settled_of_parent node parent linked)

end ControlFlow

namespace ControlDependence

open ControlFlow

variable {flow : ControlFlow}

/-- An edge to a block that cannot exit decides about that block and no other. -/
theorem decided_of_not_canExit {source target : flow.Node} (inside : source ≠ flow.exit)
    (caught : ¬ flow.CanExit target) :
    decided flow flow.postDominatorTree source target = [target] := by
  have undominated : flow.postDominatorTree.dominates target source = false := by
    refine eq_false_of_ne_true fun dominates => ?_
    rw [DominatorTree.dominates, Bool.and_eq_true, List.contains_iff_mem, DominatorTree.lineage,
      Ancestry.mem_lineage_iff] at dominates
    have exits := (canExit_iff_above source).mpr
      ((DominatorTree.contains_iff_above flow.solved_postDominatorTree source).mp dominates.1)
    exact not_above_of_not_canExit caught exits dominates.2
  have alone : flow.postDominatorTree.lineage target = [target] := by
    rw [DominatorTree.lineage, Ancestry.lineage]
    split
    · next parent linked => exact absurd (canExit_of_parent? linked) caught
    · rfl
  have unstopped : some target ≠ flow.postDominatorTree.parent? source := fun linked =>
    not_above_of_not_canExit caught (canExit_of_parent? linked.symm) (.climb linked.symm .refl)
  have block : target ≠ flow.exit := by
    rintro rfl
    exact caught flow.canExit_exit
  rw [decided, undominated, decide_eq_false inside, alone]
  simp [unstopped, block]

theorem mem_decisions_of_not_canExit {function : Function}
    (builds : ControlFlow.ofFunction function = .ok flow) {a b : flow.Node} {kind : EdgeKind}
    (leads : flow.Leads a kind b) (caught : ¬ flow.CanExit b) : (a, b, kind) ∈ decisions flow := by
  have describes := describes_ofFunction builds
  have inside : a ≠ flow.exit := by
    rintro rfl
    exact Nat.lt_irrefl _ (describes.exit_eq ▸ ((describes.edges _ _ _).mp leads).source_lt)
  refine (mem_decisions_iff a b kind).mpr ⟨b, leads, ?_⟩
  rw [decided_of_not_canExit inside caught]
  exact List.mem_singleton_self b

/-- An edge that is the only one from a block that can exit decides about nothing. -/
theorem decided_of_only {source target : flow.Node} (joined : flow.graph.Joins false source target)
    (exits : flow.CanExit target) (inside : source ≠ flow.exit)
    (only : ∀ next, flow.graph.Joins false source next → next = target) :
    decided flow flow.postDominatorTree source target = [] := by
  have always := postDominates_of_only inside only
  have dominates :=
    (postDominatorTree_dominates_iff ((Reaches.single joined).trans exits) target).mpr always
  rw [decided, dominates, Bool.or_true, if_pos rfl]

/-- What decides is a branch, unless it cannot exit: every edge that is no branch of the block that
it leaves goes to a block that cannot exit, and such edges there are. -/
theorem edges_branch_or_caught {function : Function}
    (builds : ControlFlow.ofFunction function = .ok flow) :
    (∀ edge ∈ (ofControlFlow flow).graph.edges.toList, ∃ a b : flow.Node,
      edge = ⟨a, b, edge.label⟩ ∧
        (edge.label.isBranch = true ∧ (flow.block a).Branches ∨
          edge.label.isBranch = false ∧ flow.Leads a edge.label b ∧
            ¬ flow.CanExit a ∧ ¬ flow.CanExit b)) ∧
    ∀ a b kind, flow.Leads a kind b → ¬ flow.CanExit b →
      ⟨a, b, kind⟩ ∈ (ofControlFlow flow).graph.edges.toList := by
  have describes := describes_ofFunction builds
  refine ⟨?only, ?all⟩
  case all =>
    intro a b kind leads caught
    exact (mem_edges_iff a b kind).mpr (mem_decisions_of_not_canExit builds leads caught)
  case only =>
    intro edge member
    rw [edges_ofControlFlow] at member
    obtain ⟨⟨a, b, kind⟩, decision, rfl⟩ := List.mem_map.mp member
    obtain ⟨target, leads, decides⟩ := (mem_decisions_iff a b kind).mp decision
    have inside := (ne_exit_of_mem_decided decides).1
    have here := (describes.node_cases a).resolve_right fun ends => inside ends.1
    have leaves := (describes.edges _ _ _).mp leads
    refine ⟨a, b, rfl, (leaves.branch_or_onlyWay here).imp_right ?_⟩
    rintro ⟨plain, -, -⟩
    have only : ∀ next, flow.graph.Joins false a next → next = target := by
      intro next joined
      obtain ⟨way, goes⟩ := (describes.joins_iff a next).mp joined
      exact Fin.ext (leaves.target_unique_of_plain describes.distinct plain goes)
    by_cases exits : flow.CanExit target
    · rw [decided_of_only leads.joins exits inside only] at decides
      cases decides
    · rw [decided_of_not_canExit inside exits, List.mem_singleton] at decides
      rw [decides]
      refine ⟨plain, leads, ?_, exits⟩
      rintro ⟨visited, walk⟩
      cases walk with
      | stay => exact inside rfl
      | onward joined rest => exact exits ⟨_, only _ joined ▸ rest⟩

/-- A branch between leaving and waiting without end. -/
def waits : Function where
  name := "waits"
  body := [
    .label "head",
    .instruction { name := "br", args := ["c"], labels := ["spin", "done"] },
    .label "spin",
    .instruction { name := "jmp", labels := ["spin"] },
    .label "done",
    .instruction { name := "ret" }]

/-- Whoever waits does not get away. -/
theorem exists_waits : ∃ flow, ControlFlow.ofFunction waits = .ok flow ∧ ∃ head spin : flow.Node,
    flow.Leads head .whenTrue spin ∧ flow.Leads spin .jump spin ∧ ¬ flow.CanExit spin ∧
      ¬ (flow.block spin).Branches := by
  obtain ⟨flow, builds, head, spin, apart, enters, stays, always, jumps⟩ :
      ∃ flow, ControlFlow.ofFunction waits = .ok flow ∧ ∃ head spin : flow.Node,
        spin ≠ flow.exit ∧ flow.Leads head .whenTrue spin ∧ flow.Leads spin .jump spin ∧
          (∀ next, flow.graph.Joins false spin next → next = spin) ∧
            (flow.block spin).instructions.getLast?.map Instruction.opcode = some .jmp := by
    refine ⟨_, rfl, ⟨0, by decide⟩, ⟨1, by decide⟩, ?_⟩
    simp only [ControlFlow.Leads, Digraph.Joins]
    decide
  refine ⟨flow, builds, head, spin, enters, stays, fun exits => ?_, ?_⟩
  · refine apart (Eq.symm (exits.mem_of_closed (· = spin) rfl ?_))
    rintro node next rfl joined
    exact always next joined
  · rintro ⟨last, final, operation⟩
    rw [final, Option.map_some, operation] at jumps
    cases jumps

theorem edges_branch_or_caught_waits : ∃ flow, ControlFlow.ofFunction waits = .ok flow ∧
    ∃ head spin : flow.Node, (flow.block head).Branches ∧
      ⟨head, spin, .whenTrue⟩ ∈ (ofControlFlow flow).graph.edges.toList := by
  obtain ⟨flow, builds, head, spin, enters, -, caught, -⟩ := exists_waits
  obtain ⟨only, all⟩ := edges_branch_or_caught builds
  have decides := all head spin .whenTrue enters caught
  obtain ⟨a, b, same, ⟨-, branches⟩ | ⟨plain, -⟩⟩ := only _ decides
  · have starts : head = a := Fin.ext (congrArg Edge.source same)
    exact ⟨flow, builds, head, spin, starts ▸ branches, decides⟩
  · cases plain

/-- A jump that leads back to itself is taken for a decision. -/
theorem waits_decides_by_jump : ∃ flow, ControlFlow.ofFunction waits = .ok flow ∧
    ∃ edge ∈ (ofControlFlow flow).graph.edges.toList, edge.label.isBranch = false ∧
      ∃ a : flow.Node, edge.source = a ∧ ¬ (flow.block a).Branches := by
  obtain ⟨flow, builds, -, spin, -, stays, caught, jumps⟩ := exists_waits
  refine ⟨flow, builds, ⟨spin, spin, .jump⟩, ?_, rfl, spin, rfl, jumps⟩
  exact (mem_edges_iff spin spin .jump).mpr (mem_decisions_of_not_canExit builds stays caught)

end ControlDependence

end ProgramGraphs
