import ProgramGraphs.Proofs.Execution.Run
import ProgramGraphs.Proofs.Promotion.Slot

/-! # Memory with slots and without

Beside a run of a function stands a run of the promoted function. The blocks that were allocated as
slots have an owner, the pointer they were allocated for, and the promoted function has none of
them (`Mirrors`). Nothing but its own pointer ever leads to an owned block, so what happens to other
memory is the same on both sides, and what happens to a slot happens to its variable.
-/

namespace ProgramGraphs.Execution

variable {δ : Type}

/-- Which blocks were allocated as slots, and for which pointer. -/
abbrev Ownership : Type :=
  Nat → Option String

/-- A value that does not point into an owned block. -/
def Ownership.Hides (owner : Ownership) (value : Value δ) : Prop :=
  ∀ place, owner place ≠ none → ¬ value.PointsInto place

/-- The memory of a function and that of the function with its slots promoted. -/
structure Mirrors (function : Function) (owner : Ownership) (env : Environment δ) (heap : Heap δ)
    (mirrorEnv : Environment δ) (mirrorHeap : Heap δ) : Prop where
  /-- Variables that promotion does not know are the same. -/
  visible : ∀ name, name ∉ function.slotPointers → name ∉ function.slotCells →
    mirrorEnv name = env name
  pointer_undefined : ∀ name ∈ function.slotPointers, mirrorEnv name = none
  cell_undefined : ∀ name ∈ function.slotCells, env name = none
  pointer_owns : ∀ name ∈ function.slotPointers, ∀ value, env name = some value →
    ∃ place, value = .address place 0 ∧ owner place = some name
  /-- No other variable points into an owned block, and no cell does. -/
  variable_hides : ∀ name, name ∉ function.slotPointers → ∀ value, env name = some value →
    owner.Hides value
  cell_hides : ∀ place, owner place ≠ none → ∀ source, ¬ heap.Links source place
  allocated : ∀ place, owner place ≠ none → heap place ≠ none
  heap_unowned : ∀ place, owner place = none → mirrorHeap place = heap place
  heap_owned : ∀ place, owner place ≠ none → mirrorHeap place = none
  /-- What can be loaded through a pointer is in the variable of its slot. -/
  content : ∀ slot ∈ function.slots, ∀ place block value,
    env slot.pointer = some (.address place 0) → heap place = some block →
      block.cells 0 = some value → mirrorEnv slot.cell = some value
  content_source : ∀ slot ∈ function.slots, ∀ value, mirrorEnv slot.cell = some value →
    ∃ place block, owner place = some slot.pointer ∧ heap place = some block ∧
      block.cells 0 = some value

namespace Mirrors

variable {function : Function} {owner : Ownership} {env mirrorEnv : Environment δ}
variable {heap mirrorHeap : Heap δ}

/-- When a function is entered no block is owned. -/
theorem enter (function : Function) (arguments : Environment δ) (heap : Heap δ) :
    Mirrors function (fun _ => none) (function.enter arguments heap).env heap
      (function.promote.enter arguments heap).env heap := by
  have pointer_undefined : ∀ name ∈ function.slotPointers,
      (function.enter arguments heap).env name = none := fun name member =>
    if_neg (Function.notMem_parameters_of_mem_slotPointers member)
  have cell_undefined : ∀ name ∈ function.slotCells,
      (function.enter arguments heap).env name = none := fun name member =>
    if_neg (function.notMem_of_mem_slotCells member).1
  refine ⟨fun _ _ _ => rfl, pointer_undefined, cell_undefined, ?_, fun _ _ _ _ _ owned => ?_,
    fun _ owned => ?_, fun _ owned => ?_, fun _ _ => rfl, fun _ owned => ?_, ?_, ?_⟩
  · intro name member value holds
    rw [pointer_undefined name member] at holds
    cases holds
  · exact absurd rfl owned
  · exact absurd rfl owned
  · exact absurd rfl owned
  · exact absurd rfl owned
  · intro slot inside place block value holds
    rw [pointer_undefined slot.pointer (List.mem_map_of_mem inside)] at holds
    cases holds
  · intro slot inside value holds
    have undefined := cell_undefined slot.cell (List.mem_map_of_mem inside)
    rw [show (function.promote.enter arguments heap).env slot.cell = none from undefined] at holds
    cases holds

theorem hides_of_held (mirrors : Mirrors function owner env heap mirrorEnv mirrorHeap)
    {place : Nat} {block : Block δ} {offset : Int} {value : Value δ}
    (present : heap place = some block) (held : block.cells offset = some value) :
    owner.Hides value := fun hidden owned points =>
  mirrors.cell_hides hidden owned place ⟨block, offset, value, present, held, points⟩

theorem owner_eq (mirrors : Mirrors function owner env heap mirrorEnv mirrorHeap) {name : String}
    (member : name ∈ function.slotPointers) {place : Nat} {offset : Int}
    (holds : env name = some (.address place offset)) : owner place = some name ∧ offset = 0 := by
  obtain ⟨found, same, owns⟩ := mirrors.pointer_owns name member _ holds
  cases same
  exact ⟨owns, rfl⟩

theorem notMem_slotCells (mirrors : Mirrors function owner env heap mirrorEnv mirrorHeap)
    {name : String} {value : Value δ} (holds : env name = some value) :
    name ∉ function.slotCells := by
  intro member
  rw [mirrors.cell_undefined name member] at holds
  cases holds

/-- Memory that no one owns may change in the same way on both sides. -/
theorem advance (mirrors : Mirrors function owner env heap mirrorEnv mirrorHeap)
    {next mirrorNext : Heap δ}
    (kept : ∀ place, owner place ≠ none → next place = heap place)
    (hidden : ∀ place, owner place ≠ none → ∀ source, ¬ next.Links source place)
    (same : ∀ place, owner place = none → mirrorNext place = next place)
    (absent : ∀ place, owner place ≠ none → mirrorNext place = none) :
    Mirrors function owner env next mirrorEnv mirrorNext where
  visible := mirrors.visible
  pointer_undefined := mirrors.pointer_undefined
  cell_undefined := mirrors.cell_undefined
  pointer_owns := mirrors.pointer_owns
  variable_hides := mirrors.variable_hides
  cell_hides := hidden
  allocated place owned := kept place owned ▸ mirrors.allocated place owned
  heap_unowned := same
  heap_owned := absent
  content slot inside place block value holds present := by
    have owns := (mirrors.owner_eq (List.mem_map_of_mem inside) holds).1
    rw [kept place (by simp [owns])] at present
    exact mirrors.content slot inside place block value holds present
  content_source slot inside value holds := by
    obtain ⟨place, block, owns, present, held⟩ := mirrors.content_source slot inside value holds
    refine ⟨place, block, owns, ?_, held⟩
    rw [kept place (by simp [owns]), present]

/-- Variables that promotion does not know may be assigned on both sides. -/
theorem assign (mirrors : Mirrors function owner env heap mirrorEnv mirrorHeap)
    {dest : Option String} {result : Option (Value δ)}
    (apart : ∀ name, dest = some name → name ∉ function.slotPointers ∧ name ∉ function.slotCells)
    (hides : ∀ value, result = some value → owner.Hides value) :
    Mirrors function owner (env.assign dest result) heap (mirrorEnv.assign dest result)
      mirrorHeap := by
  have atPointer : ∀ name ∈ function.slotPointers, dest ≠ some name := fun name member same =>
    (apart name same).1 member
  have atCell : ∀ name ∈ function.slotCells, dest ≠ some name := fun name member same =>
    (apart name same).2 member
  refine { mirrors with
    visible := ?visible, pointer_undefined := ?pointer_undefined
    cell_undefined := ?cell_undefined, pointer_owns := ?pointer_owns
    variable_hides := ?variable_hides, content := ?content, content_source := ?content_source }
  case visible =>
    exact fun name noPointer noCell =>
      Environment.assign_congr (mirrors.visible name noPointer noCell)
  case pointer_undefined =>
    intro name member
    rw [Environment.assign_of_ne (atPointer name member)]
    exact mirrors.pointer_undefined name member
  case cell_undefined =>
    intro name member
    rw [Environment.assign_of_ne (atCell name member)]
    exact mirrors.cell_undefined name member
  case pointer_owns =>
    intro name member value holds
    rw [Environment.assign_of_ne (atPointer name member)] at holds
    exact mirrors.pointer_owns name member value holds
  case variable_hides =>
    intro name noPointer value holds
    rcases Environment.assign_cases holds with ⟨same, _⟩ | holds
    · exact hides value same
    · exact mirrors.variable_hides name noPointer value holds
  case content =>
    intro slot inside place block value holds
    rw [Environment.assign_of_ne (atPointer slot.pointer (List.mem_map_of_mem inside))] at holds
    rw [Environment.assign_of_ne (atCell slot.cell (List.mem_map_of_mem inside))]
    exact mirrors.content slot inside place block value holds
  case content_source =>
    intro slot inside value holds
    rw [Environment.assign_of_ne (atCell slot.cell (List.mem_map_of_mem inside))] at holds
    exact mirrors.content_source slot inside value holds

/-- An allocation through the pointer of a slot happens on one side only. -/
theorem allocate (mirrors : Mirrors function owner env heap mirrorEnv mirrorHeap) {slot : Slot}
    (inside : slot ∈ function.slots) {place : Nat} (absent : heap place = none)
    (variable_apart : ∀ name value, env name = some value → ¬ value.PointsInto place)
    (cell_apart : ∀ source, ¬ heap.Links source place) :
    Mirrors function (fun other => if other = place then some slot.pointer else owner other)
      (env.assign (some slot.pointer) (some (.address place 0))) (heap.put place .blank)
      mirrorEnv mirrorHeap := by
  have isPointer : slot.pointer ∈ function.slotPointers := List.mem_map_of_mem inside
  have distinct : ∀ other, heap other ≠ none → other ≠ place := by
    rintro other present rfl
    exact present absent
  have others : ∀ name, name ≠ slot.pointer →
      env.assign (some slot.pointer) (some (.address place 0)) name = env name :=
    fun name different => Environment.assign_of_ne fun same =>
      different (Option.some.inj same).symm
  have ownedBefore : ∀ {other}, (if other = place then some slot.pointer else owner other) ≠ none →
      other ≠ place → owner other ≠ none := by
    intro other owned different
    rwa [if_neg different] at owned
  refine ⟨?visible, mirrors.pointer_undefined, ?cell_undefined, ?pointer_owns, ?variable_hides,
    ?cell_hides, ?allocated, ?heap_unowned, ?heap_owned, ?content, ?content_source⟩
  case visible =>
    intro name noPointer noCell
    rw [others name (fun same => noPointer (same ▸ isPointer))]
    exact mirrors.visible name noPointer noCell
  case cell_undefined =>
    intro name member
    rw [others name fun same =>
      Function.notMem_slotCells_of_mem_slotPointers isPointer (same ▸ member)]
    exact mirrors.cell_undefined name member
  case pointer_owns =>
    intro name member value holds
    by_cases same : name = slot.pointer
    · subst same
      simp only [Environment.assign, if_pos, Option.some.injEq] at holds
      exact ⟨place, holds.symm, if_pos rfl⟩
    · rw [others name same] at holds
      obtain ⟨other, rfl, owns⟩ := mirrors.pointer_owns name member value holds
      refine ⟨other, rfl, ?_⟩
      rw [if_neg (distinct other (mirrors.allocated other (by simp [owns])))]
      exact owns
  case variable_hides =>
    intro name noPointer value holds other owned points
    rw [others name (fun same => noPointer (same ▸ isPointer))] at holds
    by_cases same : other = place
    · exact variable_apart name value holds (same ▸ points)
    · exact mirrors.variable_hides name noPointer value holds other (ownedBefore owned same) points
  case cell_hides =>
    intro other owned source linked
    have linked := Heap.links_of_put_blank linked
    by_cases same : other = place
    · exact cell_apart source (same ▸ linked)
    · exact mirrors.cell_hides other (ownedBefore owned same) source linked
  case allocated =>
    intro other owned
    by_cases same : other = place
    · simp [same]
    · rw [Heap.put_other heap _ same]
      exact mirrors.allocated other (ownedBefore owned same)
  case heap_unowned =>
    intro other unowned
    by_cases same : other = place
    · simp [same] at unowned
    · rw [if_neg same] at unowned
      rw [Heap.put_other heap _ same]
      exact mirrors.heap_unowned other unowned
  case heap_owned =>
    intro other owned
    by_cases same : other = place
    · subst same
      by_cases before : owner other = none
      · rw [mirrors.heap_unowned other before, absent]
      · exact mirrors.heap_owned other before
    · exact mirrors.heap_owned other (ownedBefore owned same)
  case content =>
    intro other otherInside found block value holds present held
    by_cases same : other.pointer = slot.pointer
    · rw [same] at holds
      simp only [Environment.assign, if_pos, Option.some.injEq, Value.address.injEq] at holds
      rw [← holds.1, Heap.put_same] at present
      cases present
      cases held
    · rw [others _ same] at holds
      have owns := (mirrors.owner_eq (List.mem_map_of_mem otherInside) holds).1
      have before := mirrors.allocated found (by simp [owns])
      rw [Heap.put_other heap _ (distinct found before)] at present
      exact mirrors.content other otherInside found block value holds present held
  case content_source =>
    intro other otherInside value holds
    obtain ⟨found, block, owns, present, held⟩ :=
      mirrors.content_source other otherInside value holds
    have different := distinct found (by simp [present])
    refine ⟨found, block, ?_, ?_, held⟩
    · rw [if_neg different, owns]
    · rw [Heap.put_other heap _ different, present]

/-- Freeing an owned block happens on one side only. -/
theorem release (mirrors : Mirrors function owner env heap mirrorEnv mirrorHeap) {place : Nat}
    {block : Block δ} (owned : owner place ≠ none) (present : heap place = some block) :
    Mirrors function owner env (heap.put place block.release) mirrorEnv mirrorHeap := by
  have others : ∀ other, other ≠ place → heap.put place block.release other = heap other :=
    fun other different => Heap.put_other heap _ different
  refine { mirrors with
    cell_hides := ?cell_hides, allocated := ?allocated, heap_unowned := ?heap_unowned
    content := ?content, content_source := ?content_source }
  case cell_hides =>
    exact fun other otherOwned source linked =>
      mirrors.cell_hides other otherOwned source (Heap.links_of_put_release present linked)
  case allocated =>
    intro other otherOwned
    by_cases same : other = place
    · simp [same]
    · rw [others other same]
      exact mirrors.allocated other otherOwned
  case heap_unowned =>
    intro other unowned
    rw [others other fun same => owned (same ▸ unowned)]
    exact mirrors.heap_unowned other unowned
  case content =>
    intro slot inside found block' value holds present' held
    by_cases same : found = place
    · subst same
      rw [Heap.put_same] at present'
      cases present'
      exact mirrors.content slot inside found block value holds present held
    · rw [others found same] at present'
      exact mirrors.content slot inside found block' value holds present' held
  case content_source =>
    intro slot inside value holds
    obtain ⟨found, block', owns, present', held⟩ :=
      mirrors.content_source slot inside value holds
    by_cases same : found = place
    · subst same
      rw [present] at present'
      cases present'
      exact ⟨found, block.release, owns, Heap.put_same heap found _, held⟩
    · exact ⟨found, block', owns, by rwa [others found same], held⟩

/-- A value that is stored in a slot goes to the variable of the slot. -/
theorem write (mirrors : Mirrors function owner env heap mirrorEnv mirrorHeap) {slot : Slot}
    (inside : slot ∈ function.slots) {place : Nat} {block : Block δ} {value : Value δ}
    (holds : env slot.pointer = some (.address place 0)) (present : heap place = some block)
    (hides : owner.Hides value) :
    Mirrors function owner env (heap.put place (block.write 0 value))
      (mirrorEnv.assign (some slot.cell) (some value)) mirrorHeap := by
  have isCell : slot.cell ∈ function.slotCells := List.mem_map_of_mem inside
  have owns := (mirrors.owner_eq (List.mem_map_of_mem inside) holds).1
  have others : ∀ name, name ≠ slot.cell →
      mirrorEnv.assign (some slot.cell) (some value) name = mirrorEnv name :=
    fun name different => Environment.assign_of_ne fun same =>
      different (Option.some.inj same).symm
  have ofPlace : ∀ other ∈ function.slots, owner place = some other.pointer → other = slot := by
    intro other otherInside otherOwns
    rw [owns] at otherOwns
    exact Function.slot_eq_of_pointer_eq otherInside inside (Option.some.inj otherOwns).symm
  refine { mirrors with
    visible := ?visible, pointer_undefined := ?pointer_undefined, cell_hides := ?cell_hides
    allocated := ?allocated, heap_unowned := ?heap_unowned, content := ?content
    content_source := ?content_source }
  case visible =>
    intro name noPointer noCell
    rw [others name fun same => noCell (same ▸ isCell)]
    exact mirrors.visible name noPointer noCell
  case pointer_undefined =>
    intro name member
    rw [others name fun same =>
      Function.notMem_slotCells_of_mem_slotPointers member (same ▸ isCell)]
    exact mirrors.pointer_undefined name member
  case cell_hides =>
    intro other owned source linked
    rcases Heap.links_of_put_write present linked with linked | points
    · exact mirrors.cell_hides other owned source linked
    · exact hides other owned points
  case allocated =>
    intro other owned
    by_cases same : other = place
    · simp [same]
    · rw [Heap.put_other heap _ same]
      exact mirrors.allocated other owned
  case heap_unowned =>
    intro other unowned
    have different : other ≠ place := by
      rintro rfl
      rw [owns] at unowned
      cases unowned
    rw [Heap.put_other heap _ different]
    exact mirrors.heap_unowned other unowned
  case content =>
    intro other otherInside found block' value' holds' present' held
    by_cases same : found = place
    · subst same
      have otherOwns := (mirrors.owner_eq (List.mem_map_of_mem otherInside) holds').1
      obtain rfl := ofPlace other otherInside otherOwns
      rw [Heap.put_same] at present'
      cases present'
      simp only [Block.write, if_pos] at held
      simp only [Environment.assign, if_pos, held]
    · rw [Heap.put_other heap _ same] at present'
      rw [others]
      · exact mirrors.content other otherInside found block' value' holds' present' held
      · intro sameCell
        obtain rfl := Function.slot_eq_of_cell_eq otherInside inside sameCell
        rw [holds] at holds'
        cases holds'
        exact same rfl
  case content_source =>
    intro other otherInside value' holds'
    by_cases sameCell : other.cell = slot.cell
    · obtain rfl := Function.slot_eq_of_cell_eq otherInside inside sameCell
      simp only [Environment.assign, if_pos] at holds'
      exact ⟨place, _, owns, Heap.put_same heap place _, by simpa [Block.write] using holds'⟩
    · rw [others other.cell sameCell] at holds'
      obtain ⟨found, block', owns', present', held⟩ :=
        mirrors.content_source other otherInside value' holds'
      have different : found ≠ place := by
        rintro rfl
        exact sameCell (congrArg Slot.cell (ofPlace other otherInside owns'))
      exact ⟨found, block', owns', by rwa [Heap.put_other heap _ different], held⟩

end Mirrors

end ProgramGraphs.Execution
