import ProgramGraphs.Proofs.Graph.Walk

/-! # Memory in execution

Memory is allocated in blocks, and a cell is a place in a block at some distance from its start.
Freeing a block ends its life but keeps its contents, so its cells still count as holding what they
held. Values are data or addresses of cells; what data is, and what is done with it, is left open.
-/

namespace ProgramGraphs.Execution

variable {δ : Type}

/-- What a variable or a cell holds. -/
inductive Value (δ : Type) where
  | data (datum : δ)
  | address (block : Nat) (offset : Int)

/-- Whether a value is the address of a cell of a block. -/
def Value.PointsInto (value : Value δ) (block : Nat) : Prop :=
  ∃ offset, value = .address block offset

/-- Memory that was allocated at once, and what has been written into its cells. -/
structure Block (δ : Type) where
  live : Bool
  cells : Int → Option (Value δ)

/-- The blocks that have been allocated so far. -/
def Heap (δ : Type) : Type :=
  Nat → Option (Block δ)

namespace Block

/-- A block that nothing has been written into. -/
def blank : Block δ :=
  ⟨true, fun _ => none⟩

/-- Write a value into a cell. -/
def write (block : Block δ) (offset : Int) (value : Value δ) : Block δ :=
  { block with cells := fun other => if other = offset then some value else block.cells other }

/-- End the life of a block. -/
def release (block : Block δ) : Block δ :=
  { block with live := false }

end Block

namespace Heap

/-- Put a block in place of what is there. -/
def put (heap : Heap δ) (place : Nat) (block : Block δ) : Heap δ :=
  fun other => if other = place then some block else heap other

/-- A cell of the first block holds an address in the second. -/
def Links (heap : Heap δ) (source target : Nat) : Prop :=
  ∃ block offset value, heap source = some block ∧ block.cells offset = some value ∧
    value.PointsInto target

/-- A block that some values lead to, directly or through cells. -/
def Reachable (heap : Heap δ) (values : List (Value δ)) (target : Nat) : Prop :=
  ∃ value ∈ values, ∃ source, value.PointsInto source ∧ Reaches heap.Links source target

/-- A block that can be reached from some values, or one that is allocated between two heaps. -/
def Touchable (heap : Heap δ) (values : List (Value δ)) (next : Heap δ) (target : Nat) : Prop :=
  heap.Reachable values target ∨ heap target = none ∧ next target ≠ none

@[simp]
theorem put_same (heap : Heap δ) (place : Nat) (block : Block δ) :
    heap.put place block place = some block := by
  simp [put]

@[simp]
theorem put_other (heap : Heap δ) {place other : Nat} (block : Block δ)
    (distinct : other ≠ place) : heap.put place block other = heap other := by
  simp [put, distinct]

/-- Values and cells that never point into some blocks do not lead there. -/
theorem not_reachable {heap : Heap δ} {values : List (Value δ)} (hidden : Nat → Prop)
    (apart : ∀ value ∈ values, ∀ block, hidden block → ¬ value.PointsInto block)
    (unlinked : ∀ source block, hidden block → ¬ heap.Links source block) (target : Nat)
    (hides : hidden target) : ¬ heap.Reachable values target := by
  rintro ⟨value, member, source, points, reached⟩
  refine reached.mem_of_closed (fun block => ¬ hidden block) ?_ ?_ hides
  · exact fun hides => apart value member source hides points
  · exact fun node next _ linked hides => unlinked node next hides linked

/-- An allocation adds no link. -/
theorem links_of_put_blank {heap : Heap δ} {place source target : Nat}
    (linked : (heap.put place .blank).Links source target) : heap.Links source target := by
  obtain ⟨block, offset, value, present, held, points⟩ := linked
  by_cases same : source = place
  · rw [same, put_same] at present
    cases present
    cases held
  · rw [put_other heap _ same] at present
    exact ⟨block, offset, value, present, held, points⟩

/-- Freeing a block adds no link. -/
theorem links_of_put_release {heap : Heap δ} {place source target : Nat} {block : Block δ}
    (present : heap place = some block)
    (linked : (heap.put place block.release).Links source target) : heap.Links source target := by
  obtain ⟨found, offset, value, stored, held, points⟩ := linked
  by_cases same : source = place
  · rw [same, put_same] at stored
    cases stored
    exact ⟨block, offset, value, same ▸ present, held, points⟩
  · rw [put_other heap _ same] at stored
    exact ⟨found, offset, value, stored, held, points⟩

/-- Writing a value adds at most the links of that value. -/
theorem links_of_put_write {heap : Heap δ} {place source target : Nat} {block : Block δ}
    {offset : Int} {written : Value δ} (present : heap place = some block)
    (linked : (heap.put place (block.write offset written)).Links source target) :
    heap.Links source target ∨ written.PointsInto target := by
  obtain ⟨found, cell, value, stored, held, points⟩ := linked
  by_cases same : source = place
  · rw [same, put_same] at stored
    cases stored
    simp only [Block.write] at held
    split at held
    · cases held
      exact .inr points
    · exact .inl ⟨block, cell, value, same ▸ present, held, points⟩
  · rw [put_other heap _ same] at stored
    exact .inl ⟨found, cell, value, stored, held, points⟩

end Heap

end ProgramGraphs.Execution
