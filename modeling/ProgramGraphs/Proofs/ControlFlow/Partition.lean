import Mathlib.Data.List.Chain
import Mathlib.Order.Monotone.Defs
import ProgramGraphs.Proofs.ControlFlow.Label

/-! # Blocks share out the body

Every entry of a body is at an offset in one section, and a label is at the head of its section
(`exists_start_of_label`). A section without a label begins after a terminator, so what follows a
label in the body is in the section under it. So the blocks take up the instructions in order, the
labels head blocks in order, and the blocks that no label heads are named apart from all others
(`blocks_partition`).
-/

namespace ProgramGraphs

namespace Section

/-- A section ends with a terminator. -/
def EndsBlock (content : Section) : Prop :=
  ∃ last, content.instructions.getLast? = some last ∧ last.isTerminator = true

/-- A section is followed by one with a label, unless a terminator ends it. -/
def Precedes (content next : Section) : Prop :=
  next.label.isSome = true ∨ content.EndsBlock

theorem head?_cut_label (name : String) (instructions : List Instruction) (body : List Item) :
    ∀ first ∈ (cut ⟨some name, instructions⟩ body).head?, first.label = some name := by
  induction body generalizing instructions with
  | nil =>
    rintro first ⟨⟩
    rfl
  | cons item rest ih =>
    cases item with
    | label other =>
      rintro first ⟨⟩
      rfl
    | instruction operation =>
      rw [cut]
      split
      · rintro first ⟨⟩
        rfl
      · exact ih _

theorem isChain_cut (opened : Section) (body : List Item) :
    (cut opened body).IsChain Precedes := by
  induction body generalizing opened with
  | nil =>
    rw [cut, kept]
    split
    · exact .nil
    · exact .singleton _
  | cons item rest ih =>
    cases item with
    | label name =>
      rw [cut, kept]
      split
      · exact ih _
      · refine List.isChain_cons.mpr ⟨fun next first => .inl ?_, ih _⟩
        rw [head?_cut_label name [] rest next first]
        rfl
    | instruction operation =>
      rw [cut]
      split
      · next ends =>
        refine List.isChain_cons.mpr ⟨fun next _ => .inr ⟨operation, ?_, ends⟩, ih _⟩
        simp [append]
      · exact ih _

theorem isChain_ofBody (body : List Item) : (ofBody body).IsChain Precedes := by
  rw [ofBody]
  split
  · exact .singleton _
  · exact isChain_cut _ _

theorem ofBody_ne_nil (body : List Item) : ofBody body ≠ [] := by
  rw [ofBody]
  split
  · exact List.cons_ne_nil _ _
  · next some => exact some

theorem start_mono (sections : List Section) : Monotone (start sections) := by
  intro first second le
  have front : sections.take first <+: sections.take second := List.take_prefix_take_left le
  exact (front.flatMap items).length_le

theorem start_lt_start {sections : List Section} {first second : Nat} {content : Section}
    (here : sections[first]? = some content) (present : content.items ≠ [])
    (less : first < second) : start sections first < start sections second := by
  have size := List.length_pos_iff.mpr present
  have next := start_mono sections less
  rw [start_succ here] at next
  omega

/-- Different sections of a body start at different positions. -/
theorem start_inj {body : List Item} (nonempty : body ≠ []) {first second : Nat}
    {content other : Section} (here : (ofBody body)[first]? = some content)
    (there : (ofBody body)[second]? = some other)
    (same : start (ofBody body) first = start (ofBody body) second) : first = second := by
  have present {index : Nat} {content : Section} (here : (ofBody body)[index]? = some content) :=
    items_ne_nil_of_mem_ofBody nonempty (List.mem_of_getElem? here)
  rcases Nat.lt_trichotomy first second with less | equal | less
  · exact absurd same (Nat.ne_of_lt (start_lt_start here (present here) less))
  · exact equal
  · exact absurd same.symm (Nat.ne_of_lt (start_lt_start there (present there) less))

/-- An entry of some sections is at an offset in one of them. -/
theorem exists_offset {sections : List Section} {position : Nat}
    (inside : position < (sections.flatMap items).length) : ∃ index content offset,
      sections[index]? = some content ∧ offset < content.items.length ∧
        position = start sections index + offset := by
  induction sections generalizing position with
  | nil => simp at inside
  | cons first rest ih =>
    rcases Nat.lt_or_ge position first.items.length with here | beyond
    · exact ⟨0, first, position, rfl, here, by simp [start]⟩
    · rw [List.flatMap_cons, List.length_append] at inside
      have later : position - first.items.length < (rest.flatMap items).length := by omega
      obtain ⟨index, content, offset, found, within, same⟩ := ih later
      refine ⟨index + 1, content, offset, found, within, ?_⟩
      have start_cons : start (first :: rest) (index + 1) =
          first.items.length + start rest index := by simp [start]
      omega

theorem getElem?_items_of_label {content : Section} {name : String}
    (named : content.label = some name) : content.items[0]? = some (.label name) := by
  rw [items, named]
  rfl

/-- The first entry alone of a section may be a label. -/
theorem eq_zero_of_label {content : Section} {offset : Nat} {name : String}
    (listed : content.items[offset]? = some (.label name)) : offset = 0 := by
  rw [items] at listed
  cases offset with
  | zero => rfl
  | succ offset =>
    cases labelled : content.label with
    | none => simp [labelled] at listed
    | some other => simp [labelled] at listed

/-- A label is where the section under it starts. -/
theorem exists_start_of_label {body : List Item} {position : Nat} {name : String}
    (listed : body[position]? = some (.label name)) : ∃ index content,
      (ofBody body)[index]? = some content ∧ content.label = some name ∧
        start (ofBody body) index = position := by
  have inside := (List.getElem?_eq_some_iff.mp listed).1
  rw [← congrArg List.length (flatMap_items_ofBody body)] at inside
  obtain ⟨index, content, offset, here, within, rfl⟩ := exists_offset inside
  rw [getElem?_body here within] at listed
  obtain rfl := eq_zero_of_label listed
  exact ⟨index, content, here,
    label_eq_of_mem_items (List.mem_of_getElem? listed) rfl, (Nat.add_zero _).symm⟩

theorem label_at_start {body : List Item} {index : Nat} {content : Section} {name : String}
    (here : (ofBody body)[index]? = some content) (named : content.label = some name) :
    body[start (ofBody body) index]? = some (.label name) := by
  have first := getElem?_items_of_label named
  rw [← first]
  exact getElem?_body here (List.getElem?_eq_some_iff.mp first).1

/-- The entries before a section are those of the sections before it. -/
theorem take_start {body : List Item} {index : Nat} {content : Section}
    (here : (ofBody body)[index]? = some content) :
    body.take (start (ofBody body) index) = ((ofBody body).take index).flatMap items := by
  refine (congrArg (List.take _) (body_eq here)).trans ?_
  rw [start, List.append_assoc, List.take_left]

/-- The section under a label starts with the instruction after the label, if that is one. -/
theorem head?_instructions_of_label {body : List Item} {index : Nat} {content : Section}
    {name : String} (here : (ofBody body)[index]? = some content)
    (named : content.label = some name) : content.instructions.head? =
      body[start (ofBody body) index + 1]?.bind Item.instruction? := by
  have shape : content.items = .label name :: content.instructions.map .instruction := by
    rw [items, named]
    rfl
  cases taken : content.instructions with
  | cons operation rest =>
    have within : 1 < content.items.length := by simp [shape, taken]
    rw [getElem?_body here within, shape, taken]
    rfl
  | nil =>
    have next := start_succ here
    rw [shape, taken, List.map_nil, List.length_singleton] at next
    rw [← next, List.head?_nil]
    cases after : (ofBody body)[index + 1]? with
    | none =>
      have last : (ofBody body).length ≤ index + 1 := List.getElem?_eq_none_iff.mp after
      have beyond := start_mono (ofBody body) last
      rw [start_length] at beyond
      rw [List.getElem?_eq_none beyond]
      rfl
    | some following =>
      obtain ⟨within, rfl⟩ := List.getElem?_eq_some_iff.mp after
      obtain ⟨inside, rfl⟩ := List.getElem?_eq_some_iff.mp here
      rcases List.isChain_iff_getElem.mp (isChain_ofBody body) index within with
        labelled | ⟨last, final, -⟩
      · obtain ⟨other, named⟩ := Option.isSome_iff_exists.mp labelled
        rw [label_at_start after named]
        rfl
      · rw [taken] at final
        cases final

end Section

namespace Function

/-- The positions of a body at which there are labels. -/
def labelPositions (function : Function) : Set Nat :=
  {position | ∃ name, function.body[position]? = some (.label name)}

/-- The label at a position of a body is that of a block. The block starts with the instruction
after the label, if there is one, and the blocks before it take up the instructions before it. -/
structure Heads (function : Function) (position : Nat) (name : String) (index : Nat)
    (block : Block) : Prop where
  listed : function.body[position]? = some (.label name)
  found : function.blocks[index]? = some block
  named : block.label = name
  starts : block.instructions.head? = function.body[position + 1]?.bind Item.instruction?
  before : (function.blocks.take index).flatMap (·.instructions) =
    (function.body.take position).filterMap Item.instruction?

theorem map_instructions_blocks (function : Function) :
    function.blocks.map (·.instructions) =
      (Section.ofBody function.body).map (·.instructions) := by
  refine List.ext_getElem? fun index => ?_
  rw [List.getElem?_map, List.getElem?_map, function.getElem?_blocks, Option.map_map]
  rfl

theorem flatMap_instructions_take_blocks (function : Function) (index : Nat) :
    (function.blocks.take index).flatMap (·.instructions) =
      (((Section.ofBody function.body).take index).flatMap Section.items).filterMap
        Item.instruction? := by
  rw [List.filterMap_flatMap, List.flatMap_def, List.flatMap_def, List.map_take,
    map_instructions_blocks, ← List.map_take]
  simp

/-- Every label of a body heads the block of the section that starts there. -/
theorem exists_heads {function : Function} {position : Nat} {name : String}
    (listed : function.body[position]? = some (.label name)) : ∃ index block,
      function.Heads position name index block ∧
        Section.start (Section.ofBody function.body) index = position := by
  obtain ⟨index, content, here, named, rfl⟩ := Section.exists_start_of_label listed
  obtain ⟨block, found, same, labelled⟩ := ControlFlow.block_of_section here
  refine ⟨index, block, ⟨listed, found, labelled name named, ?_, ?_⟩, rfl⟩
  · rw [same]
    exact Section.head?_instructions_of_label here named
  · rw [flatMap_instructions_take_blocks, ← Section.take_start here]

/-- Positions of labels are taken to the blocks of the sections that start there. -/
structure Locates (function : Function) (under : Nat → Nat) : Prop where
  heads : ∀ position ∈ function.labelPositions, ∀ name,
    function.body[position]? = some (.label name) →
      ∃ block, function.Heads position name (under position) block
  starts : ∀ position ∈ function.labelPositions,
    Section.start (Section.ofBody function.body) (under position) = position

theorem exists_locates (function : Function) : ∃ under, function.Locates under := by
  have located : ∀ position ∈ function.labelPositions, ∃ index,
      (∀ name, function.body[position]? = some (.label name) →
        ∃ block, function.Heads position name index block) ∧
      Section.start (Section.ofBody function.body) index = position := by
    rintro position ⟨name, listed⟩
    obtain ⟨index, block, heading, starts⟩ := exists_heads listed
    refine ⟨index, fun other there => ⟨block, ?_⟩, starts⟩
    cases listed.symm.trans there
    exact heading
  choose! under heads starts using located
  exact ⟨under, heads, starts⟩

section Locates

variable {function : Function} {under : Nat → Nat}

/-- Later labels head later blocks. -/
theorem Locates.strictMonoOn (locates : function.Locates under) :
    StrictMonoOn under function.labelPositions := by
  intro first firstIn second secondIn less
  by_contra! le
  have back := Section.start_mono (Section.ofBody function.body) le
  rw [locates.starts first firstIn, locates.starts second secondIn] at back
  exact absurd less (Nat.not_lt.mpr back)

/-- A block that no label heads has the first of its generated names that is not declared. -/
theorem Locates.label_of_headless (locates : function.Locates under) {index : Nat} {block : Block}
    (found : function.blocks[index]? = some block)
    (headless : index ∉ under '' function.labelPositions) :
    block.label = freshName (Section.generatedName index) function.declaredLabels := by
  rw [function.getElem?_blocks, Option.map_eq_some_iff] at found
  obtain ⟨content, here, rfl⟩ := found
  cases named : content.label with
  | none => rw [Block.ofSection, named, function.declaredLabels_eq, Option.getD_none]
  | some name =>
    -- the label of the section would head the block
    have listed := Section.label_at_start here named
    have inside : Section.start (Section.ofBody function.body) index ∈ function.labelPositions :=
      ⟨name, listed⟩
    obtain ⟨block, heading⟩ := locates.heads _ inside name listed
    obtain ⟨other, there, -, -⟩ := ControlFlow.section_of_block heading.found
    have nonempty : function.body ≠ [] := by
      intro nothing
      rw [nothing] at listed
      cases listed
    exact absurd ⟨_, inside, Section.start_inj nonempty there here (locates.starts _ inside)⟩
      headless

end Locates

/-- The blocks take up all instructions in order, with terminators only at their ends. The labels
are those of blocks in the same order, each right before the first instruction of its block. The
other blocks have generated names, which are declared by no label and differ from each other. -/
theorem blocks_partition (function : Function) :
    function.blocks ≠ [] ∧
    function.blocks.flatMap (·.instructions) = function.instructions ∧
    (∀ block ∈ function.blocks, ∀ instruction ∈ block.instructions.dropLast,
      instruction.isTerminator = false) ∧
    ∃ under : Nat → Nat,
      (∀ position name, function.body[position]? = some (.label name) →
        ∃ block, function.Heads position name (under position) block) ∧
      StrictMonoOn under function.labelPositions ∧
      ∀ index block, function.blocks[index]? = some block →
        index ∉ under '' function.labelPositions →
          (∃ underscores, block.label = Section.generatedName index underscores ∧
            ∀ fewer < underscores,
              Section.generatedName index fewer ∈ function.declaredLabels) ∧
          block.label ∉ function.declaredLabels ∧
          ∀ other rival, function.blocks[other]? = some rival →
            other ∉ under '' function.labelPositions → other ≠ index →
              rival.label ≠ block.label := by
  obtain ⟨under, locates⟩ := function.exists_locates
  refine ⟨?blocks, ?instructions, ?straight, under, ?labels, locates.strictMonoOn, ?names⟩
  case blocks =>
    have nonempty := Section.ofBody_ne_nil function.body
    rwa [← List.length_pos_iff, length_blocks, List.length_pos_iff]
  case instructions =>
    have whole := function.flatMap_instructions_take_blocks function.blocks.length
    rwa [List.take_length, length_blocks, List.take_length, Section.flatMap_items_ofBody] at whole
  case straight =>
    intro block member
    obtain ⟨index, found⟩ := List.getElem?_of_mem member
    obtain ⟨content, here, same, -⟩ := ControlFlow.section_of_block found
    rw [same]
    exact Section.isStraight_of_mem_ofBody (List.mem_of_getElem? here)
  case labels =>
    exact fun position name listed => locates.heads position ⟨name, listed⟩ name listed
  case names =>
    intro index block found headless
    rw [locates.label_of_headless found headless]
    refine ⟨⟨_, rfl, fun fewer => mem_of_lt_freshIndex⟩,
      Section.freshName_generatedName_notMem _ _, fun other rival there apart distinct => ?_⟩
    rw [locates.label_of_headless there apart]
    exact fun same => distinct (Section.generatedName_inj.mp same).1

end Function

end ProgramGraphs
