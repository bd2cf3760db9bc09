import ProgramGraphs.Proofs.Promotion.Memory

/-! # Promotion preserves execution

Every step of a function is answered by the promoted function: a step that accesses no slot by the
same step, a load or store of a slot by a copy, an allocation or a free of a slot by nothing
(`Simulates.step`). By induction every run is answered by a run (`Simulates.run`) that differs in
nothing but the accesses and the copies that replace them.
-/

namespace ProgramGraphs

/-- Whether promotion leaves an entry of a body as it is. -/
def Slot.isUntouched (slots : List Slot) : Item → Bool
  | .label _ => true
  | .instruction operation => (accessed? slots operation).isNone

/-- Whether an entry copies into or out of the variable of a slot. -/
def Slot.isCellCopy (slots : List Slot) : Item → Bool
  | .label _ => false
  | .instruction operation => operation.opcode == .id && slots.any fun slot =>
      operation.dest == some slot.cell || operation.args == [slot.cell]

namespace Execution

variable {δ : Type}

/-- What is left of the promoted body. -/
def Control.promote (slots : List Slot) : Control δ → Control δ
  | .running rest => .running (rest.filterMap (Slot.replaceIn slots))
  | .returned value => .returned value

namespace Mirrors

variable {function : Function} {owner : Ownership}
variable {machine : Machine δ} {state mirror : State δ}

theorem mem_args_of_operands? {passed : List String} {instruction : Instruction}
    {operands : List String} (read : machine.operands? passed instruction = some operands) :
    ∀ name ∈ operands, name ∈ instruction.args := by
  unfold Machine.operands? at read
  split at read
  · simp only [Option.bind_eq_bind, Option.bind_eq_some_iff, Option.pure_def,
      Option.some.injEq] at read
    obtain ⟨index, _, operand, present, rfl⟩ := read
    intro name member
    rw [List.mem_singleton.mp member]
    exact List.mem_of_getElem? present
  · cases read
    exact fun name member => member

/-- An instruction without a pointer of a slot among its operands reads the same on both sides. -/
theorem reads (mirrors : Mirrors function owner state.env state.heap mirror.env mirror.heap)
    (passed : mirror.passed = state.passed) {instruction : Instruction}
    (apart : ∀ pointer ∈ function.slotPointers, pointer ∉ instruction.args)
    {values : List (Value δ)} (reads : machine.Reads state instruction values) :
    machine.Reads mirror instruction values ∧ ∀ value ∈ values, owner.Hides value := by
  obtain ⟨operands, read, defined⟩ := reads
  have noPointer : ∀ name ∈ operands, name ∉ function.slotPointers := fun name member isPointer =>
    apart name isPointer (mem_args_of_operands? read name member)
  have both : List.Forall₂
      (fun name value => owner.Hides value ∧ mirror.env name = some value) operands values := by
    refine ((List.forall₂_and_left _ _).mpr ⟨noPointer, defined⟩).imp ?_
    rintro name value ⟨noPointer, holds⟩
    refine ⟨mirrors.variable_hides name noPointer value holds, ?_⟩
    rw [mirrors.visible name noPointer (mirrors.notMem_slotCells holds), holds]
  have flipped : List.Forall₂
      (fun value name => owner.Hides value ∧ mirror.env name = some value) values operands :=
    both.flip
  exact ⟨⟨operands, passed ▸ read, both.imp fun _ _ => And.right⟩,
    ((List.forall₂_and_left values operands).mp flipped).1⟩

/-- A block that no variable and no cell points into is as unused on the other side. -/
theorem unused (mirrors : Mirrors function owner state.env state.heap mirror.env mirror.heap)
    {place : Nat} (unused : state.Unused place) : mirror.Unused place := by
  have unowned : owner place = none := by
    by_contra owned
    exact mirrors.allocated place owned unused.absent
  refine ⟨?absent, ?variable_apart, ?cell_apart⟩
  case absent => rw [mirrors.heap_unowned place unowned, unused.absent]
  case variable_apart =>
    intro name value holds
    by_cases isPointer : name ∈ function.slotPointers
    · rw [mirrors.pointer_undefined name isPointer] at holds
      cases holds
    · by_cases isCell : name ∈ function.slotCells
      · obtain ⟨slot, inside, rfl⟩ := List.mem_map.mp isCell
        obtain ⟨found, block, _, present, held⟩ := mirrors.content_source slot inside value holds
        exact fun points => unused.cell_apart found ⟨block, 0, value, present, held, points⟩
      · rw [mirrors.visible name isPointer isCell] at holds
        exact unused.variable_apart name value holds
  case cell_apart =>
    rintro source ⟨block, offset, value, present, held, points⟩
    by_cases sourceOwned : owner source = none
    · rw [mirrors.heap_unowned source sourceOwned] at present
      exact unused.cell_apart source ⟨block, offset, value, present, held, points⟩
    · rw [mirrors.heap_owned source sourceOwned] at present
      cases present

/-- A block that a hidden value points into is there on both sides. -/
theorem present_iff (mirrors : Mirrors function owner state.env state.heap mirror.env mirror.heap)
    {place : Nat} {offset : Int} (hides : owner.Hides (.address place offset : Value δ)) :
    owner place = none ∧ mirror.heap place = state.heap place := by
  have unowned : owner place = none := by
    by_contra owned
    exact hides place owned ⟨offset, rfl⟩
  exact ⟨unowned, mirrors.heap_unowned place unowned⟩

/-- Putting a block that is not owned happens on both sides. -/
theorem put (mirrors : Mirrors function owner state.env state.heap mirror.env mirror.heap)
    {place : Nat} {block : Block δ} (unowned : owner place = none)
    (hidden : ∀ other, owner other ≠ none → ∀ source,
      ¬ (state.heap.put place block).Links source other) :
    Mirrors function owner state.env (state.heap.put place block) mirror.env
      (mirror.heap.put place block) := by
  have different : ∀ other, owner other ≠ none → other ≠ place := by
    rintro other owned rfl
    exact owned unowned
  refine mirrors.advance ?_ hidden ?_ ?_
  · exact fun other owned => Heap.put_other _ _ (different other owned)
  · intro other unowned
    by_cases same : other = place
    · rw [same, Heap.put_same, Heap.put_same]
    · rw [Heap.put_other _ _ same, Heap.put_other _ _ same, mirrors.heap_unowned other unowned]
  · intro other owned
    rw [Heap.put_other _ _ (different other owned), mirrors.heap_owned other owned]

/-- The operations that a machine gives do not see which blocks are owned. -/
theorem compute (mirrors : Mirrors function owner state.env state.heap mirror.env mirror.heap)
    {instruction : Instruction} {values : List (Value δ)} {result : Option (Value δ)}
    {next : Heap δ} (hidden : ∀ value ∈ values, owner.Hides value)
    (happens : machine.effect instruction values state.heap result next) :
    ∃ mirrorNext, machine.effect instruction values mirror.heap result mirrorNext ∧
      Mirrors function owner state.env next mirror.env mirrorNext ∧
        ∀ value, result = some value → owner.Hides value := by
  have untouchable : ∀ place, owner place ≠ none → ¬ state.heap.Touchable values next place := by
    rintro place owned (reachable | ⟨absent, _⟩)
    · exact Heap.not_reachable (owner · ≠ none) hidden
        (fun source block owned => mirrors.cell_hides block owned source) place owned reachable
    · exact mirrors.allocated place owned absent
  have framed := machine.frame instruction values state.heap result next happens
  obtain ⟨mirrorNext, mirrorHappens, agree⟩ :=
    machine.transfer instruction values state.heap result next mirror.heap happens
      (fun place reachable => mirrors.heap_unowned place <| by
        by_contra owned
        exact untouchable place owned (.inl reachable))
      (fun place absent _ => by
        rw [mirrors.heap_unowned place, absent]
        by_contra owned
        exact mirrors.allocated place owned absent)
  refine ⟨mirrorNext, mirrorHappens, mirrors.advance ?kept ?hidden ?same ?absent, ?result⟩
  case kept => exact fun place owned => framed place (untouchable place owned)
  case hidden =>
    intro place owned source linked
    by_cases touchable : state.heap.Touchable values next source
    · exact untouchable place owned (machine.link_touchable instruction values state.heap result
        next happens source place touchable linked)
    · obtain ⟨block, offset, value, present, held, points⟩ := linked
      rw [framed source touchable] at present
      exact mirrors.cell_hides place owned source ⟨block, offset, value, present, held, points⟩
  case same =>
    intro place unowned
    by_cases touchable : state.heap.Touchable values next place
    · exact (agree place).1 touchable
    · rw [(agree place).2 touchable, framed place touchable, mirrors.heap_unowned place unowned]
  case absent =>
    intro place owned
    rw [(agree place).2 (untouchable place owned), mirrors.heap_owned place owned]
  case result =>
    rintro value rfl place owned points
    exact untouchable place owned (machine.result_touchable instruction values state.heap value
      next happens place points)

/-- What an instruction does that reads nothing owned happens on both sides. -/
theorem acts (mirrors : Mirrors function owner state.env state.heap mirror.env mirror.heap)
    {instruction : Instruction} {values : List (Value δ)} {result : Option (Value δ)}
    {next : Heap δ} (hidden : ∀ value ∈ values, owner.Hides value)
    (acts : machine.Acts state instruction values result next) :
    ∃ mirrorNext, machine.Acts mirror instruction values result mirrorNext ∧
      Mirrors function owner state.env next mirror.env mirrorNext ∧
        ∀ value, result = some value → owner.Hides value := by
  cases acts with
  | @alloc _ place operation unused =>
    have unowned : owner place = none := by
      by_contra owned
      exact mirrors.allocated place owned unused.absent
    refine ⟨_, .alloc operation (mirrors.unused unused), mirrors.put unowned ?_, ?_⟩
    · exact fun other owned source linked =>
        mirrors.cell_hides other owned source (Heap.links_of_put_blank linked)
    · rintro _ ⟨⟩ other owned ⟨offset, same⟩
      cases same
      exact owned unowned
  | @free place offset block others operation present =>
    obtain ⟨unowned, same⟩ := mirrors.present_iff (hidden _ List.mem_cons_self)
    refine ⟨_, .free operation (same ▸ present), mirrors.put unowned ?_, fun _ none => nomatch none⟩
    exact fun other owned source linked =>
      mirrors.cell_hides other owned source (Heap.links_of_put_release present linked)
  | @load place offset block value others operation present live held =>
    obtain ⟨_, same⟩ := mirrors.present_iff (hidden _ List.mem_cons_self)
    refine ⟨_, .load operation (same ▸ present) live held, mirrors, ?_⟩
    rintro _ ⟨⟩
    exact mirrors.hides_of_held present held
  | @store place offset block value others operation present =>
    obtain ⟨unowned, same⟩ := mirrors.present_iff (hidden _ List.mem_cons_self)
    refine ⟨_, .store operation (same ▸ present), mirrors.put unowned ?_,
      fun _ none => nomatch none⟩
    intro other owned source linked
    rcases Heap.links_of_put_write present linked with linked | points
    · exact mirrors.cell_hides other owned source linked
    · exact hidden value (by simp) other owned points
  | @copy value others operation =>
    refine ⟨_, .copy operation, mirrors, ?_⟩
    rintro _ ⟨⟩
    exact hidden value List.mem_cons_self
  | compute operation happens =>
    obtain ⟨mirrorNext, mirrorHappens, kept, hides⟩ := mirrors.compute hidden happens
    exact ⟨mirrorNext, .compute operation mirrorHappens, kept, hides⟩

theorem not_isCellCopy
    (mirrors : Mirrors function owner state.env state.heap mirror.env mirror.heap)
    {instruction : Instruction} (inside : instruction ∈ function.instructions)
    {values : List (Value δ)} (reads : machine.Reads state instruction values) :
    Slot.isCellCopy function.slots (.instruction instruction) = false := by
  rw [← Bool.not_eq_true, Slot.isCellCopy, Bool.and_eq_true, beq_iff_eq]
  rintro ⟨operation, touches⟩
  simp only [List.any_eq_true, Bool.or_eq_true, beq_iff_eq] at touches
  obtain ⟨slot, slotInside, assigned | args⟩ := touches
  · exact Function.notMem_slotCells_of_dest inside assigned (List.mem_map_of_mem slotInside)
  · obtain ⟨operands, read, defined⟩ := reads
    simp only [Machine.operands?, operation, args, Option.some.injEq] at read
    subst read
    cases defined with
    | cons holds _ => exact mirrors.notMem_slotCells holds (List.mem_map_of_mem slotInside)

end Mirrors

/-- A state of a function and the state of the promoted function that answers to it. -/
structure Simulates (function : Function) (owner : Ownership) (state mirror : State δ) : Prop where
  inside : ∀ rest, state.control = .running rest → ∀ item ∈ rest, item ∈ function.body
  control : mirror.control = state.control.promote function.slots
  passed : mirror.passed = state.passed
  mirrors : Mirrors function owner state.env state.heap mirror.env mirror.heap

/-- A run of the promoted function that answers a step or a run. -/
def Answered (machine : Machine δ) (function : Function) (mirror : State δ)
    (observed : List (Observation δ)) (next : State δ) : Prop :=
  ∃ owner answer later, Run machine function.promote.body mirror answer later ∧
    Simulates function owner next later ∧
      answer.filter (fun seen => !Slot.isCellCopy function.slots seen.item) =
        observed.filter fun seen => Slot.isUntouched function.slots seen.item

theorem resume?_subset {name : String} {body onward : List Item}
    (found : Item.resume? name body = some onward) : ∀ item ∈ onward, item ∈ body := by
  induction body with
  | nil => cases found
  | cons item rest ih =>
    rw [Item.resume?] at found
    split at found
    · cases found
      exact fun _ member => member
    · exact fun other member => List.mem_cons_of_mem _ (ih found other member)

theorem replaceIn_instruction {slots : List Slot} {operation : Instruction} {replaced : Item}
    (becomes : Slot.replaceIn slots (.instruction operation) = some replaced) :
    replaced.label? = none := by
  rw [Slot.replaceIn] at becomes
  split at becomes
  · cases becomes
    rfl
  · obtain ⟨_, _, rfl⟩ := Option.map_eq_some_iff.mp becomes
    rfl

/-- Promotion keeps the labels in their places. -/
theorem resume?_promote {slots : List Slot} {name : String} {body onward : List Item}
    (found : Item.resume? name body = some onward) :
    Item.resume? name (body.filterMap (Slot.replaceIn slots)) =
      some (onward.filterMap (Slot.replaceIn slots)) := by
  induction body with
  | nil => cases found
  | cons item rest ih =>
    cases item with
    | label other =>
      have kept : Slot.replaceIn slots (.label other) = some (.label other) := rfl
      rw [List.filterMap_cons_some kept, Item.resume?]
      rw [Item.resume?] at found
      split at found
      · next here =>
        cases found
        rw [if_pos here, List.filterMap_cons_some kept]
      · next elsewhere =>
        rw [if_neg elsewhere]
        exact ih found
    | instruction operation =>
      rw [Item.resume?, if_neg (by simp [Item.label?])] at found
      cases becomes : Slot.replaceIn slots (.instruction operation) with
      | none =>
        rw [List.filterMap_cons_none becomes]
        exact ih found
      | some replaced =>
        rw [List.filterMap_cons_some becomes, Item.resume?,
          if_neg (by simp [replaceIn_instruction becomes])]
        exact ih found

namespace Simulates

variable {function : Function} {owner : Ownership} {machine : Machine δ}
variable {state mirror : State δ} {instruction : Instruction} {rest : List Item}
variable {values : List (Value δ)}

theorem mem_instructions (simulates : Simulates function owner state mirror)
    (here : state.control = .running (.instruction instruction :: rest)) :
    instruction ∈ function.instructions :=
  List.mem_filterMap.mpr ⟨_, simulates.inside _ here _ List.mem_cons_self, rfl⟩

theorem rest_inside (simulates : Simulates function owner state mirror) {item : Item}
    (here : state.control = .running (item :: rest)) : ∀ other ∈ rest, other ∈ function.body :=
  fun other member => simulates.inside _ here other (List.mem_cons_of_mem _ member)

/-- What is left of the promoted body before an entry that becomes another. -/
theorem control_of_replaceIn (simulates : Simulates function owner state mirror)
    {item replaced : Item} (here : state.control = .running (item :: rest))
    (becomes : Slot.replaceIn function.slots item = some replaced) : mirror.control =
      .running (replaced :: rest.filterMap (Slot.replaceIn function.slots)) := by
  rw [simulates.control, here, Control.promote, List.filterMap_cons_some becomes]

/-- What is left of the promoted body before an entry that goes away. -/
theorem control_of_dropped (simulates : Simulates function owner state mirror)
    {item : Item} (here : state.control = .running (item :: rest))
    (becomes : Slot.replaceIn function.slots item = none) : mirror.control =
      .running (rest.filterMap (Slot.replaceIn function.slots)) := by
  rw [simulates.control, here, Control.promote, List.filterMap_cons_none becomes]

theorem reads_of_untouched (simulates : Simulates function owner state mirror)
    (here : state.control = .running (.instruction instruction :: rest))
    (untouched : Slot.accessed? function.slots instruction = none)
    (reads : machine.Reads state instruction values) :
    mirror.control = .running (.instruction instruction ::
        rest.filterMap (Slot.replaceIn function.slots)) ∧
      machine.Reads mirror instruction values ∧ ∀ value ∈ values, owner.Hides value := by
  have inside := simulates.mem_instructions here
  have becomes : Slot.replaceIn function.slots (.instruction instruction) =
      some (.instruction instruction) := by
    rw [Slot.replaceIn, untouched]
  exact ⟨simulates.control_of_replaceIn here becomes, simulates.mirrors.reads simulates.passed
    (fun _ member => Function.notMem_args_of_untouched inside untouched member) reads⟩

/-- A step that accesses no slot is answered by the same step. -/
theorem answered_of_same (simulates : Simulates function owner state mirror)
    (here : state.control = .running (.instruction instruction :: rest))
    (untouched : Slot.accessed? function.slots instruction = none)
    (reads : machine.Reads state instruction values) {next later : State δ}
    (step : Step machine function.promote.body mirror ⟨.instruction instruction, values⟩ later)
    (kept : Simulates function owner next later) :
    Answered machine function mirror [⟨.instruction instruction, values⟩] next := by
  refine ⟨owner, _, later, .next step (.done later), kept, ?_⟩
  have visible := simulates.mirrors.not_isCellCopy (simulates.mem_instructions here) reads
  simp [visible, Slot.isUntouched, untouched]

theorem jump (simulates : Simulates function owner state mirror) {onward : List Item}
    {name : String} (here : state.control = .running (.instruction instruction :: rest))
    (reads : machine.Reads state instruction values)
    (goes : machine.target? instruction values = some name)
    (resumes : Item.resume? name function.body = some onward) :
    Answered machine function mirror [⟨.instruction instruction, values⟩]
      { state with control := .running onward } := by
  have untouched : Slot.accessed? function.slots instruction = none := by
    rw [Function.accessed?_eq_none_iff, Instruction.pointer?]
    unfold Machine.target? at goes
    split at goes
    · next operation => simp [operation]
    · next operation => simp [operation]
    · cases goes
  obtain ⟨mirrorHere, mirrorReads, _⟩ := simulates.reads_of_untouched here untouched reads
  refine simulates.answered_of_same here untouched reads
    (.jump mirrorHere mirrorReads goes (resume?_promote resumes))
    ⟨?_, rfl, simulates.passed, simulates.mirrors⟩
  rintro _ ⟨⟩
  exact resume?_subset resumes

theorem leave (simulates : Simulates function owner state mirror)
    (here : state.control = .running (.instruction instruction :: rest))
    (reads : machine.Reads state instruction values) (operation : instruction.opcode = .ret) :
    Answered machine function mirror [⟨.instruction instruction, values⟩]
      { state with control := .returned values.head? } := by
  have untouched : Slot.accessed? function.slots instruction = none := by
    simp [Function.accessed?_eq_none_iff, Instruction.pointer?, operation]
  obtain ⟨mirrorHere, mirrorReads, _⟩ := simulates.reads_of_untouched here untouched reads
  refine simulates.answered_of_same here untouched reads (.leave mirrorHere mirrorReads operation)
    ⟨?_, rfl, simulates.passed, simulates.mirrors⟩
  rintro _ ⟨⟩

theorem act_of_untouched (simulates : Simulates function owner state mirror)
    (here : state.control = .running (.instruction instruction :: rest))
    (untouched : Slot.accessed? function.slots instruction = none)
    (reads : machine.Reads state instruction values) {result : Option (Value δ)} {next : Heap δ}
    (acts : machine.Acts state instruction values result next) :
    Answered machine function mirror [⟨.instruction instruction, values⟩]
      { state with
        control := .running rest
        env := state.env.assign instruction.dest result
        heap := next } := by
  have inside := simulates.mem_instructions here
  obtain ⟨mirrorHere, mirrorReads, hidden⟩ := simulates.reads_of_untouched here untouched reads
  obtain ⟨mirrorNext, mirrorActs, kept, hides⟩ := simulates.mirrors.acts hidden acts
  refine simulates.answered_of_same here untouched reads (.act mirrorHere mirrorReads mirrorActs)
    ⟨?_, rfl, simulates.passed, kept.assign ?_ hides⟩
  · rintro _ ⟨⟩
    exact simulates.rest_inside here
  · exact fun name => Function.dest_apart inside untouched

/-- An access to a slot that goes away is answered by nothing. -/
theorem answered_of_dropped (simulates : Simulates function owner state mirror)
    (here : state.control = .running (.instruction instruction :: rest)) {slot : Slot}
    (accessed : Slot.accessed? function.slots instruction = some slot)
    (dropped : slot.replaceAccess instruction = none) {nextOwner : Ownership}
    {env : Environment δ} {heap : Heap δ}
    (kept : Mirrors function nextOwner env heap mirror.env mirror.heap) :
    Answered machine function mirror [⟨.instruction instruction, values⟩]
      { state with control := .running rest, env := env, heap := heap } := by
  have becomes : Slot.replaceIn function.slots (.instruction instruction) = none := by
    rw [Slot.replaceIn, accessed]
    exact Option.map_eq_none_iff.mpr dropped
  refine ⟨nextOwner, [], mirror, .done mirror, ⟨?_, ?_, simulates.passed, kept⟩, ?_⟩
  · rintro _ ⟨⟩
    exact simulates.rest_inside here
  · exact simulates.control_of_dropped here becomes
  · simp [Slot.isUntouched, accessed]

/-- An access to a slot that becomes a copy is answered by the copy. -/
theorem answered_of_copy (simulates : Simulates function owner state mirror)
    (here : state.control = .running (.instruction instruction :: rest)) {slot : Slot}
    (accessed : Slot.accessed? function.slots instruction = some slot) {dest operand : String}
    {type : ValueType} (copies : slot.replaceAccess instruction = some (.copy dest type operand))
    (touches : dest = slot.cell ∨ operand = slot.cell) {value : Value δ}
    (holds : mirror.env operand = some value) {env : Environment δ} {heap : Heap δ}
    (kept : Mirrors function owner env heap (mirror.env.assign (some dest) (some value))
      mirror.heap) :
    Answered machine function mirror [⟨.instruction instruction, values⟩]
      { state with control := .running rest, env := env, heap := heap } := by
  have becomes : Slot.replaceIn function.slots (.instruction instruction) =
      some (.instruction (.copy dest type operand)) := by
    rw [Slot.replaceIn, accessed]
    exact congrArg (Option.map Item.instruction) copies
  have reads : machine.Reads mirror (.copy dest type operand) [value] :=
    ⟨[operand], rfl, .cons holds .nil⟩
  have inside := ((Function.accessed?_eq_some_iff instruction slot).mp accessed).1
  refine ⟨owner, _, _, .next (.act (simulates.control_of_replaceIn here becomes) reads
    (.copy (.inl rfl))) (.done _), ⟨?_, rfl, simulates.passed, kept⟩, ?_⟩
  · rintro _ ⟨⟩
    exact simulates.rest_inside here
  · have copied : Slot.isCellCopy function.slots (.instruction (.copy dest type operand)) =
        true := by
      rw [Slot.isCellCopy, Bool.and_eq_true]
      exact ⟨rfl, List.any_eq_true.mpr ⟨slot, inside, by simpa [Instruction.copy] using touches⟩⟩
    simp [Slot.isUntouched, accessed, copied]

theorem act_of_accessed (simulates : Simulates function owner state mirror)
    (here : state.control = .running (.instruction instruction :: rest)) {slot : Slot}
    (accessed : Slot.accessed? function.slots instruction = some slot)
    (reads : machine.Reads state instruction values) {result : Option (Value δ)} {next : Heap δ}
    (acts : machine.Acts state instruction values result next) :
    Answered machine function mirror [⟨.instruction instruction, values⟩]
      { state with
        control := .running rest
        env := state.env.assign instruction.dest result
        heap := next } := by
  have mirrors := simulates.mirrors
  have inside := simulates.mem_instructions here
  obtain ⟨slotInside, _⟩ := (Function.accessed?_eq_some_iff instruction slot).mp accessed
  have isPointer : slot.pointer ∈ function.slotPointers := List.mem_map_of_mem slotInside
  obtain ⟨operands, read, defined⟩ := reads
  cases Function.access_of_accessed? inside accessed with
  | alloc operation dest =>
    obtain ⟨place, unused, rfl, rfl⟩ := acts.of_alloc operation
    rw [dest]
    exact simulates.answered_of_dropped here accessed (Slot.replaceAccess_alloc operation)
      (mirrors.allocate slotInside unused.absent unused.variable_apart unused.cell_apart)
  | free operation args =>
    obtain ⟨place, offset, block, others, rfl, present, rfl, rfl⟩ := acts.of_free operation
    rw [Machine.operands?, operation, args] at read
    cases read
    cases defined with
    | cons holds _ =>
      have owns := (mirrors.owner_eq isPointer holds).1
      rw [Environment.assign_none]
      exact simulates.answered_of_dropped here accessed (Slot.replaceAccess_free operation)
        (mirrors.release (by simp [owns]) present)
  | @load dest operation args assigned noPointer =>
    obtain ⟨place, offset, block, value, others, rfl, present, held, rfl, rfl⟩ :=
      acts.of_load operation
    rw [Machine.operands?, operation, args] at read
    cases read
    cases defined with
    | cons holds _ =>
      obtain ⟨owns, rfl⟩ := mirrors.owner_eq isPointer holds
      have stored := mirrors.content slot slotInside place block value holds present held
      refine simulates.answered_of_copy here accessed (Slot.replaceAccess_load operation assigned)
        (.inr rfl) stored ?_
      rw [assigned]
      refine mirrors.assign ?_ ?_
      · rintro _ ⟨⟩
        exact ⟨noPointer, Function.notMem_slotCells_of_dest inside assigned⟩
      · rintro _ ⟨⟩
        exact mirrors.hides_of_held present held
  | @store stored operation args noPointer =>
    obtain ⟨place, offset, block, value, others, rfl, present, rfl, rfl⟩ :=
      acts.of_store operation
    rw [Machine.operands?, operation, args] at read
    cases read
    cases defined with
    | cons holds rest =>
      cases rest with
      | cons storedHolds _ =>
        obtain ⟨owns, rfl⟩ := mirrors.owner_eq isPointer holds
        have visible : mirror.env stored = some value := by
          rw [mirrors.visible stored noPointer (mirrors.notMem_slotCells storedHolds), storedHolds]
        rw [Environment.assign_none]
        exact simulates.answered_of_copy here accessed (Slot.replaceAccess_store operation args)
          (.inl rfl) visible (mirrors.write slotInside holds present
            (mirrors.variable_hides stored noPointer value storedHolds))

theorem label (simulates : Simulates function owner state mirror) {name : String}
    (here : state.control = .running (.label name :: rest)) :
    Answered machine function mirror [⟨.label name, []⟩]
      { state with control := .running rest, passed := name :: state.passed } := by
  refine ⟨owner, _, _, .next (.label (simulates.control_of_replaceIn here rfl)) (.done _),
    ⟨?_, rfl, ?_, simulates.mirrors⟩, rfl⟩
  · rintro _ ⟨⟩
    exact simulates.rest_inside here
  · rw [simulates.passed]

/-- The promoted function answers every step. -/
theorem step (simulates : Simulates function owner state mirror) {seen : Observation δ}
    {next : State δ} (step : Step machine function.body state seen next) :
    Answered machine function mirror [seen] next := by
  cases step with
  | label here => exact simulates.label here
  | jump here reads goes resumes => exact simulates.jump here reads goes resumes
  | leave here reads operation => exact simulates.leave here reads operation
  | @act instruction _ _ _ _ here reads acts =>
    cases accessed : Slot.accessed? function.slots instruction with
    | none => exact simulates.act_of_untouched here accessed reads acts
    | some slot => exact simulates.act_of_accessed here accessed reads acts

/-- The promoted function answers every run. -/
theorem run (simulates : Simulates function owner state mirror) {observed : List (Observation δ)}
    {final : State δ} (run : Run machine function.body state observed final) :
    Answered machine function mirror observed final := by
  induction run generalizing owner mirror with
  | done state => exact ⟨owner, [], mirror, .done mirror, simulates, rfl⟩
  | @next state middle final seen observed first _ ih =>
    obtain ⟨_, answer, later, answers, simulates, same⟩ := simulates.step first
    obtain ⟨owner, others, last, onward, simulates, sameOthers⟩ := ih simulates
    refine ⟨owner, answer ++ others, last, answers.append onward, simulates, ?_⟩
    rw [List.filter_append, same, sameOthers, ← List.filter_append]
    rfl

end Simulates

end Execution

namespace Function

open Execution

/-- Promotion preserves meaning: whatever run a function has, the promoted function has a run with
the same labels, terminators and other instructions that access no slot, executed on the same values
in the same order. It stands at the same place, has returned the same value, and agrees on all
variables but the pointers to slots and the variables that replace slots, which hold what can be
loaded through the pointers. -/
theorem promote_preserves_runs {δ : Type} (machine : Machine δ) (function : Function)
    (arguments : Environment δ) (heap : Heap δ) (observed : List (Observation δ)) (final : State δ)
    (run : Run machine function.body (function.enter arguments heap) observed final) :
    ∃ answer later,
      Run machine function.promote.body (function.promote.enter arguments heap) answer later ∧
        answer.filter (fun seen => !Slot.isCellCopy function.slots seen.item) =
          observed.filter (fun seen => Slot.isUntouched function.slots seen.item) ∧
        later.control = final.control.promote function.slots ∧
        later.passed = final.passed ∧
        (∀ name, name ∉ function.slotPointers → name ∉ function.slotCells →
          later.env name = final.env name) ∧
        ∀ slot ∈ function.slots, ∀ place block value,
          final.env slot.pointer = some (.address place 0) → final.heap place = some block →
            block.cells 0 = some value → later.env slot.cell = some value := by
  have entered : Simulates function (fun _ => none) (function.enter arguments heap)
      (function.promote.enter arguments heap) := by
    refine ⟨?_, rfl, rfl, .enter function arguments heap⟩
    rintro _ ⟨⟩
    exact fun _ member => member
  obtain ⟨_, answer, later, answers, simulates, same⟩ := entered.run run
  exact ⟨answer, later, answers, same, simulates.control, simulates.passed,
    simulates.mirrors.visible, simulates.mirrors.content⟩

/-- A machine that knows constants and no other operation on data. A phi takes the operand of the
block before. -/
def constantMachine : Machine Json.Value where
  truth
    | .data (.bool value) => some value
    | _ => none
  choose passed instruction := passed[1]?.bind fun previous => instruction.labels.idxOf? previous
  effect instruction _ heap result next :=
    instruction.opcode = .const ∧ result = instruction.value.map .data ∧ next = heap
  frame := by
    rintro _ _ heap _ _ ⟨_, _, rfl⟩ place _
    rfl
  result_touchable := by
    rintro instruction _ _ value _ ⟨_, same, _⟩ place ⟨offset, rfl⟩
    cases literal : instruction.value <;> simp [literal] at same
  link_touchable := by
    rintro _ _ heap _ _ ⟨_, _, rfl⟩ source target (reachable | ⟨absent, present⟩) linked
    · obtain ⟨value, member, start, points, reached⟩ := reachable
      exact .inl ⟨value, member, start, points, reached.trans (.single linked)⟩
    · exact absurd absent present
  transfer := by
    rintro _ _ heap _ _ other ⟨operation, result, rfl⟩ same _
    refine ⟨other, ⟨operation, result, rfl⟩, fun place => ⟨?_, fun _ => rfl⟩⟩
    rintro (reachable | ⟨absent, present⟩)
    · exact same place reachable
    · exact absurd absent present

/-- A function that returns what it has stored in a slot. -/
def throughSlot : Function where
  name := "f"
  returnType := some (.named "bool")
  body := [
    .instruction
      { name := "const", dest := some "x", type := some (.named "bool"),
        value := some (.bool true) },
    .instruction
      { name := "alloc", dest := some "p", type := some (.pointer (.named "bool")), args := ["x"] },
    .instruction { name := "store", args := ["p", "x"] },
    .instruction { name := "load", dest := some "y", type := some (.named "bool"), args := ["p"] },
    .instruction { name := "free", args := ["p"] },
    .instruction { name := "ret", args := ["y"] }]

theorem exists_run_throughSlot : ∃ observed final,
    Run constantMachine throughSlot.body (throughSlot.enter (fun _ => none) fun _ => none)
      observed final ∧ final.control = .returned (some (.data (.bool true))) := by
  refine ⟨_, _, .next (.act rfl ⟨_, rfl, .nil⟩ (.compute rfl ⟨rfl, rfl, rfl⟩))
    (.next (.act rfl ⟨_, rfl, .cons rfl .nil⟩ (.alloc rfl (show State.Unused _ 0 from ?unused)))
    (.next (.act rfl ⟨_, rfl, .cons rfl (.cons rfl .nil)⟩ (.store rfl rfl))
    (.next (.act rfl ⟨_, rfl, .cons rfl .nil⟩ (.load rfl rfl rfl rfl))
    (.next (.act rfl ⟨_, rfl, .cons rfl .nil⟩ (.free rfl rfl))
    (.next (.leave rfl ⟨_, rfl, .cons rfl .nil⟩ rfl) (.done _)))))), rfl⟩
  refine ⟨rfl, ?_, ?_⟩
  · intro name value holds
    change (throughSlot.enter (fun _ => none) fun _ => none).env.assign (some "x")
      (some (.data (.bool true))) name = some value at holds
    rcases Environment.assign_cases holds with ⟨same, _⟩ | undefined
    · cases same
      rintro ⟨_, ⟨⟩⟩
    · simp [enter, throughSlot] at undefined
  · rintro source ⟨_, _, _, absent, _⟩
    cases absent

/-- The promoted function returns the same value without memory. -/
theorem promote_preserves_runs_throughSlot : ∃ observed final,
    Run constantMachine throughSlot.body (throughSlot.enter (fun _ => none) fun _ => none)
        observed final ∧
      ∃ answer later, Run constantMachine throughSlot.promote.body
          (throughSlot.promote.enter (fun _ => none) fun _ => none) answer later ∧
        later.control = .returned (some (.data (.bool true))) := by
  obtain ⟨observed, final, run, returned⟩ := exists_run_throughSlot
  obtain ⟨answer, later, answers, _, control, _⟩ :=
    promote_preserves_runs constantMachine throughSlot _ _ observed final run
  refine ⟨observed, final, run, answer, later, answers, ?_⟩
  rw [control, returned]
  rfl

end Function

end ProgramGraphs
