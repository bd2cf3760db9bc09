import ProgramGraphs.Proofs.Execution.Position

/-! # Sections of a body

Cutting a body into sections loses and reorders nothing (`flatMap_items_ofBody`), and only the last
entry of a section may be a terminator. So a section stands at a position of the body, right after
the sections before it, and the position of a label is that of the section under it.
-/

namespace ProgramGraphs

namespace Section

/-- The entries of a section: its label, then its instructions. -/
def items (content : Section) : List Item :=
  (content.label.map Item.label).toList ++ content.instructions.map Item.instruction

/-- Only the last instruction of a section may be a terminator. -/
def IsStraight (content : Section) : Prop :=
  ∀ instruction ∈ content.instructions.dropLast, instruction.isTerminator = false

/-- The position at which the section of an index starts. -/
def start (sections : List Section) (index : Nat) : Nat :=
  ((sections.take index).flatMap items).length

theorem items_append (content : Section) (instruction : Instruction) :
    (content.append instruction).items = content.items ++ [.instruction instruction] := by
  simp [items, append]

theorem isVacant_iff (content : Section) : content.isVacant = true ↔ content.items = [] := by
  simp [isVacant, items, List.isEmpty_iff]

theorem flatMap_items_kept (content : Section) : content.kept.flatMap items = content.items := by
  rw [kept]
  split
  · next vacant => rw [(isVacant_iff content).mp vacant, List.flatMap_nil]
  · rw [List.flatMap_singleton]

theorem flatMap_items_cut (opened : Section) (body : List Item) :
    (cut opened body).flatMap items = opened.items ++ body := by
  induction body generalizing opened with
  | nil => rw [cut, flatMap_items_kept, List.append_nil]
  | cons item rest ih =>
    cases item with
    | label name =>
      rw [cut, List.flatMap_append, flatMap_items_kept, ih]
      rfl
    | instruction operation =>
      rw [cut]
      split
      · rw [List.flatMap_cons, ih, items_append]
        simp [items]
      · rw [ih, items_append, List.append_assoc, List.singleton_append]

/-- The entries of all sections are those of the body. -/
theorem flatMap_items_ofBody (body : List Item) : (ofBody body).flatMap items = body := by
  have whole := flatMap_items_cut ⟨none, []⟩ body
  rw [ofBody]
  split
  · next nothing =>
    rw [nothing] at whole
    exact whole
  · exact whole

/-- A property of the open section that is kept under further instructions, and that sections have
when they are closed. -/
theorem forall_mem_cut (kept : Section → Prop) {closed : Section → Prop} {opened : Section}
    {body : List Item}
    (fresh : ∀ label, kept ⟨label, []⟩)
    (onward : ∀ content instruction, kept content → instruction.isTerminator = false →
      kept (content.append instruction))
    (ends : ∀ content instruction, kept content → closed (content.append instruction))
    (stops : ∀ content, kept content → content.items ≠ [] → closed content)
    (first : kept opened) : ∀ content ∈ cut opened body, closed content := by
  have closes : ∀ content, kept content → ∀ other ∈ content.kept, closed other := by
    intro content holds other member
    rw [Section.kept] at member
    split at member
    · cases member
    · next present =>
      rw [List.mem_singleton.mp member]
      exact stops content holds fun empty => present ((isVacant_iff content).mpr empty)
  induction body generalizing opened with
  | nil => exact closes opened first
  | cons item rest ih =>
    cases item with
    | label name =>
      intro content member
      rcases List.mem_append.mp member with member | member
      · exact closes opened first content member
      · exact ih (fresh _) content member
    | instruction operation =>
      rw [cut]
      split
      · exact List.forall_mem_cons.mpr ⟨ends _ _ first, ih (fresh _)⟩
      · next straight => exact ih (onward _ _ first (eq_false_of_ne_true straight))

theorem isStraight_of_mem_ofBody {body : List Item} {content : Section}
    (member : content ∈ ofBody body) : content.IsStraight := by
  have shape : ∀ content ∈ cut ⟨none, []⟩ body, content.IsStraight := by
    refine forall_mem_cut
      (fun content => ∀ instruction ∈ content.instructions, instruction.isTerminator = false)
      ?_ ?_ ?_ ?_ (by simp)
    · simp
    · intro content instruction straight here other listed
      rcases List.mem_append.mp listed with listed | listed
      · exact straight other listed
      · rw [List.mem_singleton.mp listed]
        exact here
    · intro content instruction straight other listed
      rw [append, List.dropLast_concat] at listed
      exact straight other listed
    · exact fun content straight _ other listed => straight other (List.dropLast_subset _ listed)
  rw [ofBody] at member
  split at member
  · rw [List.mem_singleton.mp member]
    exact fun _ listed => absurd listed List.not_mem_nil
  · exact shape content member

/-- Only the section of an empty body is vacant. -/
theorem items_ne_nil_of_mem_ofBody {body : List Item} (nonempty : body ≠ []) {content : Section}
    (member : content ∈ ofBody body) : content.items ≠ [] := by
  have shape : ∀ content ∈ cut ⟨none, []⟩ body, content.items ≠ [] :=
    forall_mem_cut (fun _ => True) (fun _ => trivial) (fun _ _ _ _ => trivial)
      (fun content instruction _ => by rw [items_append]; simp) (fun _ _ present => present) trivial
  rw [ofBody] at member
  split at member
  · next nothing =>
    have whole := flatMap_items_cut ⟨none, []⟩ body
    rw [nothing] at whole
    exact absurd whole.symm nonempty
  · exact shape content member

theorem start_succ {sections : List Section} {index : Nat} {content : Section}
    (here : sections[index]? = some content) :
    start sections (index + 1) = start sections index + content.items.length := by
  rw [start, start, List.take_add_one, here]
  simp

theorem start_length (body : List Item) :
    start (ofBody body) (ofBody body).length = body.length := by
  rw [start, List.take_length, flatMap_items_ofBody]

/-- A body around one of its sections. -/
theorem body_eq {body : List Item} {index : Nat} {content : Section}
    (here : (ofBody body)[index]? = some content) :
    body = ((ofBody body).take index).flatMap items ++ content.items ++
      ((ofBody body).drop (index + 1)).flatMap items := by
  have inside := (List.getElem?_eq_some_iff.mp here)
  obtain ⟨bound, rfl⟩ := inside
  conv_lhs => rw [← flatMap_items_ofBody body, ← List.take_append_drop index (ofBody body),
    List.drop_eq_getElem_cons bound, List.flatMap_append, List.flatMap_cons]
  rw [List.append_assoc]

/-- The entry at an offset in a section. -/
theorem getElem?_body {body : List Item} {index : Nat} {content : Section}
    (here : (ofBody body)[index]? = some content) {offset : Nat}
    (inside : offset < content.items.length) :
    body[start (ofBody body) index + offset]? = content.items[offset]? := by
  refine (congrArg (·[start (ofBody body) index + offset]?) (body_eq here)).trans ?_
  rw [start, List.append_assoc, List.getElem?_append_right (Nat.le_add_right ..),
    Nat.add_sub_cancel_left, List.getElem?_append_left inside]

/-- Control passes through the entries of a section up to the first terminator. -/
theorem run_through {body : List Item} {index : Nat} {content : Section}
    (here : (ofBody body)[index]? = some content) {front rest : List Item}
    (split : content.items = front ++ rest) (straight : ∀ item ∈ front, item.isStraight = true) :
    Execution.Flat.Run body (start (ofBody body) index) (front.filterMap Item.instruction?)
      (start (ofBody body) index + front.length) := by
  have shape := body_eq here
  rw [split, ← List.append_assoc, List.append_assoc _ rest] at shape
  have run := Execution.Flat.Run.through (((ofBody body).take index).flatMap items) front
    (rest ++ ((ofBody body).drop (index + 1)).flatMap items) straight
  rwa [← shape] at run

theorem filterMap_label?_items (content : Section) :
    content.items.filterMap Item.label? = content.label.toList := by
  cases content with
  | mk label instructions =>
    have none : (instructions.map Item.instruction).filterMap Item.label? = [] := by
      simp [List.filterMap_map, Item.label?, Function.comp_def]
    cases label <;> simp [items, none, Item.label?]

@[simp] theorem filterMap_instruction?_items (content : Section) :
    content.items.filterMap Item.instruction? = content.instructions := by
  cases content with
  | mk label instructions =>
    have whole : (instructions.map Item.instruction).filterMap Item.instruction? =
        instructions := by
      simp [List.filterMap_map, Item.instruction?, Function.comp_def]
    cases label <;> simp [items, whole, Item.instruction?, List.filterMap_cons]

theorem label_eq_of_mem_items {content : Section} {item : Item} {name : String}
    (member : item ∈ content.items) (named : item.label? = some name) :
    content.label = some name := by
  have listed : name ∈ content.items.filterMap Item.label? :=
    List.mem_filterMap.mpr ⟨item, member, named⟩
  rwa [filterMap_label?_items, Option.mem_toList] at listed

theorem getLast?_items_iff (content : Section) (instruction : Instruction) :
    content.items.getLast? = some (.instruction instruction) ↔
      content.instructions.getLast? = some instruction := by
  rw [items, List.getLast?_append, List.getLast?_map]
  cases content.instructions.getLast? <;> cases content.label <;> simp

/-- Control passes straight through all entries of a section but the last. -/
theorem IsStraight.dropLast_items {content : Section} (straight : content.IsStraight) :
    ∀ item ∈ content.items.dropLast, item.isStraight = true := by
  intro item member
  cases item with
  | label name => rfl
  | instruction operation =>
    have inside : operation ∈ content.instructions.dropLast := by
      rw [items] at member
      rcases List.eq_nil_or_concat content.instructions with nothing | ⟨front, last, shape⟩
      · rw [nothing, List.map_nil, List.append_nil] at member
        simpa using List.dropLast_subset _ member
      · rw [shape] at member ⊢
        simpa using member
    simpa [Item.isStraight] using straight operation inside

/-- Control passes straight through a section whose last instruction is no terminator. -/
theorem IsStraight.of_last {content : Section} (straight : content.IsStraight)
    (ends : ∀ last, content.instructions.getLast? = some last → last.isTerminator = false) :
    ∀ item ∈ content.items, item.isStraight = true := by
  intro item member
  rcases List.eq_nil_or_concat content.items with nothing | ⟨front, last, shape⟩
  · rw [nothing] at member
    cases member
  · rw [shape, List.concat_eq_append] at member
    rcases List.mem_append.mp member with member | member
    · exact straight.dropLast_items item (by simpa [shape] using member)
    · rw [List.mem_singleton.mp member]
      cases last with
      | label name => rfl
      | instruction operation =>
        have final := (getLast?_items_iff content operation).mp (by simp [shape])
        simpa [Item.isStraight] using ends operation final

/-- The position of a label that only one section has is where the section starts. -/
theorem position?_eq {body : List Item} {index : Nat} {content : Section} {name : String}
    (here : (ofBody body)[index]? = some content) (named : content.label = some name)
    (only : ∀ other content, (ofBody body)[other]? = some content → content.label = some name →
      other = index) :
    Item.position? name body = some (start (ofBody body) index) := by
  have before : (((ofBody body).take index).flatMap items).findIdx?
      (fun item => item.label? = some name) = none := by
    rw [List.findIdx?_eq_none_iff]
    intro item member
    obtain ⟨other, early, inside⟩ := List.mem_flatMap.mp member
    obtain ⟨place, found⟩ := List.getElem?_of_mem early
    rw [List.getElem?_take] at found
    split at found
    · next earlier =>
      refine decide_eq_false fun labelled => ?_
      exact absurd (only place other found (label_eq_of_mem_items inside labelled))
        (Nat.ne_of_lt earlier)
    · cases found
  have shape : content.items = .label name :: content.instructions.map .instruction := by
    rw [items, named]
    rfl
  rw [Item.position?]
  conv_lhs => rw [body_eq here]
  rw [List.append_assoc, List.findIdx?_append, before, shape]
  simp [List.findIdx?_cons, Item.label?, start]

end Section

/-- The labels that a body declares are those of its sections, in order. -/
theorem Function.declaredLabels_eq (function : Function) :
    function.declaredLabels = (Section.ofBody function.body).filterMap (·.label) := by
  rw [declaredLabels]
  conv_lhs => rw [← Section.flatMap_items_ofBody function.body]
  rw [List.filterMap_flatMap, funext Section.filterMap_label?_items,
    List.filterMap_eq_flatMap_toList]

end ProgramGraphs
