import ProgramGraphs.Proofs.Escape.Summary

/-! # One analysis of a function

What an analysis finds depends on the summaries of the functions that are called (`analyse_congr`).
The more is known to escape there, the more is found, also in a context that is wider: one with a
laxer policy or with coarser alias classes (`Below.parameters_within`).
-/

namespace ProgramGraphs.EscapeContext

variable {context wider : EscapeContext} {summaries others : EscapeSummaries}

/-- A function that an instruction is known to call. -/
def Calls (context : EscapeContext) (function : String) (site : Nat) (instruction : Instruction)
    (callee : String) : Prop :=
  instruction.opcode = .call ∧ instruction.funcs.head? = some callee ∨
    instruction.opcode = .icall ∧
      callee ∈ ((context.calls.siteAt? function site).map (·.targets)).getD []

theorem reason?_congr {function : String} {site : Nat} {instruction : Instruction}
    (same : ∀ callee, context.Calls function site instruction callee →
      summaries.find? callee = others.find? callee) (position : Nat) :
    context.reason? summaries function site instruction position =
      context.reason? others function site instruction position := by
  have passed : ∀ callee position, context.Calls function site instruction callee →
      summaries.passedTo? context.policy callee position =
        others.passedTo? context.policy callee position := by
    intro callee position calls
    rw [EscapeSummaries.passedTo?, EscapeSummaries.passedTo?, same callee calls]
  unfold reason?
  split
  · rfl
  · rfl
  · next operation =>
    cases head : instruction.funcs.head? with
    | none => rfl
    | some callee => exact passed callee position (.inl ⟨operation, head⟩)
  · next operation =>
    split
    · rfl
    · split
      · rfl
      · refine findSome?_congr fun callee member => ?_
        exact passed callee (position - 1) (.inr ⟨operation, member⟩)
  · rfl

/-- One context is below another if it is for the same functions and calls, its policy lets no more
escape, and its alias classes merge no more variables. -/
structure Below (context wider : EscapeContext) : Prop where
  functions : context.module.functions = wider.module.functions
  calls : context.calls = wider.calls
  policy : ∀ callee position,
    context.policy callee position = true → wider.policy callee position = true
  sameClass : ∀ function a b, (context.module.aliasesOf function).sameClass a b = true →
    (wider.module.aliasesOf function).sameClass a b = true

theorem Below.refl (context : EscapeContext) : context.Below context :=
  ⟨rfl, rfl, fun _ _ => id, fun _ _ _ => id⟩

/-- The more is known to escape, the more operands escape, and no fewer in a wider context. -/
theorem Below.reason? (below : context.Below wider) (within : summaries.Within others)
    {function : String} {site : Nat} {instruction : Instruction} {position : Nat}
    (escapes : (context.reason? summaries function site instruction position).isSome) :
    (wider.reason? others function site instruction position).isSome := by
  unfold EscapeContext.reason? at escapes ⊢
  rw [← below.calls]
  split at escapes
  · rfl
  · exact escapes
  · cases head : instruction.funcs.head? with
    | none => simp [head] at escapes
    | some callee =>
      rw [head] at escapes
      exact within.passedTo? below.policy escapes
  · split at escapes
    · cases escapes
    · next later =>
      rw [if_neg later]
      split at escapes
      · rfl
      · rw [List.findSome?_isSome_iff] at escapes ⊢
        obtain ⟨callee, member, escapes⟩ := escapes
        exact ⟨callee, member, within.passedTo? below.policy escapes⟩
  · cases escapes

/-- An operand through which a tracked pointer of a function escapes. -/
structure Escapes (context : EscapeContext) (summaries : EscapeSummaries) (function : Function)
    (pointer : String) (site : Nat) (instruction : Instruction) (position : Nat) (arg : String) :
    Prop where
  instruction_eq : function.instructions[site]? = some instruction
  arg_eq : instruction.args[position]? = some arg
  mayPoint : function.mayPoint arg = true
  sameClass : (context.module.aliasesOf function.name).sameClass arg pointer = true
  reason : (context.reason? summaries function.name site instruction position).isSome

theorem escapes_iff (summaries : EscapeSummaries) (function : Function) (pointer : String)
    (origin : Origin) :
    (⟨pointer, origin, context.usesOf summaries function pointer⟩ : TrackedPointer).escapes = true ↔
      ∃ site instruction position arg,
        context.Escapes summaries function pointer site instruction position arg := by
  rw [TrackedPointer.escapes, TrackedPointer.reason?, List.findSome?_isSome_iff]
  constructor
  · rintro ⟨use, member, reason⟩
    simp only [usesOf, List.mem_flatMap, List.mem_filterMap] at member
    obtain ⟨⟨instruction, site⟩, inside, ⟨arg, position⟩, listed, selected⟩ := member
    rw [List.mem_zipIdx_iff_getElem?] at inside listed
    split at selected
    · next tracked =>
      cases selected
      rw [Bool.and_eq_true] at tracked
      exact ⟨site, instruction, position, arg, inside, listed, tracked.1, tracked.2, reason⟩
    · cases selected
  · rintro ⟨site, instruction, position, arg, inside, listed, mayPoint, sameClass, reason⟩
    refine ⟨⟨instruction.text, arg, context.reason? summaries function.name site instruction
      position⟩, ?_, reason⟩
    simp only [usesOf, List.mem_flatMap, List.mem_filterMap]
    refine ⟨(instruction, site), List.mem_zipIdx_iff_getElem?.mpr inside, (arg, position),
      List.mem_zipIdx_iff_getElem?.mpr listed, ?_⟩
    rw [mayPoint, sameClass]
    rfl

theorem analyse_congr {function : Function}
    (same : ∀ site instruction callee, function.instructions[site]? = some instruction →
      context.Calls function.name site instruction callee →
        summaries.find? callee = others.find? callee) :
    context.analyse summaries function = context.analyse others function := by
  have uses : ∀ pointer,
      context.usesOf summaries function pointer = context.usesOf others function pointer := by
    intro pointer
    refine List.flatMap_congr fun ⟨instruction, site⟩ member => ?_
    rw [List.mem_zipIdx_iff_getElem?] at member
    refine List.filterMap_congr fun ⟨arg, position⟩ _ => ?_
    dsimp only
    rw [reason?_congr (fun callee => same site instruction callee member) position]
  rw [analyse, analyse]
  simp only [uses]

theorem length_parameters (context : EscapeContext) (summaries : EscapeSummaries)
    (function : Function) :
    (context.analyse summaries function).parameters.length = function.parameters.length := by
  simp [analyse]

/-- The more is known to escape, the more tracked pointers are found to escape, and no fewer in a
wider context. -/
theorem Below.pointer_escapes (below : context.Below wider) (within : summaries.Within others)
    {function : Function} {pointer : String} {origin : Origin}
    (escapes : (⟨pointer, origin, context.usesOf summaries function pointer⟩ :
      TrackedPointer).escapes = true) :
    (⟨pointer, origin, wider.usesOf others function pointer⟩ : TrackedPointer).escapes = true := by
  rw [escapes_iff] at escapes ⊢
  obtain ⟨site, instruction, position, arg, use⟩ := escapes
  exact ⟨site, instruction, position, arg, use.instruction_eq, use.arg_eq, use.mayPoint,
    below.sameClass _ _ _ use.sameClass, below.reason? within use.reason⟩

/-- The more is known to escape, the more parameters are found to escape, and no fewer in a wider
context. -/
theorem Below.parameters_within (below : context.Below wider) (within : summaries.Within others)
    (function : Function) :
    FlagsWithin (context.analyse summaries function).parameters
      (wider.analyse others function).parameters := by
  rw [analyse, analyse]
  refine List.forall₂_map_left_iff.mpr (List.forall₂_map_right_iff.mpr
    (List.forall₂_same.mpr fun position _ escapes => ?_))
  simp only [List.any_map, List.any_eq_true, Function.comp_apply, Bool.and_eq_true] at escapes ⊢
  obtain ⟨tracked, member, isParameter, escapes⟩ := escapes
  exact ⟨tracked, member, isParameter, below.pointer_escapes within escapes⟩

end ProgramGraphs.EscapeContext
