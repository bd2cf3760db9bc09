import ProgramGraphs.Proofs.AliasClass
import ProgramGraphs.Proofs.Escape.Settling

/-! # Copies do not hide escapes

A pointer that is copied from variable to variable, each declared a pointer, is in one alias class
with all of them. So where the last of them is returned, stored or passed to where it may escape,
the pointer is reported to escape (`copies_escape`). A copy into a variable that is nowhere declared
is not merged, and hides an escape (`undeclared_copy_hides`).
-/

namespace ProgramGraphs

namespace Function

/-- No declaration of a variable says that it is anything but a pointer. -/
def DeclaresNoData (function : Function) (name : String) : Prop :=
  ∀ typing ∈ function.typings, typing.1 = name → typing.2.isPointer = true

/-- Some declaration gives the type of a variable. -/
def Declares (function : Function) (name : String) : Prop :=
  name ∈ function.typings.map (·.1)

/-- An instruction may copy a variable to another. -/
def Copies (function : Function) (source target : String) : Prop :=
  ∃ instruction ∈ function.instructions,
    instruction.dest = some target ∧ source ∈ instruction.copiedArgs

instance (function : Function) (name : String) : Decidable (function.DeclaresNoData name) :=
  inferInstanceAs (Decidable (∀ typing ∈ function.typings, _))

instance (function : Function) (name : String) : Decidable (function.Declares name) :=
  inferInstanceAs (Decidable (name ∈ _))

instance (function : Function) (source target : String) :
    Decidable (function.Copies source target) :=
  inferInstanceAs (Decidable (∃ instruction ∈ function.instructions, _))

/-- Copies from variable to variable, each of them to a variable that is allowed. -/
inductive CopyChain (function : Function) (allowed : String → Prop) (source : String) :
    String → Prop
  | start : CopyChain function allowed source source
  | copy {middle target : String} : CopyChain function allowed source middle →
      function.Copies middle target → allowed target → CopyChain function allowed source target

variable {function : Function}

theorem mem_typings_of_typeOf? {name : String} {type : ValueType}
    (declared : function.typeOf? name = some type) : (name, type) ∈ function.typings := by
  obtain ⟨before, after, cut, _⟩ := List.lookup_eq_some_iff.mp declared
  rw [← List.mem_reverse, cut]
  simp

theorem mayPoint_of_declaresNoData {name : String} (noData : function.DeclaresNoData name) :
    function.mayPoint name = true := by
  unfold mayPoint
  cases declared : function.typeOf? name with
  | none => rfl
  | some type => exact noData _ (mem_typings_of_typeOf? declared) rfl

theorem declaresPointer_of_declares {name : String} (noData : function.DeclaresNoData name)
    (declares : function.Declares name) : function.declaresPointer name = true := by
  unfold declaresPointer
  cases declared : function.typeOf? name with
  | none =>
    obtain ⟨typing, member, rfl⟩ := List.mem_map.mp declares
    have missed := List.lookup_eq_none_iff.mp declared typing (List.mem_reverse.mpr member)
    simp at missed
  | some type => exact noData _ (mem_typings_of_typeOf? declared) rfl

/-- Copies into declared pointers stay in one alias class. -/
theorem CopyChain.sameClass {source last : String}
    (chain : function.CopyChain
      (fun name => function.DeclaresNoData name ∧ function.Declares name) source last) :
    function.aliasClasses.sameClass last source = true := by
  induction chain with
  | start => rw [AliasClasses.sameClass_iff]
  | copy _ copies allowed ih =>
    obtain ⟨instruction, member, dest, copied⟩ := copies
    have link := mem_copyLinks_iff.mpr ⟨instruction, member, dest,
      declaresPointer_of_declares allowed.1 allowed.2, copied⟩
    have joined := AliasClasses.sameClass_ofLinks link
    rw [AliasClasses.sameClass_iff] at ih joined ⊢
    exact joined.trans ih

end Function

/-- An argument escapes where a function with a body is reported to let it escape, or where the
policy says so of a function without one. -/
def EscapeContext.Receives (context : EscapeContext) (report : EscapeReport) (callee : String)
    (position : Nat) : Prop :=
  report.parameterEscapes callee position = true ∨
    context.module.program.defines callee = false ∧ context.policy callee position = true

/-- The operands through which what they hold leaves a function, by position. -/
inductive EscapeContext.LeaksAt (context : EscapeContext) (pointsTo : PointsTo)
    (report : EscapeReport) (function : String) (instruction : Instruction) : Nat → Prop
  | returned {position : Nat} : instruction.opcode = .ret →
      LeaksAt context pointsTo report function instruction position
  | stored : instruction.opcode = .store →
      LeaksAt context pointsTo report function instruction 1
  | called {callee : String} {position : Nat} : instruction.opcode = .call →
      instruction.funcs.head? = some callee → context.Receives report callee position →
        LeaksAt context pointsTo report function instruction position
  | calledThrough {callee : String} {position : Nat} : instruction.opcode = .icall →
      callee ∈ pointsTo.targets function instruction → context.Receives report callee position →
        LeaksAt context pointsTo report function instruction (position + 1)
  | unresolved {position : Nat} : instruction.opcode = .icall →
      pointsTo.targets function instruction = [] →
        LeaksAt context pointsTo report function instruction (position + 1)

/-- Some use of a variable lets what it holds leave a function. -/
def EscapeContext.Leaks (context : EscapeContext) (pointsTo : PointsTo) (report : EscapeReport)
    (function : Function) (name : String) : Prop :=
  ∃ instruction ∈ function.instructions, ∃ position, instruction.args[position]? = some name ∧
    context.LeaksAt pointsTo report function.name instruction position

namespace EscapeContext

variable {context : EscapeContext} {summaries : EscapeSummaries} {report : EscapeReport}
variable {pointsTo : PointsTo} {function : Function}

/-- A report that gives the analyses of all functions under settled summaries. -/
structure Reports (context : EscapeContext) (summaries : EscapeSummaries) (report : EscapeReport) :
    Prop where
  functions_eq : report.functions = context.module.functions.map (context.analyse summaries)
  names_eq : summaries.names = context.module.functions.map (·.name)
  settled : ∀ function ∈ context.module.functions, context.Settled summaries function

namespace Reports

/-- What a report says of a name is the analysis of the function of that name. -/
theorem function?_eq (reports : context.Reports summaries report) (name : String) :
    report.function? name =
      (context.module.program.function? name).map (context.analyse summaries) := by
  rw [EscapeReport.function?, reports.functions_eq, List.find?_map]
  rfl

theorem passedTo? (reports : context.Reports summaries report) {callee : String}
    {position : Nat} (receives : context.Receives report callee position) :
    (summaries.passedTo? context.policy callee position).isSome := by
  unfold EscapeSummaries.passedTo?
  rcases receives with escapes | ⟨undefined, escapes⟩
  · rw [EscapeReport.parameterEscapes, reports.function?_eq] at escapes
    cases found : context.module.program.function? callee with
    | none => simp [found] at escapes
    | some target =>
      obtain ⟨member, rfl⟩ := function?_eq_some found
      rw [found, Option.map_some, Option.bind_some, reports.settled target member] at escapes
      rw [EscapeSummaries.find?_eq_of_mem (reports.names_eq ▸ List.mem_map_of_mem member)]
      dsimp only
      rw [escapes]
      rfl
  · have unknown : callee ∉ summaries.names := by
      rw [reports.names_eq]
      rintro member
      obtain ⟨target, inside, rfl⟩ := List.mem_map.mp member
      rw [CallGraph.defines_of_mem inside] at undefined
      cases undefined
    rw [(EscapeSummaries.find?_eq_none_iff _ _).mpr unknown]
    dsimp only
    rw [escapes]
    rfl

/-- The analysis knows a reason for every leak. -/
theorem reason? (reports : context.Reports summaries report)
    (describes : context.calls.Describes context.module.program pointsTo)
    (member : function ∈ context.module.functions) {site position : Nat}
    {instruction : Instruction} {name : String}
    (here : function.instructions[site]? = some instruction)
    (listed : instruction.args[position]? = some name)
    (leaks : context.LeaksAt pointsTo report function.name instruction position) :
    (context.reason? summaries function.name site instruction position).isSome := by
  have targets (operation : instruction.opcode = .icall) :
      ((context.calls.siteAt? function.name site).map (·.targets)).getD [] =
        pointsTo.targets function.name instruction := by
    have nonempty : instruction.args ≠ [] := by
      rintro empty
      simp [empty] at listed
    have noted := describes.site_eq function member site instruction here
    simp only [CallGraph.siteOf?, operation, List.isEmpty_iff, nonempty, if_false,
      Except.ok.injEq] at noted
    rw [← noted]
    rfl
  unfold EscapeContext.reason?
  cases leaks with
  | returned operation => simp [operation]
  | stored operation => simp [operation]
  | called operation head receives =>
    simp only [operation, head, Option.bind_some]
    exact reports.passedTo? receives
  | unresolved operation none => simp [operation, targets operation, none]
  | @calledThrough callee position operation reached receives =>
    simp only [operation, targets operation, Nat.succ_ne_zero, if_false]
    split
    · rfl
    · rw [List.findSome?_isSome_iff]
      exact ⟨callee, reached, reports.passedTo? receives⟩

/-- A tracked pointer with a use that escapes is reported to escape. -/
theorem escapes?_of_escapes (reports : context.Reports summaries report)
    (current : context.module.Current) (member : function ∈ context.module.functions)
    {pointer : String} (tracked : pointer ∈ function.tracked.map (·.1)) {site position : Nat}
    {instruction : Instruction} {arg : String}
    (escapes : context.Escapes summaries function pointer site instruction position arg) :
    report.escapes? function.name pointer = some true := by
  rw [EscapeReport.escapes?, reports.function?_eq, current.function_eq member]
  cases found : (context.analyse summaries function).pointers.find? (·.name == pointer) with
  | none =>
    have missed := find?_key_eq_none_iff.mp found
    rw [analyse, List.map_map] at missed
    exact absurd tracked missed
  | some held =>
    have named := List.find?_some found
    obtain ⟨⟨name, origin⟩, _, rfl⟩ := List.mem_map.mp (List.mem_of_find?_eq_some found)
    obtain rfl : name = pointer := eq_of_beq named
    have escaping := (escapes_iff summaries function name origin).mpr
      ⟨site, instruction, position, arg, escapes⟩
    simp [found, escaping]

end Reports

/-- A tracked pointer is reported to escape where copies into declared pointers take it to a use
that lets it leave its function. -/
theorem copies_escape {name : String} {program : Program} {module : Module} {pointsTo : PointsTo}
    {calls : CallGraph} (policy : EscapePolicy)
    (loads : Attempt.Yields (Module.ofProgram name program Pass.defaults) module)
    (builds : Attempt.Yields (CallGraph.ofProgram module.program pointsTo) calls) :
    ∃ report, Attempt.Yields (run ⟨module, calls, policy⟩) report ∧
      ∀ function ∈ module.functions, ∀ pointer ∈ function.tracked.map (·.1), ∀ last,
        function.DeclaresNoData pointer →
          function.CopyChain (fun name => function.DeclaresNoData name ∧ function.Declares name)
            pointer last →
          (⟨module, calls, policy⟩ : EscapeContext).Leaks pointsTo report function last →
            report.escapes? function.name pointer = some true := by
  have current := (Module.ofProgram_defaults loads).2
  have describes := CallGraph.describes_ofProgram current.distinct builds
  have ordered : (⟨module, calls, policy⟩ : EscapeContext).Ordered :=
    ordered_of_describes current describes
  obtain ⟨summaries, yields, names, settled⟩ := exists_run ordered
  refine ⟨_, yields, fun function member pointer tracked last noData chain leaks => ?_⟩
  have reports : (⟨module, calls, policy⟩ : EscapeContext).Reports summaries
      ⟨module.name, module.functions.map (analyse ⟨module, calls, policy⟩ summaries)⟩ :=
    ⟨rfl, names, settled⟩
  obtain ⟨instruction, inside, position, listed, leaksAt⟩ := leaks
  obtain ⟨site, here⟩ := List.mem_iff_getElem?.mp inside
  have lastNoData : function.DeclaresNoData last := by
    cases chain with
    | start => exact noData
    | copy _ _ allowed => exact allowed.1
  exact reports.escapes?_of_escapes current member tracked
    { instruction_eq := here
      arg_eq := listed
      mayPoint := Function.mayPoint_of_declaresNoData lastNoData
      sameClass := by
        rw [current.aliasesOf_eq member]
        exact chain.sameClass
      reason := reports.reason? describes member here listed leaksAt }

/-- A function that returns a copy of what it allocates; the copy is of the given type, or of
none. -/
def returnsCopy (type : Option ValueType) : Function where
  name := "f"
  body :=
    [.instruction { name := "const", dest := some "n", type := some (.named "int") },
      .instruction { name := "alloc", dest := some "a", type := some (.pointer (.named "int")),
                     args := ["n"] },
      .instruction { name := "id", dest := some "b", type := type, args := ["a"] },
      .instruction { name := "ret", args := ["b"] }]

/-- The module of a function that the default passes leave alone. -/
def moduleOf (function : Function) : Module :=
  ⟨"m", ⟨[function], []⟩, [(function.name, function.aliasClasses)]⟩

/-- Indirect calls may reach nothing that is known. -/
def noTargets : PointsTo :=
  ⟨"none", fun _ _ => []⟩

theorem returnsCopy_loads (type : Option ValueType) :
    Attempt.Yields (Module.ofProgram "m" ⟨[returnsCopy type], []⟩ Pass.defaults)
      (moduleOf (returnsCopy type)) :=
  rfl

theorem exists_calls_returnsCopy (type : Option ValueType) : ∃ calls,
    Attempt.Yields (CallGraph.ofProgram (moduleOf (returnsCopy type)).program noTargets) calls :=
  ⟨_, rfl⟩

theorem returnsCopy_leaks (type : Option ValueType) :
    context.Leaks noTargets report (returnsCopy type) "b" := by
  refine ⟨{ name := "ret", args := ["b"] }, ?_, 0, rfl, .returned (by decide)⟩
  simp [returnsCopy, Function.instructions, Item.instruction?]

/-- The allocation escapes through a copy that is declared a pointer. -/
theorem copies_escape_returnsCopy :
    ∃ calls report,
      Attempt.Yields (run ⟨moduleOf (returnsCopy (some (.pointer (.named "int")))), calls,
        fun _ _ => false⟩) report ∧
        report.escapes? "f" "a" = some true := by
  obtain ⟨calls, builds⟩ := exists_calls_returnsCopy (some (.pointer (.named "int")))
  obtain ⟨report, yields, escapes⟩ :=
    copies_escape (fun _ _ => false) (returnsCopy_loads _) builds
  have copied : (returnsCopy (some (.pointer (.named "int")))).Copies "a" "b" := by decide
  exact ⟨calls, report, yields, escapes _ List.mem_cons_self "a" (by decide) "b" (by decide)
    (.copy .start copied (by decide)) (returnsCopy_leaks _)⟩

/-- A copy into a variable that is nowhere declared hides that what is copied is returned. -/
theorem undeclared_copy_hides :
    ¬ ∀ (name : String) (program : Program) (module : Module) (pointsTo : PointsTo)
      (calls : CallGraph) (policy : EscapePolicy),
      Attempt.Yields (Module.ofProgram name program Pass.defaults) module →
        Attempt.Yields (CallGraph.ofProgram module.program pointsTo) calls →
          ∃ report, Attempt.Yields (run ⟨module, calls, policy⟩) report ∧
            ∀ function ∈ module.functions, ∀ pointer ∈ function.tracked.map (·.1), ∀ last,
              function.DeclaresNoData pointer →
                function.CopyChain function.DeclaresNoData pointer last →
                  (⟨module, calls, policy⟩ : EscapeContext).Leaks pointsTo report function last →
                    report.escapes? function.name pointer = some true := by
  intro copiesEscape
  obtain ⟨calls, builds⟩ := exists_calls_returnsCopy none
  obtain ⟨report, yields, escapes⟩ :=
    copiesEscape _ _ _ _ _ (fun _ _ => false) (returnsCopy_loads none) builds
  have copied : (returnsCopy none).Copies "a" "b" := by decide
  have claimed := escapes _ List.mem_cons_self "a" (by decide) "b" (by decide)
    (.copy .start copied (by decide)) (returnsCopy_leaks none)
  -- whatever the summaries are, the copy is alone in its alias class
  rw [run, Attempt.yields_bind_iff] at yields
  obtain ⟨summaries, _, ends⟩ := yields
  rw [Attempt.yields_pure_iff] at ends
  subst ends
  have missed : (⟨"m", [analyse ⟨moduleOf (returnsCopy none), calls, fun _ _ => false⟩ summaries
      (returnsCopy none)]⟩ : EscapeReport).escapes? "f" "a" = some false := rfl
  exact absurd (missed.symm.trans claimed) (by decide)

end EscapeContext

end ProgramGraphs
