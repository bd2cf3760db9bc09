import ProgramGraphs.Proofs.PointsTo.Facts

/-! # Inclusion constraints

Every instruction demands that some holders hold some locations (`Demands`); which ones may depend
on what is held already. A solution meets all demands of a program (`Solves`). Whatever order the
instructions are visited in, the sets only absorb what is demanded (`Derives`), so they stay within
every solution, and a visit leaves no demand of its instruction unmet.
-/

namespace ProgramGraphs

namespace Holdings

/-- A function that an instruction may call, with the operands that are passed. -/
inductive Invokes (holdings : Holdings) (function : String) (instruction : Instruction) :
    String → List String → Prop
  | direct {callee : String} : instruction.opcode = .call →
      instruction.funcs.head? = some callee →
        Invokes holdings function instruction callee instruction.args
  | indirect {pointer callee : String} {args : List String} : instruction.opcode = .icall →
      instruction.args = pointer :: args → holdings (.var function pointer) (.function callee) →
        Invokes holdings function instruction callee args

/-- What an instruction of a function demands of a holder. -/
inductive Demands (holdings : Holdings) (program : Program) (function : String) (site : Nat)
    (instruction : Instruction) : Holder → Location → Prop
  | fnaddr {dest target : String} : instruction.opcode = .fnaddr → instruction.dest = some dest →
      instruction.funcs.head? = some target →
        Demands holdings program function site instruction (.var function dest) (.function target)
  | alloc {dest : String} : instruction.opcode = .alloc → instruction.dest = some dest →
      Demands holdings program function site instruction (.var function dest)
        (.allocation function site)
  | copy {dest arg : String} {location : Location} :
      instruction.opcode = .id ∨ instruction.opcode = .phi → instruction.dest = some dest →
        arg ∈ instruction.args → holdings (.var function arg) location →
          Demands holdings program function site instruction (.var function dest) location
  | ptradd {dest base : String} {location : Location} : instruction.opcode = .ptradd →
      instruction.dest = some dest → instruction.args.head? = some base →
        holdings (.var function base) location →
          Demands holdings program function site instruction (.var function dest) location
  | load {dest pointer : String} {cell location : Location} : instruction.opcode = .load →
      instruction.dest = some dest → instruction.args.head? = some pointer →
        holdings (.var function pointer) cell → holdings (.memory cell) location →
          Demands holdings program function site instruction (.var function dest) location
  | store {pointer stored : String} {others : List String} {cell location : Location} :
      instruction.opcode = .store → instruction.args = pointer :: stored :: others →
        holdings (.var function pointer) cell → holdings (.var function stored) location →
          Demands holdings program function site instruction (.memory cell) location
  | ret {value : String} {location : Location} : instruction.opcode = .ret →
      instruction.args.head? = some value → holdings (.var function value) location →
        Demands holdings program function site instruction (.result function) location
  | pass {callee arg : String} {args : List String} {target : Function} {parameter : Parameter}
      {location : Location} : holdings.Invokes function instruction callee args →
        program.function? callee = some target → (parameter, arg) ∈ target.parameters.zip args →
          holdings (.var function arg) location →
            Demands holdings program function site instruction (.var callee parameter.name)
              location
  | deliver {callee dest : String} {args : List String} {target : Function}
      {location : Location} : holdings.Invokes function instruction callee args →
        program.function? callee = some target → instruction.dest = some dest →
          holdings (.result callee) location →
            Demands holdings program function site instruction (.var function dest) location

variable {holdings others : Holdings} {program : Program} {function : String} {site : Nat}
variable {instruction : Instruction}

theorem Invokes.mono (within : ∀ holder location, holdings holder location → others holder location)
    {callee : String} {args : List String}
    (invokes : holdings.Invokes function instruction callee args) :
    others.Invokes function instruction callee args := by
  cases invokes with
  | direct operation callee => exact .direct operation callee
  | indirect operation shape held => exact .indirect operation shape (within _ _ held)

/-- The more is held, the more is demanded. -/
theorem Demands.mono (within : ∀ holder location, holdings holder location → others holder location)
    {holder : Holder} {location : Location}
    (demands : holdings.Demands program function site instruction holder location) :
    others.Demands program function site instruction holder location := by
  cases demands with
  | fnaddr operation dest target => exact .fnaddr operation dest target
  | alloc operation dest => exact .alloc operation dest
  | copy operation dest arg held => exact .copy operation dest arg (within _ _ held)
  | ptradd operation dest base held => exact .ptradd operation dest base (within _ _ held)
  | load operation dest pointer points held =>
    exact .load operation dest pointer (within _ _ points) (within _ _ held)
  | store operation shape points held =>
    exact .store operation shape (within _ _ points) (within _ _ held)
  | ret operation value held => exact .ret operation value (within _ _ held)
  | pass invokes found listed held =>
    exact .pass (invokes.mono within) found listed (within _ _ held)
  | deliver invokes found dest held =>
    exact .deliver (invokes.mono within) found dest (within _ _ held)

theorem Invokes.opcode_eq {callee : String} {args : List String}
    (invokes : holdings.Invokes function instruction callee args) :
    instruction.opcode = .call ∨ instruction.opcode = .icall := by
  cases invokes with
  | direct operation => exact .inl operation
  | indirect operation => exact .inr operation

namespace Demands

variable {holder : Holder} {location : Location}

theorem of_alloc (operation : instruction.opcode = .alloc)
    (demands : holdings.Demands program function site instruction holder location) :
    ∃ dest, instruction.dest = some dest ∧ holder = .var function dest ∧
      location = .allocation function site := by
  cases demands with
  | alloc _ assigned => exact ⟨_, assigned, rfl, rfl⟩
  | pass invokes | deliver invokes => exact absurd invokes.opcode_eq (by simp [operation])
  | _ => simp_all

theorem of_id (operation : instruction.opcode = .id)
    (demands : holdings.Demands program function site instruction holder location) :
    ∃ dest, ∃ arg ∈ instruction.args, instruction.dest = some dest ∧
      holder = .var function dest ∧ holdings (.var function arg) location := by
  cases demands with
  | copy _ assigned listed held => exact ⟨_, _, listed, assigned, rfl, held⟩
  | pass invokes | deliver invokes => exact absurd invokes.opcode_eq (by simp [operation])
  | _ => simp_all

theorem of_load (operation : instruction.opcode = .load)
    (demands : holdings.Demands program function site instruction holder location) :
    ∃ dest pointer cell, instruction.dest = some dest ∧ instruction.args.head? = some pointer ∧
      holder = .var function dest ∧ holdings (.var function pointer) cell ∧
        holdings (.memory cell) location := by
  cases demands with
  | load _ assigned head points held => exact ⟨_, _, _, assigned, head, rfl, points, held⟩
  | pass invokes | deliver invokes => exact absurd invokes.opcode_eq (by simp [operation])
  | _ => simp_all

theorem of_store (operation : instruction.opcode = .store)
    (demands : holdings.Demands program function site instruction holder location) :
    ∃ pointer stored others cell, instruction.args = pointer :: stored :: others ∧
      holder = .memory cell ∧ holdings (.var function pointer) cell ∧
        holdings (.var function stored) location := by
  cases demands with
  | store _ shape points held => exact ⟨_, _, _, _, shape, rfl, points, held⟩
  | pass invokes | deliver invokes => exact absurd invokes.opcode_eq (by simp [operation])
  | _ => simp_all

theorem not_of_free (operation : instruction.opcode = .free) :
    ¬ holdings.Demands program function site instruction holder location := by
  intro demands
  cases demands with
  | pass invokes | deliver invokes => exact absurd invokes.opcode_eq (by simp [operation])
  | _ => simp_all

end Demands

end Holdings

/-- Every demand of every instruction of a program is met. -/
def Program.Solves (program : Program) (holdings : Holdings) : Prop :=
  ∀ function ∈ program.functions, ∀ site instruction,
    function.instructions[site]? = some instruction → ∀ holder location,
      holdings.Demands program function.name site instruction holder location →
        holdings holder location

namespace PointsToSets

variable {program : Program} {function : Function} {site : Nat} {instruction : Instruction}
variable {sets start : PointsToSets}

theorem Within.refl (sets : PointsToSets) : sets.Within sets :=
  fun _ _ => id

theorem Within.trans {first second third : PointsToSets} (one : first.Within second)
    (other : second.Within third) : first.Within third :=
  fun holder location held => other holder location (one holder location held)

theorem within_absorb (sets : PointsToSets) (holder : Holder) (added : List Location) :
    sets.Within (sets.absorb holder added) :=
  fun _ _ held => (holds_absorb_iff ..).mpr (.inl held)

/-- Sets that absorb nothing but what instructions of a program demand. -/
inductive Derives (program : Program) (start : PointsToSets) : PointsToSets → Prop
  | refl : Derives program start start
  | absorb {sets : PointsToSets} {function : Function} {site : Nat}
      {instruction : Instruction} {holder : Holder} {added : List Location} :
      Derives program start sets → function ∈ program.functions →
        function.instructions[site]? = some instruction →
        (∀ location ∈ added,
          sets.Holds.Demands program function.name site instruction holder location) →
          Derives program start (sets.absorb holder added)

namespace Derives

theorem trans {first second third : PointsToSets} (one : Derives program first second)
    (other : Derives program second third) : Derives program first third := by
  induction other with
  | refl => exact one
  | absorb _ member here demanded ih => exact .absorb ih member here demanded

theorem within (derives : Derives program start sets) : start.Within sets := by
  induction derives with
  | refl => exact .refl _
  | absorb _ _ _ _ ih => exact ih.trans (within_absorb _ _ _)

theorem proper (derives : Derives program start sets) (proper : start.Proper) : sets.Proper := by
  induction derives with
  | refl => exact proper
  | absorb _ _ _ _ ih => exact ih.absorb _ _

/-- What is derived is within every solution. -/
theorem holds_of_solves {holdings : Holdings} (derives : Derives program start sets)
    (solves : program.Solves holdings)
    (first : ∀ holder location, start.Holds holder location → holdings holder location) :
    ∀ holder location, sets.Holds holder location → holdings holder location := by
  induction derives with
  | refl => exact first
  | absorb _ member here demanded ih =>
    intro other location held
    rcases (holds_absorb_iff ..).mp held with held | ⟨rfl, added⟩
    · exact ih other location held
    · exact solves _ member _ _ here _ _ ((demanded location added).mono ih)

/-- A fold whose steps derive sets, as long as they start from sets that have grown from the
first. -/
theorem foldl {α : Type} {step : PointsToSets → α → PointsToSets} (items : List α)
    (steps : ∀ item ∈ items, ∀ grown, start.Within grown →
      Derives program grown (step grown item)) :
    Derives program start (items.foldl step start) := by
  have onward : ∀ grown, start.Within grown → Derives program grown (items.foldl step grown) := by
    induction items with
    | nil => exact fun _ _ => .refl
    | cons item rest ih =>
      intro grown within
      have first := steps item List.mem_cons_self grown within
      exact first.trans (ih (fun other member => steps other (List.mem_cons_of_mem _ member)) _
        (within.trans first.within))
  exact onward start (.refl start)

end Derives

theorem within_foldl {α : Type} {step : PointsToSets → α → PointsToSets} {items : List α}
    (grows : ∀ item ∈ items, ∀ grown, Within grown (step grown item)) (sets : PointsToSets) :
    sets.Within (items.foldl step sets) := by
  induction items generalizing sets with
  | nil => exact .refl sets
  | cons item rest ih =>
    obtain ⟨here, others⟩ := List.forall_mem_cons.mp grows
    exact (here sets).trans (ih others _)

/-- A fold whose steps take nothing away keeps what any of them adds. -/
theorem holds_foldl_of_mem {α : Type} {step : PointsToSets → α → PointsToSets} {items : List α}
    (grows : ∀ item ∈ items, ∀ grown, Within grown (step grown item)) {item : α}
    (member : item ∈ items) {holder : Holder} {location : Location}
    (added : ∀ grown, sets.Within grown → (step grown item).Holds holder location) :
    (items.foldl step sets).Holds holder location := by
  obtain ⟨before, after, rfl⟩ := List.append_of_mem member
  have earlier : sets.Within (before.foldl step sets) :=
    within_foldl (fun other inside => grows other (List.mem_append_left _ inside)) sets
  have later (grown : PointsToSets) : grown.Within (after.foldl step grown) :=
    within_foldl (fun other inside =>
      grows other (List.mem_append_right _ (List.mem_cons_of_mem _ inside))) grown
  rw [List.foldl_append, List.foldl_cons]
  exact later _ holder location (added _ earlier)

theorem bind_of_none {caller callee : String} {args : List String} {dest : Option Holder}
    (unknown : program.function? callee = none) :
    bind program caller callee args dest sets = sets := by
  rw [bind, unknown]

/-- A result is delivered after the operands have been passed. -/
theorem bind_some {caller callee : String} {args : List String} {dest : Holder} {target : Function}
    (found : program.function? callee = some target) :
    bind program caller callee args (some dest) sets =
      (bind program caller callee args none sets).absorb dest
        ((bind program caller callee args none sets).get (.result callee)) := by
  rw [bind, bind, found]

/-- Binding a call absorbs what the call demands. -/
theorem derives_bind (member : function ∈ program.functions)
    (here : function.instructions[site]? = some instruction) {callee : String}
    {args : List String} (invokes : sets.Holds.Invokes function.name instruction callee args) :
    Derives program sets (bind program function.name callee args
      (instruction.dest.map (Holder.var function.name)) sets) := by
  cases found : program.function? callee with
  | none =>
    rw [bind_of_none found]
    exact .refl
  | some target =>
    have passed : Derives program sets (bind program function.name callee args none sets) := by
      rw [bind, found]
      refine Derives.foldl _ fun pair listed grown within => ?_
      exact .absorb .refl member here fun location held =>
        .pass (invokes.mono within) found listed held
    cases named : instruction.dest with
    | none => exact passed
    | some dest =>
      rw [Option.map_some, bind_some found]
      exact .absorb passed member here fun location held =>
        .deliver (invokes.mono passed.within) found named held

theorem within_bind (program : Program) (caller callee : String) (args : List String)
    (dest : Option Holder) (sets : PointsToSets) :
    sets.Within (bind program caller callee args dest sets) := by
  cases found : program.function? callee with
  | none =>
    rw [bind_of_none found]
    exact .refl sets
  | some target =>
    have passed : sets.Within (bind program caller callee args none sets) := by
      rw [bind, found]
      exact within_foldl (fun _ _ _ => within_absorb _ _ _) sets
    cases dest with
    | none => exact passed
    | some dest =>
      rw [bind_some found]
      exact passed.trans (within_absorb _ _ _)

theorem holds_bind_of_pass {caller callee : String} {args : List String}
    {dest : Option Holder} {target : Function} (found : program.function? callee = some target)
    {parameter : Parameter} {arg : String} (listed : (parameter, arg) ∈ target.parameters.zip args)
    {location : Location} (held : sets.Holds (.var caller arg) location) :
    (bind program caller callee args dest sets).Holds (.var callee parameter.name) location := by
  have passed : (bind program caller callee args none sets).Holds (.var callee parameter.name)
      location := by
    rw [bind, found]
    refine holds_foldl_of_mem (fun _ _ _ => within_absorb _ _ _) listed fun grown within => ?_
    exact (holds_absorb_iff ..).mpr (.inr ⟨rfl, within _ _ held⟩)
  cases dest with
  | none => exact passed
  | some dest =>
    rw [bind_some found]
    exact within_absorb _ _ _ _ _ passed

theorem holds_bind_of_deliver {caller callee : String} {args : List String} {dest : Holder}
    {target : Function} (found : program.function? callee = some target) {location : Location}
    (held : sets.Holds (.result callee) location) :
    (bind program caller callee args (some dest) sets).Holds dest location := by
  rw [bind_some found]
  exact (holds_absorb_iff ..).mpr (.inr ⟨rfl, within_bind _ _ _ _ none _ _ _ held⟩)

/-- Visiting an instruction absorbs what it demands. -/
theorem derives_apply (member : function ∈ program.functions)
    (here : function.instructions[site]? = some instruction) :
    Derives program sets (apply program function.name site instruction sets) := by
  have absorbs : ∀ {dest : Holder} {added : List Location},
      (∀ location ∈ added,
        sets.Holds.Demands program function.name site instruction dest location) →
        Derives program sets (sets.absorb dest added) :=
    fun demanded => .absorb .refl member here demanded
  unfold apply
  dsimp only
  split
  case h_1 holder operation assigned =>
    obtain ⟨dest, named, rfl⟩ := Option.map_eq_some_iff.mp assigned
    split
    · next target others funcs =>
      refine absorbs fun location added => ?_
      rw [List.mem_singleton.mp added]
      exact .fnaddr operation named (by rw [funcs]; rfl)
    · exact .refl
  case h_2 holder operation assigned =>
    obtain ⟨dest, named, rfl⟩ := Option.map_eq_some_iff.mp assigned
    refine absorbs fun location added => ?_
    rw [List.mem_singleton.mp added]
    exact .alloc operation named
  case h_3 holder operation assigned =>
    obtain ⟨dest, named, rfl⟩ := Option.map_eq_some_iff.mp assigned
    refine absorbs fun location added => ?_
    obtain ⟨arg, listed, held⟩ := List.mem_flatMap.mp added
    exact .copy (.inl operation) named listed held
  case h_4 holder operation assigned =>
    obtain ⟨dest, named, rfl⟩ := Option.map_eq_some_iff.mp assigned
    refine absorbs fun location added => ?_
    obtain ⟨arg, listed, held⟩ := List.mem_flatMap.mp added
    exact .copy (.inr operation) named listed held
  case h_5 holder base others operation assigned shape =>
    obtain ⟨dest, named, rfl⟩ := Option.map_eq_some_iff.mp assigned
    exact absorbs fun location held => .ptradd operation named (by rw [shape]; rfl) held
  case h_6 holder pointer others operation assigned shape =>
    obtain ⟨dest, named, rfl⟩ := Option.map_eq_some_iff.mp assigned
    refine absorbs fun location added => ?_
    obtain ⟨cell, points, held⟩ := List.mem_flatMap.mp added
    exact .load operation named (by rw [shape]; rfl) points held
  case h_7 pointer stored others operation shape =>
    refine Derives.foldl _ fun cell points grown within => ?_
    exact .absorb .refl member here fun location held =>
      .store operation shape (within _ _ points) (within _ _ held)
  case h_8 value others operation shape =>
    exact absorbs fun location held => .ret operation (by rw [shape]; rfl) held
  case h_9 operation =>
    split
    · next callee others funcs =>
      exact derives_bind member here (.direct operation (by rw [funcs]; rfl))
    · exact .refl
  case h_10 pointer args operation shape =>
    refine Derives.foldl _ fun callee known grown within => derives_bind member here ?_
    obtain ⟨location, points, code⟩ := List.mem_filterMap.mp known
    cases location with
    | function name =>
      cases code
      exact .indirect operation shape (within _ _ points)
    | allocation => cases code
  case h_11 => exact .refl

/-- After a visit every demand that the instruction had before is met. -/
theorem holds_apply_of_demands {function : String} {holder : Holder} {location : Location}
    (demands : sets.Holds.Demands program function site instruction holder location) :
    (apply program function site instruction sets).Holds holder location := by
  have absorbed : ∀ {dest : Holder} {added : List Location}, location ∈ added →
      (sets.absorb dest added).Holds dest location :=
    fun member => (holds_absorb_iff ..).mpr (.inr ⟨rfl, member⟩)
  have binds : ∀ {callee : String} {args : List String},
      sets.Holds.Invokes function instruction callee args →
        (∀ grown, sets.Within grown → (bind program function callee args
          (instruction.dest.map (.var function)) grown).Holds holder location) →
          (apply program function site instruction sets).Holds holder location := by
    intro callee args invokes bound
    cases invokes with
    | direct operation head =>
      obtain ⟨others, funcs⟩ := List.head?_eq_some_iff.mp head
      simp only [apply, operation, funcs]
      exact bound sets (.refl sets)
    | @indirect pointer _ _ operation shape held =>
      have known : callee ∈ (sets.var function pointer).filterMap Location.function? :=
        List.mem_filterMap.mpr ⟨.function callee, held, rfl⟩
      simp only [apply, operation, shape]
      exact holds_foldl_of_mem (fun other _ grown => within_bind program function other _ _ grown)
        known bound
  cases demands with
  | fnaddr operation named head =>
    obtain ⟨others, funcs⟩ := List.head?_eq_some_iff.mp head
    simp only [apply, operation, named, funcs, Option.map_some]
    exact absorbed (List.mem_singleton.mpr rfl)
  | alloc operation named =>
    simp only [apply, operation, named, Option.map_some]
    exact absorbed (List.mem_singleton.mpr rfl)
  | copy operation named listed held =>
    rcases operation with operation | operation <;>
      simp only [apply, operation, named, Option.map_some] <;>
      exact absorbed (List.mem_flatMap.mpr ⟨_, listed, held⟩)
  | ptradd operation named head held =>
    obtain ⟨others, shape⟩ := List.head?_eq_some_iff.mp head
    simp only [apply, operation, named, shape, Option.map_some]
    exact absorbed held
  | load operation named head points held =>
    obtain ⟨others, shape⟩ := List.head?_eq_some_iff.mp head
    simp only [apply, operation, named, shape, Option.map_some]
    exact absorbed (List.mem_flatMap.mpr ⟨_, points, held⟩)
  | store operation shape points held =>
    simp only [apply, operation, shape]
    refine holds_foldl_of_mem (fun _ _ _ => within_absorb _ _ _) points fun grown _ => ?_
    exact (holds_absorb_iff ..).mpr (.inr ⟨rfl, held⟩)
  | ret operation head held =>
    obtain ⟨others, shape⟩ := List.head?_eq_some_iff.mp head
    simp only [apply, operation, shape]
    exact absorbed held
  | pass invokes found listed held =>
    exact binds invokes fun grown within => holds_bind_of_pass found listed (within _ _ held)
  | deliver invokes found named held =>
    refine binds invokes fun grown within => ?_
    rw [named]
    exact holds_bind_of_deliver found (within _ _ held)

end PointsToSets

end ProgramGraphs
