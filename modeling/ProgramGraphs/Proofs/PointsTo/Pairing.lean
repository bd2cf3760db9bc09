import ProgramGraphs.Proofs.PointsTo.Constraint

/-! # Paired holders and locations

Two programs can say the same of different holders and locations. A pairing tells which of them
stand for each other, and can be read from either side (`Pairing.symm`). What an instruction demands
in one program it demands in the other of the paired holder, as long as its variables are paired
with themselves (`Pairing.Carries.exists_demands`). So what the paired holders hold in a solution
for one program meets the demands of that instruction in the other (`Pairing.push_of_demands`).
-/

namespace ProgramGraphs

/-- Which holders and which locations of two programs stand for each other. Functions stand for
themselves. -/
structure Pairing (program other : Program) where
  holders : Holder → Holder → Prop
  locations : Location → Location → Prop
  right_unique : ∀ {holder twin rival : Holder}, holders holder twin → holders holder rival →
    twin = rival
  left_unique : ∀ {holder rival twin : Holder}, holders holder twin → holders rival twin →
    holder = rival
  code : ∀ name, locations (.function name) (.function name)
  code_right : ∀ {name : String} {moved : Location}, locations (.function name) moved →
    moved = .function name
  code_left : ∀ {location : Location} {name : String}, locations location (.function name) →
    location = .function name
  memory : ∀ {location moved : Location}, locations location moved →
    holders (.memory location) (.memory moved)
  result : ∀ name, holders (.result name) (.result name)
  parameters : ∀ name,
    (program.function? name).map (·.parameters) = (other.function? name).map (·.parameters)
  parameter : ∀ {name : String} {function : Function} {parameter : Parameter},
    program.function? name = some function → parameter ∈ function.parameters →
      holders (.var name parameter.name) (.var name parameter.name)

/-- The operands of a call are operands of its instruction. -/
theorem Holdings.Invokes.mem_args {holdings : Holdings} {function callee : String}
    {instruction : Instruction} {args : List String}
    (invokes : holdings.Invokes function instruction callee args) {arg : String}
    (member : arg ∈ args) : arg ∈ instruction.args := by
  cases invokes with
  | direct => exact member
  | indirect _ shape =>
    rw [shape]
    exact List.mem_cons_of_mem _ member

namespace Pairing

variable {program other : Program} {pairing : Pairing program other} {holdings others : Holdings}

theorem exists_function? (pairing : Pairing program other) {name : String} {function : Function}
    (found : program.function? name = some function) :
    ∃ twin, other.function? name = some twin ∧ twin.parameters = function.parameters := by
  have same := pairing.parameters name
  rw [found, Option.map_some] at same
  exact Option.map_eq_some_iff.mp same.symm

/-- The pairing seen from the other program. -/
def symm (pairing : Pairing program other) : Pairing other program where
  holders twin holder := pairing.holders holder twin
  locations moved location := pairing.locations location moved
  right_unique := pairing.left_unique
  left_unique := pairing.right_unique
  code := pairing.code
  code_right := pairing.code_left
  code_left := pairing.code_right
  memory := pairing.memory
  result := pairing.result
  parameters name := (pairing.parameters name).symm
  parameter {name _ parameter} found member := by
    have same := pairing.parameters name
    rw [found, Option.map_some] at same
    obtain ⟨function, known, listed⟩ := Option.map_eq_some_iff.mp same
    exact pairing.parameter known (listed ▸ member)

/-- Whatever is held is held, as what it is paired with, by the paired holder. -/
def Carries (pairing : Pairing program other) (holdings others : Holdings) : Prop :=
  ∀ ⦃holder twin : Holder⦄ ⦃location : Location⦄, pairing.holders holder twin →
    holdings holder location → ∃ moved, pairing.locations location moved ∧ others twin moved

/-- What the paired holders hold. -/
def push (pairing : Pairing program other) (holdings : Holdings) : Holdings :=
  fun twin moved => ∃ holder location, pairing.holders holder twin ∧
    pairing.locations location moved ∧ holdings holder location

/-- What is held because a paired holder holds it can be found there. -/
theorem carries_push (pairing : Pairing program other) (holdings : Holdings) :
    pairing.symm.Carries (pairing.push holdings) holdings := by
  rintro twin holder moved paired ⟨source, location, same, moves, held⟩
  obtain rfl := pairing.left_unique paired same
  exact ⟨location, moves, held⟩

/-- An instruction of one program and the same instruction of the other, with paired variables. -/
structure Shares (pairing : Pairing program other) (function : String) (site position : Nat)
    (instruction : Instruction) : Prop where
  operands : ∀ arg ∈ instruction.args, pairing.holders (.var function arg) (.var function arg)
  dest : ∀ dest, instruction.dest = some dest →
    pairing.holders (.var function dest) (.var function dest)
  place : pairing.locations (.allocation function site) (.allocation function position)

variable {function : String} {site position : Nat} {instruction : Instruction}

theorem Shares.symm (shares : pairing.Shares function site position instruction) :
    pairing.symm.Shares function position site instruction :=
  ⟨shares.operands, shares.dest, shares.place⟩

theorem Carries.invokes (carries : pairing.Carries holdings others)
    (shares : pairing.Shares function site position instruction) {callee : String}
    {args : List String} (invokes : holdings.Invokes function instruction callee args) :
    others.Invokes function instruction callee args := by
  cases invokes with
  | direct operation head => exact .direct operation head
  | @indirect pointer _ _ operation shape held =>
    have paired := shares.operands pointer (by rw [shape]; exact List.mem_cons_self)
    obtain ⟨moved, moves, found⟩ := carries paired held
    rw [pairing.code_right moves] at found
    exact .indirect operation shape found

/-- An instruction that two programs share demands the same in both. -/
theorem Carries.exists_demands (carries : pairing.Carries holdings others)
    (shares : pairing.Shares function site position instruction) {holder : Holder}
    {location : Location}
    (demands : holdings.Demands program function site instruction holder location) :
    ∃ twin moved, pairing.holders holder twin ∧ pairing.locations location moved ∧
      others.Demands other function position instruction twin moved := by
  cases demands with
  | @fnaddr dest target operation assigned head =>
    exact ⟨_, _, shares.dest dest assigned, pairing.code target, .fnaddr operation assigned head⟩
  | @alloc dest operation assigned =>
    exact ⟨_, _, shares.dest dest assigned, shares.place, .alloc operation assigned⟩
  | @copy dest arg _ operation assigned listed held =>
    obtain ⟨moved, moves, found⟩ := carries (shares.operands arg listed) held
    exact ⟨_, _, shares.dest dest assigned, moves, .copy operation assigned listed found⟩
  | @ptradd dest base _ operation assigned head held =>
    have paired := shares.operands base (List.mem_of_mem_head? head)
    obtain ⟨moved, moves, found⟩ := carries paired held
    exact ⟨_, _, shares.dest dest assigned, moves, .ptradd operation assigned head found⟩
  | @load dest pointer cell _ operation assigned head points held =>
    have paired := shares.operands pointer (List.mem_of_mem_head? head)
    obtain ⟨goal, goes, reaches⟩ := carries paired points
    obtain ⟨moved, moves, found⟩ := carries (pairing.memory goes) held
    exact ⟨_, _, shares.dest dest assigned, moves, .load operation assigned head reaches found⟩
  | @store pointer stored others cell _ operation shape points held =>
    have paired := shares.operands pointer (by simp [shape])
    obtain ⟨goal, goes, reaches⟩ := carries paired points
    obtain ⟨moved, moves, found⟩ := carries (shares.operands stored (by simp [shape])) held
    exact ⟨_, _, pairing.memory goes, moves, .store operation shape reaches found⟩
  | @ret value _ operation head held =>
    have paired := shares.operands value (List.mem_of_mem_head? head)
    obtain ⟨moved, moves, found⟩ := carries paired held
    exact ⟨_, _, pairing.result function, moves, .ret operation head found⟩
  | @pass callee arg args target parameter _ invokes found listed held =>
    obtain ⟨bound, passed⟩ := List.of_mem_zip listed
    obtain ⟨moved, moves, reaches⟩ := carries (shares.operands arg (invokes.mem_args passed)) held
    obtain ⟨twin, known, same⟩ := pairing.exists_function? found
    refine ⟨_, _, pairing.parameter found bound, moves, ?_⟩
    exact .pass (carries.invokes shares invokes) known (same ▸ listed) reaches
  | @deliver callee dest args target _ invokes found assigned held =>
    obtain ⟨moved, moves, reaches⟩ := carries (pairing.result callee) held
    obtain ⟨twin, known, -⟩ := pairing.exists_function? found
    refine ⟨_, _, shares.dest dest assigned, moves, ?_⟩
    exact .deliver (carries.invokes shares invokes) known assigned reaches

/-- A solution gives the paired holders what an instruction that is shared demands. -/
theorem push_of_demands (solves : program.Solves holdings) {owner : Function}
    (member : owner ∈ program.functions) (here : owner.instructions[site]? = some instruction)
    (shares : pairing.Shares owner.name site position instruction) {twin : Holder}
    {moved : Location}
    (demands : (pairing.push holdings).Demands other owner.name position instruction twin moved) :
    pairing.push holdings twin moved := by
  obtain ⟨holder, location, paired, moves, demanded⟩ :=
    (pairing.carries_push holdings).exists_demands shares.symm demands
  exact ⟨holder, location, paired, moves, solves owner member site instruction here _ _ demanded⟩

end Pairing

end ProgramGraphs
