import ProgramGraphs.Proofs.Execution.Program
import ProgramGraphs.Proofs.PointsTo.Solution

/-! # Points-to sets cover executions

In whatever state an execution of a program is, its variables and cells hold no address that a
solution of the inclusion constraints does not know of (`Sound`). The invariant also says of every
function on the stack that the one below it is at a call of it, so that a result is delivered to
where the call demands it. Each step keeps it (`Sound.step`), and it holds at the start, where there
are no addresses.
-/

namespace ProgramGraphs

open Execution

variable {δ : Type} {program : Program} {holdings : Holdings}

/-- Whether the locations of a holder include what a value is the address of. -/
def Execution.Value.Covered (held : Location → Prop) (tags : Tags) : Value (Datum δ) → Prop
  | .data (.plain _) => True
  | .data (.code function) => held (.function function)
  | .address place _ => ∃ tag, tags place = some tag ∧ held (.allocation tag.1 tag.2)

namespace Execution.Value

variable {held others : Location → Prop} {tags tagged : Tags}

theorem Covered.mono {value : Value (Datum δ)} (covered : value.Covered held tags)
    (within : ∀ location, held location → others location)
    (kept : ∀ place tag, tags place = some tag → tagged place = some tag) :
    value.Covered others tagged := by
  match value with
  | .data (.plain _) => trivial
  | .data (.code function) => exact within _ covered
  | .address place _ =>
    obtain ⟨tag, known, holds⟩ := covered
    exact ⟨tag, kept place tag known, within _ holds⟩

theorem covered_of_isPlain {value : Value (Datum δ)} (plain : value.IsPlain) :
    value.Covered held tags := by
  obtain ⟨datum, rfl⟩ := plain
  trivial

theorem Covered.shifts {value moved : Value (Datum δ)} (covered : value.Covered held tags)
    (shifts : value.Shifts moved) : moved.Covered held tags := by
  cases shifts with
  | plain => trivial
  | code => exact covered
  | address => exact covered

end Execution.Value

namespace Holdings

/-- A function on the stack that the one below it has called, by what is held. -/
def Awaits (holdings : Holdings) (program : Program) (frame caller : Stack.Frame δ) : Prop :=
  program.function? frame.function.name = some frame.function ∧ ∃ instruction args,
    caller.item? = some (.instruction instruction) ∧
      holdings.Invokes caller.function.name instruction frame.function.name args

/-- What is held covers a function in execution. -/
structure CoversFrame (holdings : Holdings) (program : Program) (tags : Tags)
    (frame : Stack.Frame δ) : Prop where
  member : frame.function ∈ program.functions
  env : ∀ name value, frame.env name = some value →
    value.Covered (holdings (.var frame.function.name name)) tags

/-- What is held covers the tagged blocks of a heap. -/
def CoversHeap (holdings : Holdings) (tags : Tags) (heap : Heap (Datum δ)) : Prop :=
  ∀ place block offset value tag, heap place = some block → block.cells offset = some value →
    tags place = some tag → value.Covered (holdings (.memory (.allocation tag.1 tag.2))) tags

/-- What is held covers a program in execution. -/
structure Covers (holdings : Holdings) (program : Program) (state : Stack.State δ) : Prop where
  frames : ∀ frame ∈ state.frames, holdings.CoversFrame program state.tags frame
  heap : holdings.CoversHeap state.tags state.heap
  calls : state.frames.IsChain (holdings.Awaits program)

variable {tags tagged : Tags} {frame : Stack.Frame δ} {instruction : Instruction}

theorem CoversFrame.mono (covers : holdings.CoversFrame program tags frame)
    (kept : ∀ place tag, tags place = some tag → tagged place = some tag) :
    holdings.CoversFrame program tagged frame :=
  ⟨covers.member, fun name value held =>
    (covers.env name value held).mono (fun _ => id) kept⟩

/-- A function in execution has met the demands of its instruction. -/
theorem CoversFrame.met (covers : holdings.CoversFrame program tags frame)
    (solves : program.Solves holdings) (here : frame.item? = some (.instruction instruction))
    {holder : Holder} {location : Location}
    (demands : holdings.Demands program frame.function.name frame.site instruction holder
      location) : holdings holder location :=
  solves frame.function covers.member frame.site instruction (Stack.Frame.instructions_site here)
    holder location demands

/-- A function goes on covered if the result that it is given is covered. -/
theorem CoversFrame.onward (covers : holdings.CoversFrame program tags frame)
    {dest : Option String} {result : Option (Value (Datum δ))}
    (given : ∀ name value, dest = some name → result = some value →
      value.Covered (holdings (.var frame.function.name name)) tags) :
    holdings.CoversFrame program tags (frame.onward dest result) := by
  refine ⟨covers.member, fun name value held => ?_⟩
  rcases Environment.assign_cases held with ⟨made, named⟩ | held
  · exact given name value named made
  · exact covers.env name value held

/-- A call goes only to functions that are held to be its targets. -/
theorem CoversFrame.invokes (covers : holdings.CoversFrame program tags frame) {callee : String}
    {args : List String} (invokes : frame.Invokes instruction callee args) :
    holdings.Invokes frame.function.name instruction callee args := by
  cases invokes with
  | direct operation named => exact .direct operation named
  | indirect operation shape points =>
    exact .indirect operation shape (covers.env _ _ points)

theorem CoversHeap.fades {heap next : Heap (Datum δ)} (covers : holdings.CoversHeap tags heap)
    (fades : heap.Fades next) : holdings.CoversHeap tags next := by
  intro place block offset value tag present held tagged
  rcases fades place block offset value present held with plain | ⟨before, there, same⟩
  · exact Value.covered_of_isPlain plain
  · exact covers place before offset value tag there same tagged

theorem CoversHeap.put_blank {heap : Heap (Datum δ)} (covers : holdings.CoversHeap tags heap)
    {place : Nat} (fresh : tags place = none) (tag : String × Nat) :
    holdings.CoversHeap (tags.put place tag) (heap.put place .blank) := by
  intro other block offset value held present stored known
  by_cases same : other = place
  · rw [same, Heap.put_same] at present
    cases present
    cases stored
  · rw [Heap.put_other heap _ same] at present
    rw [Tags.put, if_neg same] at known
    exact (covers other block offset value held present stored known).mono (fun _ => id)
      (Tags.put_kept fresh tag)

theorem CoversHeap.put_write {heap : Heap (Datum δ)} (covers : holdings.CoversHeap tags heap)
    {place : Nat} {block : Execution.Block (Datum δ)} (present : heap place = some block)
    {offset : Int} {written : Value (Datum δ)} {tag : String × Nat} (known : tags place = some tag)
    (covered : written.Covered (holdings (.memory (.allocation tag.1 tag.2))) tags) :
    holdings.CoversHeap tags (heap.put place (block.write offset written)) := by
  intro other found cell value held there stored tagged
  by_cases same : other = place
  · rw [same, Heap.put_same] at there
    cases there
    rw [same, known] at tagged
    cases tagged
    simp only [Execution.Block.write] at stored
    split at stored
    · cases stored
      exact covered
    · exact covers place block cell value tag present stored known
  · rw [Heap.put_other heap _ same] at there
    exact covers other found cell value held there stored tagged

/-- What an instruction does in its function stays covered: its result where it is assigned, and the
heap under its tags. -/
theorem CoversFrame.acts (covers : holdings.CoversFrame program tags frame)
    (solves : program.Solves holdings) (here : frame.item? = some (.instruction instruction))
    {heap next : Heap (Datum δ)} (cells : holdings.CoversHeap tags heap)
    {result : Option (Value (Datum δ))}
    (acts : Stack.Acts program frame heap tags instruction result next tagged) :
    (∀ name value, instruction.dest = some name → result = some value →
        value.Covered (holdings (.var frame.function.name name)) tagged) ∧
      holdings.CoversHeap tagged next ∧
        ∀ place tag, tags place = some tag → tagged place = some tag := by
  have met {holder : Holder} {location : Location}
      (demands : holdings.Demands program frame.function.name frame.site instruction holder
        location) : holdings holder location := covers.met solves here demands
  cases acts with
  | fnaddr operation named =>
    refine ⟨?_, cells, fun _ _ => id⟩
    rintro dest _ assigned ⟨⟩
    exact met (.fnaddr operation assigned named)
  | @alloc place operation _ fresh =>
    refine ⟨?_, cells.put_blank fresh _, Tags.put_kept fresh _⟩
    rintro dest _ assigned ⟨⟩
    exact ⟨_, Tags.put_same tags place _, met (.alloc operation assigned)⟩
  | copy operation listed held =>
    refine ⟨?_, cells, fun _ _ => id⟩
    rintro dest _ assigned ⟨⟩
    exact (covers.env _ _ held).mono (fun location known =>
      met (.copy operation assigned listed known)) fun _ _ => id
  | ptradd operation first held shifts =>
    refine ⟨?_, cells, fun _ _ => id⟩
    rintro dest _ assigned ⟨⟩
    exact ((covers.env _ _ held).shifts shifts).mono (fun location known =>
      met (.ptradd operation assigned first known)) fun _ _ => id
  | load operation first points present stored =>
    refine ⟨?_, cells, fun _ _ => id⟩
    rintro dest _ assigned ⟨⟩
    obtain ⟨tag, known, pointed⟩ := covers.env _ _ points
    exact (cells _ _ _ _ tag present stored known).mono (fun location held =>
      met (.load operation assigned first pointed held)) fun _ _ => id
  | store operation shape points held present =>
    obtain ⟨tag, known, pointed⟩ := covers.env _ _ points
    refine ⟨nofun, cells.put_write present known ?_, fun _ _ => id⟩
    exact (covers.env _ _ held).mono (fun location held =>
      met (.store operation shape pointed held)) fun _ _ => id
  | silent _ plain fades =>
    exact ⟨fun _ value _ made => Value.covered_of_isPlain (plain value made), cells.fades fades,
      fun _ _ => id⟩
  | outside _ _ plain fades =>
    exact ⟨fun _ value _ made => Value.covered_of_isPlain (plain value made), cells.fades fades,
      fun _ _ => id⟩

/-- A function that is called starts with covered parameters. -/
theorem CoversFrame.enter (covers : holdings.CoversFrame program tags frame)
    (solves : program.Solves holdings) (here : frame.item? = some (.instruction instruction))
    {callee : String} {args : List String} (invokes : frame.Invokes instruction callee args)
    {target : Function} (found : program.function? callee = some target)
    {values : List (Value (Datum δ))}
    (read : List.Forall₂ (fun arg value => frame.env arg = some value) args values) :
    holdings.CoversFrame program tags (Stack.enter target values) := by
  obtain ⟨member, named⟩ := mem_of_find?_key found
  refine ⟨member, fun name value held => ?_⟩
  obtain ⟨parameter, passed, rfl⟩ := Stack.exists_parameter held
  obtain ⟨arg, listed, held⟩ := Stack.exists_arg read passed
  refine (covers.env arg value held).mono (fun location known => ?_) fun _ _ => id
  change holdings (.var target.name parameter.name) location
  rw [named]
  exact covers.met solves here (.pass (covers.invokes invokes) found listed known)

/-- What a function returns is held by its result. -/
theorem CoversFrame.returns (covers : holdings.CoversFrame program tags frame)
    (solves : program.Solves holdings) {value : Value (Datum δ)}
    (returns : frame.Returns (some value)) :
    value.Covered (holdings (.result frame.function.name)) tags := by
  cases returns with
  | value here operation first held =>
    exact (covers.env _ _ held).mono (fun location known =>
      covers.met solves here (.ret operation first known)) fun _ _ => id

/-- Going on in a function does not change what is awaited of it. -/
theorem isChain_cons_of_function {first second : Stack.Frame δ} {callers : List (Stack.Frame δ)}
    (chain : (first :: callers).IsChain (holdings.Awaits program))
    (same : second.function = first.function) :
    (second :: callers).IsChain (holdings.Awaits program) := by
  cases callers with
  | nil => exact .singleton second
  | cons caller rest =>
    rw [List.isChain_cons_cons] at chain ⊢
    rw [Awaits, same]
    exact chain

/-- A step of a program stays covered. -/
theorem Covers.step (solves : program.Solves holdings) {state next : Stack.State δ}
    (covers : holdings.Covers program state) (step : Stack.Step program state next) :
    holdings.Covers program next := by
  obtain ⟨frames, cells, calls⟩ := covers
  cases step with
  | label =>
    obtain ⟨here, others⟩ := List.forall_mem_cons.mp frames
    exact ⟨List.forall_mem_cons.mpr ⟨here.onward nofun, others⟩, cells,
      isChain_cons_of_function calls rfl⟩
  | act reads acts =>
    obtain ⟨here, others⟩ := List.forall_mem_cons.mp frames
    obtain ⟨given, heap, kept⟩ := here.acts solves reads cells acts
    exact ⟨List.forall_mem_cons.mpr ⟨(here.mono kept).onward given,
      fun other member => (others other member).mono kept⟩, heap,
      isChain_cons_of_function calls rfl⟩
  | transfer =>
    obtain ⟨here, others⟩ := List.forall_mem_cons.mp frames
    exact ⟨List.forall_mem_cons.mpr ⟨⟨here.member, here.env⟩, others⟩, cells,
      isChain_cons_of_function calls rfl⟩
  | @call frame callers heap tags instruction callee args target values reads invokes found
      passed =>
    obtain ⟨here, _⟩ := List.forall_mem_cons.mp frames
    obtain rfl := (mem_of_find?_key found).2
    exact ⟨List.forall_mem_cons.mpr ⟨here.enter solves reads invokes found passed, frames⟩, cells,
      List.isChain_cons_cons.mpr ⟨⟨found, instruction, args, reads, here.invokes invokes⟩, calls⟩⟩
  | @deliver frame caller callers heap tags instruction result returns reads =>
    obtain ⟨callee, below⟩ := List.forall_mem_cons.mp frames
    obtain ⟨here, others⟩ := List.forall_mem_cons.mp below
    obtain ⟨⟨found, _, _, awaited, invokes⟩, calls⟩ := List.isChain_cons_cons.mp calls
    obtain ⟨rfl⟩ := Item.instruction.inj (Option.some.inj (awaited.symm.trans reads))
    have given : ∀ name value, instruction.dest = some name → result = some value →
        value.Covered (holdings (.var caller.function.name name)) tags := by
      rintro name value assigned rfl
      exact (callee.returns solves returns).mono (fun location known =>
        here.met solves reads (.deliver invokes found assigned known)) fun _ _ => id
    exact ⟨List.forall_mem_cons.mpr ⟨here.onward given, others⟩, cells,
      isChain_cons_of_function calls rfl⟩
  | finish => exact ⟨nofun, cells, .nil⟩

/-- A program at its start is covered: it has no addresses. -/
theorem covers_initial {start : Function} (member : start ∈ program.functions)
    (arguments : List δ) : holdings.Covers program (Stack.initial start arguments) := by
  refine ⟨?_, nofun, .singleton _⟩
  intro frame listed
  obtain rfl := List.mem_singleton.mp listed
  refine ⟨member, fun name value held => ?_⟩
  obtain ⟨parameter, passed, -⟩ := Stack.exists_parameter held
  obtain ⟨datum, -, rfl⟩ := List.mem_map.mp (List.of_mem_zip passed).2
  trivial

/-- An execution stays covered. -/
theorem covers_of_reaches (solves : program.Solves holdings) {start : Function}
    (member : start ∈ program.functions) {arguments : List δ} {state : Stack.State δ}
    (reached : Reaches (Stack.Step program) (Stack.initial start arguments) state) :
    holdings.Covers program state :=
  reached.mem_of_closed (holdings.Covers program) (covers_initial member arguments)
    fun _ _ covers step => covers.step solves step

end Holdings

namespace PointsToSets

/-- Whatever an execution has come to, the variables of the functions on the stack hold no address
but of functions and blocks in their points-to sets, and calls through pointers go only to the
functions that are found for them. -/
theorem solve_covers {start : Function} (member : start ∈ program.functions) {arguments : List δ}
    {state : Stack.State δ}
    (reached : Reaches (Stack.Step program) (Stack.initial start arguments) state) :
    ∀ frame ∈ state.frames,
      (∀ name callee, frame.env name = some (.data (.code callee)) →
        .function callee ∈ (solve program).result.var frame.function.name name) ∧
      (∀ name place offset, frame.env name = some (.address place offset) →
        ∃ owner site, state.tags place = some (owner, site) ∧
          .allocation owner site ∈ (solve program).result.var frame.function.name name) ∧
      ∀ instruction callee args, frame.item? = some (.instruction instruction) →
        instruction.opcode = .icall → frame.Invokes instruction callee args →
          callee ∈ (solve program).result.targets frame.function.name instruction := by
  have solves : program.Solves (solve program).result.Holds :=
    (iterate_solves 0 .refl).2
  have covers := Holdings.covers_of_reaches solves member reached
  intro frame listed
  have covered := (covers.frames frame listed).env
  refine ⟨fun name callee held => covered name _ held, fun name place offset held => ?_, ?_⟩
  · obtain ⟨⟨owner, site⟩, known, points⟩ := covered name _ held
    exact ⟨owner, site, known, points⟩
  · intro instruction callee args _ operation invokes
    cases invokes with
    | direct other => simp [operation] at other
    | indirect _ shape points =>
      rw [targets, shape]
      exact List.mem_filterMap.mpr ⟨.function callee, covered _ _ points, rfl⟩

/-- The start of a program that calls a function through a pointer. -/
def callsThroughPointer : Function where
  name := "main"
  body := [
    .instruction { name := "fnaddr", dest := some "p", funcs := ["inc"] },
    .instruction { name := "icall", args := ["p"] }]

/-- A program that calls a function through a pointer. -/
def throughPointer : Program where
  functions := [callsThroughPointer, { name := "inc", body := [.instruction { name := "ret" }] }]

/-- The pointer that has been called through is known to point to the function. -/
theorem solve_covers_throughPointer : ∃ state : Stack.State Unit,
    Reaches (Stack.Step throughPointer) (Stack.initial callsThroughPointer []) state ∧
      state.frames.map (·.function.name) = ["inc", "main"] ∧
        .function "inc" ∈ (solve throughPointer).result.var "main" "p" := by
  let pointed : Stack.Frame Unit :=
    (Stack.enter callsThroughPointer []).onward (some "p") (some (.data (.code "inc")))
  have takes : Stack.Acts throughPointer (Stack.enter callsThroughPointer ([] : List _))
      (fun _ => none) (fun _ => none) { name := "fnaddr", dest := some "p", funcs := ["inc"] }
      (some (.data (.code "inc") : Value (Datum Unit))) (fun _ => none) (fun _ => none) :=
    .fnaddr rfl rfl
  have points : Stack.Step throughPointer (Stack.initial callsThroughPointer ([] : List Unit))
      ⟨[pointed], fun _ => none, fun _ => none⟩ := .act rfl takes
  have calls : Stack.Step throughPointer ⟨[pointed], fun _ => none, fun _ => none⟩
      ⟨[Stack.enter { name := "inc", body := [.instruction { name := "ret" }] } [], pointed],
        fun _ => none, fun _ => none⟩ := .call rfl (.indirect rfl rfl rfl) rfl .nil
  have reached := (Reaches.single points).trans (.single calls)
  obtain ⟨code, -, -⟩ := solve_covers (.head _) reached pointed (.tail _ (.head _))
  exact ⟨_, reached, rfl, code "p" "inc" rfl⟩

end PointsToSets

end ProgramGraphs
