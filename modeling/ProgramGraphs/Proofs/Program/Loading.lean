import ProgramGraphs.Proofs.Json.Invariant
import ProgramGraphs.Proofs.Program.Storage

/-! # Programs that have been read

A program that is read can be written and read again: its literals are as they are kept, and it is
nested no deeper than its text, in which every part stands at the same depth. What a pass writes
into a program has no literal, and its types are types of the program or what these point to.
-/

namespace ProgramGraphs

open Json (Decoder Field Schema Value)
open Json.Value (memberNesting)

/-! ## The nesting of what is written -/

theorem memberNesting_optionMember_le_iff {name : String} {item : Option Value} {bound : Nat} :
    memberNesting (Json.optionMember name item) ≤ bound ↔
      ∀ value ∈ item, value.nesting ≤ bound := by
  rw [Json.Value.memberNesting_le_iff, Json.optionMember, List.forall_mem_map]
  simp

theorem memberNesting_listMember_le_iff {name : String} {items : List Value} {bound : Nat} :
    memberNesting (Json.listMember name items) ≤ bound + 1 ↔
      ∀ item ∈ items, item.nesting ≤ bound := by
  rw [← Json.Value.itemNesting_le_iff, Json.listMember]
  cases items with
  | nil => simp [memberNesting, Json.Value.itemNesting]
  | cons item rest => simp [memberNesting, Json.Value.nesting]

theorem memberNesting_texts_le (name : String) (texts : List String) :
    memberNesting (Json.listMember name (texts.map .string)) ≤ 1 := by
  rw [memberNesting_listMember_le_iff, List.forall_mem_map]
  exact fun _ _ => Nat.le_refl 0

theorem ValueType.nesting_toJson_pointer (pointee : ValueType) :
    (pointer pointee).toJson.nesting = pointee.toJson.nesting + 1 := by
  simp [toJson, Value.nesting, memberNesting]

theorem Parameter.nesting_toJson (parameter : Parameter) :
    parameter.toJson.nesting = parameter.type.toJson.nesting + 1 := by
  simp [toJson, Value.nesting, memberNesting]

theorem Declaration.nesting_toJson_le_iff {declaration : Declaration} {bound : Nat} :
    declaration.toJson.nesting ≤ bound + 3 ↔
      (∀ parameter ∈ declaration.parameters, parameter.type.toJson.nesting ≤ bound) ∧
        ∀ type ∈ declaration.returnType, type.toJson.nesting ≤ bound + 2 := by
  rw [toJson, Value.nesting, members, memberNesting, Json.Value.nesting_string, Nat.zero_max,
    Json.Value.memberNesting_append, Nat.add_le_add_iff_right, Nat.max_le,
    memberNesting_listMember_le_iff, memberNesting_optionMember_le_iff]
  simp [Parameter.nesting_toJson]

theorem Instruction.nesting_toJson_le_iff {instruction : Instruction} {bound : Nat} :
    instruction.toJson.nesting ≤ bound + 2 ↔
      (∀ type ∈ instruction.type, type.toJson.nesting ≤ bound + 1) ∧
        ∀ value ∈ instruction.value, value.nesting ≤ bound + 1 := by
  have args := memberNesting_texts_le "args" instruction.args
  have funcs := memberNesting_texts_le "funcs" instruction.funcs
  have labels := memberNesting_texts_le "labels" instruction.labels
  have dest : memberNesting (Json.optionMember "dest" (instruction.dest.map .string)) ≤ 0 := by
    rw [memberNesting_optionMember_le_iff]
    simp
  have type : memberNesting (Json.optionMember "type" (instruction.type.map ValueType.toJson)) ≤
      bound + 1 ↔ ∀ type ∈ instruction.type, type.toJson.nesting ≤ bound + 1 := by
    rw [memberNesting_optionMember_le_iff]
    simp
  have value : memberNesting (Json.optionMember "value" instruction.value) ≤ bound + 1 ↔
      ∀ value ∈ instruction.value, value.nesting ≤ bound + 1 :=
    memberNesting_optionMember_le_iff
  rw [toJson, Value.nesting, memberNesting, Json.Value.nesting_string, Nat.zero_max,
    Nat.add_le_add_iff_right]
  simp only [Json.Value.memberNesting_append, Nat.max_le]
  rw [← type, ← value]
  omega

theorem Function.nesting_toJson_le_iff {function : Function} {bound : Nat} :
    function.toJson.nesting ≤ bound + 4 ↔ function.toDeclaration.toJson.nesting ≤ bound + 4 ∧
      ∀ instruction ∈ function.instructions, instruction.toJson.nesting ≤ bound + 2 := by
  have items : Json.Value.itemNesting (function.body.map Item.toJson) ≤ bound + 2 ↔
      ∀ instruction ∈ function.instructions, instruction.toJson.nesting ≤ bound + 2 := by
    rw [Json.Value.itemNesting_le_iff, List.forall_mem_map]
    constructor
    · intro fits instruction inside
      obtain ⟨item, member, same⟩ := List.mem_filterMap.mp inside
      cases item with
      | label => cases same
      | instruction operation =>
        cases same
        exact fits _ member
    · intro fits item member
      cases item with
      | label name => simp [Item.toJson, Value.nesting, memberNesting]
      | instruction operation => exact fits operation (List.mem_filterMap.mpr ⟨_, member, rfl⟩)
  rw [← items, toJson, Declaration.toJson, Value.nesting, Value.nesting,
    Json.Value.memberNesting_append, memberNesting, memberNesting, Value.nesting, Nat.max_zero]
  omega

theorem Program.nesting_toJson_le_iff {program : Program} {bound : Nat} :
    program.toJson.nesting ≤ bound + 2 ↔
      (∀ function ∈ program.functions, function.toJson.nesting ≤ bound) ∧
        ∀ declaration ∈ program.externs, declaration.toJson.nesting ≤ bound := by
  rw [toJson, Value.nesting, memberNesting, Value.nesting, Nat.add_le_add_iff_right, Nat.max_le,
    Nat.add_le_add_iff_right, Json.Value.itemNesting_le_iff, memberNesting_listMember_le_iff]
  simp

/-! ## Parts that stand at a depth -/

namespace Declaration

/-- At this depth the types of a declaration are not nested too deep. -/
def FitsAt (depth : Nat) (declaration : Declaration) : Prop :=
  (∀ parameter ∈ declaration.parameters,
      depth + 3 + parameter.type.toJson.nesting ≤ Json.Tree.depthLimit) ∧
    ∀ type ∈ declaration.returnType, depth + 1 + type.toJson.nesting ≤ Json.Tree.depthLimit

theorem fitsAt_iff {depth : Nat} (room : depth + 3 ≤ Json.Tree.depthLimit)
    (declaration : Declaration) : declaration.FitsAt depth ↔
      depth + declaration.toJson.nesting ≤ Json.Tree.depthLimit := by
  obtain ⟨bound, same⟩ := Nat.le.dest room
  have shifted : depth + declaration.toJson.nesting ≤ Json.Tree.depthLimit ↔
      declaration.toJson.nesting ≤ bound + 3 := by omega
  rw [shifted, nesting_toJson_le_iff]
  exact and_congr (forall₂_congr fun _ _ => by omega) (forall₂_congr fun _ _ => by omega)

end Declaration

namespace Instruction

/-- At this depth the type and the literal of an instruction are not nested too deep. -/
def FitsAt (depth : Nat) (instruction : Instruction) : Prop :=
  (∀ type ∈ instruction.type, depth + 1 + type.toJson.nesting ≤ Json.Tree.depthLimit) ∧
    ∀ value ∈ instruction.value, depth + 1 + value.nesting ≤ Json.Tree.depthLimit

theorem fitsAt_iff {depth : Nat} (room : depth + 2 ≤ Json.Tree.depthLimit)
    (instruction : Instruction) : instruction.FitsAt depth ↔
      depth + instruction.toJson.nesting ≤ Json.Tree.depthLimit := by
  obtain ⟨bound, same⟩ := Nat.le.dest room
  have shifted : depth + instruction.toJson.nesting ≤ Json.Tree.depthLimit ↔
      instruction.toJson.nesting ≤ bound + 2 := by omega
  rw [shifted, nesting_toJson_le_iff]
  exact and_congr (forall₂_congr fun _ _ => by omega) (forall₂_congr fun _ _ => by omega)

end Instruction

namespace Function

/-- At this depth nothing in a function is nested too deep. -/
def FitsAt (depth : Nat) (function : Function) : Prop :=
  function.toDeclaration.FitsAt depth ∧
    ∀ instruction ∈ function.instructions, instruction.FitsAt (depth + 2)

theorem fitsAt_iff {depth : Nat} (room : depth + 4 ≤ Json.Tree.depthLimit)
    (function : Function) : function.FitsAt depth ↔
      depth + function.toJson.nesting ≤ Json.Tree.depthLimit := by
  obtain ⟨bound, same⟩ := Nat.le.dest room
  have shifted : depth + function.toJson.nesting ≤ Json.Tree.depthLimit ↔
      function.toJson.nesting ≤ bound + 4 := by omega
  rw [shifted, nesting_toJson_le_iff, FitsAt, Declaration.fitsAt_iff (by omega)]
  refine and_congr (by omega) (forall₂_congr fun instruction _ => ?_)
  rw [Instruction.fitsAt_iff (by omega)]
  omega

end Function

/-- A program can be written and read again. -/
structure Program.Writable (program : Program) : Prop where
  functions : ∀ function ∈ program.functions, function.FitsAt 2 ∧ function.Storable
  externs : ∀ declaration ∈ program.externs, declaration.FitsAt 2

theorem Program.writable_iff (program : Program) : program.Writable ↔
    program.toJson.nesting ≤ Json.Tree.depthLimit ∧ program.Storable := by
  have room : 2 + 4 ≤ Json.Tree.depthLimit := by decide
  have functions : ∀ function : Function,
      function.toJson.nesting ≤ 125 ↔ function.FitsAt 2 := by
    intro function
    rw [function.fitsAt_iff room, Json.Tree.depthLimit]
    omega
  have externs : ∀ declaration : Declaration,
      declaration.toJson.nesting ≤ 125 ↔ declaration.FitsAt 2 := by
    intro declaration
    rw [declaration.fitsAt_iff (Nat.le_of_succ_le room), Json.Tree.depthLimit]
    omega
  change _ ↔ program.toJson.nesting ≤ 125 + 2 ∧ _
  rw [nesting_toJson_le_iff]
  simp only [functions, externs]
  constructor
  · rintro ⟨defined, declared⟩
    exact ⟨⟨fun function member => (defined function member).1, declared⟩,
      fun function member => (defined function member).2⟩
  · rintro ⟨⟨fitting, declared⟩, storable⟩
    exact ⟨fun function member => ⟨fitting function member, storable function member⟩, declared⟩

/-! ## What is read -/

namespace ValueType

mutual

/-- A type is nested no deeper than the value that stands for it. -/
theorem nesting_le_of_ofJson? (value : Value) {type : ValueType}
    (found : ofJson? value = some type) : type.toJson.nesting ≤ value.nesting := by
  cases value with
  | string name =>
    rw [ofJson?] at found
    cases found
    exact Nat.zero_le _
  | object members =>
    rw [ofJson?, Option.bind_eq_some_iff] at found
    obtain ⟨pointee?, inside, found⟩ := found
    obtain ⟨pointee, rfl, rfl⟩ := Option.map_eq_some_iff.mp found
    rw [nesting_toJson_pointer, Value.nesting]
    exact Nat.succ_le_succ (nesting_le_of_pointeeIn? members inside)
  | null | bool | number | array => cases found

theorem nesting_le_of_pointeeIn? (members : List (String × Value)) {pointee : ValueType}
    (found : pointeeIn? members = some (some pointee)) :
    pointee.toJson.nesting ≤ memberNesting members := by
  cases members with
  | nil => cases found
  | cons member rest =>
    obtain ⟨key, value⟩ := member
    rw [pointeeIn?] at found
    rw [memberNesting]
    split at found
    · split at found
      · next here _ =>
        cases found
        have := nesting_le_of_ofJson? value here
        omega
      · cases found
    · have := nesting_le_of_pointeeIn? rest found
      omega

end

/-- A type that is read stands no deeper than values may. -/
theorem nesting_of_decoder {depth : Nat} {tree : Json.Tree} {type : ValueType}
    (bound : depth ≤ Json.Tree.depthLimit) (reads : decoder depth tree = .ok type) :
    depth + type.toJson.nesting ≤ Json.Tree.depthLimit := by
  obtain ⟨value, whole, reads⟩ := bind_eq_ok_iff.mp reads
  have fits := Json.Tree.nesting_le_of_value tree depth bound
    (Json.Decoder.value_eq_ok_iff.mp whole)
  split at reads
  · next found =>
    cases reads
    have := nesting_le_of_ofJson? value found
    omega
  · cases reads

end ValueType

namespace Parameter

theorem nesting_of_decoder {depth : Nat} {tree : Json.Tree} {parameter : Parameter}
    (reads : decoder depth tree = .ok parameter) :
    depth + parameter.toJson.nesting ≤ Json.Tree.depthLimit := by
  refine Json.Schema.decoder_keeps
    (fun parameter => depth + parameter.toJson.nesting ≤ Json.Tree.depthLimit) reads
    (fun room => room) fun room => ?_
  simp only [nesting_toJson, schema, List.forall_mem_cons, List.not_mem_nil, false_implies,
    implies_true, and_true]
  refine ⟨Json.Schema.keeps_of fun _ _ _ _ holds => holds,
    Json.Schema.keeps_of fun _ type _ reads _ => ?_⟩
  have := ValueType.nesting_of_decoder room reads
  dsimp only
  omega

end Parameter

/-- A type that is read where one may be missing stands no deeper than values may. -/
theorem ValueType.nesting_of_optional {depth : Nat} {tree : Json.Tree} {read : Option ValueType}
    (bound : depth ≤ Json.Tree.depthLimit)
    (reads : Decoder.optional decoder depth tree = .ok read) :
    ∀ type ∈ read, depth + type.toJson.nesting ≤ Json.Tree.depthLimit := by
  rintro type rfl
  exact nesting_of_decoder bound (Json.Decoder.decoder_of_optional reads).2

theorem Parameter.nesting_of_list {depth : Nat} {tree : Json.Tree} {read : List Parameter}
    (reads : Decoder.list decoder depth tree = .ok read) :
    ∀ parameter ∈ read, depth + 2 + parameter.type.toJson.nesting ≤ Json.Tree.depthLimit := by
  intro parameter member
  obtain ⟨_, found⟩ := (Json.Decoder.lt_and_decoder_of_list reads).2 parameter member
  have := nesting_of_decoder found
  rw [nesting_toJson] at this
  omega

namespace Declaration

theorem fitsAt_of_decoder {depth : Nat} {tree : Json.Tree} {declaration : Declaration}
    (reads : decoder depth tree = .ok declaration) : declaration.FitsAt depth := by
  refine Json.Schema.decoder_keeps (FitsAt depth) reads
    (fun _ => ⟨by simp, by simp⟩) fun room => ?_
  simp only [schema, List.forall_mem_cons, List.not_mem_nil, false_implies,
    implies_true, and_true]
  refine ⟨Json.Schema.keeps_of ?name, Json.Schema.keeps_of ?parameters,
    Json.Schema.keeps_of ?returnType⟩
  case name => exact fun _ _ _ _ fits => fits
  case parameters =>
    exact fun _ parameters _ reads fits => ⟨Parameter.nesting_of_list reads, fits.2⟩
  case returnType =>
    exact fun _ type _ reads fits => ⟨fits.1, ValueType.nesting_of_optional room reads⟩

end Declaration

namespace Instruction

theorem fitsAt_of_decoder {depth : Nat} {tree : Json.Tree} {instruction : Instruction}
    (reads : decoder depth tree = .ok instruction) :
    instruction.FitsAt depth ∧ instruction.Storable := by
  refine Json.Schema.decoder_keeps (fun instruction => instruction.FitsAt depth ∧
    instruction.Storable) reads (fun _ => ⟨⟨by simp, by simp⟩, by simp [Storable]⟩) fun room => ?_
  simp only [schema, List.forall_mem_cons, List.not_mem_nil, false_implies,
    implies_true, and_true]
  refine ⟨Json.Schema.keeps_of ?name, Json.Schema.keeps_of ?dest, Json.Schema.keeps_of ?type,
    Json.Schema.keeps_of ?args, Json.Schema.keeps_of ?funcs, Json.Schema.keeps_of ?labels,
    Json.Schema.keeps_of ?value⟩
  case name => exact fun _ _ _ _ holds => holds
  case dest => exact fun _ _ _ _ holds => holds
  case type =>
    exact fun _ type _ reads holds =>
      ⟨⟨ValueType.nesting_of_optional room reads, holds.1.2⟩, holds.2⟩
  case args => exact fun _ _ _ _ holds => holds
  case funcs => exact fun _ _ _ _ holds => holds
  case labels => exact fun _ _ _ _ holds => holds
  case value =>
    rintro tree read record reads ⟨fits, -⟩
    cases read with
    | none => exact ⟨⟨fits.1, by simp⟩, by simp [Storable]⟩
    | some value =>
      obtain ⟨present, decodes⟩ := Json.Decoder.decoder_of_optional reads
      have whole := Json.Decoder.value_eq_ok_iff.mp decodes
      have shallow := Json.Tree.nesting_le_of_value tree _ room whole
      have kept := value.nesting_normalize_le
      refine ⟨⟨fits.1, ?_⟩, ?_⟩
      · rintro _ ⟨⟩
        omega
      · rintro _ ⟨⟩
        refine ⟨fun null => present ?_, value.normalize_normalize⟩
        rw [Value.eq_null_of_normalize null] at whole
        exact Json.Tree.eq_null_of_value whole

end Instruction

/-- An instruction that is read as an entry of a body stands as deep as the entry. -/
theorem Item.fitsAt_of_decoder {depth : Nat} {tree : Json.Tree} {instruction : Instruction}
    (reads : decoder depth tree = .ok (.instruction instruction)) :
    instruction.FitsAt depth ∧ instruction.Storable := by
  obtain ⟨value, _, reads⟩ := bind_eq_ok_iff.mp reads
  split at reads
  · cases reads
  · split at reads
    · next found =>
      cases reads
      exact Instruction.fitsAt_of_decoder found
    · cases reads

namespace Function

theorem fitsAt_of_decoder {depth : Nat} {tree : Json.Tree} {function : Function}
    (reads : decoder depth tree = .ok function) : function.FitsAt depth ∧ function.Storable := by
  refine Json.Schema.decoder_keeps (fun function => function.FitsAt depth ∧ function.Storable)
    reads (fun _ => ?blank) fun room => ?_
  case blank =>
    exact ⟨⟨⟨by simp, by simp⟩, by simp [instructions]⟩, by simp [Storable, instructions]⟩
  simp only [schema, List.forall_mem_cons, List.not_mem_nil, false_implies,
    implies_true, and_true]
  refine ⟨Json.Schema.keeps_of ?name, Json.Schema.keeps_of ?parameters,
    Json.Schema.keeps_of ?returnType, Json.Schema.keeps_of ?body⟩
  case name => exact fun _ _ _ _ holds => holds
  case parameters =>
    exact fun _ parameters _ reads holds =>
      ⟨⟨⟨Parameter.nesting_of_list reads, holds.1.1.2⟩, holds.1.2⟩, holds.2⟩
  case returnType =>
    exact fun _ type _ reads holds =>
      ⟨⟨⟨holds.1.1.1, ValueType.nesting_of_optional room reads⟩, holds.1.2⟩, holds.2⟩
  case body =>
    intro tree body function reads holds
    have each : ∀ instruction ∈ body.filterMap Item.instruction?,
        instruction.FitsAt (depth + 2) ∧ instruction.Storable := by
      intro instruction inside
      obtain ⟨item, member, same⟩ := List.mem_filterMap.mp inside
      obtain ⟨_, found⟩ := (Json.Decoder.lt_and_decoder_of_list reads).2 item member
      cases item with
      | label => cases same
      | instruction operation =>
        cases same
        exact Item.fitsAt_of_decoder found
    exact ⟨⟨holds.1.1, fun instruction inside => (each instruction inside).1⟩,
      fun instruction inside => (each instruction inside).2⟩

end Function

namespace Program

/-- A program that is read can be written and read again. -/
theorem writable_of_read {text : Json.Text} {program : Program}
    (reads : decoder.read text = .ok program) : program.Writable := by
  obtain ⟨tree, _, reads⟩ := Json.Decoder.read_eq_ok_iff.mp reads
  refine Json.Schema.decoder_keeps Writable reads (fun _ => ⟨by simp, by simp⟩) fun room => ?_
  simp only [schema, List.forall_mem_cons, List.not_mem_nil, false_implies,
    implies_true, and_true]
  refine ⟨Json.Schema.keeps_of ?functions, Json.Schema.keeps_of ?externs⟩
  case functions =>
    intro tree functions program reads holds
    refine ⟨fun function member => ?_, holds.externs⟩
    obtain ⟨_, found⟩ := (Json.Decoder.lt_and_decoder_of_list reads).2 function member
    exact Function.fitsAt_of_decoder found
  case externs =>
    intro tree externs program reads holds
    refine ⟨holds.functions, fun declaration member => ?_⟩
    obtain ⟨_, found⟩ := (Json.Decoder.lt_and_decoder_of_list reads).2 declaration member
    exact Declaration.fitsAt_of_decoder found

end Program

end ProgramGraphs
