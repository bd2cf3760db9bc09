import ProgramGraphs.Program.Decode
import ProgramGraphs.Proofs.Json.Normal
import ProgramGraphs.Proofs.Json.Restore

/-! # Programs that are read back

Each part of a program is restored by its decoder: the fields that are left out have the values that
a blank record has, and an instruction is never taken for a label, since no field of it is called
that. What is asked of a program is that no literal is null, which would be read as an absent one.
-/

namespace ProgramGraphs

open Json (Decoder Field Schema Value)

namespace ValueType

theorem ofJson?_toJson (type : ValueType) : ofJson? type.toJson = some type := by
  induction type with
  | pointer pointee ih =>
    rw [toJson, ofJson?, pointeeIn?, if_pos rfl, ih, pointeeIn?]
    rfl
  | named name => rw [toJson, ofJson?]

theorem toJson_ne_null (type : ValueType) : type.toJson ≠ .null := by
  cases type <;> simp [toJson]

theorem restores (type : ValueType) : decoder.Restores toJson type := by
  intro depth fits
  have read := Json.Decoder.value_eq_ok_iff.mpr (Json.Tree.value_tree type.toJson depth fits)
  refine bind_eq_ok_iff.mpr ⟨_, read, ?_⟩
  rw [ofJson?_toJson]
  rfl

end ValueType

namespace Parameter

theorem restores (parameter : Parameter) : decoder.Restores toJson parameter := by
  have name : schema.Fills ["name"] [("name", .string parameter.name)] ⟨"", .named ""⟩
      ⟨parameter.name, .named ""⟩ := .member rfl (Json.Decoder.restores_string _) rfl
  have type : schema.Fills ["type"] [("type", parameter.type.toJson)]
      ⟨parameter.name, .named ""⟩ parameter := .member rfl (ValueType.restores _) rfl
  exact Json.Schema.decoder_object (name.append type) (by decide) (by simp [schema, Field.of])

end Parameter

namespace Declaration

theorem restores (declaration : Declaration) : decoder.Restores toJson declaration := by
  obtain ⟨name, parameters, returnType⟩ := declaration
  have named : schema.Fills ["name"] [("name", .string name)] { name := "" } { name } :=
    .member rfl (Json.Decoder.restores_string name) rfl
  have taking : schema.Fills ["args"] (Json.listMember "args" (parameters.map Parameter.toJson))
      { name } { name, parameters } :=
    .list rfl (fun parameter _ => parameter.restores) rfl rfl
  have returning : schema.Fills ["type"]
      (Json.optionMember "type" (returnType.map ValueType.toJson))
      { name, parameters } { name, parameters, returnType } :=
    .option rfl (fun type _ => ⟨type.restores, type.toJson_ne_null⟩) rfl rfl
  exact Json.Schema.decoder_object (named.append (taking.append returning)) (by decide)
    (by simp [schema, Field.of, members])

end Declaration

namespace Instruction

/-- The literal of an instruction, if it has one, is not null and in the form in which values are
kept. -/
def Storable (instruction : Instruction) : Prop :=
  ∀ value ∈ instruction.value, value ≠ .null ∧ value.normalize = value

/-- The fields of an instruction are read one after the other as they have been written. -/
theorem exists_fills {instruction : Instruction} (storable : instruction.Storable) :
    ∃ members, instruction.toJson = .object (("op", .string instruction.name) :: members) ∧
      schema.Fills ["op", "dest", "type", "args", "funcs", "labels", "value"]
        (("op", .string instruction.name) :: members) { name := "" } instruction := by
  obtain ⟨name, dest, type, args, funcs, labels, value⟩ := instruction
  have named : schema.Fills ["op"] [("op", .string name)] { name := "" } { name } :=
    .member rfl (Json.Decoder.restores_string name) rfl
  have assigning : schema.Fills ["dest"] (Json.optionMember "dest" (dest.map .string))
      { name } { name, dest } :=
    .option rfl (fun dest _ => ⟨Json.Decoder.restores_string dest, by simp⟩) rfl rfl
  have typed : schema.Fills ["type"] (Json.optionMember "type" (type.map ValueType.toJson))
      { name, dest } { name, dest, type } :=
    .option rfl (fun type _ => ⟨type.restores, type.toJson_ne_null⟩) rfl rfl
  have taking : schema.Fills ["args"] (Json.listMember "args" (args.map .string))
      { name, dest, type } { name, dest, type, args } :=
    .list rfl (fun arg _ => Json.Decoder.restores_string arg) rfl rfl
  have calling : schema.Fills ["funcs"] (Json.listMember "funcs" (funcs.map .string))
      { name, dest, type, args } { name, dest, type, args, funcs } :=
    .list rfl (fun callee _ => Json.Decoder.restores_string callee) rfl rfl
  have jumping : schema.Fills ["labels"] (Json.listMember "labels" (labels.map .string))
      { name, dest, type, args, funcs } { name, dest, type, args, funcs, labels } :=
    .list rfl (fun label _ => Json.Decoder.restores_string label) rfl rfl
  have kept : value.map Value.normalize = value := by
    cases value with
    | none => rfl
    | some value => exact congrArg some (storable value rfl).2
  have holding : schema.Fills ["value"] (Json.optionMember "value" (value.map id))
      { name, dest, type, args, funcs, labels }
      { name, dest, type, args, funcs, labels, value } :=
    .option rfl (fun value held => ⟨Json.Decoder.restores_value value, (storable value held).1⟩) rfl
      (by rw [kept])
  rw [Option.map_id, id] at holding
  have fills := named.append
    (((((assigning.append typed).append taking).append calling).append jumping).append holding)
  exact ⟨_, rfl, fills⟩

theorem restores {instruction : Instruction} (storable : instruction.Storable) :
    decoder.Restores toJson instruction := by
  obtain ⟨members, written, fills⟩ := exists_fills storable
  intro depth fits
  rw [written] at fits ⊢
  exact Json.Schema.decoder_object fills (by decide) (by simp [schema, Field.of]) depth fits

/-- What is written of an instruction declares no label. -/
theorem labelOf?_toJson {instruction : Instruction} (storable : instruction.Storable) :
    Item.labelOf? instruction.toJson = none := by
  obtain ⟨members, written, fills⟩ := exists_fills storable
  have unlabelled :
      (("op", .string instruction.name) :: members).filter (·.1 == "label") = [] := by
    rw [List.filter_eq_nil_iff]
    intro member inside same
    have listed := fills.keys.subset (List.mem_map_of_mem inside)
    rw [eq_of_beq same] at listed
    exact absurd listed (by decide)
  rw [written, Item.labelOf?, Json.onlyMember?, unlabelled]

end Instruction

namespace Item

theorem restores {item : Item}
    (storable : ∀ operation, item = .instruction operation → operation.Storable) :
    decoder.Restores toJson item := by
  intro depth fits
  have read := Json.Decoder.value_eq_ok_iff.mpr (Json.Tree.value_tree item.toJson depth fits)
  refine bind_eq_ok_iff.mpr ⟨_, read, ?_⟩
  cases item with
  | label name => rfl
  | instruction operation =>
    have unlabelled := Instruction.labelOf?_toJson (storable operation rfl)
    have restored := Instruction.restores (storable operation rfl) depth fits
    rw [toJson, unlabelled, restored]
    rfl

end Item

namespace Function

/-- The literals of all instructions of a function are as they are kept. -/
def Storable (function : Function) : Prop :=
  ∀ instruction ∈ function.instructions, instruction.Storable

theorem restores {function : Function} (storable : function.Storable) :
    decoder.Restores toJson function := by
  obtain ⟨⟨name, parameters, returnType⟩, body⟩ := function
  have named : schema.Fills ["name"] [("name", .string name)] { name := "" } { name } :=
    .member rfl (Json.Decoder.restores_string name) rfl
  have taking : schema.Fills ["args"] (Json.listMember "args" (parameters.map Parameter.toJson))
      { name } { name, parameters } :=
    .list rfl (fun parameter _ => parameter.restores) rfl rfl
  have returning : schema.Fills ["type"]
      (Json.optionMember "type" (returnType.map ValueType.toJson))
      { name, parameters } { name, parameters, returnType } :=
    .option rfl (fun type _ => ⟨type.restores, type.toJson_ne_null⟩) rfl rfl
  have items : ∀ item ∈ body, Item.decoder.Restores Item.toJson item := by
    intro item member
    refine Item.restores fun operation same => storable operation ?_
    exact List.mem_filterMap.mpr ⟨item, member, by rw [same]; rfl⟩
  have running : schema.Fills ["instrs"] [("instrs", .array (body.map Item.toJson))]
      { name, parameters, returnType } { name, parameters, returnType, body } :=
    .member rfl (Json.Decoder.restores_list items) rfl
  exact Json.Schema.decoder_object ((named.append (taking.append returning)).append running)
    (by decide) (by simp [schema, Field.of, Declaration.members])

end Function

namespace Program

/-- The literals of all instructions of a program are as they are kept. -/
def Storable (program : Program) : Prop :=
  ∀ function ∈ program.functions, function.Storable

/-- A program is read as it has been written. -/
theorem restores {program : Program} (storable : program.Storable) :
    decoder.Restores toJson program := by
  obtain ⟨functions, externs⟩ := program
  have defining : schema.Fills ["functions"]
      [("functions", .array (functions.map Function.toJson))] { functions := [] } { functions } :=
    .member rfl (Json.Decoder.restores_list fun function member =>
      Function.restores (storable function member)) rfl
  have declaring : schema.Fills ["externs"]
      (Json.listMember "externs" (externs.map Declaration.toJson)) { functions }
      { functions, externs } :=
    .list rfl (fun declaration _ => declaration.restores) rfl rfl
  exact Json.Schema.decoder_object (defining.append declaring) (by decide)
    (by simp [schema, Field.of])

end Program

end ProgramGraphs
