import Mathlib.Data.List.Nodup
import ProgramGraphs.Program.Encode
import ProgramGraphs.Proofs.Json.Tree

/-! # Data that is read back

A decoder restores data if it reads from the tree of what has been written the data again, wherever
that is not nested too deep (`Restores`). The fields of a record are written one after the other
with those left out that have nothing to say; each written field is read over the record that the
fields before it have left (`Fills`), and a field that is left out has its value already.
-/

namespace ProgramGraphs.Json

namespace Decoder

variable {α : Type} {decoder : Decoder α} {encode : α → Value}

/-- What has been written of data is read as the data, if it is not nested too deep. -/
def Restores (decoder : Decoder α) (encode : α → Value) (data : α) : Prop :=
  ∀ depth, depth + (encode data).nesting ≤ Tree.depthLimit →
    decoder depth (encode data).tree = .ok data

theorem restores_string (text : String) : Restores string .string text :=
  fun _ _ => by rw [Value.tree]; rfl

theorem restores_value (value : Value) : Restores Decoder.value id value :=
  fun depth fits => value_eq_ok_iff.mpr (Tree.value_tree value depth fits)

theorem restores_list {items : List α} (each : ∀ item ∈ items, Restores decoder encode item) :
    Restores (list decoder) (fun items => .array (items.map encode)) items := by
  intro depth fits
  rw [Value.nesting] at fits
  have inside : ∀ item ∈ items, decoder (depth + 1) (encode item).tree = .ok item := by
    intro item member
    refine each item member (depth + 1) ?_
    have held := Value.itemNesting_le_iff.mp (Nat.le_refl _) (encode item)
      (List.mem_map_of_mem member)
    omega
  have reads : (Value.itemTrees (items.map encode)).mapM (decoder (depth + 1)) = .ok items := by
    clear each fits
    rw [Value.itemTrees_eq_map]
    induction items with
    | nil => rfl
    | cons item rest ih =>
      obtain ⟨here, others⟩ := List.forall_mem_cons.mp inside
      rw [List.map_cons, List.map_cons, List.mapM_cons, here, ih others]
      rfl
  rw [Value.tree, list, if_neg (by omega), reads]
  rfl

theorem optional_eq {tree : Tree} (present : tree ≠ .null) (depth : Nat) :
    optional decoder depth tree = some <$> decoder depth tree := by
  cases tree with
  | null => exact absurd rfl present
  | bool | number | string | array | object | broken => rfl

theorem optional_tree {data : α} (restores : Restores decoder encode data)
    (present : encode data ≠ .null) (depth : Nat)
    (fits : depth + (encode data).nesting ≤ Tree.depthLimit) :
    optional decoder depth (encode data).tree = .ok (some data) := by
  have written : (encode data).tree ≠ .null := by
    cases shape : encode data with
    | null => exact absurd shape present
    | bool | number | string | array | object => rw [Value.tree]; simp
  rw [optional_eq written, restores depth fits]
  rfl

end Decoder

namespace Schema

variable {ρ α : Type} {schema : Schema ρ}

theorem readMembers_cons {depth : Nat} {key : String} {tree : Tree}
    {rest : List (Except Fault String × Tree)} {seen : List String} {record next : ρ}
    {field : Field ρ} (found : schema.fields.find? (·.name == key) = some field)
    (fresh : key ∉ seen) (reads : field.read depth tree record = .ok next) :
    schema.readMembers depth ((.ok key, tree) :: rest) (seen, record) =
      schema.readMembers depth rest (key :: seen, next) := by
  have unseen : ¬ seen.contains key = true := by simpa using fresh
  rw [readMembers]
  simp only [Failure.ofFault, Except.mapError, bind, Except.bind, found, if_neg unseen, reads]

/-- Written members, with keys among some names in order, lead from a record to another. -/
structure Fills (schema : Schema ρ) (names : List String) (members : List (String × Value))
    (record result : ρ) : Prop where
  keys : (members.map Prod.fst).Sublist names
  reads : ∀ depth seen rest, depth + Value.memberNesting members ≤ Tree.depthLimit →
    ((members.map Prod.fst).reverse ++ seen).Nodup →
      schema.readMembers depth (Value.memberTrees members ++ rest) (seen, record) =
        schema.readMembers depth rest ((members.map Prod.fst).reverse ++ seen, result)

namespace Fills

theorem append {names others : List String} {first second : List (String × Value)}
    {record middle result : ρ} (one : schema.Fills names first record middle)
    (other : schema.Fills others second middle result) :
    schema.Fills (names ++ others) (first ++ second) record result where
  keys := by
    rw [List.map_append]
    exact one.keys.append other.keys
  reads depth seen rest fits distinct := by
    rw [Value.memberNesting_append] at fits
    rw [List.map_append, List.reverse_append, List.append_assoc] at distinct ⊢
    rw [Value.memberTrees_append, List.append_assoc,
      one.reads depth seen _ (by omega) (List.nodup_append.mp distinct).2.1,
      other.reads depth _ rest (by omega) distinct]

theorem nil (name : String) (record : ρ) : schema.Fills [name] [] record record :=
  ⟨List.nil_sublist _, fun _ _ _ _ _ => rfl⟩

variable {name : String} {required : Bool} {decoder : Decoder α} {encode : α → Value}

theorem single {set : α → ρ → ρ}
    (found : schema.fields.find? (·.name == name) = some (.of name required decoder set))
    {value : Value} {data : α} (reads : ∀ depth, depth + value.nesting ≤ Tree.depthLimit →
      decoder depth value.tree = .ok data) {record result : ρ} (same : set data record = result) :
    schema.Fills [name] [(name, value)] record result where
  keys := List.Sublist.refl _
  reads depth seen rest fits distinct := by
    rw [Value.memberNesting, Value.memberNesting] at fits
    refine readMembers_cons found (List.nodup_cons.mp distinct).1 ?_
    change (set · record) <$> decoder depth value.tree = _
    rw [reads depth (by omega), ← same]
    rfl

/-- A field that is always written. -/
theorem member {set : α → ρ → ρ}
    (found : schema.fields.find? (·.name == name) = some (.of name required decoder set))
    {data : α} (restores : decoder.Restores encode data) {record result : ρ}
    (same : set data record = result) :
    schema.Fills [name] [(name, encode data)] record result :=
  single found restores same

/-- A field that is written unless it is absent. -/
theorem option {set : Option α → ρ → ρ}
    (found : schema.fields.find? (·.name == name) =
      some (.of name required (.optional decoder) set)) {item : Option α}
    (restores : ∀ data ∈ item, decoder.Restores encode data ∧ encode data ≠ .null)
    {record result : ρ} (blank : set none record = record) (same : set item record = result) :
    schema.Fills [name] (optionMember name (item.map encode)) record result := by
  cases item with
  | none =>
    rw [← same, blank]
    exact nil name record
  | some data =>
    obtain ⟨restored, present⟩ := restores data rfl
    exact single found (Decoder.optional_tree restored present) same

/-- A field that is written unless it is an empty list. -/
theorem list {set : List α → ρ → ρ}
    (found : schema.fields.find? (·.name == name) = some (.of name required (.list decoder) set))
    {items : List α} (restores : ∀ item ∈ items, decoder.Restores encode item)
    {record result : ρ} (blank : set [] record = record) (same : set items record = result) :
    schema.Fills [name] (listMember name (items.map encode)) record result := by
  cases items with
  | nil =>
    rw [← same, blank]
    exact nil name record
  | cons item rest => exact member found (Decoder.restores_list restores) same

end Fills

/-- A record is read as it has been written if its fields are. -/
theorem decoder_object {names : List String} {members : List (String × Value)} {blank record : ρ}
    (fills : schema.Fills names members blank record) (distinct : names.Nodup)
    (written : ∀ field ∈ schema.fields, field.required = true →
      field.name ∈ members.map Prod.fst) (depth : Nat)
    (fits : depth + (Value.object members).nesting ≤ Tree.depthLimit) :
    schema.decoder blank depth (Value.object members).tree = .ok record := by
  rw [Value.nesting] at fits
  have unrepeated : ((members.map Prod.fst).reverse ++ []).Nodup := by
    rw [List.append_nil]
    exact List.nodup_reverse.mpr (distinct.sublist fills.keys)
  have reads := fills.reads (depth + 1) [] [] (by omega) unrepeated
  rw [List.append_nil, List.append_nil, readMembers] at reads
  have complete : (schema.fields.find? fun field =>
      field.required && !(members.map Prod.fst).reverse.contains field.name) = none := by
    rw [List.find?_eq_none]
    intro field member missing
    rw [Bool.and_eq_true, Bool.not_eq_true', List.contains_eq_mem, decide_eq_false_iff_not,
      List.mem_reverse] at missing
    exact missing.2 (written field member missing.1)
  have closed : Failure.ofFault (Tree.raise? ObjectEnd.closed.readFault?) = .ok () := rfl
  rw [Value.tree, decoder]
  simp only [if_neg (show ¬ Tree.depthLimit ≤ depth by omega), reads, closed, bind, Except.bind,
    complete]
  rfl

end Schema

end ProgramGraphs.Json
