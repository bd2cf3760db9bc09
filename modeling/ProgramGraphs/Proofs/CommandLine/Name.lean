import ProgramGraphs.CommandLine.Config
import ProgramGraphs.Proofs.Keyed

/-! # Names on the command line

Kinds of graphs, output formats and strategies are given by name. No two have the same name, so a
name is known exactly if something has it, and then it is the name of that one thing (`Names`).
Extensions of files are as good as names for the formats that are written to files.
-/

namespace ProgramGraphs

/-- Looking a name up finds the one thing that has it. -/
def Names {α : Type} (name : α → String) (ofName? : String → Option α) : Prop :=
  ∀ text value, ofName? text = some value ↔ name value = text

namespace Names

variable {α : Type} {name : α → String} {ofName? : String → Option α}

theorem injective (names : Names name ofName?) {value other : α}
    (same : name value = name other) : value = other :=
  Option.some.inj (((names _ value).mpr rfl).symm.trans ((names _ other).mpr same.symm))

theorem eq_none_iff (names : Names name ofName?) {text : String} :
    ofName? text = none ↔ ∀ value, name value ≠ text := by
  simp only [Option.eq_none_iff_forall_ne_some, ne_eq, names text]

/-- What is known of a name that is given, if it is not at fault. -/
theorem known_eq_ok_iff (names : Names name ofName?) {given : Option String}
    {unknown : String → ConfigFault} {value : Option α} :
    Config.known given ofName? unknown = .ok value ↔ given = value.map name := by
  cases given with
  | none => simp [Config.known, eq_comm]
  | some text =>
    cases found : ofName? text with
    | none =>
      have apart := names.eq_none_iff.mp found
      cases value <;> simp [Config.known, found, Ne.symm (apart _)]
    | some named =>
      obtain rfl := (names _ _).mp found
      have same : ∀ other, named = other ↔ name named = name other :=
        fun _ => ⟨congrArg name, names.injective⟩
      cases value <;> simp [Config.known, found, same]

/-- A name that is given is at fault if nothing has it. -/
theorem known_eq_error_iff (names : Names name ofName?) {given : Option String}
    {unknown : String → ConfigFault} {fault : ConfigFault} :
    Config.known given ofName? unknown = .error fault ↔
      ∃ text, given = some text ∧ (∀ value, name value ≠ text) ∧ fault = unknown text := by
  simp only [← names.eq_none_iff]
  cases given with
  | none => simp [Config.known]
  | some text => cases found : ofName? text <;> simp [Config.known, found, eq_comm]

end Names

theorem GraphKind.names : Names GraphKind.name ofName? := fun _ _ =>
  find?_key_eq_some_iff (by decide) fun kind => by cases kind <;> decide

theorem Strategy.names : Names Strategy.name ofName? := fun _ _ =>
  find?_key_eq_some_iff (by decide) fun strategy => by cases strategy <;> decide

theorem Viewer.names : Names Viewer.name ofName? := fun _ _ =>
  find?_key_eq_some_iff (by decide) fun window => by cases window <;> decide

namespace Encoding

theorem mem_all (encoding : Encoding) : encoding ∈ all := by
  cases encoding <;> decide

theorem names : Names Encoding.name ofName? := fun _ _ =>
  find?_key_eq_some_iff (by decide) mem_all

theorem extensions : Names extension ofExtension? := fun _ _ =>
  find?_key_eq_some_iff (by decide) mem_all

theorem extension_ne_json (encoding : Encoding) : encoding.extension ≠ "json" := by
  cases encoding <;> decide

end Encoding

namespace OutputFormat

/-- No viewer, encoding or document shares its name with one of the others. -/
theorem name_apart (window : Viewer) (encoding : Encoding) : window.name ≠ "Json" ∧
    encoding.name ≠ "Json" ∧ window.name ≠ encoding.name := by
  cases window <;> cases encoding <;> decide

theorem names : Names OutputFormat.name ofName? := by
  intro name format
  unfold ofName?
  split
  · next same =>
    subst same
    cases format with
    | viewer window => simp [OutputFormat.name, (name_apart window .dot).1]
    | files encoding => simp [OutputFormat.name, (name_apart .gtk encoding).2.1]
    | json => simp [OutputFormat.name]
  · next other =>
    cases format with
    | viewer window => simp [OutputFormat.name, Viewer.names name]
    | files encoding =>
      have unviewed (same : encoding.name = name) : Viewer.ofName? name = none :=
        Viewer.names.eq_none_iff.mpr fun window named =>
          (name_apart window encoding).2.2 (named.trans same.symm)
      simpa [OutputFormat.name, Encoding.names name] using unviewed
    | json => simp [OutputFormat.name, Ne.symm other]

/-- The extension of the files that a format is written to. -/
def extension? : OutputFormat → Option String
  | .viewer _ => none
  | .files encoding => some encoding.extension
  | .json => some "json"

theorem ofExtension?_eq_some_iff {extension : String} {format : OutputFormat} :
    ofExtension? extension = some format ↔ format.extension? = some extension := by
  unfold ofExtension?
  split
  · next same =>
    subst same
    cases format <;> simp [extension?, Encoding.extension_ne_json]
  · next other =>
    cases format <;> simp [extension?, Encoding.extensions extension, Ne.symm other]

end OutputFormat

end ProgramGraphs
