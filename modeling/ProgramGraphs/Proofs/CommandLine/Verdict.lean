import ProgramGraphs.Proofs.CommandLine.Mention
import ProgramGraphs.Proofs.CommandLine.Name

/-! # What becomes of a command line

Of a line of separate words only a demand is left: the inputs and the outputs, the last kind and the
last format, the strategy, and whether more output is wanted. A demand can be at fault in several
ways at once. The faults have an order, and the first one is reported (`resolve_eq_error_iff`). A
demand without a fault is fulfilled by one configuration (`Fulfilled.unique`).
-/

namespace ProgramGraphs

open CommandLine (Arguments Mention)

/-- The place of a fault in the order in which faults are reported. -/
def ConfigFault.place : ConfigFault → Nat
  | .arguments _ => 0
  | .severalInputs => 1
  | .severalOutputs => 2
  | .unknownKind _ => 3
  | .unknownFormat _ => 4
  | .unknownStrategy _ => 5
  | .missingInput => 6
  | .missingKind => 7
  | .outputRequired _ => 8

/-- What a line says, as far as it matters. -/
structure Demand where
  inputs : List String
  outputs : List String
  kind : Option String
  format : Option String
  strategy : Option String
  verbose : Bool
  deriving DecidableEq, Repr

namespace Demand

/-- What arguments say: the last kind and the last format count. -/
def ofArguments (arguments : Arguments) : Demand where
  inputs := arguments.inputs
  outputs := arguments.outputs
  kind := arguments.kinds.getLast?
  format := arguments.formats.getLast?
  strategy := arguments.strategy
  verbose := arguments.verbose

/-- What mentions say. -/
def ofMentions (mentions : List Mention) : Demand where
  inputs := Mention.values .input mentions
  outputs := Mention.values .output mentions
  kind := (Mention.values .kind mentions).getLast?
  format := (Mention.values .format mentions).getLast?
  strategy := (Mention.values .strategy mentions).head?
  verbose := mentions.any Mention.isVerbose

/-- A format is wanted by name, else for the extension of the output; a window is wanted where
neither says anything. -/
inductive Wants (demand : Demand) : OutputFormat → Prop
  | named {format : OutputFormat} (given : demand.format = some format.name) : Wants demand format
  | extension {format : OutputFormat} {output extension : String} (unnamed : demand.format = none)
      (given : demand.outputs.head? = some output)
      (ends : Path.extension? ⟨output⟩ = some extension)
      (fits : format.extension? = some extension) : Wants demand format
  | standard (unnamed : demand.format = none)
      (unfit : ∀ output extension, demand.outputs.head? = some output →
        Path.extension? ⟨output⟩ = some extension →
        ∀ format : OutputFormat, format.extension? ≠ some extension) : Wants demand (.viewer .gtk)

/-- What it means for a demand to be at a fault. -/
def Violates (demand : Demand) : ConfigFault → Prop
  | .severalInputs => 1 < demand.inputs.length
  | .severalOutputs => 1 < demand.outputs.length
  | .unknownKind name => demand.kind = some name ∧ ∀ kind : GraphKind, kind.name ≠ name
  | .unknownFormat name => demand.format = some name ∧ ∀ format : OutputFormat, format.name ≠ name
  | .unknownStrategy name =>
    demand.strategy = some name ∧ ∀ strategy : Strategy, strategy.name ≠ name
  | .missingInput => demand.inputs = []
  | .missingKind => demand.kind = none
  | .outputRequired encoding => demand.Wants (.files encoding) ∧ demand.outputs = []
  | .arguments _ => False

/-- A fault that a demand is at, and no other that is reported before it. -/
def First (demand : Demand) (fault : ConfigFault) : Prop :=
  demand.Violates fault ∧ ∀ other, demand.Violates other → fault.place ≤ other.place

/-- A configuration that does what a demand says. -/
structure Fulfilled (demand : Demand) (config : Config) : Prop where
  input : demand.inputs = [config.input.text]
  output : demand.outputs = (config.output.map Path.text).toList
  kind : demand.kind = some config.kind.name
  format : demand.Wants config.format
  strategy : demand.strategy = some config.strategy.name ∨
    demand.strategy = none ∧ config.strategy = .trivial
  verbose : config.verbose = demand.verbose

/-- A demand at fault is answered by its first fault, another one by what fulfils it. -/
def Answered (demand : Demand) : Except ConfigFault Config → Prop
  | .error fault => demand.First fault
  | .ok config => (∀ fault, ¬ demand.Violates fault) ∧ demand.Fulfilled config

/-- No fault is reported before a certain place. -/
def Passes (demand : Demand) (place : Nat) : Prop :=
  ∀ fault, demand.Violates fault → place ≤ fault.place

variable {demand : Demand} {fault : ConfigFault} {place : Nat}

theorem Passes.next (passes : demand.Passes place)
    (absent : ∀ fault, ¬ (fault.place = place ∧ demand.Violates fault)) :
    demand.Passes (place + 1) := fun fault violates =>
  Nat.lt_of_le_of_ne (passes fault violates) fun here => absent fault ⟨here.symm, violates⟩

/-- A check in its turn fails with the fault of its place. -/
theorem Passes.check {α : Type} {check : Except ConfigFault α}
    {rest : α → Except ConfigFault Config} (passes : demand.Passes place)
    (fails_iff : ∀ fault, check = .error fault ↔ fault.place = place ∧ demand.Violates fault)
    (answered : ∀ value, check = .ok value → demand.Passes (place + 1) →
      demand.Answered (rest value)) : demand.Answered (check >>= rest) := by
  cases checked : check with
  | error fault =>
    obtain ⟨rfl, violates⟩ := (fails_iff fault).mp checked
    exact ⟨violates, passes⟩
  | ok value =>
    refine answered value checked (passes.next fun fault here => ?_)
    exact nomatch checked.symm.trans ((fails_iff fault).mpr here)

/-- A test in its turn holds where a demand is at the fault of its place. -/
theorem Passes.test {condition : Prop} [Decidable condition] {reported : ConfigFault}
    {rest : Except ConfigFault Config} (passes : demand.Passes place)
    (fails_iff : ∀ fault, condition ∧ reported = fault ↔
      fault.place = place ∧ demand.Violates fault)
    (answered : ¬ condition → demand.Passes (place + 1) → demand.Answered rest) :
    demand.Answered (if condition then .error reported else rest) := by
  split
  · next fails =>
    obtain ⟨rfl, violates⟩ := (fails_iff reported).mp ⟨fails, rfl⟩
    exact ⟨violates, passes⟩
  · next holds =>
    exact answered holds (passes.next fun fault here => holds ((fails_iff fault).mpr here).1)

theorem required_eq_ok_iff {α : Type} {given : Option α} {missing : ConfigFault} {value : α} :
    Config.required given missing = .ok value ↔ given = some value := by
  cases given <;> simp [Config.required]

theorem required_eq_error_iff {α : Type} {given : Option α} {missing fault : ConfigFault} :
    Config.required given missing = .error fault ↔ given = none ∧ fault = missing := by
  cases given <;> simp [Config.required, eq_comm]

theorem checkOutput_eq_error_iff {format : OutputFormat} {output : Option Path} :
    Config.checkOutput format output = .error fault ↔
      ∃ encoding, format = .files encoding ∧ output = none ∧ fault = .outputRequired encoding := by
  cases format <;> cases output <;> simp [Config.checkOutput, eq_comm]

/-- Without a name, the format of the extension is wanted, or else the one that stands for
itself. -/
theorem wants_iff_of_unnamed (unnamed : demand.format = none) (format : OutputFormat) :
    demand.Wants format ↔
      format = Config.formatOfOutput (demand.outputs.head?.map Path.mk) := by
  rw [Config.formatOfOutput]
  have found_iff : ∀ format, ((demand.outputs.head?.map Path.mk).bind Path.extension?).bind
      OutputFormat.ofExtension? = some format ↔ ∃ output extension,
        demand.outputs.head? = some output ∧ Path.extension? ⟨output⟩ = some extension ∧
          format.extension? = some extension := by
    intro format
    simp only [Option.bind_eq_some_iff, Option.map_eq_some_iff,
      OutputFormat.ofExtension?_eq_some_iff]
    constructor
    · rintro ⟨extension, ⟨_, ⟨output, given, rfl⟩, ends⟩, fits⟩
      exact ⟨output, extension, given, ends, fits⟩
    · rintro ⟨output, extension, given, ends, fits⟩
      exact ⟨extension, ⟨_, ⟨output, given, rfl⟩, ends⟩, fits⟩
  constructor
  · rintro (given | ⟨-, given, ends, fits⟩ | ⟨-, unfit⟩)
    · exact nomatch unnamed.symm.trans given
    · rw [(found_iff format).mpr ⟨_, _, given, ends, fits⟩, Option.getD_some]
    · have none := Option.eq_none_iff_forall_ne_some.mpr fun format found => by
        obtain ⟨output, extension, given, ends, fits⟩ := (found_iff format).mp found
        exact unfit output extension given ends format fits
      rw [none, Option.getD_none, OutputFormat.standard]
  · rintro rfl
    cases found : ((demand.outputs.head?.map Path.mk).bind Path.extension?).bind
        OutputFormat.ofExtension? with
    | none =>
      refine .standard unnamed fun output extension given ends format fits => ?_
      exact nomatch found.symm.trans ((found_iff format).mpr ⟨output, extension, given, ends, fits⟩)
    | some format =>
      obtain ⟨output, extension, given, ends, fits⟩ := (found_iff format).mp found
      exact .extension unnamed given ends fits

/-- The format that is chosen for a known name, or without one, is the one that is wanted. -/
theorem wants_iff {chosen : Option OutputFormat} (named : demand.format = chosen.map (·.name))
    (format : OutputFormat) : demand.Wants format ↔
      format = chosen.getD (Config.formatOfOutput (demand.outputs.head?.map Path.mk)) := by
  cases chosen with
  | none => exact wants_iff_of_unnamed named format
  | some known =>
    constructor
    · rintro (given | ⟨unnamed, -⟩ | ⟨unnamed, -⟩)
      · exact OutputFormat.names.injective (Option.some.inj (given.symm.trans named))
      · exact nomatch named.symm.trans unnamed
      · exact nomatch named.symm.trans unnamed
    · rintro rfl
      exact .named named

/-- A list of one entry at most is as good as its head. -/
theorem eq_toList_head? {α : Type} {entries : List α} (few : ¬ 1 < entries.length) :
    entries = entries.head?.toList := by
  match entries with
  | [] => rfl
  | [_] => rfl
  | _ :: _ :: _ => simp at few

/-- The checks are made in the order of the faults. -/
theorem answered_ofArguments (arguments : Arguments) :
    (ofArguments arguments).Answered (Config.ofArguments arguments) := by
  have start : (ofArguments arguments).Passes 1 := by
    intro fault violates
    cases fault <;> first | exact violates.elim | simp [ConfigFault.place]
  refine start.test ?_ fun oneInput passes => ?_
  · intro fault
    cases fault <;> simp [ConfigFault.place, Violates, ofArguments]
  refine passes.test ?_ fun oneOutput passes => ?_
  · intro fault
    cases fault <;> simp [ConfigFault.place, Violates, ofArguments]
  refine passes.check ?_ fun kind knownKind passes => ?_
  · intro fault
    rw [GraphKind.names.known_eq_error_iff]
    cases fault <;> simp [ConfigFault.place, Violates, ofArguments]
  refine passes.check ?_ fun format knownFormat passes => ?_
  · intro fault
    rw [OutputFormat.names.known_eq_error_iff]
    cases fault <;> simp [ConfigFault.place, Violates, ofArguments]
  refine passes.check ?_ fun strategy knownStrategy passes => ?_
  · intro fault
    rw [Strategy.names.known_eq_error_iff]
    cases fault <;> simp [ConfigFault.place, Violates, ofArguments]
  refine passes.check ?_ fun input givenInput passes => ?_
  · intro fault
    rw [required_eq_error_iff]
    cases fault <;> simp [ConfigFault.place, Violates, ofArguments]
  have named := GraphKind.names.known_eq_ok_iff.mp knownKind
  refine passes.check ?_ fun kind givenKind passes => ?_
  · intro fault
    rw [required_eq_error_iff]
    cases fault <;> simp [ConfigFault.place, Violates, ofArguments, named]
  have wants : ∀ wanted, (ofArguments arguments).Wants wanted ↔
      wanted = format.getD (Config.formatOfOutput (arguments.outputs.head?.map Path.mk)) :=
    wants_iff (OutputFormat.names.known_eq_ok_iff.mp knownFormat)
  have outputs : (ofArguments arguments).outputs = arguments.outputs := rfl
  refine passes.check ?_ fun _ _ passes => ?_
  · intro fault
    rw [checkOutput_eq_error_iff]
    cases fault <;>
      simp [ConfigFault.place, Violates, wants, outputs, eq_comm (a := OutputFormat.files _)]
  refine ⟨fun fault violates => ?_, ?_⟩
  · have late := passes fault violates
    cases fault <;> simp [ConfigFault.place] at late
  · have given := required_eq_ok_iff.mp givenInput
    rw [required_eq_ok_iff.mp givenKind] at named
    have known := Strategy.names.known_eq_ok_iff.mp knownStrategy
    refine ⟨?_, ?_, named, (wants _).mpr rfl, ?_, rfl⟩
    · change arguments.inputs = [input]
      rw [eq_toList_head? oneInput, given]
      rfl
    · rw [outputs, eq_toList_head? oneOutput]
      cases arguments.outputs.head? <;> rfl
    · cases strategy with
      | none => exact .inr ⟨known, rfl⟩
      | some strategy => exact .inl known

theorem Wants.unique {format other : OutputFormat} (one : demand.Wants format)
    (two : demand.Wants other) : format = other := by
  cases given : demand.format with
  | none =>
    rw [wants_iff_of_unnamed given] at one two
    rw [one, two]
  | some name =>
    have named : demand.format = (some format).map (·.name) := by
      cases one with
      | named given => exact given
      | extension unnamed => exact nomatch given.symm.trans unnamed
      | standard unnamed => exact nomatch given.symm.trans unnamed
    rw [wants_iff named] at two
    exact two.symm

/-- A demand is at one fault of every place at most. -/
theorem eq_of_violates {other : ConfigFault} (same : fault.place = other.place)
    (here : demand.Violates fault) (there : demand.Violates other) : fault = other := by
  cases fault <;> cases other <;> try cases same
  case unknownKind.unknownKind =>
    rw [Option.some.inj (here.1.symm.trans there.1)]
  case unknownFormat.unknownFormat =>
    rw [Option.some.inj (here.1.symm.trans there.1)]
  case unknownStrategy.unknownStrategy =>
    rw [Option.some.inj (here.1.symm.trans there.1)]
  case outputRequired.outputRequired =>
    rw [OutputFormat.files.inj (here.1.unique there.1)]
  case arguments.arguments => exact here.elim
  all_goals rfl

theorem First.unique {other : ConfigFault} (one : demand.First fault) (two : demand.First other) :
    fault = other :=
  eq_of_violates (Nat.le_antisymm (one.2 _ two.1) (two.2 _ one.1)) one.1 two.1

/-- There is one configuration at most that fulfils a demand. -/
theorem Fulfilled.unique {config other : Config} (one : demand.Fulfilled config)
    (two : demand.Fulfilled other) : config = other := by
  have texts : Function.Injective Path.text := fun ⟨_⟩ ⟨_⟩ same => congrArg Path.mk same
  have input : config.input = other.input :=
    texts (List.singleton_inj.mp (one.input.symm.trans two.input))
  have outputs := congrArg List.head? (one.output.symm.trans two.output)
  have output : config.output = other.output := Option.map_injective texts (by simpa using outputs)
  have kind : config.kind = other.kind :=
    GraphKind.names.injective (Option.some.inj (one.kind.symm.trans two.kind))
  have format : config.format = other.format := one.format.unique two.format
  have verbose : config.verbose = other.verbose := one.verbose.trans two.verbose.symm
  have strategy : config.strategy = other.strategy := by
    rcases one.strategy with here | ⟨here, one⟩ <;> rcases two.strategy with there | ⟨there, two⟩
    · exact Strategy.names.injective (Option.some.inj (here.symm.trans there))
    · exact nomatch here.symm.trans there
    · exact nomatch here.symm.trans there
    · exact one.trans two.symm
  obtain ⟨⟩ := config
  obtain ⟨⟩ := other
  congr

end Demand

namespace Config

variable {mentions : List Mention}

/-- What a regular line asks for is up to the checks of what it says. -/
theorem resolve_eq_map_ofArguments (program : String) (regular : Mention.Regular mentions) :
    resolve (program :: mentions.flatMap Mention.words) =
      .run <$> ofArguments (Mention.gathered mentions) := by
  have silent : asksForHelp (mentions.flatMap Mention.words) = false := by
    rw [asksForHelp, List.any_eq_false]
    intro word member
    simpa using regular.ne_help_of_mem_words (List.takeWhile_subset _ member)
  rw [resolve, List.tail_cons, silent, Mention.read_words regular]
  rfl

theorem resolve_eq_error_iff (program : String) (regular : Mention.Regular mentions)
    (fault : ConfigFault) :
    resolve (program :: mentions.flatMap Mention.words) = .error fault ↔
      (Demand.ofMentions mentions).First fault := by
  have answered := Demand.answered_ofArguments (Mention.gathered mentions)
  rw [resolve_eq_map_ofArguments program regular]
  cases answer : ofArguments (Mention.gathered mentions) with
  | error reported =>
    rw [answer] at answered
    constructor
    · rintro ⟨⟩
      exact answered
    · intro first
      rw [first.unique answered]
      rfl
  | ok config =>
    rw [answer] at answered
    exact ⟨nofun, fun first => absurd first.1 (answered.1 fault)⟩

theorem resolve_eq_ok_iff (program : String) (regular : Mention.Regular mentions)
    (resolution : Resolution) :
    resolve (program :: mentions.flatMap Mention.words) = .ok resolution ↔
      ∃ config, resolution = .run config ∧
        (∀ fault, ¬ (Demand.ofMentions mentions).Violates fault) ∧
          (Demand.ofMentions mentions).Fulfilled config := by
  have answered := Demand.answered_ofArguments (Mention.gathered mentions)
  rw [resolve_eq_map_ofArguments program regular]
  cases answer : ofArguments (Mention.gathered mentions) with
  | error reported =>
    rw [answer] at answered
    exact ⟨nofun, fun ⟨_, _, sound, _⟩ => absurd answered.1 (sound reported)⟩
  | ok config =>
    rw [answer] at answered
    constructor
    · rintro ⟨⟩
      exact ⟨config, rfl, answered⟩
    · rintro ⟨other, rfl, -, fulfilled⟩
      rw [fulfilled.unique answered.2]
      rfl

/-- A regular line is answered by the first fault of its demand, or else by the configuration that
fulfils the demand. Whatever else is on the line, lines with the same demand have the same
answer. -/
theorem resolve_mentions (program : String) {mentions : List Mention}
    (regular : Mention.Regular mentions) :
    let demand := Demand.ofMentions mentions
    let answer := resolve (program :: mentions.flatMap Mention.words)
    (∀ fault, answer = .error fault ↔ demand.First fault) ∧
    (∀ resolution, answer = .ok resolution ↔ ∃ config, resolution = .run config ∧
      (∀ fault, ¬ demand.Violates fault) ∧ demand.Fulfilled config) ∧
    ∀ (other : String) (others : List Mention), Mention.Regular others →
      Demand.ofMentions others = demand →
        resolve (other :: others.flatMap Mention.words) = answer := by
  intro demand answer
  have error_iff := resolve_eq_error_iff program regular
  have ok_iff := resolve_eq_ok_iff program regular
  refine ⟨error_iff, ok_iff, fun other others regular same => ?_⟩
  cases answered : answer with
  | error fault =>
    rw [resolve_eq_error_iff other regular, same]
    exact (error_iff fault).mp answered
  | ok resolution =>
    rw [resolve_eq_ok_iff other regular, same]
    exact (ok_iff resolution).mp answered

/-- A line with options in between and a kind that is taken back. -/
def mixed : List Mention :=
  [.value .kind .short "Nope", .value .input .short "prog.json", .verbose .long,
    .value .output .long "out.svg", .value .kind .long "Cg", .value .strategy .long "andersen"]

/-- A line that says the same in another order. -/
def ordered : List Mention :=
  [.value .strategy .short "andersen", .value .kind .short "Cg", .value .output .short "out.svg",
    .verbose .short, .value .input .short "prog.json"]

/-- The two lines have the same answer, with the format of the extension. -/
theorem resolve_mentions_mixed : Mention.Regular mixed ∧ Mention.Regular ordered ∧
    resolve ("irview" :: ordered.flatMap Mention.words) =
      resolve ("irview" :: mixed.flatMap Mention.words) ∧
    ∃ config, resolve ["irview", "-t", "Nope", "prog.json", "--verbose", "--output", "out.svg",
        "--type", "Cg", "--points-to", "andersen"] = .ok (.run config) ∧
      config.kind = .cg ∧ config.format = .files .svg ∧
      (Demand.ofMentions mixed).Fulfilled config := by
  have regular : Mention.Regular mixed :=
    ⟨fun slot => by cases slot <;> decide, by decide, by decide⟩
  have regularOrdered : Mention.Regular ordered :=
    ⟨fun slot => by cases slot <;> decide, by decide, by decide⟩
  obtain ⟨-, ok_iff, same⟩ := resolve_mentions "irview" regular
  refine ⟨regular, regularOrdered, same "irview" ordered regularOrdered (by decide), ?_⟩
  have resolved : resolve ("irview" :: mixed.flatMap Mention.words) =
      .ok (.run ⟨⟨"prog.json"⟩, some ⟨"out.svg"⟩, .cg, .files .svg, .andersen, true⟩) := by
    decide
  obtain ⟨config, rfl', -, fulfilled⟩ := (ok_iff _).mp resolved
  cases rfl'
  exact ⟨_, resolved, rfl, rfl, fulfilled⟩

end Config

end ProgramGraphs
