import ProgramGraphs.CommandLine.Arguments
import ProgramGraphs.Proofs.Journal

/-! # Lines of separate words

On many command lines every option and every value is a word of its own. Such a line is a list of
mentions: a value with the word that announces it, an input without one, or the switch for more
output. Reading it gathers the values of each thing in the order in which they are mentioned
(`read_words`). What is mentioned between them makes no difference, although a value is only looked
at when the next thing is mentioned: the arguments gathered so far are those that one comes to by
settling at any time (`Told`).
-/

namespace ProgramGraphs.CommandLine

/-- Most options have a short and a long form. -/
inductive Spelling where
  | short
  | long
  deriving DecidableEq, Repr

/-- The word that announces a value. Inputs are not announced. -/
def Slot.announcement? : Slot → Spelling → Option String
  | .input, _ => none
  | .output, .short => some "-o"
  | .output, .long => some "--output"
  | .kind, .short => some "-t"
  | .kind, .long => some "--type"
  | .format, .short => some "-f"
  | .format, .long => some "--format"
  | .strategy, _ => some "--points-to"

/-- The word that turns more output on. -/
def Spelling.verbose : Spelling → String
  | .short => "-v"
  | .long => "--verbose"

/-- Something that is mentioned on a line. -/
inductive Mention where
  | value (slot : Slot) (spelling : Spelling) (text : String)
  | verbose (spelling : Spelling)
  deriving DecidableEq, Repr

namespace Mention

/-- The words of a mention. -/
def words : Mention → List String
  | .value slot spelling text => (slot.announcement? spelling).toList ++ [text]
  | .verbose spelling => [spelling.verbose]

/-- The value that is mentioned, if it is one of a certain thing. -/
def value? (slot : Slot) : Mention → Option String
  | .value place _ text => if place = slot then some text else none
  | .verbose _ => none

/-- Whether the switch for more output is mentioned. -/
def isVerbose : Mention → Bool
  | .value .. => false
  | .verbose _ => true

/-- A word that can be taken for nothing but a value. -/
def IsPlain (text : String) : Prop :=
  text ≠ "" ∧ text.toList.head? ≠ some '-'

instance : DecidablePred IsPlain := fun _ => inferInstanceAs (Decidable (_ ∧ _))

/-- The values of a certain thing, in order. -/
def values (slot : Slot) (mentions : List Mention) : List String :=
  mentions.filterMap (value? slot)

/-- A line on which all values are plain words and nothing is mentioned twice that may be mentioned
only once. -/
structure Regular (mentions : List Mention) : Prop where
  plain : ∀ slot, ∀ text ∈ values slot mentions, IsPlain text
  strategy_once : (values .strategy mentions).length ≤ 1
  verbose_once : mentions.countP isVerbose ≤ 1

/-- What a line gives, each list in the order of the mentions. -/
def gathered (mentions : List Mention) : Arguments where
  inputs := values .input mentions
  outputs := values .output mentions
  kinds := values .kind mentions
  formats := values .format mentions
  strategy := (values .strategy mentions).head?
  verbose := mentions.any isVerbose

@[simp] theorem values_append (slot : Slot) (earlier later : List Mention) :
    values slot (earlier ++ later) = values slot earlier ++ values slot later :=
  List.filterMap_append

@[simp] theorem values_value (place slot : Slot) (spelling : Spelling) (text : String) :
    values place [.value slot spelling text] = if slot = place then [text] else [] := by
  by_cases same : slot = place <;> simp [values, value?, same]

@[simp] theorem values_verbose (place : Slot) (spelling : Spelling) :
    values place [.verbose spelling] = [] :=
  rfl

@[simp] theorem isVerbose_value (slot : Slot) (spelling : Spelling) (text : String) :
    (Mention.value slot spelling text).isVerbose = false :=
  rfl

@[simp] theorem isVerbose_verbose (spelling : Spelling) :
    (Mention.verbose spelling).isVerbose = true :=
  rfl

namespace Regular

variable {earlier later : List Mention} {slot : Slot} {spelling : Spelling} {text : String}

theorem of_append (regular : Regular (earlier ++ later)) : Regular earlier where
  plain slot text member := by
    refine regular.plain slot text ?_
    rw [values_append]
    exact List.mem_append_left _ member
  strategy_once := by
    have once := regular.strategy_once
    rw [values_append, List.length_append] at once
    omega
  verbose_once := by
    have once := regular.verbose_once
    rw [List.countP_append] at once
    omega

theorem plain_last (regular : Regular (earlier ++ [.value slot spelling text])) :
    IsPlain text :=
  regular.plain slot text (by simp)

/-- The strategy is not mentioned before it is mentioned. -/
theorem values_strategy_eq_nil
    (regular : Regular (earlier ++ [.value .strategy spelling text])) :
    values .strategy earlier = [] := by
  have once := regular.strategy_once
  simpa using once

theorem any_isVerbose_eq_false (regular : Regular (earlier ++ [.verbose spelling])) :
    earlier.any isVerbose = false := by
  have once := regular.verbose_once
  simpa using once

/-- No word of the line asks for help. -/
theorem ne_help_of_mem_words {mentions : List Mention} (regular : Regular mentions)
    {word : String} (member : word ∈ mentions.flatMap words) : word ≠ "-h" ∧ word ≠ "--help" := by
  obtain ⟨mention, mentioned, member⟩ := List.mem_flatMap.mp member
  cases mention with
  | value slot spelling text =>
    rw [words, List.mem_append, List.mem_singleton, Option.mem_toList] at member
    rcases member with called | rfl
    · cases slot <;> cases spelling <;> cases called <;> decide
    · have plain := regular.plain slot word (List.mem_filterMap.mpr ⟨_, mentioned, if_pos rfl⟩)
      constructor <;> rintro rfl <;> exact absurd plain (by decide)
  | verbose spelling =>
    obtain rfl := List.mem_singleton.mp member
    cases spelling <;> decide

/-- The next value can be taken. -/
theorem take_gathered (regular : Regular (earlier ++ [.value slot spelling text])) :
    (gathered earlier).take ⟨slot, [text]⟩ =
      .ok (gathered (earlier ++ [.value slot spelling text])) := by
  have named := regular.plain_last.1
  cases slot with
  | input => simp [Arguments.take, gathered, named.symm]
  | output => simp [Arguments.take, gathered, named.symm]
  | kind => simp [Arguments.take, gathered]
  | format => simp [Arguments.take, gathered]
  | strategy => simp [Arguments.take, gathered, regular.values_strategy_eq_nil]

/-- The switch can be turned on. -/
theorem turnOn_gathered (regular : Regular (earlier ++ [.verbose spelling])) :
    (gathered earlier).turnOn .verbose = .ok (gathered (earlier ++ [.verbose spelling])) := by
  have off : (gathered earlier).verbose = false := regular.any_isVerbose_eq_false
  rw [Arguments.turnOn, off]
  simp [gathered]

end Regular

end Mention

/-- Inputs are taken unless there is none or one is empty. -/
theorem Arguments.take_input_eq_ok_iff {arguments renewed : Arguments} {paths : List String} :
    arguments.take ⟨.input, paths⟩ = .ok renewed ↔
      paths ≠ [] ∧ "" ∉ paths ∧
        renewed = { arguments with inputs := arguments.inputs ++ paths } := by
  by_cases none : paths = []
  · simp [take, none]
  · by_cases empty : "" ∈ paths
    · simp [take, none, empty]
    · have taken : arguments.take ⟨.input, paths⟩ =
          .ok { arguments with inputs := arguments.inputs ++ paths } := by
        simp [take, none, empty]
      rw [taken, Except.ok.injEq, eq_comm]
      exact ⟨fun same => ⟨none, empty, same⟩, fun ⟨_, _, same⟩ => same⟩

/-- Inputs can be taken a few at a time. -/
theorem Arguments.take_input_append {arguments between renewed : Arguments}
    {paths others : List String} (first : arguments.take ⟨.input, paths⟩ = .ok between)
    (rest : between.take ⟨.input, others⟩ = .ok renewed) :
    arguments.take ⟨.input, paths ++ others⟩ = .ok renewed := by
  obtain ⟨given, named, rfl⟩ := take_input_eq_ok_iff.mp first
  obtain ⟨-, named', rfl⟩ := take_input_eq_ok_iff.mp rest
  refine take_input_eq_ok_iff.mpr ⟨by simp [given], by simp [named, named'], ?_⟩
  rw [List.append_assoc]

namespace Reading

theorem settle_pending_eq_ok_iff {arguments : Arguments} {pending : Pending} {inputsOnly : Bool}
    {settled : Reading} : settle ⟨arguments, some pending, inputsOnly⟩ = .ok settled ↔
      ∃ renewed, arguments.take pending = .ok renewed ∧ settled = ⟨renewed, none, inputsOnly⟩ := by
  rw [settle, bind_eq_ok_iff]
  simp only [pure, Except.pure, Except.ok.injEq, eq_comm (b := settled)]

/-- A reading that comes to some arguments as soon as it settles. No option waits for its value. -/
structure Told (reading : Reading) (arguments : Arguments) : Prop where
  options : reading.inputsOnly = false
  supplied : ∀ slot, reading.pending ≠ some ⟨slot, []⟩
  settles : reading.settle = .ok ⟨arguments, none, false⟩

theorem ofString_of_plain {text : String} (plain : Mention.IsPlain text) :
    Word.ofString text = .plain text := by
  obtain ⟨-, undashed⟩ := plain
  unfold Word.ofString Word.ofChars
  split
  · simp_all
  · simp_all
  · simp_all
  · rw [String.ofList_toList]

theorem step_of_plain {reading : Reading} {text : String} (options : reading.inputsOnly = false)
    (plain : Mention.IsPlain text) : reading.step text = reading.plain text := by
  rw [step, options, ofString_of_plain plain]
  rfl

namespace Told

variable {reading : Reading} {arguments renewed : Arguments} {slot : Slot} {text : String}

/-- Nothing has been said at the start. -/
theorem start : Told {} (Mention.gathered []) where
  options := rfl
  supplied _ := nofun
  settles := rfl

theorem of_take {values : List String} (given : values ≠ [])
    (taken : arguments.take ⟨slot, values⟩ = .ok renewed) :
    Told ⟨arguments, some ⟨slot, values⟩, false⟩ renewed where
  options := rfl
  supplied _ := by simp [given]
  settles := by
    rw [settle]
    simp only [taken]
    rfl

theorem of_settled (arguments : Arguments) : Told ⟨arguments, none, false⟩ arguments where
  options := rfl
  supplied _ := nofun
  settles := rfl

/-- The word that announces a value makes its option wait for it. -/
theorem announced (told : reading.Told arguments) {spelling : Spelling} {word : String}
    (called : slot.announcement? spelling = some word) :
    reading.step word = .ok ⟨arguments, some ⟨slot, []⟩, false⟩ := by
  have understood : reading.step word = reading.await slot := by
    simp only [step, told.options]
    cases slot <;> cases spelling <;> cases called <;> rfl
  rw [understood, await, told.settles]
  rfl

/-- A word without an announcement is an input, beside those that were mentioned just before. -/
theorem unannounced (told : reading.Told arguments) (plain : Mention.IsPlain text)
    (taken : arguments.take ⟨.input, [text]⟩ = .ok renewed) :
    ∃ next, reading.step text = .ok next ∧ next.Told renewed := by
  rw [step_of_plain told.options plain]
  obtain ⟨given, pending, inputsOnly⟩ := reading
  obtain rfl : inputsOnly = false := told.options
  match pending with
  | none =>
    refine ⟨_, ?_, of_take (by simp) taken⟩
    rw [Reading.plain, told.settles]
    rfl
  | some ⟨slot, []⟩ => exact absurd rfl (told.supplied slot)
  | some ⟨slot, first :: rest⟩ =>
    by_cases inputs : slot = .input
    · subst inputs
      obtain ⟨between, before, same⟩ := settle_pending_eq_ok_iff.mp told.settles
      cases same
      exact ⟨_, rfl, of_take (by simp) (Arguments.take_input_append before taken)⟩
    · refine ⟨_, ?_, of_take (by simp) taken⟩
      have waits : Reading.plain ⟨given, some ⟨slot, first :: rest⟩, false⟩ text = (do
          let settled ← settle ⟨given, some ⟨slot, first :: rest⟩, false⟩
          pure { settled with pending := some ⟨.input, [text]⟩ }) := by
        cases slot <;> trivial
      rw [waits, told.settles]
      rfl

theorem value (told : reading.Told arguments) (plain : Mention.IsPlain text)
    (taken : arguments.take ⟨slot, [text]⟩ = .ok renewed) (spelling : Spelling) :
    ∃ next, (Mention.value slot spelling text).words.foldlM step reading = .ok next ∧
      next.Told renewed := by
  rw [Mention.words]
  cases called : slot.announcement? spelling with
  | none =>
    obtain rfl : slot = .input := by cases slot <;> cases spelling <;> trivial
    obtain ⟨next, stepped, after⟩ := told.unannounced plain taken
    refine ⟨next, ?_, after⟩
    simp only [Option.toList_none, List.nil_append, List.foldlM_cons, List.foldlM_nil, stepped]
    rfl
  | some word =>
    refine ⟨⟨arguments, some ⟨slot, [text]⟩, false⟩, ?_, of_take (by simp) taken⟩
    have supplied : step ⟨arguments, some ⟨slot, []⟩, false⟩ text =
        .ok ⟨arguments, some ⟨slot, [text]⟩, false⟩ := by
      rw [step_of_plain rfl plain]
      cases slot <;> rfl
    simp only [Option.toList_some, List.cons_append, List.nil_append, List.foldlM_cons,
      List.foldlM_nil, bind_pure, told.announced called]
    exact supplied

theorem verbose (told : reading.Told arguments) (turned : arguments.turnOn .verbose = .ok renewed)
    (spelling : Spelling) :
    ∃ next, (Mention.verbose spelling).words.foldlM step reading = .ok next ∧
      next.Told renewed := by
  have switched : reading.turnOn .verbose = .ok ⟨renewed, none, false⟩ := by
    rw [turnOn, told.settles]
    change (do let arguments ← arguments.turnOn .verbose; pure _) = _
    rw [turned]
    rfl
  have understood : reading.step spelling.verbose = .ok ⟨renewed, none, false⟩ := by
    simp only [step, told.options]
    cases spelling with
    | short =>
      change (do let switched ← reading.turnOn .verbose; switched.cluster []) = _
      rw [switched]
      rfl
    | long => exact switched
  refine ⟨⟨renewed, none, false⟩, ?_, of_settled renewed⟩
  simp only [Mention.words, List.foldlM_cons, List.foldlM_nil, bind_pure, understood]

/-- One more mention is understood. -/
theorem mention {earlier : List Mention} (told : reading.Told (Mention.gathered earlier))
    (mention : Mention) (regular : Mention.Regular (earlier ++ [mention])) :
    ∃ next, mention.words.foldlM step reading = .ok next ∧
      next.Told (Mention.gathered (earlier ++ [mention])) := by
  cases mention with
  | value slot spelling text => exact told.value regular.plain_last regular.take_gathered spelling
  | verbose spelling => exact told.verbose regular.turnOn_gathered spelling

/-- Mentions are understood one after the other. -/
theorem mentions (mentions : List Mention) {earlier : List Mention}
    (told : reading.Told (Mention.gathered earlier))
    (regular : Mention.Regular (earlier ++ mentions)) :
    ∃ next, (mentions.flatMap Mention.words).foldlM step reading = .ok next ∧
      next.Told (Mention.gathered (earlier ++ mentions)) := by
  induction mentions generalizing earlier reading with
  | nil =>
    rw [List.append_nil]
    exact ⟨reading, rfl, told⟩
  | cons mention rest ih =>
    rw [List.append_cons] at regular ⊢
    obtain ⟨between, stepped, toldBetween⟩ := told.mention mention regular.of_append
    obtain ⟨next, runs, toldNext⟩ := ih toldBetween regular
    refine ⟨next, ?_, toldNext⟩
    rw [List.flatMap_cons, List.foldlM_append, stepped]
    exact runs

end Told

end Reading

/-- Reading a line of separate words gives what they mention. -/
theorem Mention.read_words {mentions : List Mention} (regular : Regular mentions) :
    Arguments.read (mentions.flatMap words) = .ok (gathered mentions) := by
  obtain ⟨reading, runs, told⟩ := Reading.Told.start.mentions mentions regular
  rw [Arguments.read, runs]
  change (do let settled ← reading.settle; pure settled.arguments) = _
  rw [told.settles]
  rfl

end ProgramGraphs.CommandLine
