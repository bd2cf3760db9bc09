import ProgramGraphs.CommandLine.Config
import ProgramGraphs.Proofs.Journal

/-! # Asking for help

Help is asked for by the long option or by a letter, which may stand in a cluster with others. The
arguments that are read ask for help exactly if one of the words before the mark that ends the
options does (`help_of_read`). So the arguments never hide that help is asked for; but there are
only arguments where every word is understood, and of the words that ask for help only the long
option and the letter by itself are noticed without that.
-/

namespace ProgramGraphs.CommandLine

/-- The letter for help is among the leading switches of a cluster. -/
def HelpAmong (letters : List Char) : Prop :=
  ∃ front rest, letters = front ++ 'h' :: rest ∧ ∀ letter ∈ front, letter = 'v' ∨ letter = 'h'

theorem not_helpAmong_nil : ¬ HelpAmong [] := by
  rintro ⟨front, rest, split, -⟩
  simp at split

theorem helpAmong_cons {letter : Char} {rest : List Char} :
    HelpAmong (letter :: rest) ↔ letter = 'h' ∨ letter = 'v' ∧ HelpAmong rest := by
  constructor
  · rintro ⟨front, last, split, switches⟩
    cases front with
    | nil => exact .inl (List.cons.inj split).1
    | cons first front =>
      obtain ⟨rfl, rfl⟩ := List.cons.inj split
      obtain ⟨here, others⟩ := List.forall_mem_cons.mp switches
      rcases here with verbose | help
      · exact .inr ⟨verbose, front, last, rfl, others⟩
      · exact .inl help
  · rintro (rfl | ⟨rfl, front, last, rfl, switches⟩)
    · exact ⟨[], rest, rfl, nofun⟩
    · exact ⟨'v' :: front, last, rfl, List.forall_mem_cons.mpr ⟨.inl rfl, switches⟩⟩

theorem Setting.eq_of_ofLetter?_switch {letter : Char} {flag : Switch}
    (found : ofLetter? letter = some (.switch flag)) :
    letter = 'v' ∧ flag = .verbose ∨ letter = 'h' ∧ flag = .help := by
  unfold ofLetter? at found
  split at found <;> cases found <;> simp

theorem Setting.eq_of_ofLong?_switch {name : String} {flag : Switch}
    (found : ofLong? name = some (.switch flag)) :
    name = "verbose" ∧ flag = .verbose ∨ name = "help" ∧ flag = .help := by
  unfold ofLong? at found
  split at found <;> cases found <;> simp

/-- A word that asks for help: the long option, or a dash and letters with the one for help among
the leading switches. -/
def AsksForHelp (word : String) : Prop :=
  word = "--help" ∨ ∃ letters, word.toList = '-' :: letters ∧ HelpAmong letters

/-- The words that ask for help among those of every form. -/
def Word.AsksForHelp : Word → Prop
  | .long name value => name = "help" ∧ value = none
  | .cluster letters => HelpAmong letters
  | _ => False

theorem Word.eq_mark_of_ofString {word : String} (form : ofString word = .endOfOptions) :
    word = "--" := by
  unfold ofString ofChars at form
  split at form
  · next chars => rw [← String.toList_inj, chars]; rfl
  all_goals cases form

/-- A long option asks for help if nothing but that follows its dashes. -/
theorem Word.asksForHelp_long (text : List Char) :
    (Word.long (String.ofList (text.takeWhile (· != '='))) (attached? text)).AsksForHelp ↔
      text = "help".toList := by
  constructor
  · rintro ⟨name, unattached⟩
    have named : text.takeWhile (· != '=') = "help".toList := by
      rw [← name, String.toList_ofList]
    have whole : text.dropWhile (· != '=') = [] := by
      unfold attached? at unattached
      split at unattached
      · assumption
      · cases unattached
    rw [← List.takeWhile_append_dropWhile (p := (· != '=')) (l := text), named, whole]
    rfl
  · rintro rfl
    exact ⟨rfl, rfl⟩

theorem asksForHelp_iff (word : String) : AsksForHelp word ↔ (Word.ofString word).AsksForHelp := by
  have long : word = "--help" ↔ word.toList = '-' :: '-' :: "help".toList := by
    rw [← String.toList_inj]
    rfl
  rw [AsksForHelp, long, Word.ofString]
  generalize word.toList = chars
  unfold Word.ofChars
  split
  · simp [Word.AsksForHelp, helpAmong_cons]
  · simp [Word.asksForHelp_long, helpAmong_cons]
  · next letter letters _ undashed =>
    have single : letter ≠ '-' := fun same => undashed same
    simp [Word.AsksForHelp, single]
  · next chars _ _ single =>
    refine iff_of_false ?_ id
    rintro (rfl | ⟨letters, rfl, among⟩)
    · exact single _ _ rfl
    · cases letters with
      | nil => exact not_helpAmong_nil among
      | cons letter letters => exact single letter letters rfl

namespace Arguments

variable {arguments renewed : Arguments}

theorem help_of_take {pending : Pending} (taken : arguments.take pending = .ok renewed) :
    renewed.help = arguments.help := by
  unfold take at taken
  split at taken
  · cases taken
  · split at taken <;> (try split at taken) <;> cases taken <;> rfl

theorem help_of_turnOn {switch : Switch} (turned : arguments.turnOn switch = .ok renewed) :
    renewed.help = true ↔ arguments.help = true ∨ switch = .help := by
  unfold turnOn at turned
  cases switch <;> simp only at turned <;> split at turned <;> cases turned <;> simp

end Arguments

namespace Reading

variable {reading next : Reading}

/-- Two readings that differ neither in asking for help nor in taking options. -/
structure Alike (reading next : Reading) : Prop where
  help : next.arguments.help = reading.arguments.help
  inputsOnly : next.inputsOnly = reading.inputsOnly

theorem alike_of_settle (settled : reading.settle = .ok next) : reading.Alike next := by
  unfold settle at settled
  split at settled
  · cases settled
    exact ⟨rfl, rfl⟩
  · obtain ⟨arguments, taken, settled⟩ := bind_eq_ok_iff.mp settled
    cases settled
    exact ⟨Arguments.help_of_take taken, rfl⟩

theorem alike_of_await {slot : Slot} (waits : reading.await slot = .ok next) :
    reading.Alike next := by
  obtain ⟨settled, first, waits⟩ := bind_eq_ok_iff.mp waits
  cases waits
  exact ⟨(alike_of_settle first).help, (alike_of_settle first).inputsOnly⟩

theorem alike_of_takeAttached {slot : Slot} {value : String}
    (takes : reading.takeAttached slot value = .ok next) : reading.Alike next := by
  obtain ⟨settled, first, takes⟩ := bind_eq_ok_iff.mp takes
  obtain ⟨arguments, taken, takes⟩ := bind_eq_ok_iff.mp takes
  cases takes
  obtain ⟨help, inputsOnly⟩ := alike_of_settle first
  exact ⟨(Arguments.help_of_take taken).trans help, inputsOnly⟩

theorem alike_of_plain {text : String} (understood : reading.plain text = .ok next) :
    reading.Alike next := by
  unfold plain at understood
  split at understood
  · cases understood
    exact ⟨rfl, rfl⟩
  · split at understood <;> cases understood
    exact ⟨rfl, rfl⟩
  · obtain ⟨settled, first, understood⟩ := bind_eq_ok_iff.mp understood
    cases understood
    exact ⟨(alike_of_settle first).help, (alike_of_settle first).inputsOnly⟩

theorem help_of_turnOn {switch : Switch} (turned : reading.turnOn switch = .ok next) :
    next.inputsOnly = reading.inputsOnly ∧
      (next.arguments.help = true ↔ reading.arguments.help = true ∨ switch = .help) := by
  obtain ⟨settled, first, turned⟩ := bind_eq_ok_iff.mp turned
  obtain ⟨arguments, turns, turned⟩ := bind_eq_ok_iff.mp turned
  cases turned
  obtain ⟨help, inputsOnly⟩ := alike_of_settle first
  refine ⟨inputsOnly, ?_⟩
  rw [← help]
  exact Arguments.help_of_turnOn turns

theorem help_of_cluster {letters : List Char} (understood : reading.cluster letters = .ok next) :
    next.inputsOnly = reading.inputsOnly ∧
      (next.arguments.help = true ↔ reading.arguments.help = true ∨ HelpAmong letters) := by
  induction letters generalizing reading with
  | nil =>
    cases understood
    simp [not_helpAmong_nil]
  | cons letter rest ih =>
    rw [helpAmong_cons]
    unfold cluster at understood
    split at understood
    · cases understood
    · next switch found =>
      obtain ⟨turned, turns, understood⟩ := bind_eq_ok_iff.mp understood
      obtain ⟨inputsOnly, help⟩ := help_of_turnOn turns
      obtain ⟨inputsOnly', help'⟩ := ih understood
      refine ⟨inputsOnly'.trans inputsOnly, ?_⟩
      rw [help', help]
      rcases Setting.eq_of_ofLetter?_switch found with ⟨rfl, rfl⟩ | ⟨rfl, rfl⟩ <;> simp
    · next slot found =>
      have alike : reading.Alike next := by
        split at understood
        · exact alike_of_await understood
        · exact alike_of_takeAttached understood
        · exact alike_of_takeAttached understood
      have other : letter ≠ 'v' ∧ letter ≠ 'h' := by
        constructor <;> rintro rfl <;> cases found
      refine ⟨alike.inputsOnly, ?_⟩
      simp [alike.help, other]

theorem help_of_long {name : String} {value : Option String}
    (understood : reading.long name value = .ok next) :
    next.inputsOnly = reading.inputsOnly ∧ (next.arguments.help = true ↔
      reading.arguments.help = true ∨ (Word.long name value).AsksForHelp) := by
  unfold long at understood
  split at understood
  · cases understood
  · next slot found =>
    obtain ⟨help, inputsOnly⟩ := alike_of_await understood
    have other : ¬ (Word.long name none).AsksForHelp := by
      rintro ⟨rfl, -⟩
      cases found
    simp [help, inputsOnly, other]
  · obtain ⟨help, inputsOnly⟩ := alike_of_takeAttached understood
    simp [help, inputsOnly, Word.AsksForHelp]
  · next switch found =>
    obtain ⟨inputsOnly, help⟩ := help_of_turnOn understood
    refine ⟨inputsOnly, ?_⟩
    rw [help]
    rcases Setting.eq_of_ofLong?_switch found with ⟨rfl, rfl⟩ | ⟨rfl, rfl⟩ <;>
      simp [Word.AsksForHelp]
  · cases understood

/-- A word that does not end the options asks for help when it is understood. -/
theorem help_of_step {word : String} (understood : reading.step word = .ok next)
    (options : reading.inputsOnly = false) (other : word ≠ "--") :
    next.inputsOnly = false ∧
      (next.arguments.help = true ↔ reading.arguments.help = true ∨ AsksForHelp word) := by
  rw [step, options, if_neg Bool.false_ne_true] at understood
  rw [asksForHelp_iff, ← options]
  cases form : Word.ofString word with
  | endOfOptions => exact absurd (Word.eq_mark_of_ofString form) other
  | long name value =>
    rw [form] at understood
    exact help_of_long understood
  | cluster letters =>
    rw [form] at understood
    exact help_of_cluster understood
  | plain text =>
    rw [form] at understood
    obtain ⟨help, inputsOnly⟩ := alike_of_plain understood
    simp [help, inputsOnly, Word.AsksForHelp]

/-- After the mark that ends the options, nothing asks for help. -/
theorem help_of_inputs {words : List String} (runs : words.foldlM step reading = .ok next)
    (inputs : reading.inputsOnly = true) : next.arguments.help = reading.arguments.help := by
  induction words generalizing reading with
  | nil =>
    cases runs
    rfl
  | cons word rest ih =>
    rw [List.foldlM_cons] at runs
    obtain ⟨between, understood, runs⟩ := bind_eq_ok_iff.mp runs
    rw [step, if_pos inputs] at understood
    obtain ⟨help, inputsOnly⟩ := alike_of_plain understood
    exact (ih runs (inputsOnly.trans inputs)).trans help

/-- Words ask for help if one of them does before the options end. -/
theorem help_of_run {words : List String} (runs : words.foldlM step reading = .ok next)
    (options : reading.inputsOnly = false) : next.arguments.help = true ↔
      reading.arguments.help = true ∨ ∃ word ∈ words.takeWhile (· != "--"), AsksForHelp word := by
  induction words generalizing reading with
  | nil =>
    cases runs
    simp
  | cons word rest ih =>
    rw [List.foldlM_cons] at runs
    obtain ⟨between, understood, runs⟩ := bind_eq_ok_iff.mp runs
    by_cases mark : word = "--"
    · subst mark
      rw [step, options] at understood
      cases understood
      rw [help_of_inputs runs rfl]
      simp
    · obtain ⟨inputsOnly, help⟩ := help_of_step understood options mark
      rw [ih runs inputsOnly, help, List.takeWhile_cons_of_pos (by simpa using mark),
        List.exists_mem_cons_iff, or_assoc]

end Reading

theorem Arguments.help_iff_of_read {words : List String} {arguments : Arguments}
    (reads : read words = .ok arguments) : arguments.help = true ↔
      ∃ word ∈ words.takeWhile (· != "--"), AsksForHelp word := by
  obtain ⟨reading, runs, reads⟩ := bind_eq_ok_iff.mp reads
  obtain ⟨settled, settles, reads⟩ := bind_eq_ok_iff.mp reads
  cases reads
  rw [(Reading.alike_of_settle settles).help, Reading.help_of_run runs rfl]
  simp

end CommandLine

namespace Config

open CommandLine (Arguments AsksForHelp)

theorem asksForHelp_eq_true_iff {words : List String} : asksForHelp words = true ↔
    ∃ word ∈ words.takeWhile (· != "--"), word = "-h" ∨ word = "--help" := by
  simp only [asksForHelp, List.any_eq_true, Bool.or_eq_true, beq_iff_eq]

/-- Help is given if a word before the end of the options is the letter for help by itself or the
long option, and if one asks for help in another way and all words are understood. So where help is
asked for, nothing comes before it but a word that is not understood. -/
theorem resolve_eq_help_iff (line : List String) :
    (resolve line = .ok .help ↔
      (∃ word ∈ line.tail.takeWhile (· != "--"), word = "-h" ∨ word = "--help") ∨
      (∃ word ∈ line.tail.takeWhile (· != "--"), AsksForHelp word) ∧
        ∃ arguments, Arguments.read line.tail = .ok arguments) ∧
    ((∃ word ∈ line.tail.takeWhile (· != "--"), AsksForHelp word) →
      resolve line = .ok .help ∨ ∃ fault, Arguments.read line.tail = .error fault ∧
        resolve line = .error (.arguments fault)) := by
  unfold resolve
  rw [← asksForHelp_eq_true_iff]
  by_cases noticed : asksForHelp line.tail = true
  · simp [noticed]
  · rw [if_neg noticed]
    cases reads : Arguments.read line.tail with
    | error fault => simp [noticed]
    | ok arguments =>
      have help_iff := Arguments.help_iff_of_read reads
      by_cases help : arguments.help = true
      · simp [help, help_iff.mp help]
      · have silent : ¬ ∃ word ∈ line.tail.takeWhile (· != "--"), AsksForHelp word :=
          fun asks => help (help_iff.mpr asks)
        have runs : (.run <$> ofArguments arguments : Except ConfigFault Resolution) ≠
            .ok .help := by
          cases ofArguments arguments <;> exact nofun
        simp [noticed, silent, help, runs]

/-- Where help is asked for in a cluster, faults of what is said do not count. -/
theorem resolve_eq_help_iff_amidFaults :
    (∃ word ∈ ["a.json", "-hv", "b.json", "-t", "Nope"].takeWhile (· != "--"),
      AsksForHelp word) ∧
    resolve ["irview", "a.json", "-hv", "b.json", "-t", "Nope"] = .ok .help := by
  have asks : ∃ word ∈ ["a.json", "-hv", "b.json", "-t", "Nope"].takeWhile (· != "--"),
      AsksForHelp word :=
    ⟨"-hv", by decide, .inr ⟨['h', 'v'], by decide, [], ['v'], rfl, nofun⟩⟩
  refine ⟨asks, ?_⟩
  rcases (resolve_eq_help_iff ["irview", "a.json", "-hv", "b.json", "-t", "Nope"]).2 asks with
    help | ⟨fault, fails, -⟩
  · exact help
  · cases fails

/-- A cluster that asks for help goes unnoticed beside a word that is not understood. -/
theorem cluster_loses_help : "-vh" ∈ ["-vh", "--bogus"].takeWhile (· != "--") ∧
    AsksForHelp "-vh" ∧
    resolve ["irview", "-vh", "--bogus"] = .error (.arguments (.unexpected "--bogus")) := by
  refine ⟨by decide, .inr ⟨['v', 'h'], by decide, ['v'], [], rfl, ?_⟩, by decide⟩
  exact List.forall_mem_singleton.mpr (.inl rfl)

end Config

end ProgramGraphs
