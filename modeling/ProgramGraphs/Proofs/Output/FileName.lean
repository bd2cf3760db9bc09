import ProgramGraphs.Output.FileName
import ProgramGraphs.Output.Format
import ProgramGraphs.Proofs.Fresh
import ProgramGraphs.Proofs.Numbering
import ProgramGraphs.Proofs.Output.FileTree

/-! # The names of files

Every label gets the first name for its stem that no earlier label has taken, so the names are
distinct whatever the labels are (`ofLabels_names`). A name is made of harmless characters and
starts with no dot, so inside a directory it means a visible file of that directory and nothing
else.
-/

namespace ProgramGraphs.FileName

theorem isHarmless_iff {c : Char} :
    isHarmless c = true ↔ c.isAlphanum = true ∨ c = '_' ∨ c = '-' ∨ c = '.' := by
  simp only [isHarmless, Bool.or_eq_true, beq_iff_eq, or_assoc]

theorem isHarmless_of_isDigit {c : Char} (digit : c.isDigit = true) : isHarmless c = true :=
  isHarmless_iff.mpr (.inl (by rw [Char.isAlphanum, digit, Bool.or_true]))

/-- Underscores in the place of dots at the start. -/
theorem exists_head_of_kept {kept : List Char} (given : kept ≠ []) :
    ∃ first rest, (kept.takeWhile (· == '.')).map (fun _ => '_') ++ kept.dropWhile (· == '.') =
      first :: rest ∧ first ≠ '.' := by
  obtain ⟨first, rest, rfl⟩ := List.exists_cons_of_ne_nil given
  by_cases dot : first = '.'
  · have replaced : (first == '.') = true := beq_iff_eq.mpr dot
    rw [List.takeWhile_cons_of_pos (p := (· == '.')) replaced, List.map_cons, List.cons_append]
    exact ⟨'_', _, rfl, by decide⟩
  · have stays : ¬(first == '.') = true := fun same => dot (beq_iff_eq.mp same)
    rw [List.takeWhile_cons_of_neg (p := (· == '.')) stays,
      List.dropWhile_cons_of_neg (p := (· == '.')) stays]
    exact ⟨first, rest, rfl, dot⟩

/-- A stem is made of harmless characters, is not empty and starts with no dot. -/
theorem stemChars_visible (label : List Char) :
    (∀ c ∈ stemChars label, isHarmless c = true) ∧
      ∃ first rest, stemChars label = first :: rest ∧ first ≠ '.' := by
  rw [stemChars]
  split
  · exact ⟨List.all_eq_true.mp (by decide), 'g', _, rfl, by decide⟩
  · next given =>
    refine ⟨fun c member => ?_, exists_head_of_kept given⟩
    rcases List.mem_append.mp member with dot | kept
    · obtain ⟨_, -, rfl⟩ := List.mem_map.mp dot
      decide
    · obtain ⟨d, -, rfl⟩ := List.mem_map.mp ((List.dropWhile_suffix _).mem kept)
      split
      · assumption
      · decide

/-- Replacing the first entries of a list, as long as a test holds, leaves all others. -/
theorem getElem?_replace_takeWhile {α : Type} (test : α → Bool) (replace : α → α) (items : List α)
    (index : Nat) : ((items.takeWhile test).map replace ++ items.dropWhile test)[index]? =
      items[index]?.map fun item =>
        if (items.take (index + 1)).all test then replace item else item := by
  induction items generalizing index with
  | nil => rfl
  | cons item rest ih =>
    cases passes : test item with
    | false =>
      have fails : ¬ test item = true := by simp [passes]
      rw [List.takeWhile_cons_of_neg fails, List.dropWhile_cons_of_neg fails]
      simp [passes]
    | true =>
      rw [List.takeWhile_cons_of_pos passes, List.dropWhile_cons_of_pos passes, List.map_cons,
        List.cons_append]
      cases index with
      | zero => simp [passes]
      | succ index =>
        rw [List.getElem?_cons_succ, List.getElem?_cons_succ, ih, List.take_succ_cons,
          List.all_cons, passes, Bool.true_and]

/-- A stem has one character for each of a label that is not empty: a harmless one stands for
itself, unless only dots stand up to it, and an underscore stands for any other. -/
theorem getElem?_stemChars {label : List Char} (given : label ≠ []) (index : Nat) :
    (stemChars label)[index]? = label[index]?.map fun c =>
      if isHarmless c && !(label.take (index + 1)).all (· == '.') then c else '_' := by
  have dots (c : Char) : ((if isHarmless c then c else '_') == '.') = (c == '.') := by
    by_cases dot : c = '.'
    · subst dot
      rfl
    · by_cases harmless : isHarmless c = true <;> simp [harmless, dot]
  obtain ⟨first, rest, rfl⟩ := List.exists_cons_of_ne_nil given
  change (((first :: rest).map _).takeWhile _ |>.map _ |>.append _)[index]? = _
  refine (getElem?_replace_takeWhile _ _ _ index).trans ?_
  rw [List.getElem?_map, Option.map_map, ← List.map_take, List.all_map]
  refine congrArg (Option.map · _) (funext fun c => ?_)
  simp only [Function.comp_apply, Function.comp_def, dots]
  cases isHarmless c <;> cases ((first :: rest).take (index + 1)).all (· == '.') <;> rfl

/-- An empty label has a word for its stem. -/
theorem stem_empty : stem "" = "graph" := rfl

/-- What stands after the stem in a name with a number. -/
def ending (extension : String) : Nat → List Char
  | 0 => '.' :: extension.toList
  | number => '-' :: ((toString number).toList ++ '.' :: extension.toList)

theorem toList_candidate (stem extension : String) (number : Nat) :
    (candidate stem extension number).toList = stem.toList ++ ending extension number := by
  cases number <;> simp [candidate, ending, String.toList_append]

/-- Different numbers give different names. -/
theorem candidate_injective (stem extension : String) :
    Function.Injective (candidate stem extension) := by
  intro first second same
  have endings := congrArg String.toList same
  rw [toList_candidate, toList_candidate, List.append_cancel_left_eq] at endings
  cases first with
  | zero =>
    cases second with
    | zero => rfl
    | succ second => exact absurd (List.cons.inj endings).1 (by decide)
  | succ first =>
    cases second with
    | zero => exact absurd (List.cons.inj endings).1 (by decide)
    | succ second =>
      have ends := endsDigits_cons (c := '.') (by decide) extension.toList
      exact ((toString_append_inj ends ends).mp (List.cons.inj endings).2).1

theorem lt_length_ending (extension : String) (number : Nat) :
    extension.length < (ending extension number).length := by
  rw [← String.length_toList]
  cases number <;> simp only [ending, List.length_cons, List.length_append] <;> omega

theorem isHarmless_of_mem_ending {extension : String}
    (harmless : ∀ c ∈ extension.toList, isHarmless c = true) {number : Nat} {c : Char}
    (member : c ∈ ending extension number) : isHarmless c = true := by
  have dotted {c : Char} (member : c ∈ '.' :: extension.toList) : isHarmless c = true := by
    rcases List.mem_cons.mp member with rfl | inside
    · decide
    · exact harmless c inside
  cases number with
  | zero => exact dotted member
  | succ number =>
    rcases List.mem_cons.mp member with rfl | member
    · decide
    · rcases List.mem_append.mp member with digit | after
      · exact isHarmless_of_isDigit (isDigit_of_mem_toString digit)
      · exact dotted after

theorem isHarmless_extension (encoding : Encoding) :
    ∀ c ∈ encoding.extension.toList, isHarmless c = true := by
  refine List.all_eq_true.mp ?_
  cases encoding <;> decide

section OfLabels

variable {taken labels : List String} {extension : String} {name : String}

theorem length_ofLabelsAfter (taken : List String) (extension : String) (labels : List String) :
    (ofLabelsAfter taken extension labels).length = labels.length := by
  induction labels generalizing taken with
  | nil => rfl
  | cons label rest ih => exact congrArg Nat.succ (ih _)

/-- The name of a label is the first for its stem that is not among those taken at first and those
of the labels before it. -/
theorem getElem?_ofLabelsAfter (taken : List String) (extension : String) (labels : List String)
    (index : Nat) : (ofLabelsAfter taken extension labels)[index]? = labels[index]?.map fun label =>
      freshName (candidate (stem label) extension)
        (((ofLabelsAfter taken extension labels).take index).reverse ++ taken) := by
  induction labels generalizing taken index with
  | nil => rfl
  | cons label rest ih =>
    cases index with
    | zero => rfl
    | succ index =>
      rw [ofLabelsAfter, List.getElem?_cons_succ, List.getElem?_cons_succ, ih, List.take_succ_cons,
        List.reverse_cons, List.append_assoc, List.singleton_append]

theorem notMem_of_mem_ofLabelsAfter (member : name ∈ ofLabelsAfter taken extension labels) :
    name ∉ taken := by
  induction labels generalizing taken with
  | nil => cases member
  | cons label rest ih =>
    rcases List.mem_cons.mp member with rfl | later
    · exact freshName_notMem _ (candidate_injective _ _) taken
    · exact fun inside => ih later (List.mem_cons_of_mem _ inside)

theorem nodup_ofLabelsAfter (taken : List String) (extension : String) (labels : List String) :
    (ofLabelsAfter taken extension labels).Nodup := by
  induction labels generalizing taken with
  | nil => exact List.nodup_nil
  | cons label rest ih =>
    exact List.nodup_cons.mpr
      ⟨fun later => notMem_of_mem_ofLabelsAfter later List.mem_cons_self, ih _⟩

theorem exists_candidate_of_mem (member : name ∈ ofLabels labels extension) :
    ∃ label number, name = candidate (stem label) extension number := by
  obtain ⟨index, found⟩ := List.getElem?_of_mem member
  rw [ofLabels, getElem?_ofLabelsAfter, Option.map_eq_some_iff] at found
  obtain ⟨label, -, rfl⟩ := found
  exact ⟨label, _, rfl⟩

end OfLabels

/-- The name of a label is the plain one, or has the first number for which no earlier label has
taken the name. -/
theorem name_of_label {labels : List String} {extension label name : String} {index : Nat}
    (given : labels[index]? = some label)
    (found : (ofLabels labels extension)[index]? = some name) :
    let earlier := (ofLabels labels extension).take index
    (candidate (stem label) extension 0 ∉ earlier →
      name = candidate (stem label) extension 0) ∧
    (candidate (stem label) extension 0 ∈ earlier → ∃ number, 1 ≤ number ∧ number ≤ index ∧
      name = candidate (stem label) extension number ∧ name ∉ earlier ∧
      ∀ smaller < number, candidate (stem label) extension smaller ∈ earlier) := by
  intro earlier
  have injective := candidate_injective (stem label) extension
  rw [ofLabels, getElem?_ofLabelsAfter, given, Option.map_some, Option.some.injEq, ← ofLabels,
    List.append_nil] at found
  have number_le : freshIndex (candidate (stem label) extension) earlier.reverse ≤ index := by
    refine (freshIndex_le _ injective _).trans ?_
    rw [List.length_reverse]
    exact List.length_take_le _ _
  have free : name ∉ earlier := by
    rw [← found, ← List.mem_reverse]
    exact freshName_notMem _ injective _
  have before {smaller : Nat}
      (less : smaller < freshIndex (candidate (stem label) extension) earlier.reverse) :
      candidate (stem label) extension smaller ∈ earlier :=
    List.mem_reverse.mp (mem_of_lt_freshIndex less)
  rw [freshName] at found
  generalize freshIndex (candidate (stem label) extension) earlier.reverse = number at *
  constructor
  · intro unused
    cases number with
    | zero => exact found.symm
    | succ number => exact absurd (before number.succ_pos) unused
  · intro used
    refine ⟨number, ?_, number_le, found.symm, free, fun smaller => before⟩
    by_contra none
    obtain rfl : number = 0 := by omega
    exact free (found ▸ used)

/-- A name is made of harmless characters, starts with no dot and is longer than its extension. -/
theorem shape_of_mem {labels : List String} (encoding : Encoding) {name : String}
    (member : name ∈ ofLabels labels encoding.extension) :
    (∀ c ∈ name.toList, isHarmless c = true) ∧
      ∃ first rest, name.toList = first :: rest ∧ first ≠ '.' ∧
        encoding.extension.length < name.length := by
  obtain ⟨label, number, rfl⟩ := exists_candidate_of_mem member
  obtain ⟨harmless, first, rest, shape, visible⟩ := stemChars_visible label.toList
  have chars : (candidate (stem label) encoding.extension number).toList =
      stemChars label.toList ++ ending encoding.extension number := by
    rw [toList_candidate, stem, String.toList_ofList]
  refine ⟨fun c member => ?_, first, rest ++ ending encoding.extension number, ?_, visible, ?_⟩
  · rw [chars] at member
    rcases List.mem_append.mp member with inside | after
    · exact harmless c inside
    · exact isHarmless_of_mem_ending (isHarmless_extension encoding) after
  · rw [chars, shape, List.cons_append]
  · rw [← String.length_toList (s := candidate _ _ _), chars, List.length_append]
    have long := lt_length_ending encoding.extension number
    omega

/-- A name is a single piece of a path, and one that counts. -/
theorem plain_of_mem {labels : List String} {encoding : Encoding} {name : String}
    (member : name ∈ ofLabels labels encoding.extension) :
    '/' ∉ name.toList ∧ Path.isIdle name.toList = false ∧ name.toList ≠ ['.', '.'] := by
  obtain ⟨harmless, first, rest, head, visible, -⟩ := shape_of_mem encoding member
  exact ⟨fun slash => absurd (harmless _ slash) (by decide),
    by simp [Path.isIdle, head, visible], by simp [head, visible]⟩

/-- As many names as labels are found, in order, and they are distinct. A label has its plain name
unless an earlier label has taken it, and otherwise the name with the first number that is free. All
names are made of harmless characters, do not start with a dot and are longer than the extension.
So a name that is joined to the path of a directory leads to an entry right inside the directory,
provided that the name is not too long for one, and it is what the path means. -/
theorem ofLabels_names (labels : List String) (encoding : Encoding) :
    let names := ofLabels labels encoding.extension
    names.length = labels.length ∧ names.Nodup ∧
    (∀ index label name, labels[index]? = some label → names[index]? = some name →
      (stem label ++ "." ++ encoding.extension ∉ names.take index →
        name = stem label ++ "." ++ encoding.extension) ∧
      (stem label ++ "." ++ encoding.extension ∈ names.take index →
        ∃ number, 1 ≤ number ∧ number ≤ index ∧
          name = stem label ++ "-" ++ toString number ++ "." ++ encoding.extension ∧
          name ∉ names.take index ∧ ∀ smaller, 1 ≤ smaller → smaller < number →
            stem label ++ "-" ++ toString smaller ++ "." ++ encoding.extension ∈
              names.take index)) ∧
    ∀ name ∈ names,
      (∀ c ∈ name.toList, c.isAlphanum = true ∨ c = '_' ∨ c = '-' ∨ c = '.') ∧
      name.toList.head? ≠ some '.' ∧ encoding.extension.length < name.length ∧
      ∀ directory : Path, (directory.join name).fileChars? = some name.toList ∧
        ∀ (tree : FileTree) (here : Place),
          tree.walk directory directory.pieces = .ok here → tree.entry? here = some .directory →
          tree.walk (directory.join name) (directory.join name).pieces =
            if 255 < name.utf8ByteSize then .error .refused else .ok (name :: here) := by
  intro names
  refine ⟨length_ofLabelsAfter _ _ _, nodup_ofLabelsAfter _ _ _, ?order, ?shape⟩
  case order =>
    intro index label name given found
    obtain ⟨plain, numbered⟩ := name_of_label given found
    refine ⟨plain, fun used => ?_⟩
    obtain ⟨number, positive, bound, rfl, free, before⟩ := numbered used
    obtain ⟨number, rfl⟩ := Nat.exists_eq_succ_of_ne_zero (Nat.ne_of_gt positive)
    refine ⟨number + 1, positive, bound, rfl, free, fun smaller low less => ?_⟩
    obtain ⟨smaller, rfl⟩ := Nat.exists_eq_succ_of_ne_zero (Nat.ne_of_gt low)
    exact before _ less
  case shape =>
    intro name member
    obtain ⟨harmless, first, rest, head, visible, long⟩ := shape_of_mem encoding member
    obtain ⟨plain, idle, up⟩ := plain_of_mem member
    refine ⟨fun c inside => isHarmless_iff.mp (harmless c inside), by simp [head, visible], long,
      fun directory => ⟨directory.fileChars?_join plain idle up, fun tree here walks held => ?_⟩⟩
    rw [tree.walk_join directory plain, walks]
    change tree.step here name.toList = _
    rw [FileTree.step, held, FileTree.enter_of_name idle up, String.ofList_toList]

/-- A name with a number is taken like any other. -/
example : ofLabels ["a", "a", "a-1", "a/1", ""] "png" =
    ["a.png", "a-1.png", "a-1-1.png", "a_1.png", "graph.png"] := by
  decide

end ProgramGraphs.FileName
