import ProgramGraphs.Output.FileTree
import ProgramGraphs.Proofs.Journal
import ProgramGraphs.Proofs.Output.Path

/-! # Writing and removing files

A path leads to a place through directories only, so it leads to the same place in all trees with
the same directories (`Agrees`). Writing a file and removing one keep the directories, and change
what is found at the place of one path. So they change what is found on the paths that lead there,
and on no others.
-/

namespace ProgramGraphs.FileTree

/-- The place that a path leads to, whatever it holds. -/
def place? (tree : FileTree) (path : Path) : Option Place :=
  match checked path >>= fun path => tree.walk path path.pieces with
  | .ok place => some place
  | .error _ => none

/-- Trees with the same directories, in which relative paths start at the same place. -/
structure Agrees (tree other : FileTree) : Prop where
  working_eq : other.working = tree.working
  directory_iff (place : Place) :
    other.entry? place = some .directory ↔ tree.entry? place = some .directory

/-- A path whose last piece is a name, where no directory is. -/
def TakesFile (tree : FileTree) (path : Path) : Prop :=
  ∃ place, tree.placeOf path path.pieces = .ok place ∧ tree.entry? place ≠ some .directory

/-- Two paths that lead to one place. -/
def Together (tree : FileTree) (path other : Path) : Prop :=
  ∃ place, tree.place? path = some place ∧ tree.place? other = some place

/-- What is left when a file is removed, if it is there. -/
def without (tree : FileTree) (path : Path) : FileTree :=
  (tree.remove? path).getD tree

/-- What is left when files are removed that are there. -/
def clear (tree : FileTree) (targets : List Path) : FileTree :=
  targets.foldl without tree

/-- A tree that comes from another by changing what one place holds. -/
structure Changes (tree later : FileTree) (place : Place) (held : Option Entry) : Prop where
  working_eq : later.working = tree.working
  entry?_eq (here : Place) : later.entry? here = if here = place then held else tree.entry? here

variable {tree other later : FileTree} {path target : Path} {place : Place} {content : ByteArray}

theorem Together.symm (together : tree.Together path target) : tree.Together target path :=
  let ⟨place, one, other⟩ := together
  ⟨place, other, one⟩

instance (tree : FileTree) (path other : Path) : Decidable (tree.Together path other) :=
  decidable_of_iff ((tree.place? path).isSome = true ∧ tree.place? path = tree.place? other) <| by
    rw [Option.isSome_iff_exists]
    exact ⟨fun ⟨⟨place, leads⟩, same⟩ => ⟨place, leads, same ▸ leads⟩,
      fun ⟨place, one, two⟩ => ⟨⟨place, one⟩, one.trans two.symm⟩⟩

theorem find?_eq_bind (tree : FileTree) (path : Path) :
    tree.find? path = (tree.place? path).bind tree.entry? := by
  rw [find?, place?]
  cases checked path >>= fun path => tree.walk path path.pieces <;> rfl

theorem checked_eq_ok {result : Path} (passes : checked path = .ok result) : result = path := by
  rw [checked] at passes
  split_ifs at passes
  cases passes
  rfl

theorem place?_eq_some_iff : tree.place? path = some place ↔
    checked path = .ok path ∧ tree.walk path path.pieces = .ok place := by
  rw [place?]
  constructor
  · intro leads
    split at leads
    · next reached walked =>
      cases leads
      obtain ⟨result, passes, walks⟩ := bind_eq_ok_iff.mp walked
      obtain rfl := checked_eq_ok passes
      exact ⟨passes, walks⟩
    · cases leads
  · rintro ⟨passes, walks⟩
    rw [bind_eq_ok_iff.mpr ⟨path, passes, walks⟩]

theorem step_eq_ok_iff {here : Place} {piece : List Char} : tree.step here piece = .ok place ↔
    tree.entry? here = some .directory ∧ enter here piece = .ok place := by
  rw [step]
  split
  · next found => simp only [found, true_and]
  · next found => simp only [found, reduceCtorEq, Option.some.injEq, false_and]
  · next found => simp only [found, reduceCtorEq, false_and]

namespace Agrees

theorem refl (tree : FileTree) : tree.Agrees tree :=
  ⟨rfl, fun _ => Iff.rfl⟩

theorem symm (agrees : tree.Agrees other) : other.Agrees tree :=
  ⟨agrees.working_eq.symm, fun place => (agrees.directory_iff place).symm⟩

theorem trans (first : tree.Agrees other) (second : other.Agrees later) : tree.Agrees later :=
  ⟨second.working_eq.trans first.working_eq,
    fun place => (second.directory_iff place).trans (first.directory_iff place)⟩

theorem foldlM_step (agrees : tree.Agrees other) {here : Place} {pieces : List (List Char)}
    (walks : pieces.foldlM tree.step here = .ok place) :
    pieces.foldlM other.step here = .ok place := by
  induction pieces generalizing here with
  | nil => exact walks
  | cons piece rest ih =>
    rw [List.foldlM_cons, bind_eq_ok_iff] at walks ⊢
    obtain ⟨next, enters, onward⟩ := walks
    obtain ⟨directory, enters⟩ := step_eq_ok_iff.mp enters
    exact ⟨next, step_eq_ok_iff.mpr ⟨(agrees.directory_iff here).mpr directory, enters⟩, ih onward⟩

theorem walk (agrees : tree.Agrees other) {pieces : List (List Char)}
    (walks : tree.walk path pieces = .ok place) : other.walk path pieces = .ok place := by
  have start_eq : other.start path = tree.start path := by
    rw [start, start, agrees.working_eq]
  rw [FileTree.walk, start_eq]
  exact agrees.foldlM_step walks

/-- Paths lead where they led. -/
theorem place?_eq (agrees : tree.Agrees other) (path : Path) :
    other.place? path = tree.place? path :=
  Option.ext fun place => by
    rw [place?_eq_some_iff, place?_eq_some_iff]
    exact ⟨fun ⟨passes, walks⟩ => ⟨passes, agrees.symm.walk walks⟩,
      fun ⟨passes, walks⟩ => ⟨passes, agrees.walk walks⟩⟩

theorem placeOf (agrees : tree.Agrees other) {pieces : List (List Char)}
    (named : tree.placeOf path pieces = .ok place) : other.placeOf path pieces = .ok place := by
  rw [FileTree.placeOf, bind_eq_ok_iff] at named ⊢
  obtain ⟨path, passes, named⟩ := named
  refine ⟨path, passes, ?_⟩
  rw [bind_eq_ok_iff] at named ⊢
  obtain ⟨here, walks, named⟩ := named
  refine ⟨here, agrees.walk walks, ?_⟩
  rw [bind_eq_ok_iff] at named ⊢
  obtain ⟨last, enters, named⟩ := named
  obtain ⟨directory, enters⟩ := step_eq_ok_iff.mp enters
  exact ⟨last, step_eq_ok_iff.mpr ⟨(agrees.directory_iff here).mpr directory, enters⟩, named⟩

theorem takesFile (agrees : tree.Agrees other) (takes : tree.TakesFile path) :
    other.TakesFile path := by
  obtain ⟨place, named, free⟩ := takes
  exact ⟨place, agrees.placeOf named,
    fun directory => free ((agrees.directory_iff place).mp directory)⟩

theorem takesFile_iff (agrees : tree.Agrees other) : other.TakesFile path ↔ tree.TakesFile path :=
  ⟨agrees.symm.takesFile, agrees.takesFile⟩

theorem together_iff (agrees : tree.Agrees other) : other.Together path target ↔
    tree.Together path target := by
  rw [Together, Together, agrees.place?_eq, agrees.place?_eq]

end Agrees

theorem lookup_filter_ne (entries : List (Place × Entry)) (place other : Place) :
    (entries.filter (·.1 != place)).lookup other =
      if other = place then none else entries.lookup other := by
  induction entries with
  | nil => rw [List.filter_nil, List.lookup_nil, ite_self]
  | cons first rest ih =>
    by_cases dropped : first.1 = place
    · rw [List.filter_cons_of_neg (by simp [dropped]), ih, List.lookup_cons, dropped]
      split
      · rfl
      · next elsewhere => rw [beq_false_of_ne elsewhere]
    · rw [List.filter_cons_of_pos (by simp [dropped]), List.lookup_cons, ih, List.lookup_cons]
      by_cases here : other = first.1
      · subst here
        rw [beq_self_eq_true]
        exact (if_neg dropped).symm
      · rw [beq_false_of_ne here]

theorem changes_insert (inside : place ≠ []) (entry : Entry) :
    tree.Changes (tree.insert place entry) place (some entry) := by
  refine ⟨rfl, fun here => ?_⟩
  have kept : place.isEmpty = false := by rwa [List.isEmpty_eq_false_iff]
  unfold entry? insert
  by_cases same : here = place
  · subst same
    simp [kept]
  · simp [List.lookup_cons, lookup_filter_ne, beq_false_of_ne same, same]

theorem changes_erase (inside : place ≠ []) : tree.Changes (tree.erase place) place none := by
  refine ⟨rfl, fun here => ?_⟩
  have kept : place.isEmpty = false := by rwa [List.isEmpty_eq_false_iff]
  unfold entry? erase
  by_cases same : here = place
  · subst same
    simp [kept, lookup_filter_ne]
  · simp [lookup_filter_ne, same]

namespace Changes

variable {held : Option Entry}

theorem agrees (changes : tree.Changes later place held)
    (free : tree.entry? place ≠ some .directory) (heldFree : held ≠ some .directory) :
    tree.Agrees later := by
  refine ⟨changes.working_eq, fun here => ?_⟩
  rw [changes.entry?_eq]
  split
  · next same =>
    subst same
    exact ⟨fun directory => absurd directory heldFree, fun directory => absurd directory free⟩
  · exact Iff.rfl

/-- What is found changes on the paths that lead to the place, and on no others. -/
theorem find?_eq (changes : tree.Changes later place held) (agrees : tree.Agrees later)
    (leads : tree.place? path = some place) (target : Path) :
    (tree.Together path target → later.find? target = held) ∧
      (¬tree.Together path target → later.find? target = tree.find? target) := by
  rw [find?_eq_bind, find?_eq_bind, agrees.place?_eq]
  constructor
  · rintro ⟨shared, own, others⟩
    obtain rfl := Option.some.inj (leads.symm.trans own)
    rw [others, Option.bind_some, changes.entry?_eq, if_pos rfl]
  · intro apart
    cases reached : tree.place? target with
    | none => rfl
    | some here =>
      have elsewhere : here ≠ place := fun same => apart ⟨place, leads, same ▸ reached⟩
      rw [Option.bind_some, Option.bind_some, changes.entry?_eq, if_neg elsewhere]

end Changes

/-- Entering a name leads below the place where it is entered. -/
theorem enter_of_name {here : Place} {piece : List Char} (idle : Path.isIdle piece = false)
    (up : piece ≠ ['.', '.']) : enter here piece =
      if 255 < (String.ofList piece).utf8ByteSize then .error .refused
      else .ok (String.ofList piece :: here) := by
  rw [enter, idle, if_neg Bool.false_ne_true, if_neg up]

theorem walk_append (tree : FileTree) (path : Path) (front : List (List Char))
    (piece : List Char) : tree.walk path (front ++ [piece]) =
      tree.walk path front >>= fun here => tree.step here piece := by
  rw [walk, List.foldlM_append, walk]
  congr 1
  funext here
  simp only [List.foldlM_cons, List.foldlM_nil, bind_pure]

/-- A piece that names nothing is only good for a directory, as every piece after it is. -/
theorem step_empty (tree : FileTree) (here : Place) (piece : List Char) :
    (tree.step here [] >>= fun next => tree.step next piece) = tree.step here piece := by
  cases found : tree.entry? here with
  | none => rw [step, step, found]; rfl
  | some entry =>
    cases entry with
    | directory =>
      have stays : tree.step here [] = .ok here := step_eq_ok_iff.mpr ⟨found, rfl⟩
      rw [stays]
      rfl
    | file content => rw [step, step, found]; rfl

/-- A name that is joined to a path is a step from where the path leads. -/
theorem walk_join (tree : FileTree) (directory : Path) {name : String}
    (plain : '/' ∉ name.toList) :
    tree.walk (directory.join name) (directory.join name).pieces =
      tree.walk directory directory.pieces >>= fun here => tree.step here name.toList := by
  obtain ⟨front, joined, own⟩ := Path.exists_pieces_join directory plain
  have start_eq (pieces : List (List Char)) :
      tree.walk (directory.join name) pieces = tree.walk directory pieces := by
    rw [walk, walk, start, start, (Path.root_join directory plain).1]
  rw [start_eq, joined, walk_append]
  rcases own with own | own
  · rw [own]
  · rw [own, walk_append, bind_assoc]
    simp only [step_empty]

/-- A name that is joined to a path leads to an entry of that name. -/
theorem head?_of_place?_join {directory : Path} {name : String} (plain : '/' ∉ name.toList)
    (idle : Path.isIdle name.toList = false) (up : name.toList ≠ ['.', '.'])
    (leads : tree.place? (directory.join name) = some place) : place.head? = some name := by
  obtain ⟨-, walks⟩ := place?_eq_some_iff.mp leads
  rw [walk_join _ _ plain, bind_eq_ok_iff] at walks
  obtain ⟨here, -, steps⟩ := walks
  obtain ⟨-, enters⟩ := step_eq_ok_iff.mp steps
  rw [enter_of_name idle up, String.ofList_toList] at enters
  split at enters <;> cases enters
  rfl

/-- The place that a path gives to a new entry is where the path leads, and it is below another. -/
theorem place?_of_placeOf (named : tree.placeOf path path.pieces = .ok place) :
    tree.place? path = some place ∧ place ≠ [] := by
  obtain none | ⟨front, last, shape⟩ := List.eq_nil_or_concat path.pieces
  · exact absurd none (Path.pieces_eq_split path ▸ Path.split_ne_nil _)
  rw [List.concat_eq_append] at shape
  rw [placeOf, bind_eq_ok_iff] at named
  obtain ⟨result, passes, named⟩ := named
  obtain rfl := checked_eq_ok passes
  rw [bind_eq_ok_iff, shape, List.dropLast_concat, List.getLast?_concat, Option.getD_some,
    Option.all_some] at named
  obtain ⟨here, walks, named⟩ := named
  rw [bind_eq_ok_iff] at named
  obtain ⟨reached, steps, named⟩ := named
  split_ifs at named with idle
  · cases named
  cases named
  rw [Bool.or_eq_true_iff, beq_iff_eq, not_or, Bool.not_eq_true] at idle
  refine ⟨place?_eq_some_iff.mpr ⟨passes, ?_⟩, ?_⟩
  · rw [shape, walk_append]
    exact bind_eq_ok_iff.mpr ⟨here, walks, steps⟩
  · obtain ⟨-, enters⟩ := step_eq_ok_iff.mp steps
    rw [enter_of_name idle.1 idle.2] at enters
    split at enters <;> cases enters
    exact List.cons_ne_nil _ _

theorem TakesFile.together (takes : tree.TakesFile path) : tree.Together path path :=
  let ⟨place, named, _⟩ := takes
  ⟨place, (place?_of_placeOf named).1, (place?_of_placeOf named).1⟩

theorem write?_eq_some_iff : tree.write? path content = some later ↔
    ∃ place, tree.placeOf path path.pieces = .ok place ∧ tree.entry? place ≠ some .directory ∧
      later = tree.insert place (.file content) := by
  rw [write?]
  split
  · next named => simp [named]
  · next named =>
    split
    · next found => simp [named, found]
    · next free =>
      simp only [named, Option.some.injEq, Except.ok.injEq, exists_eq_left', eq_comm (a := later)]
      exact ⟨fun same => ⟨free, same⟩, And.right⟩

theorem isSome_write?_iff : (tree.write? path content).isSome = true ↔ tree.TakesFile path := by
  rw [Option.isSome_iff_exists]
  simp only [write?_eq_some_iff, TakesFile]
  exact ⟨fun ⟨_, place, named, free, _⟩ => ⟨place, named, free⟩,
    fun ⟨place, named, free⟩ => ⟨_, place, named, free, rfl⟩⟩

/-- Writing a file keeps the directories, and changes what is found on the paths to its place. -/
theorem find?_of_write? (written : tree.write? path content = some later) :
    tree.Agrees later ∧ ∀ target,
      (tree.Together path target → later.find? target = some (.file content)) ∧
      (¬tree.Together path target → later.find? target = tree.find? target) := by
  obtain ⟨place, named, free, rfl⟩ := write?_eq_some_iff.mp written
  obtain ⟨leads, inside⟩ := place?_of_placeOf named
  have changes : tree.Changes (tree.insert place (.file content)) place _ :=
    changes_insert inside (.file content)
  have agrees := changes.agrees free (by simp)
  exact ⟨agrees, changes.find?_eq agrees leads⟩

/-- Where a file would go there is none once it has been removed, whether or not there was one, and
nothing else changes. -/
theorem find?_without (takes : tree.TakesFile path) :
    tree.Agrees (tree.without path) ∧ ∀ target,
      (tree.Together path target → (tree.without path).find? target = none) ∧
      (¬tree.Together path target → (tree.without path).find? target = tree.find? target) := by
  obtain ⟨place, named, free⟩ := takes
  obtain ⟨leads, inside⟩ := place?_of_placeOf named
  cases held : tree.entry? place with
  | none =>
    have unchanged : tree.without path = tree := by
      rw [without, remove?, named]
      dsimp only
      rw [held, Option.getD_none]
    rw [unchanged]
    refine ⟨.refl tree, fun target => ⟨?_, fun _ => rfl⟩⟩
    rintro ⟨shared, own, other⟩
    obtain rfl := Option.some.inj (leads.symm.trans own)
    rw [find?_eq_bind, other, Option.bind_some, held]
  | some entry =>
    cases entry with
    | directory => exact absurd held free
    | file content =>
      have erased : tree.without path = tree.erase place := by
        rw [without, remove?, named]
        dsimp only
        rw [held, Option.getD_some]
      rw [erased]
      have changes : tree.Changes (tree.erase place) place none := changes_erase inside
      have agrees := changes.agrees free (by simp)
      exact ⟨agrees, changes.find?_eq agrees leads⟩

theorem clear_cons (tree : FileTree) (path : Path) (rest : List Path) :
    tree.clear (path :: rest) = (tree.without path).clear rest :=
  rfl

/-- Where files would go there are none once they have been removed, and nothing else changes. -/
theorem find?_clear {targets : List Path} (takes : ∀ target ∈ targets, tree.TakesFile target)
    (path : Path) :
    (∀ target ∈ targets, tree.Together target path → (tree.clear targets).find? path = none) ∧
    ((∀ target ∈ targets, ¬tree.Together target path) →
      (tree.clear targets).find? path = tree.find? path) := by
  induction targets generalizing tree with
  | nil => exact ⟨nofun, fun _ => rfl⟩
  | cons first rest ih =>
    obtain ⟨own, others⟩ := List.forall_mem_cons.mp takes
    obtain ⟨agrees, found⟩ := find?_without own
    obtain ⟨gone, stays⟩ := ih fun target member => agrees.takesFile (others target member)
    simp only [agrees.together_iff] at gone stays
    rw [clear_cons]
    constructor
    · intro target member together
      -- The place of the first target may be that of a later one as well.
      by_cases later : ∃ other ∈ rest, tree.Together other path
      · obtain ⟨other, member, together⟩ := later
        exact gone other member together
      · rw [stays fun other member together => later ⟨other, member, together⟩]
        rcases List.mem_cons.mp member with rfl | member
        · exact (found path).1 together
        · exact absurd ⟨target, member, together⟩ later
    · intro apart
      obtain ⟨here, there⟩ := List.forall_mem_cons.mp apart
      rw [stays there, (found path).2 here]

end ProgramGraphs.FileTree
