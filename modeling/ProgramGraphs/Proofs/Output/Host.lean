import ProgramGraphs.Error
import ProgramGraphs.Output.Host
import ProgramGraphs.Proofs.Output.FileTree

/-! # Hosts that fail

A host as a value on which writing a file can fail, before the file is touched or when it has been
made or emptied already. What becomes of writing a path is its fate; a host on which everything
completes is a plain one. Runs are taken apart step by step (`run_bind`).
-/

namespace ProgramGraphs

/-- How writing a file ends. -/
inductive Fate where
  /-- It succeeds if it can. -/
  | completes
  /-- It fails before anything is touched. -/
  | refused
  /-- It fails when the file has been made or emptied, and leaves what was written by then. -/
  | cutOff (left : ByteArray)

namespace FileTree

/-- Write a file as far as its fate allows, and tell whether it has been written. -/
def attempt (tree : FileTree) (fate : Fate) (path : Path) (content : ByteArray) :
    Bool × FileTree :=
  match fate with
  | .completes => ((tree.write? path content).isSome, (tree.write? path content).getD tree)
  | .refused => (false, tree)
  | .cutOff left => (false, (tree.write? path left).getD tree)

variable {tree later : FileTree} {fate : Fate} {path : Path} {content : ByteArray}

theorem attempt_iff : (tree.attempt fate path content).1 = true ↔
    fate = .completes ∧ tree.TakesFile path := by
  cases fate <;> simp [attempt, isSome_write?_iff]

theorem Agrees.attempt_eq (agrees : tree.Agrees later) :
    (later.attempt fate path content).1 = (tree.attempt fate path content).1 := by
  rw [Bool.eq_iff_iff, attempt_iff, attempt_iff, agrees.takesFile_iff]

theorem write?_of_attempt (passes : (tree.attempt fate path content).1 = true) :
    tree.write? path content = some (tree.attempt fate path content).2 := by
  obtain ⟨rfl, takes⟩ := attempt_iff.mp passes
  obtain ⟨next, written⟩ := Option.isSome_iff_exists.mp (isSome_write?_iff.mpr takes)
  rw [attempt, written, Option.getD_some]

/-- An attempt that fails touches its own place only, and not even that one unless it is cut off. -/
theorem find?_of_attempt_failed (fails : (tree.attempt fate path content).1 = false) :
    tree.Agrees (tree.attempt fate path content).2 ∧ ∀ target,
      (¬tree.Together path target ∨ ∀ left, fate ≠ .cutOff left) →
        (tree.attempt fate path content).2.find? target = tree.find? target := by
  cases fate with
  | completes =>
    rw [attempt, Option.isSome_eq_false_iff, Option.isNone_iff_eq_none] at fails
    rw [attempt, fails]
    exact ⟨.refl tree, fun _ _ => rfl⟩
  | refused => exact ⟨.refl tree, fun _ _ => rfl⟩
  | cutOff left =>
    rw [attempt]
    cases written : tree.write? path left with
    | none => exact ⟨.refl tree, fun _ _ => rfl⟩
    | some next =>
      obtain ⟨agrees, found⟩ := find?_of_write? written
      refine ⟨agrees, fun target untouched => (found target).2 ?_⟩
      exact untouched.elim id fun whole => absurd rfl (whole left)

end FileTree

/-- A host that has been told something more. -/
def Host.hear (host : Host) (told : List Event) : Host :=
  { host with events := host.events ++ told }

theorem Host.hear_nil (host : Host) : host.hear [] = host :=
  congrArg (Host.mk host.files host.shown host.printed) host.events.append_nil

/-- A host on which the files of some paths cannot be written. -/
abbrev Unreliable := ReaderT (Path → Fate) (StateM Host)

instance : MonadHost Unreliable where
  isDirectory path := fun _ => MonadHost.isDirectory path
  contains path := fun _ => MonadHost.contains path
  read? path := fun _ => MonadHost.read? path
  write path content := fun fates host =>
    ((host.files.attempt (fates path) path content).1,
      { host with files := (host.files.attempt (fates path) path content).2 })
  remove path := fun _ => MonadHost.remove path
  createDirectories path := fun _ => MonadHost.createDirectories path
  display viewer name := fun _ => MonadHost.display viewer name
  print text := fun _ => MonadHost.print text
  tell event := fun _ => MonadHost.tell event

namespace Unreliable

variable {α β : Type} {fates : Path → Fate} {host : Host}

/-- A host on which everything completes writes files as a plain one does. -/
theorem write_completes (path : Path) (content : ByteArray) (host : Host) :
    (MonadHost.write path content : Unreliable Bool) (fun _ => .completes) host =
      (MonadHost.write path content : StateM Host Bool) host := by
  change ((host.files.write? path content).isSome,
    { host with files := (host.files.write? path content).getD host.files }) =
      Host.update (·.write? path content) host
  rw [Host.update]
  cases host.files.write? path content <;> rfl

/-- Run something that may fail on a host. -/
def run (fates : Path → Fate) (host : Host) (action : ExceptT Error Unreliable α) :
    Except Error α × Host :=
  (action.run fates).run host

/-- A run stops at its first error. -/
theorem run_bind (action : ExceptT Error Unreliable α) (next : α → ExceptT Error Unreliable β) :
    run fates host (action >>= next) =
      match run fates host action with
      | (.ok value, after) => run fates after (next value)
      | (.error error, after) => (.error error, after) := by
  change (match (action.run fates).run host with
    | (outcome, after) => (ExceptT.bindCont next outcome) fates after) = _
  rw [run]
  rcases (action.run fates).run host with ⟨outcome, after⟩
  cases outcome <;> rfl

variable {after : Host} {result : β} {error : Error}

theorem run_bind_eq_ok_iff {action : ExceptT Error Unreliable α}
    {next : α → ExceptT Error Unreliable β} :
    run fates host (action >>= next) = (.ok result, after) ↔ ∃ value middle,
      run fates host action = (.ok value, middle) ∧
        run fates middle (next value) = (.ok result, after) := by
  rw [run_bind]
  rcases run fates host action with ⟨_ | value, middle⟩
  · exact ⟨nofun, nofun⟩
  · simp only [Prod.mk.injEq, Except.ok.injEq, and_assoc, exists_eq_left', exists_and_left]

theorem run_bind_eq_error_iff {action : ExceptT Error Unreliable α}
    {next : α → ExceptT Error Unreliable β} :
    run fates host (action >>= next) = (.error error, after) ↔
      run fates host action = (.error error, after) ∨ ∃ value middle,
        run fates host action = (.ok value, middle) ∧
          run fates middle (next value) = (.error error, after) := by
  rw [run_bind]
  rcases run fates host action with ⟨_ | value, middle⟩
  · simp
  · simp only [Prod.mk.injEq, Except.ok.injEq, reduceCtorEq, false_and, false_or, and_assoc,
      exists_eq_left', exists_and_left]

end Unreliable

end ProgramGraphs
