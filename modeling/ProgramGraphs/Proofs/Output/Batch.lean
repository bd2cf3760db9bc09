import ProgramGraphs.Output.Emission
import ProgramGraphs.Proofs.Output.Host

/-! # Writing a batch of files

A batch is written file by file, and when one cannot be written those before it are removed. So a
batch that succeeds has left every content on its path (`run_writeAll_ok`). A batch that fails
leaves none of the files that it wrote, and everything else is what it was (`writeAll_rolls_back`),
but for the file that could not be written where that was cut off. A file that was there before the
batch and has been written over is removed like the rest, and does not come back
(`keepsOld_loses_old`).
-/

namespace ProgramGraphs

/-- No two files of a list are in one place. -/
def FileTree.Apart (tree : FileTree) (files : List (Path × ByteArray)) : Prop :=
  files.Pairwise fun file other => ¬tree.Together file.1 other.1

/-- A tree that comes from another by writing some files. -/
structure FileTree.Written (tree : FileTree) (files : List (Path × ByteArray))
    (later : FileTree) : Prop where
  agrees : tree.Agrees later
  holds (apart : tree.Apart files) (file : Path × ByteArray) (member : file ∈ files) :
    later.find? file.1 = some (.file file.2)
  stays (path : Path) (apart : ∀ file ∈ files, ¬tree.Together file.1 path) :
    later.find? path = tree.find? path

namespace FileTree

variable {tree later : FileTree} {files : List (Path × ByteArray)} {path : Path}
  {content : ByteArray} {fate : Fate}

theorem Written.nil (tree : FileTree) : tree.Written [] tree :=
  ⟨.refl tree, nofun, fun _ _ => rfl⟩

theorem Written.concat (written : tree.Written files later)
    (passes : (later.attempt fate path content).1 = true) :
    tree.Written (files ++ [(path, content)]) (later.attempt fate path content).2 := by
  obtain ⟨agrees, found⟩ := find?_of_write? (write?_of_attempt passes)
  simp only [written.agrees.together_iff] at found
  have takes : tree.TakesFile path := by
    rw [written.agrees.attempt_eq, attempt_iff] at passes
    exact passes.2
  refine ⟨written.agrees.trans agrees, fun apart file member => ?_, fun target elsewhere => ?_⟩
  · obtain ⟨earlier, -, across⟩ := List.pairwise_append.mp apart
    rcases List.mem_append.mp member with before | last
    · rw [(found file.1).2 fun together => across file before _ List.mem_cons_self together.symm]
      exact written.holds earlier file before
    · obtain rfl := List.mem_singleton.mp last
      exact (found path).1 takes.together
  · have own := elsewhere (path, content) (List.mem_append_right _ List.mem_cons_self)
    rw [(found target).2 own]
    exact written.stays target fun file member => elsewhere file (List.mem_append_left _ member)

end FileTree

namespace Unreliable

variable {fates : Path → Fate} {host : Host} {target : Path} {content : ByteArray}
  {written : List Path} {rest : List (Path × ByteArray)}

theorem run_writeAfter_of_written {file : Path × ByteArray}
    (passes : (host.files.attempt (fates file.1) file.1 file.2).1 = true) :
    run fates host (Emission.writeAfter written (file :: rest)) =
      run fates { host with
          files := (host.files.attempt (fates file.1) file.1 file.2).2
          events := host.events ++ [.wrote file.1.text] }
        (Emission.writeAfter (written ++ [file.1]) rest) := by
  have wrote : run fates host (MonadHost.write file.1 file.2 : ExceptT Error Unreliable Bool) =
      (.ok true, { host with files := (host.files.attempt (fates file.1) file.1 file.2).2 }) := by
    rw [← passes]
    rfl
  rw [Emission.writeAfter, run_bind, wrote]
  rfl

theorem run_writeAfter_of_failed
    (fails : (host.files.attempt (fates target) target content).1 = false) :
    run fates host (Emission.writeAfter written ((target, content) :: rest)) =
      run fates { host with files := (host.files.attempt (fates target) target content).2 }
        (do Emission.removeAll written; throw (.file target.text)) := by
  have wrote : run fates host (MonadHost.write target content : ExceptT Error Unreliable Bool) =
      (.ok false, { host with files := (host.files.attempt (fates target) target content).2 }) := by
    rw [← fails]
    rfl
  rw [Emission.writeAfter, run_bind, wrote]
  rfl

/-- Removing files never fails as a whole. -/
theorem run_removeAll (fates : Path → Fate) (host : Host) (targets : List Path) :
    ∃ told, run fates host (Emission.removeAll targets) =
      (.ok (), { host.hear told with files := host.files.clear targets }) := by
  induction targets generalizing host with
  | nil => exact ⟨[], by rw [host.hear_nil]; rfl⟩
  | cons target rest ih =>
    have removes : run fates host (MonadHost.remove target : ExceptT Error Unreliable Bool) =
        (.ok (host.files.remove? target).isSome,
          { host with files := host.files.without target }) := by
      change (Except.ok (Host.update (·.remove? target) host).1,
        (Host.update (·.remove? target) host).2) = _
      rw [Host.update, FileTree.without]
      cases host.files.remove? target <;> rfl
    rw [Emission.removeAll, List.forM, run_bind, run_bind, removes]
    cases (host.files.remove? target).isSome with
    | true => exact ih { host with files := host.files.without target }
    | false =>
      obtain ⟨told, ends⟩ := ih { host.hear [.notRemoved target.text] with
        files := host.files.without target }
      refine ⟨.notRemoved target.text :: told, ends.trans ?_⟩
      rw [Host.hear, Host.hear, Host.hear, List.append_assoc]
      rfl

/-- A batch that has been written to the end. -/
theorem written_of_run_ok {tree : FileTree} (files : List (Path × ByteArray))
    (progress : tree.Written files host.files)
    (ends : (run fates host (Emission.writeAfter (files.map (·.1)) rest)).1 = .ok ()) :
    tree.Written (files ++ rest)
      (run fates host (Emission.writeAfter (files.map (·.1)) rest)).2.files := by
  induction rest generalizing files host with
  | nil => rwa [List.append_nil]
  | cons file rest ih =>
    cases passes : (host.files.attempt (fates file.1) file.1 file.2).1 with
    | true =>
      have grown : (files ++ [file]).map (·.1) = files.map (·.1) ++ [file.1] := List.map_append
      rw [run_writeAfter_of_written passes, ← grown] at ends ⊢
      rw [List.append_cons files file rest]
      exact ih _ (progress.concat passes) ends
    | false =>
      rw [run_writeAfter_of_failed passes, run_bind] at ends
      split at ends <;> cases ends

theorem run_writeAll_ok {files : List (Path × ByteArray)}
    (ends : (run fates host (Emission.writeAll files)).1 = .ok ()) :
    host.files.Written files (run fates host (Emission.writeAll files)).2.files :=
  written_of_run_ok [] (.nil host.files) ends

/-- A batch that fails after some files, and after those that were written before. -/
theorem run_writeAfter_fails (fates : Path → Fate) (host : Host) {tree : FileTree}
    (files : List (Path × ByteArray)) {before after : List (Path × ByteArray)}
    (takes : ∀ file ∈ files, tree.TakesFile file.1) (progress : tree.Written files host.files)
    (passes : ∀ file ∈ before, (tree.attempt (fates file.1) file.1 file.2).1 = true)
    (fails : (tree.attempt (fates target) target content).1 = false) :
    ∃ left : Host, run fates host (Emission.writeAfter (files.map (·.1))
        (before ++ (target, content) :: after)) = (.error (.file target.text), left) ∧
      ∀ path, (∀ file ∈ files ++ before, tree.Together file.1 path →
          left.files.find? path = none) ∧
        ((∀ file ∈ files ++ before, ¬tree.Together file.1 path) →
          (¬tree.Together target path ∨ ∀ cut, fates target ≠ .cutOff cut) →
          left.files.find? path = tree.find? path) := by
  -- Files keep the directories, so every attempt ends as it would have at first.
  induction before generalizing files host with
  | nil =>
    rw [← progress.agrees.attempt_eq] at fails
    obtain ⟨kept, untouched⟩ := FileTree.find?_of_attempt_failed fails
    have agrees := progress.agrees.trans kept
    obtain ⟨told, removes⟩ := run_removeAll fates
      { host with files := (host.files.attempt (fates target) target content).2 }
      (files.map (·.1))
    have takesAll : ∀ path ∈ files.map (·.1), FileTree.TakesFile _ path :=
      List.forall_mem_map.mpr fun file member => agrees.takesFile (takes file member)
    have cleared := FileTree.find?_clear takesAll
    simp only [agrees.together_iff, List.forall_mem_map] at cleared
    simp only [progress.agrees.together_iff] at untouched
    have ends : run fates host
        (Emission.writeAfter (files.map (·.1)) ((target, content) :: after)) =
      (.error (.file target.text), { host.hear told with
        files :=
          (host.files.attempt (fates target) target content).2.clear (files.map (·.1)) }) := by
      rw [run_writeAfter_of_failed fails, run_bind, removes]
      rfl
    refine ⟨_, ends, fun path => ?_⟩
    rw [List.append_nil]
    refine ⟨(cleared path).1, fun elsewhere own => ?_⟩
    exact ((cleared path).2 elsewhere).trans
      ((untouched path own).trans (progress.stays path elsewhere))
  | cons file before ih =>
    have passesOwn := passes file List.mem_cons_self
    have passesHere := progress.agrees.attempt_eq.trans passesOwn
    have grown : (files ++ [file]).map (·.1) = files.map (·.1) ++ [file.1] := List.map_append
    rw [List.cons_append, run_writeAfter_of_written passesHere, ← grown,
      List.append_cons files file before]
    refine ih { host with
        files := (host.files.attempt (fates file.1) file.1 file.2).2
        events := host.events ++ [.wrote file.1.text] } (files ++ [file])
      (fun other member => ?_) (progress.concat passesHere)
      fun other member => passes other (List.mem_cons_of_mem _ member)
    rcases List.mem_append.mp member with earlier | last
    · exact takes other earlier
    · obtain rfl := List.mem_singleton.mp last
      exact (FileTree.attempt_iff.mp passesOwn).2

/-- When a file of a batch cannot be written, every file before it is gone in the end, whether or
not there was one at first. What is found on any other path is what it was, so it is for the files
that come after, but for the file that could not be written if it was touched. -/
theorem writeAll_rolls_back (fates : Path → Fate) (host : Host)
    (before after : List (Path × ByteArray)) (target : Path) (content : ByteArray)
    (passes : ∀ file ∈ before, (host.files.attempt (fates file.1) file.1 file.2).1 = true)
    (fails : (host.files.attempt (fates target) target content).1 = false) :
    ∃ left : Host,
      run fates host (Emission.writeAll (before ++ (target, content) :: after)) =
        (.error (.file target.text), left) ∧
      (∀ file ∈ before, left.files.find? file.1 = none) ∧
      ∀ path, (∀ file ∈ before, ¬host.files.Together file.1 path) →
        (¬host.files.Together target path ∨ ∀ cut, fates target ≠ .cutOff cut) →
        left.files.find? path = host.files.find? path := by
  obtain ⟨left, ends, found⟩ := run_writeAfter_fails fates host [] nofun (.nil host.files) passes
    fails
  refine ⟨left, ends, fun file member => ?_, fun path => (found path).2⟩
  refine (found file.1).1 file member ?_
  exact (FileTree.attempt_iff.mp (passes file member)).2.together

/-- A directory with two files from before. -/
def keepsOld : Host where
  files :=
    { entries := [(["out"], .directory), (["f.dot", "out"], .file "f".toUTF8),
        (["h.dot", "out"], .file "h".toUTF8)] }

/-- A new file in the place of one of the two. -/
def renewed : Path × ByteArray :=
  (⟨"out/f.dot"⟩, "new".toUTF8)

/-- A file in a directory that is not there. -/
def astray : Path × ByteArray :=
  (⟨"missing/g.dot"⟩, "new".toUTF8)

/-- A new file in the place of the other one. -/
def spared : Path × ByteArray :=
  (⟨"out/h.dot"⟩, "new".toUTF8)

theorem attempt_renewed : ∀ file ∈ [renewed],
    (keepsOld.files.attempt .completes file.1 file.2).1 = true := by
  decide +kernel

theorem attempt_astray : (keepsOld.files.attempt .completes astray.1 astray.2).1 = false := by
  decide +kernel

/-- The first of the two files is written over, then a file fails before the other is reached. -/
theorem writeAll_rolls_back_keepsOld :
    (∀ file ∈ [renewed], (keepsOld.files.attempt .completes file.1 file.2).1 = true) ∧
    (keepsOld.files.attempt .completes astray.1 astray.2).1 = false ∧
    ∃ left : Host,
      run (fun _ => .completes) keepsOld (Emission.writeAll ([renewed] ++ astray :: [spared])) =
        (.error (.file astray.1.text), left) ∧
      left.files.find? renewed.1 = none ∧
      left.files.find? spared.1 = keepsOld.files.find? spared.1 := by
  obtain ⟨left, ends, gone, stays⟩ := writeAll_rolls_back (fun _ => .completes) keepsOld
    [renewed] [spared] astray.1 astray.2 attempt_renewed attempt_astray
  exact ⟨attempt_renewed, attempt_astray, left, ends, gone _ List.mem_cons_self,
    stays _ (by decide +kernel) (.inl (by decide +kernel))⟩

/-- A batch with different paths that fails loses a file that was there before it. -/
theorem keepsOld_loses_old :
    ([renewed] ++ astray :: [spared]).Pairwise (fun file other => file.1 ≠ other.1) ∧
    keepsOld.files.find? renewed.1 = some (.file "f".toUTF8) ∧
    ∃ left : Host,
      run (fun _ => .completes) keepsOld (Emission.writeAll ([renewed] ++ astray :: [spared])) =
        (.error (.file astray.1.text), left) ∧
      left.files.find? renewed.1 = none := by
  obtain ⟨left, ends, found⟩ := run_writeAfter_fails (fun _ => .completes) keepsOld [] nofun
    (.nil _) attempt_renewed attempt_astray
  have leads : keepsOld.files.place? renewed.1 = some ["f.dot", "out"] := by decide +kernel
  refine ⟨by decide +kernel, ?_, left, ends,
    (found renewed.1).1 renewed List.mem_cons_self ⟨_, leads, leads⟩⟩
  rw [FileTree.find?_eq_bind, leads]
  rfl

end Unreliable

end ProgramGraphs
