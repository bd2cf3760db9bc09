import ProgramGraphs.Proofs.Output.Batch
import ProgramGraphs.Proofs.Output.Defect

/-! # Putting out a batch

Nothing is put out for a batch that something is wrong with, and a batch of files that comes to its
end has left every graph, as it is encoded, in a file of its own (`emission_checks_first`). What can
go wrong once a plan is carried out is up to the host and the viewers (`fault_of_carryOut`).
-/

namespace ProgramGraphs

namespace Emission

variable {tree : FileTree} {output : Path} {targets : List Path} {labels : List String}
  {encoding : Encoding}

theorem nodup_targets
    (chosen : Emission.targets tree output labels encoding.extension = .ok targets) :
    targets.Nodup := by
  rcases targets_eq_ok_iff.mp chosen with ⟨-, rfl⟩ | ⟨-, few, rfl⟩
  · refine (FileName.nodup_ofLabelsAfter [] _ labels).map_on fun name one other two same => ?_
    obtain ⟨plain, idle, up⟩ := FileName.plain_of_mem one
    obtain ⟨plain', idle', up'⟩ := FileName.plain_of_mem two
    have meant := congrArg Path.fileChars? same
    rw [Path.fileChars?_join output plain idle up,
      Path.fileChars?_join output plain' idle' up'] at meant
    exact String.toList_injective (Option.some.inj meant)
  · match labels with
    | [] => exact List.nodup_nil
    | [_] => exact List.nodup_singleton _
    | _ :: _ :: _ => simp at few

/-- The files for labels are in different places, whatever the files are that are there. -/
theorem pairwise_targets (later : FileTree)
    (chosen : Emission.targets tree output labels encoding.extension = .ok targets) :
    targets.Pairwise fun target other => ¬later.Together target other := by
  rcases targets_eq_ok_iff.mp chosen with ⟨-, rfl⟩ | ⟨-, few, rfl⟩
  · rw [List.pairwise_map]
    refine (FileName.nodup_ofLabelsAfter [] _ labels).imp_of_mem fun one two distinct => ?_
    rintro ⟨place, leads, same⟩
    obtain ⟨plain, idle, up⟩ := FileName.plain_of_mem one
    obtain ⟨plain', idle', up'⟩ := FileName.plain_of_mem two
    have names := (FileTree.head?_of_place?_join plain idle up leads).symm.trans
      (FileTree.head?_of_place?_join plain' idle' up' same)
    exact distinct (Option.some.inj names)
  · match labels with
    | [] => exact List.Pairwise.nil
    | [_] => exact List.pairwise_singleton _ _
    | _ :: _ :: _ => simp at few

end Emission

namespace Unreliable

variable {fates : Path → Fate} {host after : Host} {files : List (Path × ByteArray)} {error : Error}
  {output : Path} {backend : Backend} {viewer : Viewer} {pictures : List Picture}

theorem file_of_writeAfter {written : List Path}
    (fails : run fates host (Emission.writeAfter written files) = (.error error, after)) :
    ∃ path, error = .file path := by
  induction files generalizing host written with
  | nil => cases fails
  | cons file rest ih =>
    cases passes : (host.files.attempt (fates file.1) file.1 file.2).1 with
    | true => exact ih (run_writeAfter_of_written passes ▸ fails)
    | false =>
      rw [run_writeAfter_of_failed passes, run_bind] at fails
      obtain ⟨told, removes⟩ := run_removeAll fates
        { host with files := (host.files.attempt (fates file.1) file.1 file.2).2 } written
      rw [removes] at fails
      cases fails
      exact ⟨file.1.text, rfl⟩

theorem file_of_prepareDirectory
    (fails : run fates host (Emission.prepareDirectory output) = (.error error, after)) :
    ∃ path, error = .file path := by
  rw [Emission.prepareDirectory, run_bind, run_isDirectoryTarget] at fails
  cases directory : host.files.isDirectoryTarget output with
  | false => rw [directory] at fails; cases fails
  | true =>
    rw [directory] at fails
    change run fates host (_ >>= _) = _ at fails
    have makes : run fates host
        (MonadHost.createDirectories output : ExceptT Error Unreliable Bool) =
      (.ok (host.files.createDirectories output).2,
        { host with files := (host.files.createDirectories output).1 }) := rfl
    rw [run_bind, makes] at fails
    cases made : (host.files.createDirectories output).2 with
    | true => rw [made] at fails; cases fails
    | false => rw [made] at fails; cases fails; exact ⟨output.text, rfl⟩

theorem file_of_deliver
    (fails : run fates host (Emission.deliver output files) = (.error error, after)) :
    ∃ path, error = .file path := by
  rcases run_bind_eq_error_iff.mp fails with fails | ⟨_, middle, -, fails⟩
  · exact file_of_prepareDirectory fails
  · rcases run_bind_eq_error_iff.mp fails with fails | ⟨_, _, -, ⟨⟩⟩
    exact file_of_writeAfter fails

theorem fault_of_displayAll
    (fails : run fates host (Emission.displayAll backend viewer pictures) = (.error error, after)) :
    ∃ picture ∈ pictures, ∃ fault,
      backend.display viewer picture = .error fault ∧ error = .emission fault := by
  rcases run_bind_eq_error_iff.mp fails with stops | ⟨_, _, -, ⟨⟩⟩
  clear fails
  induction pictures generalizing host with
  | nil => cases stops
  | cons picture rest ih =>
    rw [List.forM, run_bind] at stops
    cases outcome : backend.display viewer picture with
    | ok _ =>
      rw [outcome] at stops
      obtain ⟨other, member, found⟩ := ih stops
      exact ⟨other, List.mem_cons_of_mem _ member, found⟩
    | error fault =>
      rw [outcome] at stops
      cases stops
      exact ⟨picture, List.mem_cons_self, fault, outcome, rfl⟩

/-- A delivery that comes to its end has left every content in its file. -/
theorem run_deliver_ok {receipt : Receipt} (apart : ∀ tree : FileTree, tree.Apart files)
    (ends : run fates host (Emission.deliver output files) = (.ok receipt, after)) :
    receipt.written = files.map (·.1) ∧
      ∀ file ∈ files, after.files.find? file.1 = some (.file file.2) := by
  obtain ⟨_, middle, -, ends⟩ := run_bind_eq_ok_iff.mp ends
  obtain ⟨_, left, writes, ends⟩ := run_bind_eq_ok_iff.mp ends
  cases ends
  have written := run_writeAll_ok (congrArg Prod.fst writes)
  rw [writes] at written
  exact ⟨rfl, written.holds (apart middle.files)⟩

/-- What goes wrong with a plan is up to the host, which fails to write a file or make a directory,
or to a viewer. -/
theorem fault_of_carryOut {plan : Plan}
    (fails : run fates host (plan.carryOut backend) = (.error error, after)) :
    (∃ path, error = .file path) ∨ ∃ viewer pictures, plan = .display viewer pictures ∧
      ∃ picture ∈ pictures, ∃ fault,
        backend.display viewer picture = .error fault ∧ error = .emission fault := by
  cases plan with
  | display viewer pictures => exact .inr ⟨viewer, pictures, rfl, fault_of_displayAll fails⟩
  | deliver output files => exact .inl (file_of_deliver fails)
  | print document => cases fails

variable {emission : Emission} {module : String} {kind : GraphKind} {graphs : List NamedGraph}
  {draw : String → AnalysisGraph → Except Error Picture} {encoding : Encoding}

/-- A plan for files that is carried out to its end gives each graph a file of its own. -/
theorem forall₂_read?_of_carryOut {plan : Plan} {tree : FileTree} {receipt : Receipt}
    (planned : emission.plan module kind graphs draw tree = .ok plan)
    (format : emission.format = .files encoding)
    (ends : run fates host (plan.carryOut emission.backend) = (.ok receipt, after)) :
    receipt.written.Nodup ∧
      List.Forall₂ (fun named path => ∃ picture content,
        draw named.label named.graph = .ok picture ∧
        emission.backend.encode encoding picture = .ok content ∧
        after.files.read? path = some content) graphs receipt.written := by
  obtain ⟨pictures, drawn, made⟩ := bind_eq_ok_iff.mp planned
  rw [format] at made
  obtain ⟨output, targets, contents, -, chosen, -, encoded, rfl⟩ :=
    Emission.planOfFiles_eq_ok_iff.mp made
  have drawings := forall₂_of_mapM_eq_ok drawn
  have encodings := forall₂_of_mapM_eq_ok encoded
  have counted : targets.length = graphs.length := by
    rw [Emission.length_targets chosen, List.length_map]
  have even : targets.length = contents.length := by
    rw [counted, drawings.length_eq, encodings.length_eq]
  have paths : (targets.zip contents).map (·.1) = targets := List.map_fst_zip even.le
  have apart (later : FileTree) : later.Apart (targets.zip contents) := by
    have places := Emission.pairwise_targets later chosen
    rwa [← paths, List.pairwise_map] at places
  obtain ⟨written, holds⟩ := run_deliver_ok apart ends
  rw [paths] at written
  have stored : List.Forall₂ (fun path content => after.files.read? path = some content)
      targets contents := List.forall₂_iff_zip.mpr ⟨even, fun member => by
    rw [FileTree.read?, holds _ member]⟩
  rw [written]
  refine ⟨Emission.nodup_targets chosen, ?_⟩
  refine List.forall₂_iff_get.mpr ⟨counted.symm, fun index _ _ => ?_⟩
  have drawn : index < pictures.length := by rwa [← drawings.length_eq]
  have encoded : index < contents.length := by rwa [← encodings.length_eq]
  exact ⟨_, _, drawings.get _ drawn, encodings.get _ encoded, stored.get _ _⟩

/-- As long as something is wrong with a batch, nothing is put out: the run fails, and leaves all
files as they are, shows nothing and prints nothing. If nothing is wrong with it, the run can only
fail because of a file or a viewer. There are too many graphs for the output just if all of them can
be drawn, there is more than one, and they are to go into a single file. A run that comes to its end
has written one file for each graph, in their order, that holds the graph as it is encoded. -/
theorem emission_checks_first (fates : Path → Fate) (host : Host) (emission : Emission)
    (module : String) (kind : GraphKind) (graphs : List NamedGraph)
    (draw : String → AnalysisGraph → Except Error Picture) :
    let outcome := run fates host (emission.run module kind graphs draw)
    (emission.Defect module graphs draw host.files →
      (∃ error, outcome.1 = .error error) ∧ outcome.2.files = host.files ∧
        outcome.2.shown = host.shown ∧ outcome.2.printed = host.printed) ∧
    (∀ error, outcome.1 = .error error →
      emission.Defect module graphs draw host.files ∨ (∃ path, error = .file path) ∨
      ∃ viewer named picture fault, emission.format = .viewer viewer ∧ named ∈ graphs ∧
        draw named.label named.graph = .ok picture ∧
        emission.backend.display viewer picture = .error fault ∧ error = .emission fault) ∧
    (∀ count, outcome.1 = .error (.severalGraphs count) ↔
      (graphs.mapM fun named => draw named.label named.graph) = .error (.severalGraphs count) ∨
      (∀ named ∈ graphs, ∃ picture, draw named.label named.graph = .ok picture) ∧
        ∃ encoding output, emission.format = .files encoding ∧ emission.output = some output ∧
          host.files.isDirectoryTarget output = false ∧ 1 < graphs.length ∧
          count = graphs.length) ∧
    ∀ receipt encoding, outcome.1 = .ok receipt → emission.format = .files encoding →
      receipt.written.Nodup ∧
      List.Forall₂ (fun named path => ∃ picture content,
        draw named.label named.graph = .ok picture ∧
        emission.backend.encode encoding picture = .ok content ∧
        outcome.2.files.read? path = some content) graphs receipt.written := by
  intro outcome
  obtain ⟨told, runs⟩ := run_eq_plan fates host emission module kind graphs draw
  change outcome = _ at runs
  cases planned : emission.plan module kind graphs draw host.files with
  | error error =>
    rw [planned] at runs
    have defect : emission.Defect module graphs draw host.files := by
      by_contra sound
      obtain ⟨plan, made⟩ : ∃ plan, emission.plan module kind graphs draw host.files = .ok plan :=
        Emission.exists_plan_of_sound sound
      exact nomatch planned.symm.trans made
    rw [runs, runPlan]
    refine ⟨fun _ => ⟨⟨error, rfl⟩, rfl, rfl, rfl⟩, fun _ _ => .inl defect, fun count => ?_, nofun⟩
    rw [← Emission.plan_eq_severalGraphs_iff, planned, Except.error.injEq, Except.error.injEq]
  | ok plan =>
    rw [planned] at runs
    have carried {error : Error} (fails : outcome.1 = .error error) :
        run fates (host.hear told) (plan.carryOut emission.backend) = (.error error, outcome.2) :=
      runs.symm.trans (Prod.ext fails rfl)
    refine ⟨fun defect => absurd planned (defect.not_plan plan), fun error fails => .inr ?_,
      fun count => ⟨fun fails => ?_, fun several => ?_⟩, fun receipt encoding ends format => ?_⟩
    · refine (fault_of_carryOut (carried fails)).imp_right ?_
      rintro ⟨viewer, pictures, rfl, picture, listed, fault, refuses, caused⟩
      obtain ⟨format, drawn⟩ := Emission.format_of_display planned
      obtain ⟨named, member, draws⟩ := exists_entry_of_mapM_eq_ok drawn listed
      exact ⟨viewer, named, picture, fault, format, member, draws, refuses, caused⟩
    · rcases fault_of_carryOut (carried fails) with ⟨_, ⟨⟩⟩ | ⟨_, _, -, _, -, _, -, ⟨⟩⟩
    · exact nomatch planned.symm.trans (Emission.plan_eq_severalGraphs_iff.mpr several)
    · exact forall₂_read?_of_carryOut planned format (runs.symm.trans (Prod.ext ends rfl))

/-- A directory with another one inside it. -/
def besideOther : Host where
  files := { entries := [(["out"], .directory), (["h.dot", "out"], .directory)] }

/-- Graphs with nothing to show. -/
def bareGraphs (labels : List String) : List NamedGraph :=
  labels.map fun label => ⟨label, .escape ⟨"m", []⟩⟩

/-- Files that go into the directory. -/
def intoDirectory : Emission :=
  ⟨.files .dot, some ⟨"out/"⟩, .inProcess⟩

/-- A batch with a file in the place of the inner directory is not put out, and one without is. -/
theorem emission_checks_first_besideOther :
    intoDirectory.Defect "m" (bareGraphs ["g", "h"]) GraphKind.escape.draw besideOther.files ∧
    (run (fun _ => .completes) besideOther
      (intoDirectory.run "m" .escape (bareGraphs ["g", "h"]) GraphKind.escape.draw)).2.files =
        besideOther.files ∧
    (run (fun _ => .completes) besideOther
      (intoDirectory.run "m" .escape (bareGraphs ["f", "g"]) GraphKind.escape.draw)).1 =
        .ok { written := [⟨"out/f.dot"⟩, ⟨"out/g.dot"⟩] } ∧
    List.Forall₂ (fun named path => ∃ picture content,
        GraphKind.escape.draw named.label named.graph = .ok picture ∧
        Backend.inProcess.encode .dot picture = .ok content ∧
        (run (fun _ => .completes) besideOther
          (intoDirectory.run "m" .escape (bareGraphs ["f", "g"])
            GraphKind.escape.draw)).2.files.read? path = some content)
      (bareGraphs ["f", "g"]) [⟨"out/f.dot"⟩, ⟨"out/g.dot"⟩] := by
  obtain ⟨rejects, -⟩ := emission_checks_first (fun _ => .completes) besideOther intoDirectory "m"
    .escape (bareGraphs ["g", "h"]) GraphKind.escape.draw
  obtain ⟨-, -, -, fulfils⟩ := emission_checks_first (fun _ => .completes) besideOther
    intoDirectory "m" .escape (bareGraphs ["f", "g"]) GraphKind.escape.draw
  have named : "h.dot" ∈ Emission.names intoDirectory.format "m"
      ((bareGraphs ["g", "h"]).map (·.label)) := by decide +kernel
  have defect : intoDirectory.Defect "m" (bareGraphs ["g", "h"]) GraphKind.escape.draw
      besideOther.files := .blocked rfl (by decide +kernel) named (by decide +kernel)
  have ends : (run (fun _ => .completes) besideOther
      (intoDirectory.run "m" .escape (bareGraphs ["f", "g"]) GraphKind.escape.draw)).1 =
        .ok { written := [⟨"out/f.dot"⟩, ⟨"out/g.dot"⟩] } := by decide +kernel
  exact ⟨defect, (rejects defect).2.1, ends, (fulfils _ .dot ends rfl).2⟩

end Unreliable

end ProgramGraphs
