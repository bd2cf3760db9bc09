import ProgramGraphs.Proofs.Output.FileName
import ProgramGraphs.Proofs.Output.Plan

/-! # What is wrong with a batch

A plan can be made for a batch unless something is wrong with it: a graph that cannot be drawn or
encoded, a place that is missing, taken or too small. These are all the reasons (`exists_plan_iff`).
-/

namespace ProgramGraphs

namespace Emission

/-- The names of the files that are to be put inside a directory. -/
def names (format : OutputFormat) (module : String) (labels : List String) : List String :=
  match format with
  | .viewer _ => []
  | .files encoding => FileName.ofLabels labels encoding.extension
  | .json => [FileName.stem module ++ ".json"]

/-- What is wrong with a batch, given the files that are there. -/
inductive Defect (emission : Emission) (module : String) (graphs : List NamedGraph)
    (draw : String → AnalysisGraph → Except Error Picture) (tree : FileTree) : Prop where
  | drawing {named : NamedGraph} {error : Error} (member : named ∈ graphs)
      (fails : draw named.label named.graph = .error error)
  | outputMissing {encoding : Encoding} (format : emission.format = .files encoding)
      (missing : emission.output = none)
  | severalGraphs {encoding : Encoding} {output : Path}
      (format : emission.format = .files encoding) (given : emission.output = some output)
      (single : tree.isDirectoryTarget output = false) (several : 1 < graphs.length)
  | blocked {output : Path} {name : String} (given : emission.output = some output)
      (directory : tree.isDirectoryTarget output = true)
      (member : name ∈ names emission.format module (graphs.map (·.label)))
      (taken : tree.isDirectory (output.join name) = true)
  | parentMissing {output parent : Path} (writes : ∀ viewer, emission.format ≠ .viewer viewer)
      (given : emission.output = some output) (missing : tree.missingParent? output = some parent)
  | encoding {encoding : Encoding} {named : NamedGraph} {picture : Picture} {fault : EmissionFault}
      (format : emission.format = .files encoding) (member : named ∈ graphs)
      (drawn : draw named.label named.graph = .ok picture)
      (fails : emission.backend.encode encoding picture = .error fault)

variable {tree : FileTree} {output : Path} {targets : List Path} {labels : List String}
  {extension : String} {backend : Backend} {encoding : Encoding} {pictures : List Picture}

theorem placesFree_eq_ok_iff : placesFree tree output targets = .ok () ↔
    (∀ target ∈ targets, tree.isDirectory target = false) ∧ tree.missingParent? output = none := by
  rw [placesFree]
  cases found : targets.find? tree.isDirectory with
  | some target =>
    constructor
    · rintro ⟨⟩
    · rintro ⟨free, -⟩
      have taken := List.find?_some found
      rw [free target (List.mem_of_find?_eq_some found)] at taken
      cases taken
  | none =>
    cases tree.missingParent? output with
    | some parent =>
      constructor
      · rintro ⟨⟩
      · rintro ⟨-, ⟨⟩⟩
    | none =>
      refine ⟨fun _ => ⟨fun target member => ?_, rfl⟩, fun _ => rfl⟩
      exact Bool.eq_false_iff.mpr (List.find?_eq_none.mp found target member)

/-- An output that is no directory has one file at most. -/
theorem targets_eq_ok_iff : Emission.targets tree output labels extension = .ok targets ↔
    (tree.isDirectoryTarget output = true ∧
      targets = (FileName.ofLabels labels extension).map output.join) ∨
    (tree.isDirectoryTarget output = false ∧
      labels.length ≤ 1 ∧ targets = labels.map fun _ => output) := by
  unfold Emission.targets
  cases tree.isDirectoryTarget output with
  | true => simp [eq_comm]
  | false =>
    match labels with
    | [] => simp [eq_comm]
    | [_] => simp [eq_comm]
    | _ :: _ :: _ => simp

theorem length_targets (chosen : Emission.targets tree output labels extension = .ok targets) :
    targets.length = labels.length := by
  rcases targets_eq_ok_iff.mp chosen with ⟨-, rfl⟩ | ⟨-, -, rfl⟩
  · rw [List.length_map]
    exact FileName.length_ofLabelsAfter [] extension labels
  · exact List.length_map _

theorem exists_targets_iff :
    (∃ targets, Emission.targets tree output labels extension = .ok targets) ↔
      (tree.isDirectoryTarget output = false → labels.length ≤ 1) := by
  simp only [targets_eq_ok_iff]
  cases tree.isDirectoryTarget output <;> simp

theorem encodeAll_eq_ok_iff {contents : List ByteArray} :
    encodeAll backend encoding pictures = .ok contents ↔
      pictures.mapM (backend.encode encoding) = .ok contents := by
  rw [encodeAll]
  cases pictures.mapM (backend.encode encoding) with
  | error fault => exact ⟨nofun, nofun⟩
  | ok contents => simp only [Except.mapError, Except.ok.injEq]

/-- A place that is no directory for a batch is no directory at all. -/
theorem isDirectory_of_isDirectoryTarget (single : tree.isDirectoryTarget output = false) :
    tree.isDirectory output = false :=
  (Bool.or_eq_false_iff.mp single).1

theorem planOfFiles_eq_ok_iff {given : Option Path} {plan : Plan} :
    planOfFiles backend encoding given labels pictures tree = .ok plan ↔
      ∃ output targets contents, given = some output ∧
        Emission.targets tree output labels encoding.extension = .ok targets ∧
        placesFree tree output targets = .ok () ∧
        pictures.mapM (backend.encode encoding) = .ok contents ∧
        plan = .deliver output (targets.zip contents) := by
  unfold planOfFiles
  cases given with
  | none => exact ⟨nofun, nofun⟩
  | some output =>
    simp only [bind_eq_ok_iff, encodeAll_eq_ok_iff, Option.some.injEq]
    constructor
    · rintro ⟨targets, chosen, ⟨⟩, free, contents, encoded, ⟨⟩⟩
      exact ⟨output, targets, contents, rfl, chosen, free, encoded, rfl⟩
    · rintro ⟨_, targets, contents, rfl, chosen, free, encoded, rfl⟩
      exact ⟨targets, chosen, (), free, contents, encoded, rfl⟩

theorem exists_planOfDocument_iff {module : String} {kind : GraphKind} {given : Option Path} :
    (∃ plan, planOfDocument module kind given pictures tree = .ok plan) ↔
      ∀ output, given = some output →
        placesFree tree output [documentTarget tree output module] = .ok () := by
  unfold planOfDocument
  cases given with
  | none => exact ⟨fun _ => nofun, fun _ => ⟨_, rfl⟩⟩
  | some output =>
    simp only [exists_bind_eq_ok_iff, Option.some.injEq, forall_eq']
    exact ⟨fun ⟨_, free, _⟩ => free, fun free => ⟨(), free, _, rfl⟩⟩

variable {emission : Emission} {module : String} {kind : GraphKind} {graphs : List NamedGraph}
  {draw : String → AnalysisGraph → Except Error Picture}

/-- The places of a plan that writes files are free. -/
theorem exists_placesFree {plan : Plan}
    (made : emission.plan module kind graphs draw tree = .ok plan)
    (given : emission.output = some output) (writes : ∀ viewer, emission.format ≠ .viewer viewer) :
    ∃ targets, placesFree tree output targets = .ok () ∧ (tree.isDirectoryTarget output = true →
      targets = (names emission.format module (graphs.map (·.label))).map output.join) := by
  obtain ⟨pictures, -, made⟩ := bind_eq_ok_iff.mp made
  cases format : emission.format with
  | viewer viewer => exact absurd format (writes viewer)
  | files encoding =>
    rw [format] at made
    obtain ⟨_, targets, contents, same, chosen, free, -⟩ := planOfFiles_eq_ok_iff.mp made
    obtain rfl := Option.some.inj (given.symm.trans same)
    refine ⟨targets, free, fun directory => ?_⟩
    rcases targets_eq_ok_iff.mp chosen with ⟨-, inside⟩ | ⟨single, -⟩
    · exact inside
    · exact nomatch directory.symm.trans single
  | json =>
    rw [format] at made
    refine ⟨_, exists_planOfDocument_iff.mp ⟨plan, made⟩ output given, fun directory => ?_⟩
    rw [documentTarget, if_pos directory]
    rfl

/-- No plan can be made where something is wrong. -/
theorem Defect.not_plan (defect : emission.Defect module graphs draw tree) (plan : Plan) :
    emission.plan module kind graphs draw tree ≠ .ok plan := by
  intro planned
  obtain ⟨pictures, drawn, made⟩ := bind_eq_ok_iff.mp planned
  cases defect with
  | drawing member fails =>
    obtain ⟨picture, -, draws⟩ := exists_result_of_mapM_eq_ok drawn member
    exact nomatch draws.symm.trans fails
  | outputMissing format missing =>
    rw [format, missing] at made
    exact nomatch made
  | severalGraphs format given single several =>
    rw [format] at made
    obtain ⟨_, targets, contents, same, chosen, -⟩ := planOfFiles_eq_ok_iff.mp made
    obtain rfl := Option.some.inj (given.symm.trans same)
    rcases targets_eq_ok_iff.mp chosen with ⟨directory, -⟩ | ⟨-, few, -⟩
    · exact nomatch directory.symm.trans single
    · rw [List.length_map] at few
      omega
  | blocked given directory member taken =>
    have writes (viewer : Viewer) (format : emission.format = .viewer viewer) : False := by
      rw [format] at member
      exact nomatch member
    obtain ⟨targets, free, inside⟩ := exists_placesFree planned given writes
    obtain rfl := inside directory
    have empty := (placesFree_eq_ok_iff.mp free).1 _ (List.mem_map_of_mem member)
    exact nomatch taken.symm.trans empty
  | parentMissing writes given missing =>
    obtain ⟨targets, free, -⟩ := exists_placesFree planned given writes
    exact nomatch missing.symm.trans (placesFree_eq_ok_iff.mp free).2
  | encoding format member draws fails =>
    rw [format] at made
    obtain ⟨_, targets, contents, -, -, -, encoded, -⟩ := planOfFiles_eq_ok_iff.mp made
    obtain ⟨picture, listed, same⟩ := exists_result_of_mapM_eq_ok drawn member
    obtain rfl := Except.ok.inj (draws.symm.trans same)
    obtain ⟨content, -, encodes⟩ := exists_result_of_mapM_eq_ok encoded listed
    exact nomatch encodes.symm.trans fails

/-- A place for a file is free where nothing is wrong. -/
theorem placesFree_of_sound (sound : ¬emission.Defect module graphs draw tree)
    (given : emission.output = some output) (writes : ∀ viewer, emission.format ≠ .viewer viewer)
    (inside : tree.isDirectoryTarget output = true →
      targets = (names emission.format module (graphs.map (·.label))).map output.join)
    (single : tree.isDirectoryTarget output = false → ∀ target ∈ targets, target = output) :
    placesFree tree output targets = .ok () := by
  refine placesFree_eq_ok_iff.mpr ⟨fun target member => ?_, ?_⟩
  · cases directory : tree.isDirectoryTarget output with
    | true =>
      rw [inside directory] at member
      obtain ⟨name, listed, rfl⟩ := List.mem_map.mp member
      exact Bool.eq_false_iff.mpr fun taken => sound (.blocked given directory listed taken)
    | false =>
      rw [single directory target member]
      exact isDirectory_of_isDirectoryTarget directory
  · exact Option.eq_none_iff_forall_not_mem.mpr fun parent missing =>
      sound (.parentMissing writes given missing)

/-- A plan can be made where nothing is wrong. -/
theorem exists_plan_of_sound (sound : ¬emission.Defect module graphs draw tree) :
    ∃ plan, emission.plan module kind graphs draw tree = .ok plan := by
  refine exists_bind_eq_ok_iff.mpr ?_
  have draws : ∀ named ∈ graphs, ∃ picture, draw named.label named.graph = .ok picture := by
    intro named member
    cases outcome : draw named.label named.graph with
    | ok picture => exact ⟨picture, rfl⟩
    | error error => exact absurd (.drawing member outcome) sound
  obtain ⟨pictures, drawn⟩ := exists_mapM_eq_ok_iff.mpr draws
  refine ⟨pictures, drawn, ?_⟩
  cases format : emission.format with
  | viewer viewer => exact ⟨_, rfl⟩
  | json =>
    have writes : ∀ viewer, emission.format ≠ .viewer viewer := fun viewer => by simp [format]
    refine exists_planOfDocument_iff.mpr fun output given =>
      placesFree_of_sound sound given writes (fun directory => ?_) fun single target member => ?_
    · rw [documentTarget, if_pos directory, format]
      rfl
    · rw [List.mem_singleton.mp member, documentTarget, single]
      rfl
  | files encoding =>
    have writes : ∀ viewer, emission.format ≠ .viewer viewer := fun viewer => by simp [format]
    obtain ⟨output, given⟩ : ∃ output, emission.output = some output :=
      Option.ne_none_iff_exists'.mp fun missing => sound (.outputMissing format missing)
    have encodes : ∀ picture ∈ pictures,
        ∃ content, emission.backend.encode encoding picture = .ok content := by
      intro picture listed
      obtain ⟨named, member, draws⟩ := exists_entry_of_mapM_eq_ok drawn listed
      cases outcome : emission.backend.encode encoding picture with
      | ok content => exact ⟨content, rfl⟩
      | error fault => exact absurd (.encoding format member draws outcome) sound
    obtain ⟨contents, encoded⟩ := exists_mapM_eq_ok_iff.mpr encodes
    obtain ⟨targets, chosen⟩ : ∃ targets, Emission.targets tree output (graphs.map (·.label))
        encoding.extension = .ok targets := exists_targets_iff.mpr fun single => by
      rw [List.length_map]
      exact Nat.le_of_not_lt fun several => sound (.severalGraphs format given single several)
    have free : placesFree tree output targets = .ok () := by
      rcases targets_eq_ok_iff.mp chosen with ⟨directory, rfl⟩ | ⟨single, -, rfl⟩
      · exact placesFree_of_sound sound given writes (fun _ => by rw [format]; rfl)
          fun single => nomatch directory.symm.trans single
      · exact placesFree_of_sound sound given writes
          (fun directory => nomatch directory.symm.trans single)
          fun _ target member => (List.mem_map.mp member).elim fun _ found => found.2.symm
    exact ⟨_, planOfFiles_eq_ok_iff.mpr
      ⟨output, targets, contents, given, chosen, free, encoded, rfl⟩⟩

/-- A plan can be made for a batch unless something is wrong with it. -/
theorem exists_plan_iff : (∃ plan, emission.plan module kind graphs draw tree = .ok plan) ↔
    ¬emission.Defect module graphs draw tree :=
  ⟨fun ⟨plan, made⟩ defect => defect.not_plan plan made, exists_plan_of_sound⟩

theorem format_of_display {viewer : Viewer}
    (planned : emission.plan module kind graphs draw tree = .ok (.display viewer pictures)) :
    emission.format = .viewer viewer ∧
      (graphs.mapM fun named => draw named.label named.graph) = .ok pictures := by
  obtain ⟨drawings, drawn, made⟩ := bind_eq_ok_iff.mp planned
  cases format : emission.format with
  | viewer _ =>
    rw [format] at made
    cases made
    exact ⟨rfl, drawn⟩
  | files encoding =>
    rw [format] at made
    obtain ⟨_, _, _, -, -, -, -, ⟨⟩⟩ := planOfFiles_eq_ok_iff.mp made
  | json =>
    rw [format] at made
    unfold planOfDocument at made
    cases given : emission.output with
    | none => rw [given] at made; cases made
    | some output =>
      rw [given] at made
      obtain ⟨_, -, ⟨⟩⟩ := bind_eq_ok_iff.mp made

section Errors

variable {error : Error} {count : Nat}

theorem exists_fault_of_placesFree (fails : placesFree tree output targets = .error error) :
    ∃ fault, error = .emission fault := by
  rw [placesFree] at fails
  revert fails
  cases targets.find? tree.isDirectory with
  | some target => exact fun fails => ⟨_, (Except.error.inj fails).symm⟩
  | none =>
    cases tree.missingParent? output with
    | some parent => exact fun fails => ⟨_, (Except.error.inj fails).symm⟩
    | none => rintro ⟨⟩

theorem exists_fault_of_encodeAll (fails : encodeAll backend encoding pictures = .error error) :
    ∃ fault, error = .emission fault := by
  rw [encodeAll] at fails
  cases outcome : pictures.mapM (backend.encode encoding) with
  | ok contents => rw [outcome] at fails; cases fails
  | error fault => rw [outcome] at fails; cases fails; exact ⟨fault, rfl⟩

theorem targets_eq_error_iff : Emission.targets tree output labels extension = .error error ↔
    tree.isDirectoryTarget output = false ∧ 1 < labels.length ∧
      error = .severalGraphs labels.length := by
  unfold Emission.targets
  cases tree.isDirectoryTarget output with
  | true => simp
  | false =>
    match labels with
    | [] => simp
    | [_] => simp
    | _ :: _ :: _ => simp [eq_comm]

theorem planOfFiles_eq_severalGraphs_iff {given : Option Path} :
    planOfFiles backend encoding given labels pictures tree = .error (.severalGraphs count) ↔
      ∃ output, given = some output ∧ tree.isDirectoryTarget output = false ∧ 1 < labels.length ∧
        count = labels.length := by
  unfold planOfFiles
  cases given with
  | none => exact ⟨nofun, nofun⟩
  | some output =>
    simp only [bind_eq_error_iff, targets_eq_error_iff, Error.severalGraphs.injEq,
      Option.some.injEq, exists_eq_left']
    refine or_iff_left ?_
    rintro ⟨targets, -, fails | ⟨-, -, fails | ⟨contents, -, ⟨⟩⟩⟩⟩
    · exact nomatch exists_fault_of_placesFree fails
    · exact nomatch exists_fault_of_encodeAll fails

theorem planOfDocument_ne_severalGraphs {given : Option Path} :
    planOfDocument module kind given pictures tree ≠ .error (.severalGraphs count) := by
  unfold planOfDocument
  cases given with
  | none => exact nofun
  | some output =>
    intro fails
    rcases bind_eq_error_iff.mp fails with fails | ⟨-, -, ⟨⟩⟩
    exact nomatch exists_fault_of_placesFree fails

/-- There are several graphs for a single file, or it is the drawing of a graph that says so. -/
theorem plan_eq_severalGraphs_iff :
    emission.plan module kind graphs draw tree = .error (.severalGraphs count) ↔
      (graphs.mapM fun named => draw named.label named.graph) = .error (.severalGraphs count) ∨
      (∀ named ∈ graphs, ∃ picture, draw named.label named.graph = .ok picture) ∧
        ∃ encoding output, emission.format = .files encoding ∧ emission.output = some output ∧
          tree.isDirectoryTarget output = false ∧ 1 < graphs.length ∧ count = graphs.length := by
  rw [plan, bind_eq_error_iff, ← exists_mapM_eq_ok_iff]
  refine or_congr_right ⟨?_, ?_⟩
  · rintro ⟨pictures, drawn, fails⟩
    refine ⟨⟨pictures, drawn⟩, ?_⟩
    cases format : emission.format with
    | viewer viewer => rw [format] at fails; cases fails
    | json => rw [format] at fails; exact absurd fails planOfDocument_ne_severalGraphs
    | files encoding =>
      rw [format] at fails
      obtain ⟨output, given, single, several, counted⟩ := planOfFiles_eq_severalGraphs_iff.mp fails
      rw [List.length_map] at several counted
      exact ⟨encoding, output, rfl, given, single, several, counted⟩
  · rintro ⟨⟨pictures, drawn⟩, encoding, output, format, given, single, several, counted⟩
    refine ⟨pictures, drawn, ?_⟩
    rw [format]
    refine planOfFiles_eq_severalGraphs_iff.mpr ⟨output, given, single, ?_, ?_⟩
    · rwa [List.length_map]
    · rwa [List.length_map]

end Errors

end Emission

end ProgramGraphs
