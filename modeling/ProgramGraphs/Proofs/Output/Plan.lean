import ProgramGraphs.Output.Emission
import ProgramGraphs.Proofs.Output.Host

/-! # Plans

What a batch puts out is settled before anything is put out: the pictures are drawn, the places of
the files are chosen and checked, and the files are encoded. All of this only looks at the files
that are there. So putting out a batch is making a plan for the files as they are and carrying it
out (`run_eq_plan`), and a batch for which no plan can be made leaves its host alone.
-/

namespace ProgramGraphs

/-- What is to be put out. -/
inductive Plan where
  | display (viewer : Viewer) (pictures : List Picture)
  | deliver (output : Path) (files : List (Path × ByteArray))
  | print (document : String)

/-- Put out what has been planned. -/
def Plan.carryOut {m : Type → Type} [Monad m] [MonadHost m] (backend : Backend) :
    Plan → ExceptT Error m Receipt
  | display viewer pictures => Emission.displayAll backend viewer pictures
  | deliver output files => Emission.deliver output files
  | print document => do
    MonadHost.print document
    pure {}

/-- An output is a directory if it is one already, or is not there yet and ends with a slash. -/
def FileTree.isDirectoryTarget (tree : FileTree) (output : Path) : Bool :=
  tree.isDirectory output || !tree.contains output && output.endsWithSlash

/-- The directory that is to hold a single file, if it is missing. -/
def FileTree.missingParent? (tree : FileTree) (output : Path) : Option Path :=
  if tree.isDirectoryTarget output then none
  else output.parent?.filter fun parent => !parent.text.isEmpty && !tree.isDirectory parent

namespace Emission

/-- The files for labels: one each inside a directory, and otherwise the output itself. -/
def targets (tree : FileTree) (output : Path) (labels : List String) (extension : String) :
    Except Error (List Path) :=
  if tree.isDirectoryTarget output then
    .ok ((FileName.ofLabels labels extension).map output.join)
  else
    match labels with
    | [] => .ok []
    | [_] => .ok [output]
    | _ => .error (.severalGraphs labels.length)

/-- Whether files can have the places that are meant for them. -/
def placesFree (tree : FileTree) (output : Path) (targets : List Path) : Except Error Unit :=
  match targets.find? tree.isDirectory, tree.missingParent? output with
  | some target, _ => .error (.emission (.isDirectory target.text))
  | none, some parent => .error (.emission (.missingParent output.text parent.text))
  | none, none => .ok ()

/-- The file for a document. -/
def documentTarget (tree : FileTree) (output : Path) (module : String) : Path :=
  if tree.isDirectoryTarget output then output.join (FileName.stem module ++ ".json") else output

/-- The plan for a file for each picture. -/
def planOfFiles (backend : Backend) (encoding : Encoding) (output : Option Path)
    (labels : List String) (pictures : List Picture) (tree : FileTree) : Except Error Plan := do
  match output with
  | none => throw (.emission (.outputRequired encoding.name))
  | some output => do
    let targets ← targets tree output labels encoding.extension
    placesFree tree output targets
    let contents ← encodeAll backend encoding pictures
    pure (.deliver output (targets.zip contents))

/-- The plan for a document of all pictures. -/
def planOfDocument (module : String) (kind : GraphKind) (output : Option Path)
    (pictures : List Picture) (tree : FileTree) : Except Error Plan := do
  match output with
  | none => pure (.print (graphsDocument module kind pictures))
  | some output => do
    placesFree tree output [documentTarget tree output module]
    pure (.deliver output
      [(documentTarget tree output module, (graphsDocument module kind pictures).toUTF8)])

/-- The plan for a batch. -/
def plan (emission : Emission) (module : String) (kind : GraphKind) (graphs : List NamedGraph)
    (draw : String → AnalysisGraph → Except Error Picture) (tree : FileTree) :
    Except Error Plan := do
  let pictures ← graphs.mapM fun named => draw named.label named.graph
  match emission.format with
  | .viewer viewer => pure (.display viewer pictures)
  | .files encoding =>
    planOfFiles emission.backend encoding emission.output (graphs.map (·.label)) pictures tree
  | .json => planOfDocument module kind emission.output pictures tree

end Emission

namespace Unreliable

variable {α : Type} {fates : Path → Fate} {host : Host}

theorem run_ofExcept (result : Except Error α) :
    run fates host (MonadExcept.ofExcept result) = (result, host) := by
  cases result <;> rfl

theorem run_isDirectory (path : Path) :
    run fates host (MonadHost.isDirectory path) = (.ok (host.files.isDirectory path), host) :=
  rfl

theorem run_contains (path : Path) :
    run fates host (MonadHost.contains path) = (.ok (host.files.contains path), host) :=
  rfl

theorem run_isDirectoryTarget (output : Path) :
    run fates host (Emission.isDirectoryTarget output) =
      (.ok (host.files.isDirectoryTarget output), host) := by
  rw [Emission.isDirectoryTarget, run_bind, run_isDirectory, FileTree.isDirectoryTarget]
  cases host.files.isDirectory output with
  | true => rfl
  | false =>
    change run fates host (_ >>= _) = _
    rw [run_bind, run_contains]
    cases host.files.contains output <;> rfl

theorem run_checkTarget (target : Path) :
    run fates host (Emission.checkTarget target) =
      (if host.files.isDirectory target then .error (.emission (.isDirectory target.text))
        else .ok (), host) := by
  rw [Emission.checkTarget, run_bind, run_isDirectory]
  cases host.files.isDirectory target <;> rfl

theorem run_checkAll (targets : List Path) :
    run fates host (targets.forM Emission.checkTarget) =
      (match targets.find? host.files.isDirectory with
        | some target => .error (.emission (.isDirectory target.text))
        | none => .ok (), host) := by
  induction targets with
  | nil => rfl
  | cons target rest ih =>
    rw [List.forM, run_bind, run_checkTarget, List.find?_cons]
    cases host.files.isDirectory target with
    | true => rfl
    | false => exact ih

theorem run_checkParent (output : Path) : run fates host (Emission.checkParent output) =
    (match output.parent?.filter fun parent =>
        !parent.text.isEmpty && !host.files.isDirectory parent with
      | some parent => .error (.emission (.missingParent output.text parent.text))
      | none => .ok (), host) := by
  rw [Emission.checkParent]
  cases output.parent? with
  | none => rfl
  | some parent =>
    change run fates host (_ >>= _) = _
    rw [run_bind, run_isDirectory, Option.filter_some]
    dsimp only
    cases !parent.text.isEmpty && !host.files.isDirectory parent <;> rfl

theorem run_checkTargets (output : Path) (targets : List Path) :
    run fates host (Emission.checkTargets output targets) =
      (Emission.placesFree host.files output targets, host) := by
  rw [Emission.checkTargets, run_bind, run_checkAll, Emission.placesFree]
  cases targets.find? host.files.isDirectory with
  | some target => rfl
  | none =>
    change run fates host (_ >>= _) = _
    rw [run_bind, run_isDirectoryTarget, FileTree.missingParent?]
    cases host.files.isDirectoryTarget output with
    | true => rfl
    | false =>
      change run fates host (Emission.checkParent output) = _
      rw [run_checkParent, if_neg Bool.false_ne_true]
      cases output.parent?.filter _ <;> rfl

theorem run_planFiles (output : Path) (labels : List String) (extension : String) :
    ∃ told, run fates host (Emission.planFiles output labels extension) =
      (Emission.targets host.files output labels extension, host.hear told) := by
  unfold Emission.planFiles Emission.targets
  rw [run_bind, run_isDirectoryTarget]
  cases host.files.isDirectoryTarget output with
  | true => exact ⟨[], Prod.ext rfl host.hear_nil.symm⟩
  | false =>
    match labels with
    | [] => exact ⟨[.nothingToRender], rfl⟩
    | [_] => exact ⟨[], Prod.ext rfl host.hear_nil.symm⟩
    | _ :: _ :: _ => exact ⟨[], Prod.ext rfl host.hear_nil.symm⟩

/-- What a run does that has made a plan, or failed to. -/
def runPlan (fates : Path → Fate) (host : Host) (backend : Backend) :
    Except Error Plan → Except Error Receipt × Host
  | .ok plan => run fates host (plan.carryOut backend)
  | .error error => (.error error, host)

/-- A step that only looks at the files is a step of making the plan. -/
theorem run_bind_eq_runPlan {after : Host} {backend : Backend} {step : ExceptT Error Unreliable α}
    {next : α → ExceptT Error Unreliable Receipt} {result : Except Error α}
    {plan : α → Except Error Plan} (looks : run fates host step = (result, after))
    (onward : ∀ value, run fates after (next value) = runPlan fates after backend (plan value)) :
    run fates host (step >>= next) = runPlan fates after backend (result >>= plan) := by
  rw [run_bind, looks]
  cases result with
  | error error => rfl
  | ok value => exact onward value

theorem run_emitFiles (emission : Emission) (encoding : Encoding) (labels : List String)
    (pictures : List Picture) :
    ∃ told, run fates host (emission.emitFiles encoding labels pictures) =
      runPlan fates (host.hear told) emission.backend
        (Emission.planOfFiles emission.backend encoding emission.output labels pictures
          host.files) := by
  unfold Emission.emitFiles Emission.planOfFiles
  cases emission.output with
  | none => exact ⟨[], Prod.ext rfl host.hear_nil.symm⟩
  | some output =>
    obtain ⟨told, planned⟩ := run_planFiles output labels encoding.extension
    exact ⟨told, run_bind_eq_runPlan planned fun targets =>
      run_bind_eq_runPlan (run_checkTargets output targets) fun _ =>
        run_bind_eq_runPlan (run_ofExcept _) fun _ => rfl⟩

theorem run_emitDocument (emission : Emission) (module : String) (kind : GraphKind)
    (pictures : List Picture) :
    run fates host (emission.emitDocument module kind pictures) =
      runPlan fates host emission.backend
        (Emission.planOfDocument module kind emission.output pictures host.files) := by
  unfold Emission.emitDocument Emission.planOfDocument
  cases emission.output with
  | none => rfl
  | some output =>
    dsimp only
    rw [run_bind, run_isDirectoryTarget]
    exact run_bind_eq_runPlan (run_checkTargets output _) fun _ => rfl

/-- A run makes a plan for the files that are there, and carries it out. -/
theorem run_eq_plan (fates : Path → Fate) (host : Host) (emission : Emission) (module : String)
    (kind : GraphKind) (graphs : List NamedGraph)
    (draw : String → AnalysisGraph → Except Error Picture) :
    ∃ told, run fates host (emission.run module kind graphs draw) =
      runPlan fates (host.hear told) emission.backend
        (emission.plan module kind graphs draw host.files) := by
  unfold Emission.run Emission.plan
  rw [run_bind, run_ofExcept]
  cases graphs.mapM fun named => draw named.label named.graph with
  | error error => exact ⟨[], Prod.ext rfl host.hear_nil.symm⟩
  | ok pictures =>
    cases emission.format with
    | viewer viewer =>
      cases emission.output with
      | none => exact ⟨[], by rw [host.hear_nil]; rfl⟩
      | some output => exact ⟨[.outputIgnored output.text viewer.name], rfl⟩
    | files encoding => exact run_emitFiles emission encoding _ pictures
    | json =>
      refine ⟨[], ?_⟩
      rw [host.hear_nil]
      exact run_emitDocument emission module kind pictures

end Unreliable

end ProgramGraphs
