import ProgramGraphs.GraphKind
import ProgramGraphs.Output.Backend
import ProgramGraphs.Output.FileName
import ProgramGraphs.Output.Host

/-! # Putting out graphs

All graphs of a batch are drawn before anything else happens; files are encoded, and their places
checked, before the first one is written. A directory gets a file for each graph, a single file
takes exactly one. When a file cannot be written, those written before it are removed.
-/

namespace ProgramGraphs

/-- What was put out. -/
structure Receipt where
  written : List Path := []
  shown : Nat := 0
  deriving DecidableEq, Repr

/-- Where graphs go, how, and what draws them. -/
structure Emission where
  format : OutputFormat
  output : Option Path
  backend : Backend

/-- All graphs together as a document. -/
def graphsDocument (module : String) (kind : GraphKind) (pictures : List Picture) : String :=
  (Json.Value.object [("module", .string module), ("graph_type", .string kind.name),
    ("graphs", .array (pictures.map Picture.toJson))]).pretty ++ "\n"

namespace Emission

variable {m : Type → Type} [Monad m] [MonadHost m]

/-- An output is a directory if it is one already, or is not there yet and ends with a slash. -/
def isDirectoryTarget (output : Path) : m Bool := do
  if ← MonadHost.isDirectory output then pure true
  else if ← MonadHost.contains output then pure false
  else pure output.endsWithSlash

/-- A directory is no place for a file. -/
def checkTarget (target : Path) : ExceptT Error m Unit := do
  if ← MonadHost.isDirectory target then throw (.emission (.isDirectory target.text))

/-- The directory that is to hold a single file has to be there. -/
def checkParent (output : Path) : ExceptT Error m Unit := do
  match output.parent? with
  | none => pure ()
  | some parent =>
    if !parent.text.isEmpty && !(← MonadHost.isDirectory parent) then
      throw (.emission (.missingParent output.text parent.text))

/-- Check the places of the files of an output. -/
def checkTargets (output : Path) (targets : List Path) : ExceptT Error m Unit := do
  targets.forM checkTarget
  if !(← isDirectoryTarget output) then checkParent output

/-- The files for labels: one each inside a directory, and otherwise the output itself. -/
def planFiles (output : Path) (labels : List String) (extension : String) :
    ExceptT Error m (List Path) := do
  if ← isDirectoryTarget output then
    pure ((FileName.ofLabels labels extension).map output.join)
  else
    match labels with
    | [] => do
      MonadHost.tell .nothingToRender
      pure []
    | [_] => pure [output]
    | _ => throw (.severalGraphs labels.length)

/-- Make a directory output with all directories above it. -/
def prepareDirectory (output : Path) : ExceptT Error m Unit := do
  if ← isDirectoryTarget output then
    if !(← MonadHost.createDirectories output) then throw (.file output.text)

/-- Remove files; it is only worth a warning if one stays. -/
def removeAll (targets : List Path) : m Unit :=
  targets.forM fun target => do
    if !(← MonadHost.remove target) then MonadHost.tell (.notRemoved target.text)

/-- Write files after others, removing all of them when one cannot be written. -/
def writeAfter (written : List Path) : List (Path × ByteArray) → ExceptT Error m Unit
  | [] => pure ()
  | (target, content) :: rest => do
    if ← MonadHost.write target content then
      MonadHost.tell (.wrote target.text)
      writeAfter (written ++ [target]) rest
    else
      removeAll written
      throw (.file target.text)

/-- Write files, leaving none when one cannot be written. -/
def writeAll (files : List (Path × ByteArray)) : ExceptT Error m Unit :=
  writeAfter [] files

/-- Check the places of files, and write them. -/
def deliver (output : Path) (files : List (Path × ByteArray)) : ExceptT Error m Receipt := do
  prepareDirectory output
  writeAll files
  pure { written := files.map (·.1) }

/-- Show pictures one after the other. -/
def displayAll (backend : Backend) (viewer : Viewer) (pictures : List Picture) :
    ExceptT Error m Receipt := do
  pictures.forM fun picture =>
    match backend.display viewer picture with
    | .ok () => MonadHost.display viewer picture.name
    | .error fault => throw (.emission fault)
  pure { shown := pictures.length }

/-- Encode pictures one after the other. -/
def encodeAll (backend : Backend) (encoding : Encoding) (pictures : List Picture) :
    Except Error (List ByteArray) :=
  (pictures.mapM (backend.encode encoding)).mapError .emission

/-- Write a file for each picture. -/
def emitFiles (emission : Emission) (encoding : Encoding) (labels : List String)
    (pictures : List Picture) : ExceptT Error m Receipt := do
  match emission.output with
  | none => throw (.emission (.outputRequired encoding.name))
  | some output => do
    let targets ← planFiles output labels encoding.extension
    checkTargets output targets
    let contents ← MonadExcept.ofExcept (encodeAll emission.backend encoding pictures)
    deliver output (targets.zip contents)

/-- Write or print all pictures as a document. -/
def emitDocument (emission : Emission) (module : String) (kind : GraphKind)
    (pictures : List Picture) : ExceptT Error m Receipt := do
  let document := graphsDocument module kind pictures
  match emission.output with
  | none => do
    MonadHost.print document
    pure {}
  | some output => do
    let target :=
      if ← isDirectoryTarget output then output.join (FileName.stem module ++ ".json") else output
    checkTargets output [target]
    deliver output [(target, document.toUTF8)]

/-- Draw the graphs of a module and put them out. -/
def run (emission : Emission) (module : String) (kind : GraphKind) (graphs : List NamedGraph)
    (draw : String → AnalysisGraph → Except Error Picture) : ExceptT Error m Receipt := do
  let pictures ← MonadExcept.ofExcept (graphs.mapM fun named => draw named.label named.graph)
  match emission.format with
  | .viewer viewer => do
    if let some output := emission.output then
      MonadHost.tell (.outputIgnored output.text viewer.name)
    displayAll emission.backend viewer pictures
  | .files encoding => emission.emitFiles encoding (graphs.map (·.label)) pictures
  | .json => emission.emitDocument module kind pictures

end Emission

end ProgramGraphs
