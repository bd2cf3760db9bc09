import ProgramGraphs.CommandLine.Config
import ProgramGraphs.Output.Emission

/-! # From a configuration to graphs

The program is loaded under the name of its file, all its graphs of a kind are built, and then put
out. The first failure ends the run, so nothing is put out unless every graph has been built.
-/

namespace ProgramGraphs

variable {m : Type → Type} [Monad m] [MonadHost m]

/-- Tell the events of a computation and go on with its result. -/
def relay {α : Type} (attempt : Attempt Error α) : ExceptT Error m α := do
  attempt.run.events.forM MonadHost.tell
  MonadExcept.ofExcept attempt.run.result

namespace Module

/-- The name of the module in a file. -/
def nameOfFile (path : Path) : String :=
  match path.stem? with
  | some stem => if stem.isEmpty then "module" else stem
  | none => "module"

/-- Load the module in a file. -/
def load (path : Path) (passes : List Pass) : ExceptT Error m Module := do
  match ← MonadHost.read? path with
  | none => throw (.file path.text)
  | some content => relay (ofText (nameOfFile path) (Json.Text.ofBytes content) passes)

end Module

namespace Config

/-- How modules are analysed. -/
def options (config : Config) : AnalysisOptions where
  strategy := config.strategy

/-- Where graphs go. -/
def emission (config : Config) (backend : Backend) : Emission :=
  ⟨config.format, config.output, backend⟩

/-- Load a program, build its graphs and put them out. -/
def run (config : Config) (backend : Backend) : ExceptT Error m Receipt := do
  let module ← Module.load config.input config.options.passes
  MonadHost.tell (.loaded module.name module.functions.length)
  let graphs ← relay (config.kind.build module config.options)
  MonadHost.tell (.built graphs.length config.kind.name)
  (config.emission backend).run module.name config.kind graphs config.kind.draw

end Config

end ProgramGraphs
