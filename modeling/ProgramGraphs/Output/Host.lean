import ProgramGraphs.Journal
import ProgramGraphs.Output.FileTree
import ProgramGraphs.Output.Format

/-! # Hosts

What a run asks of its surroundings and does to them. Operations on files tell whether they
succeeded. `Host` is a host as a value: its files, and what it has been shown and told, in order.
-/

namespace ProgramGraphs

/-- The surroundings of a run. -/
class MonadHost (m : Type → Type) where
  isDirectory : Path → m Bool
  contains : Path → m Bool
  read? : Path → m (Option ByteArray)
  write : Path → ByteArray → m Bool
  remove : Path → m Bool
  createDirectories : Path → m Bool
  display : Viewer → String → m Unit
  print : String → m Unit
  tell : Event → m Unit

/-- A run that may fail has the surroundings that it would have if it could not. -/
instance {ε : Type} {m : Type → Type} [Monad m] [MonadHost m] : MonadHost (ExceptT ε m) where
  isDirectory path := ExceptT.lift (MonadHost.isDirectory path)
  contains path := ExceptT.lift (MonadHost.contains path)
  read? path := ExceptT.lift (MonadHost.read? path)
  write path content := ExceptT.lift (MonadHost.write path content)
  remove path := ExceptT.lift (MonadHost.remove path)
  createDirectories path := ExceptT.lift (MonadHost.createDirectories path)
  display viewer name := ExceptT.lift (MonadHost.display viewer name)
  print text := ExceptT.lift (MonadHost.print text)
  tell event := ExceptT.lift (MonadHost.tell event)

/-- A host as a value. -/
structure Host where
  files : FileTree
  shown : List (Viewer × String) := []
  printed : String := ""
  events : List Event := []

namespace Host

/-- Change the files of a host, or tell that it could not be done. -/
def update (change : FileTree → Option FileTree) : StateM Host Bool := fun host =>
  match change host.files with
  | some files => (true, { host with files })
  | none => (false, host)

instance : MonadHost (StateM Host) where
  isDirectory path := fun host => (host.files.isDirectory path, host)
  contains path := fun host => (host.files.contains path, host)
  read? path := fun host => (host.files.read? path, host)
  write path content := update (·.write? path content)
  remove path := update (·.remove? path)
  createDirectories path := fun host =>
    ((host.files.createDirectories path).2,
      { host with files := (host.files.createDirectories path).1 })
  display viewer name := fun host => ((), { host with shown := host.shown ++ [(viewer, name)] })
  print text := fun host => ((), { host with printed := host.printed ++ text })
  tell event := fun host => ((), { host with events := host.events ++ [event] })

end Host

end ProgramGraphs
