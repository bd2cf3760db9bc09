/-! # What is told while analyses run

Events are collected in the order in which they happen, next to the result, and also when there is
none. `Event.message` is the only place that knows the wording.
-/

namespace ProgramGraphs

/-- Something worth telling. -/
inductive Event where
  | promoted (function : String) (slots : Nat)
  | checked (module : String) (defined declared : Nat)
  | pointsToConverged (rounds : Nat)
  | undeclaredCallee (caller callee : String)
  | unresolvedCall (caller instruction : String)
  | summariesStable (members rounds : Nat)
  | building (function : String)
  | callsUnresolved (count : Nat) (strategy : String)
  | loaded (module : String) (functions : Nat)
  | built (count : Nat) (kind : String)
  | outputIgnored (path viewer : String)
  | nothingToRender
  | wrote (path : String)
  | notRemoved (path : String)
  deriving DecidableEq, Repr

namespace Event

/-- Warnings are always told, the rest only on request. -/
def isWarning : Event → Bool
  | .undeclaredCallee .. | .callsUnresolved .. | .outputIgnored .. | .nothingToRender
  | .notRemoved .. => true
  | _ => false

/-- The wording of an event. -/
def message : Event → String
  | .promoted function slots =>
    function ++ ": promoted " ++ toString slots ++ " memory slot(s)"
  | .checked module defined declared =>
    "loaded module '" ++ module ++ "': " ++ toString defined ++ " defined, " ++
      toString declared ++ " declared function(s)"
  | .pointsToConverged rounds =>
    "andersen points-to converged after " ++ toString rounds ++ " round(s)"
  | .undeclaredCallee caller callee =>
    caller ++ ": call to undeclared function '" ++ callee ++ "', treating it as external"
  | .unresolvedCall caller instruction =>
    caller ++ ": unresolved indirect call `" ++ instruction ++ "`"
  | .summariesStable members rounds =>
    "escape summaries for " ++ toString members ++
      " mutually recursive function(s) stable after " ++ toString rounds ++ " round(s)"
  | .building function => "building graph for '" ++ function ++ "'"
  | .callsUnresolved count strategy =>
    toString count ++ " indirect call(s) left unresolved by " ++ strategy ++ " points-to"
  | .loaded module functions =>
    "loaded '" ++ module ++ "' with " ++ toString functions ++ " function(s)"
  | .built count kind => "built " ++ toString count ++ " " ++ kind ++ " graph(s)"
  | .outputIgnored path viewer =>
    "output path '" ++ path ++ "' is ignored for the " ++ viewer ++ " viewer"
  | .nothingToRender => "nothing to render"
  | .wrote path => "wrote " ++ path
  | .notRemoved path => "cannot remove '" ++ path ++ "'"

end Event

/-- A result and the events on the way to it. -/
structure Logged (α : Type) where
  result : α
  events : List Event

namespace Logged

variable {α β : Type}

/-- A result without events. -/
protected def pure (result : α) : Logged α :=
  ⟨result, []⟩

/-- The events of a first step come before those of the step that follows it. -/
protected def bind (first : Logged α) (next : α → Logged β) : Logged β :=
  ⟨(next first.result).result, first.events ++ (next first.result).events⟩

instance : Monad Logged where
  pure := Logged.pure
  bind := Logged.bind

/-- Tell one event. -/
def tell (event : Event) : Logged Unit :=
  ⟨(), [event]⟩

@[simp] theorem result_pure (result : α) : (pure result : Logged α).result = result := rfl

@[simp] theorem events_pure (result : α) : (pure result : Logged α).events = [] := rfl

@[simp] theorem result_bind (first : Logged α) (next : α → Logged β) :
    (first >>= next).result = (next first.result).result := rfl

@[simp] theorem events_bind (first : Logged α) (next : α → Logged β) :
    (first >>= next).events = first.events ++ (next first.result).events := rfl

instance : LawfulMonad Logged :=
  LawfulMonad.mk' Logged
    (fun step => by
      show Logged.bind step (fun result => Logged.pure result) = step
      simp [Logged.bind, Logged.pure])
    (fun result next => by
      show Logged.bind (Logged.pure result) next = next result
      simp [Logged.bind, Logged.pure])
    (fun step next last => by
      show Logged.bind (Logged.bind step next) last = Logged.bind step fun result =>
        Logged.bind (next result) last
      simp [Logged.bind])

end Logged

/-- A computation that may fail and tells events either way. -/
abbrev Attempt (ε α : Type) := ExceptT ε Logged α

end ProgramGraphs
