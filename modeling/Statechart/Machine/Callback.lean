import Statechart.Machine.State

/-!
# Callbacks of a state

How a state's callbacks are fired, and what they do to whether it runs.  The entry is fired only
on a state that does not run and makes it run if it completes; the exit is fired only on one that
runs.  That an exit has completed does not by itself stop the state: the operation that fires it
does so when all beneath the state has been left as well.
-/
namespace Statechart.Core

variable {H : Host}

/-- The record of a callback that has ended with a result, from which its request is read. -/
def record {α : Type} (core : Core H) (phase : Phase) (requests : α → Option Tag)
    (command : Option Command) (result : Except Fault α) : Call :=
  match result with
  | .error fault => ⟨phase, core.address, core.view command, some fault, none⟩
  | .ok value => ⟨phase, core.address, core.view command, none, requests value⟩

/-- Fire a callback and put it on record. -/
def call {α : Type} (phase : Phase) (requests : α → Option Tag) (command : Option Command)
    (body : View → H.Behavior → Program H (Except Fault α × H.Behavior)) (core : Core H) :
    StoreM H (Except Fault α × Core H) := do
  Store.note (.callback phase core.name)
  let (result, behavior) ← (body (core.view command) core.behavior).run
  Store.log (.called (core.record phase requests command result))
  pure (result, { core with behavior := behavior })

variable [Conduct H]

/-- Fire the entry, unless the state runs. -/
def enter (command : Option Command) (core : Core H) : StoreM H (Except Fault Unit × Core H) := do
  if core.running then pure (.ok (), core)
  else
    match ← core.call .entry (fun _ => none) command Conduct.entry with
    | (.error fault, core) => pure (.error fault, core)
    | (.ok _, core) => pure (.ok (), { core with running := true })

/-- Fire the entry, unless the state runs, and then the step. -/
def advance (command : Option Command) (core : Core H) :
    StoreM H (Except Fault (Option Tag) × Core H) := do
  match ← core.enter command with
  | (.error fault, core) => pure (.error fault, core)
  | (.ok _, core) => core.call .step id command Conduct.step

/-- Fire the exit, if the state runs.  An exit sees no command. -/
def leave (core : Core H) : StoreM H (Except Fault Unit × Core H) := do
  if core.running then core.call .exit (fun _ => none) none Conduct.exit else pure (.ok (), core)

/-- The state no longer runs. -/
def stopped (core : Core H) : Core H := { core with running := false }

end Statechart.Core
