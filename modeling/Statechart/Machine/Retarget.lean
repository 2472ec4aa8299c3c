import Statechart.Checkpoint.Basic
import Statechart.Machine.Reset

/-!
# Setting the path

The active chain can be set by a path, without callbacks.  The whole path is looked up first, so a
path that leads nowhere changes nothing.  Then, level by level, a selection that is not the one
named is changed: the old inner state is deactivated and the new one selected.  Levels below the
last segment keep their selection.

A checkpoint is captured from a state and can put a state back on its path.  Behaviours, variables
and waiting commands are no part of it.
-/
namespace Statechart.State

variable {H : Host}

/-- Look up the segments of a path below the state. -/
def resolve (text : String) : List String → State H → Except Fault Unit
  | [], _ => .ok ()
  | name :: names, state =>
    match state with
    | .leaf core => .error (.invalidPath text (.noInnerState core.name name))
    | .composite core .. =>
      match state.child? name with
      | none => .error (.stateNotFound core.name name)
      | some child => resolve text names child

/-- Select an inner state by name without callbacks, unless it is selected. -/
def retarget (name : String) (state : State H) : StoreM H (State H) :=
  match state with
  | .leaf core => pure (.leaf core)
  | .composite core routes before active after =>
    if active.name = name then pure (.composite core routes before active after)
    else do
      let active ← active.deactivate
      Store.note (.retargeted core.name active.name name)
      (State.composite core routes before active after).activate name

/-- Select the segments of a path below the state. -/
def applyPath : List String → State H → StoreM H (State H)
  | [], state => pure state
  | name :: names, state => do
    match ← state.retarget name with
    | .leaf core => pure (.leaf core)
    | .composite core routes before active after => do
      let active ← applyPath names active
      pure (.composite core routes before active after)

/-- Set the active chain by a path that starts at the state. -/
def setPath (text : String) (state : State H) : StoreM H (Except Fault Unit × State H) :=
  match StatePath.parse text with
  | .error cause => pure (.error (.invalidPath text cause), state)
  | .ok path =>
    if path.root ≠ state.name then
      pure (.error (.invalidPath text (.foreignRoot path.root state.name)), state)
    else
      match state.resolve text path.inner with
      | .error fault => pure (.error fault, state)
      | .ok _ => do
        let state ← state.applyPath path.inner
        Store.note (.pathRestored state.name text)
        pure (.ok (), state)

/-! ## Checkpoints -/

/-- Take a checkpoint of the state. -/
def capture (id : String) (history : PathHistory) (state : State H) : StoreM H Checkpoint := do
  pure ⟨Checkpoint.currentVersion, id, (← get).clock, state.name, state.path, history⟩

/-- Put the state on the path of a checkpoint. -/
def restore (checkpoint : Checkpoint) (state : State H) :
    StoreM H (Except CheckpointFault Unit × State H) :=
  match checkpoint.validate with
  | .error fault => pure (.error fault, state)
  | .ok _ =>
    if state.name ≠ checkpoint.root then
      pure (.error (.rootMismatch checkpoint.root state.name), state)
    else do
      match ← state.setPath checkpoint.statePath with
      | (.error fault, state) => pure (.error (.restore fault), state)
      | (.ok _, state) =>
        Store.note (.checkpointRestored checkpoint.id checkpoint.statePath)
        pure (.ok (), state)

end Statechart.State
