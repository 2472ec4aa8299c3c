import Statechart.Machine.Reset

/-!
# Cycles

A cycle runs the active chain once, from the top down.  A state takes the command that waits in
its mailbox, fires its callbacks, hands the command down over whatever waits below, and has its
active inner state run its cycle.  On the way back up it follows the request of that inner state,
if there is one: the inner state is reset and the state that the request leads to is selected.

The request of a state's own step is the result of its cycle.  Observers are told of a changed
path also where the cycle fails.
-/
namespace Statechart.State

variable {H : Host} [Conduct H]

/-- Tell one observer of a change. -/
def tell (change : PathChange) : Observer H → StoreM H Unit
  | .host observer => (Conduct.notify change observer).run
  | .recorder history limit => Store.recordChange history limit change

/-- Tell all observers if the path is no longer what it was. -/
def announce (oldPath : String) (state : State H) : StoreM H Unit := do
  let newPath := state.path
  if newPath ≠ oldPath then
    let change : PathChange := ⟨oldPath, newPath, (← get).clock⟩
    state.core.observers.forM (tell change)

/-- Reset the active inner state and select the one that a request leads to. -/
def follow (request : Tag) (state : State H) : StoreM H (Except Fault Unit × State H) :=
  match state with
  | .leaf core => pure (.ok (), .leaf core)
  | .composite core routes before active after =>
    match routes.target? request with
    | none =>
      pure (.error (.unknownTransition core.name active.name request.label),
        .composite core routes before active after)
    | some target => do
      match ← active.reset with
      | (.error fault, active) =>
        pure (.error fault, .composite core routes before active after)
      | (.ok _, active) =>
        Store.note (.transition core.name active.name target request)
        let state ← (State.composite core routes before active after).activate target
        pure (.ok (), state)

/-- What the state does about the outcome of its active inner state's cycle. -/
def settle (outcome : Except Fault (Option Tag)) (state : State H) :
    StoreM H (Except Fault Unit × State H) :=
  match outcome with
  | .error fault => pure (.error fault, state)
  | .ok none => pure (.ok (), state)
  | .ok (some request) => state.follow request

/-- Run the active chain once.  The result is the request of the state's own step. -/
def cycle : State H → StoreM H (Except Fault (Option Tag) × State H)
  | .leaf core => do
    let command ← Store.takeFrom core.address
    let (requested, core) ← core.advance command
    pure (requested, .leaf core)
  | .composite core routes before active after => do
    let oldPath := (State.composite core routes before active after).path
    let command ← Store.takeFrom core.address
    match ← core.advance command with
    | (.error fault, core) => pure (.error fault, .composite core routes before active after)
    | (.ok requested, core) =>
      if let some command := command then Store.handTo active.address command
      let (outcome, active) ← active.cycle
      let (settled, state) ← (State.composite core routes before active after).settle outcome
      state.announce oldPath
      pure (settled.map fun _ => requested, state)

end Statechart.State
