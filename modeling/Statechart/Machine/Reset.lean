import Statechart.Machine.Callback

/-!
# Reset and deactivation

A reset leaves the active chain: it fires the exits of the states that run from the top down, and
then, from the bottom up, selects the initial inner states and stops the states.  Where an exit
fails, nothing above it has been stopped or selected yet.

A deactivation does the same to the selection and to the running states without any callback.
Both throw away the commands that wait along the chain and in the states they select.
-/
namespace Statechart.State

variable {H : Host}

/-- Select an inner state and throw away the command that waits in it. -/
def activate (name : String) (state : State H) : StoreM H (State H) := do
  let state := state.select name
  if let some active := state.activeChild? then Store.discard .selected active.address
  pure state

/-- Leave the active chain with the exits of its running states. -/
def reset [Conduct H] : State H → StoreM H (Except Fault Unit × State H)
  | .leaf core => do
    Store.discard .discarded core.address
    match ← core.leave with
    | (.error fault, core) => pure (.error fault, .leaf core)
    | (.ok _, core) =>
      Store.note (.reset core.name)
      pure (.ok (), .leaf core.stopped)
  | .composite core routes before active after => do
    Store.discard .discarded core.address
    match ← core.leave with
    | (.error fault, core) => pure (.error fault, .composite core routes before active after)
    | (.ok _, core) =>
      match ← active.reset with
      | (.error fault, active) =>
        pure (.error fault, .composite core routes before active after)
      | (.ok _, active) =>
        let state ← (State.composite core.stopped routes before active after).activate routes.initial
        Store.note (.reset core.name)
        pure (.ok (), state)

/-- Leave the active chain without callbacks. -/
def deactivate : State H → StoreM H (State H)
  | .leaf core => do
    Store.discard .abandoned core.address
    pure (.leaf core.stopped)
  | .composite core routes before active after => do
    Store.discard .abandoned core.address
    let active ← active.deactivate
    (State.composite core.stopped routes before active after).activate routes.initial

end Statechart.State
