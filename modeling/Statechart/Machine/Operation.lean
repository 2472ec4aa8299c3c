import Statechart.Machine.Build
import Statechart.Machine.Cycle
import Statechart.Machine.Retarget
import Statechart.Machine.Variables

/-!
# Operations on a machine

What can be done to a machine from outside, as data: operations on the root or on a state of the
active chain, posts to any mailbox, and variables added through a scope.  A run is a list of
these, so a law about every run is a law about every list.
-/
namespace Statechart

/-- An operation on a state of the active chain. -/
inductive Operation (H : Host)
  /-- Run the chain from the state down once. -/
  | cycle
  /-- Leave the chain from the state down. -/
  | reset
  | setPath (path : String)
  | restore (checkpoint : Checkpoint)
  | injectVariable (name : String) (value : Value)
  | observe (observer : Observer H)

/-- How an operation ends. -/
inductive Outcome
  | done
  /-- A cycle is done; its state's step has requested this. -/
  | requested (request : Option Tag)
  | failed (fault : Fault)
  /-- Restoring failed. -/
  | refused (fault : CheckpointFault)
  deriving DecidableEq

namespace Outcome

/-- The outcome of an operation that has no result. -/
def ofExcept : Except Fault Unit → Outcome
  | .ok _ => .done
  | .error fault => .failed fault

end Outcome

namespace State

variable {H : Host}

/-- Add an observer. -/
def observe (observer : Observer H) (state : State H) : State H :=
  state.withCore { state.core with observers := state.core.observers ++ [observer] }

/-- Carry out an operation on the state. -/
def perform [Conduct H] (state : State H) : Operation H → StoreM H (Outcome × State H)
  | .cycle => do
    match ← state.cycle with
    | (.ok request, state) => pure (.requested request, state)
    | (.error fault, state) => pure (.failed fault, state)
  | .reset => do
    let (result, state) ← state.reset
    pure (.ofExcept result, state)
  | .setPath path => do
    let (result, state) ← state.setPath path
    pure (.ofExcept result, state)
  | .restore checkpoint => do
    match ← state.restore checkpoint with
    | (.ok _, state) => pure (.done, state)
    | (.error fault, state) => pure (.refused fault, state)
  | .injectVariable name value => do
    let (result, state) ← state.injectVariable name value
    pure (.ofExcept result, state)
  | .observe observer => pure (.done, state.observe observer)

end State

/-- A machine: its root with all beneath it, and the store that it works on. -/
structure Machine (H : Host) where
  root : State H
  store : Store H

/-- Something that is done to a machine. -/
inductive Move (H : Host)
  /-- An operation on the state so many levels down the active chain. -/
  | operate (depth : Nat) (operation : Operation H)
  | post (state : Address) (command : Command)
  /-- Add a variable through a scope. -/
  | declare (scope : Address) (name : String) (value : Value)

/-- What comes of a move. -/
inductive Answer
  /-- The active chain is too short. -/
  | missing
  | outcome (outcome : Outcome)
  /-- A command or a variable was accepted, or was not. -/
  | accepted (accepted : Bool)
  deriving DecidableEq

namespace Machine

variable {H : Host}

/-- Build a machine on a store. -/
def start (config : Config) (name typeName : String) (blueprint : Blueprint H) (store : Store H) :
    Except Fault (Machine H) × Store H :=
  let (root, store) := (blueprint.start config name typeName).run store
  (root.map fun root => ⟨root, store⟩, store)

/-- Make a move. -/
def move [Conduct H] (machine : Machine H) : Move H → Answer × Machine H
  | .operate depth operation =>
    let act (state : State H) := state.perform operation
    let ((outcome, root), store) := (machine.root.onActive act depth).run machine.store
    ((outcome.map Answer.outcome).getD .missing, ⟨root, store⟩)
  | .post state command =>
    let (accepted, store) := (Store.post state command).run machine.store
    (.accepted accepted, ⟨machine.root, store⟩)
  | .declare scope name value =>
    let (free, store) := (Store.declare scope name value).run machine.store
    (.accepted free, ⟨machine.root, store⟩)

/-- Make moves in order. -/
def run [Conduct H] (machine : Machine H) : List (Move H) → List Answer × Machine H
  | [] => ([], machine)
  | move :: moves =>
    let (answer, machine) := machine.move move
    let (answers, machine) := machine.run moves
    (answer :: answers, machine)

end Machine

end Statechart
