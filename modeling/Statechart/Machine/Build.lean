import Statechart.Config
import Statechart.Machine.State

/-!
# Building machines

A blueprint says how a state is built: how its behaviour is made, and the table of its inner
states.  Building goes top down: a state's behaviour is made and its table is checked before its
rows are built, and the rows are built in order.  The first row of a name builds the state of that
name; a later row of the same name only leads to it.  A state with an empty table is a leaf.

While a machine is being built nobody has a handle to any of its states: the states get their
mailboxes once all are there.
-/
namespace Statechart

/-- How a state is built: its behaviour by a program, and its inner states row by row. -/
inductive Blueprint (H : Host) : Type
  | mk (make : Program H H.Behavior) (rows : List (Row (Blueprint H)))

namespace Blueprint

variable {H : Host}

/-- The program that makes the behaviour. -/
def make : Blueprint H → Program H H.Behavior
  | .mk make _ => make

/-- The table of the inner states. -/
def rows : Blueprint H → Table (Blueprint H)
  | .mk _ rows => rows

/-- A state that has been built is known among its siblings by its name. -/
def built? (states : List (State H)) (name : String) : Option (State H) :=
  states.find? (·.name = name)

/-- The parts of a state with inner states: the initial one is selected. -/
def assemble (core : Core H) (rows : List (Tag × String)) (initial : String)
    (states : List (State H)) : State H :=
  match State.focus initial states with
  | none => .leaf core
  | some (before, active, after) => .composite core ⟨rows, initial⟩ before active after

mutual

/-- Build a state at a place. -/
def build (config : Config) (place : Address) (typeName : String) :
    Blueprint H → StoreM H (Except Fault (State H))
  | .mk make rows => do
    let behavior ← make.run
    let core : Core H := ⟨place, typeName, false, none, behavior, []⟩
    if rows.isEmpty then pure (.ok (.leaf core))
    else
      let violations := Table.violations config.strict rows
      if !violations.isEmpty then
        pure (.error (.invalidConfiguration place.name violations))
      else
        (Table.duplicates rows).forM fun label => Store.note (.tagShared place.name label)
        match ← buildRows config place [] rows with
        | .error fault => pure (.error fault)
        | .ok states =>
          match Table.initial? rows with
          | none => pure (.error (.invalidConfiguration place.name [.missingInitial]))
          | some row =>
            pure (.ok (assemble core (rows.map fun row => (row.tag, row.name)) row.name states))

/-- Build the rows of a table that come after those built so far. -/
def buildRows (config : Config) (owner : Address) (states : List (State H)) :
    List (Row (Blueprint H)) → StoreM H (Except Fault (List (State H)))
  | [] => pure (.ok states)
  | row :: rest => do
    match built? states row.name with
    | some state =>
      if state.core.typeName ≠ row.typeName then
        Store.note (.nameTaken owner.name row.name state.core.typeName row.typeName)
      buildRows config owner states rest
    | none =>
      match ← buildRow config owner row with
      | .error fault => pure (.error fault)
      | .ok state => buildRows config owner (states ++ [state]) rest

/-- Build the state of a row. -/
def buildRow (config : Config) (owner : Address) :
    Row (Blueprint H) → StoreM H (Except Fault (State H))
  | ⟨_, name, typeName, _, target⟩ => build config (owner.inner name) typeName target

end

/-- Give every state of a tree an empty mailbox. -/
def house (policy : MailboxPolicy) (root : State H) : StoreM H Unit :=
  root.subtree.forM fun s => Store.setMailbox s.address (.empty policy)

/-- Start a machine: build its root, whose name must be a segment of a path, and give all its states
mailboxes. -/
def start (config : Config) (name typeName : String) (blueprint : Blueprint H) :
    StoreM H (Except Fault (State H)) := do
  if isSegment name then
    let machine := (← get).machines
    modify fun store => { store with machines := machine + 1 }
    match ← blueprint.build config (.root machine name) typeName with
    | .error fault => pure (.error fault)
    | .ok root =>
      house config.policy root
      pure (.ok root)
  else pure (.error (.invalidConfiguration name [.invalidRootName name]))

end Blueprint

end Statechart
