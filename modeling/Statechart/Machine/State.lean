import Statechart.Machine.Store

/-!
# States

A state is a leaf, or it has inner states of which exactly one is active.  The inner states are
kept as the active one between those before and after it in the order of their table, so that
there is always an active one and the order survives a change of selection.

`State.chain` is the active chain, `State.subtree` every state in it and beneath it, and
`State.select` changes the selection of one state.
-/
namespace Statechart

/-- What is told of path changes. -/
inductive Observer (H : Host)
  | host (observer : H.Observer)
  /-- A recorder into the history of a name, which may keep the newest changes only. -/
  | recorder (history : String) (limit : Option Nat)

/-- What every state has. -/
structure Core (H : Host) where
  address : Address
  typeName : String
  /-- Its entry has completed and its exit has not since. -/
  running : Bool
  /-- The place of the state whose scope it sees. -/
  scope : Option Address
  behavior : H.Behavior
  observers : List (Observer H)

/-- Where the requests of inner states lead. -/
structure Routes where
  /-- Tags with the name of the state that each leads to, in the order of the table. -/
  rows : List (Tag × String)
  /-- Name of the inner state that is selected at first and after every reset. -/
  initial : String
  deriving DecidableEq

/-- The name of the last row whose tag agrees. -/
def Routes.target? (routes : Routes) (tag : Tag) : Option String :=
  (routes.rows.reverse.find? fun row => row.1.agrees tag).map Prod.snd

/-- A state with all that is beneath it. -/
inductive State (H : Host) : Type
  | leaf (core : Core H)
  /-- A state with inner states: those before the active one, the active one, those after it. -/
  | composite (core : Core H) (routes : Routes) (before : List (State H)) (active : State H)
      (after : List (State H))

namespace Core

variable {H : Host}

/-- Name of the state. -/
def name (core : Core H) : String := core.address.name

/-- What a callback sees that is given a command. -/
def view (core : Core H) (command : Option Command) : View := ⟨core.name, command, core.scope⟩

end Core

namespace State

variable {H : Host}

/-- What the state has of itself. -/
def core : State H → Core H
  | .leaf core => core
  | .composite core .. => core

/-- The state with another core. -/
def withCore (core : Core H) : State H → State H
  | .leaf _ => .leaf core
  | .composite _ routes before active after => .composite core routes before active after

/-- The state's place. -/
def address (state : State H) : Address := state.core.address

/-- Name of the state. -/
def name (state : State H) : String := state.core.name

/-- The entry has completed and the exit has not since. -/
def isRunning (state : State H) : Bool := state.core.running

/-- There are no inner states. -/
def isLeaf : State H → Bool
  | .leaf _ => true
  | .composite .. => false

/-- The active inner state. -/
def activeChild? : State H → Option (State H)
  | .leaf _ => none
  | .composite _ _ _ active _ => some active

/-- The inner states in the order of their table. -/
def children : State H → List (State H)
  | .leaf _ => []
  | .composite _ _ before active after => before ++ active :: after

/-- The inner state of a name, active or not. -/
def child? (state : State H) (name : String) : Option (State H) :=
  state.children.find? (·.name = name)

/-- The initial inner state is the active one.  So it is where there are none. -/
def isAtInitial : State H → Bool
  | .leaf _ => true
  | .composite _ routes _ active _ => active.name = routes.initial

/-- The active chain from the state down. -/
def chain : State H → List (State H)
  | .leaf core => [.leaf core]
  | .composite core routes before active after =>
    .composite core routes before active after :: active.chain

/-- Names of the active chain, joined by the separator. -/
def path (state : State H) : String := StatePath.joined (state.chain.map name)

mutual

/-- The state and all beneath it, a state before its inner states. -/
def subtree : State H → List (State H)
  | .leaf core => [.leaf core]
  | .composite core routes before active after =>
    .composite core routes before active after ::
      (forest before ++ subtree active ++ forest after)

/-- Some states and all beneath them. -/
def forest : List (State H) → List (State H)
  | [] => []
  | state :: rest => subtree state ++ forest rest

end

/-- The states before and after the first of a name, with that state itself. -/
def focus (name : String) : List (State H) → Option (List (State H) × State H × List (State H))
  | [] => none
  | state :: rest =>
    if state.name = name then some ([], state, rest)
    else (focus name rest).map fun (before, active, after) => (state :: before, active, after)

/-- Select the inner state of a name.  Nothing changes where there is none. -/
def select (name : String) (state : State H) : State H :=
  match state with
  | .leaf core => .leaf core
  | .composite core routes before active after =>
    match focus name (before ++ active :: after) with
    | none => .composite core routes before active after
    | some (before, active, after) => .composite core routes before active after

/-- The state that the names lead to, from inner state to inner state. -/
def descend? : List String → State H → Option (State H)
  | [], state => some state
  | name :: names, state => (state.child? name).bind (descend? names)

/-- The state so many levels down the active chain. -/
def activeAt? (state : State H) (depth : Nat) : Option (State H) := state.chain[depth]?

/-- Carry out an operation on the state so many levels down the active chain, if the chain is
that long. -/
def onActive {α : Type} (act : State H → StoreM H (α × State H)) :
    Nat → State H → StoreM H (Option α × State H)
  | 0, state => do
    let (result, state) ← act state
    pure (some result, state)
  | _ + 1, .leaf core => pure (none, .leaf core)
  | depth + 1, .composite core routes before active after => do
    let (result, active) ← onActive act depth active
    pure (result, .composite core routes before active after)

/-- The state as inspections show it. -/
def inspect (scope : Option Scope) (state : State H) : String :=
  Text.record "State"
    [("name", Text.quote state.name), ("type", Text.quote state.core.typeName),
      ("running", Text.truth state.isRunning), ("path", Text.quote state.path),
      ("scope", Text.optional (scope.map Scope.inspect)),
      ("observers", toString state.core.observers.length)]

@[simp] theorem core_leaf (core : Core H) : (State.leaf core).core = core := rfl

@[simp] theorem core_composite (core : Core H) (routes : Routes) (before : List (State H))
    (active : State H) (after : List (State H)) :
    (State.composite core routes before active after).core = core := rfl

@[simp] theorem core_withCore (core : Core H) (state : State H) :
    (state.withCore core).core = core := by
  cases state <;> rfl

@[simp] theorem core_select (name : String) (state : State H) :
    (state.select name).core = state.core := by
  cases state with
  | leaf core => rfl
  | composite core routes before active after =>
    simp only [select]
    split <;> rfl

theorem focus_eq_some {name : String} {states before after : List (State H)} {active : State H}
    (h : focus name states = some (before, active, after)) :
    states = before ++ active :: after ∧ active.name = name := by
  induction states generalizing before with
  | nil => simp [focus] at h
  | cons state rest ih =>
    simp only [focus] at h
    split at h
    · next eq =>
      obtain ⟨rfl, rfl, rfl⟩ := by simpa using h
      exact ⟨rfl, eq⟩
    · obtain ⟨⟨before', active', after'⟩, found, eq⟩ := Option.map_eq_some_iff.1 h
      obtain ⟨rfl, rfl, rfl⟩ := by simpa using eq
      obtain ⟨rfl, eq⟩ := ih found
      exact ⟨rfl, eq⟩

@[simp] theorem children_select (name : String) (state : State H) :
    (state.select name).children = state.children := by
  cases state with
  | leaf core => rfl
  | composite core routes before active after =>
    simp only [select]
    split
    · rfl
    · next found => exact (focus_eq_some found).1.symm

end State

end Statechart
