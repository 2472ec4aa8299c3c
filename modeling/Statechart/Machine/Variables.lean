import Statechart.Machine.State

/-!
# Variables of a machine

A variable is added at a state.  The first one opens the state's scope, unless the state sees a
scope already, and links to it every state beneath that sees none.  A link, once made, stays.
-/
namespace Statechart.State

variable {H : Host}

mutual

/-- Link the state and all beneath it to a scope, down to the states that see one. -/
def inherit (scope : Address) : State H → StoreM H (State H)
  | .leaf core => do
    if core.scope.isSome then pure (.leaf core)
    else
      Store.note (.scopeAttached core.name)
      pure (.leaf { core with scope := some scope })
  | .composite core routes before active after => do
    if core.scope.isSome then pure (.composite core routes before active after)
    else
      Store.note (.scopeAttached core.name)
      let before ← inheritAll scope before
      let active ← inherit scope active
      let after ← inheritAll scope after
      pure (.composite { core with scope := some scope } routes before active after)

/-- Link some states and all beneath them to a scope. -/
def inheritAll (scope : Address) : List (State H) → StoreM H (List (State H))
  | [] => pure []
  | state :: rest => do
    let state ← inherit scope state
    let rest ← inheritAll scope rest
    pure (state :: rest)

end

/-- Link all beneath the state to a scope, down to the states that see one. -/
def attach (scope : Address) : State H → StoreM H (State H)
  | .leaf core => pure (.leaf core)
  | .composite core routes before active after => do
    let before ← inheritAll scope before
    let active ← inherit scope active
    let after ← inheritAll scope after
    pure (.composite core routes before active after)

/-- The scope that the state sees.  One that sees none opens its own. -/
def ensureScope (state : State H) : StoreM H (Address × State H) :=
  match state.core.scope with
  | some scope => pure (scope, state)
  | none => do
    Store.openScope state.address
    pure (state.address, state.withCore { state.core with scope := some state.address })

/-- Add a variable at the state.  A name that its scope has already is refused. -/
def injectVariable (name : String) (value : Value) (state : State H) :
    StoreM H (Except Fault Unit × State H) := do
  let (scope, state) ← state.ensureScope
  if ← Store.declare scope name value then
    let state ← state.attach scope
    Store.note (.variableInjected state.name name)
    pure (.ok (), state)
  else pure (.error (.duplicateVariable state.name name), state)

end Statechart.State

namespace Statechart

/-- The outcome of reading a variable, with the fault put as the state's. -/
def readVariable (state name typeName : String) (scope : Option Scope) :
    Except Fault ValueContent :=
  match scope with
  | none => .error (.variableNotFound state name)
  | some scope =>
    match scope.read name typeName with
    | .error .missing => .error (.variableNotFound state name)
    | .error .otherType => .error (.variableTypeMismatch state name typeName)
    | .ok content => .ok content

namespace Store

variable {H : Host}

/-- The variables that a state sees; none at all where it sees no scope. -/
def scopeOf (store : Store H) (link : Option Address) : Option Scope := link.map store.scope

/-- Read a variable that a state sees. -/
def read (store : Store H) (state : State H) (name typeName : String) :
    Except Fault ValueContent :=
  readVariable state.name name typeName (store.scopeOf state.core.scope)

end Store

end Statechart
