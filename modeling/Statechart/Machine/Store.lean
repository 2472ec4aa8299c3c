import Statechart.Machine.Host
import Statechart.Machine.Notice
import Statechart.Registry

/-!
# The store

What machines share and what outlives an operation: mailboxes and scopes by the address of their
state, histories by name, what the host shares, the clock, and the journal of all that happened.
The tree of states itself is not in the store.

The journal holds more than is shown to anyone: every callback that ended, with what it saw, and
every step of every mailbox.  Laws about whole runs are laws about the journal.
-/
namespace Statechart

/-- A callback that has ended. -/
structure Call where
  phase : Phase
  state : Address
  view : View
  fault : Option Fault
  /-- What it requests.  Only a step that completes requests anything. -/
  request : Option Tag
  deriving DecidableEq

/-- The callback ended without a fault. -/
def Call.completed (call : Call) : Bool := call.fault.isNone

/-- A step of a mailbox. -/
inductive MailStep
  | posted (command : Command) (accepted : Bool)
  /-- A command was handed in by the machine itself. -/
  | handed (command : Command)
  /-- The state's cycle has taken out what waited. -/
  | taken (command : Option Command)
  /-- What waited was thrown away because the state is left. -/
  | discarded (command : Option Command)
  /-- What waited was thrown away because the state is left without callbacks. -/
  | abandoned (command : Option Command)
  /-- What waited was thrown away because the state is selected. -/
  | selected (command : Option Command)
  deriving DecidableEq

/-- Something that happened. -/
inductive Event (H : Host)
  | notice (notice : Notice)
  | remark (said : H.Remark)
  | called (call : Call)
  | mail (state : Address) (step : MailStep)

/-- What machines share, and what outlives an operation. -/
structure Store (H : Host) where
  mailboxes : Registry Address Mailbox
  /-- The scope of every state that has opened one. -/
  scopes : Registry Address Scope
  histories : Registry String PathHistory
  shared : H.Shared
  /-- Number of machines that have been started. -/
  machines : Nat
  /-- The time that is stamped on changes and checkpoints. -/
  clock : Instant
  /-- What happened, newest first. -/
  journal : List (Event H)

/-- An operation on the store. -/
abbrev StoreM (H : Host) (α : Type) : Type := StateM (Store H) α

namespace Store

variable {H : Host}

/-- A store in which nothing has happened. -/
def initial (shared : H.Shared) (clock : Instant) : Store H :=
  ⟨.empty, .empty, .empty, shared, 0, clock, []⟩

/-- The history of a name; empty as long as nothing is recorded in it. -/
def history (store : Store H) (name : String) : PathHistory :=
  (store.histories.get? name).getD .empty

/-- A command waits in a state's mailbox. -/
def isPending (store : Store H) (state : Address) : Bool :=
  (store.mailboxes.get? state).any Mailbox.isPending

/-- The variables of a scope. -/
def scope (store : Store H) (owner : Address) : Scope := (store.scopes.get? owner).getD .empty

/-- Put an event on record. -/
def log (event : Event H) : StoreM H Unit :=
  modify fun store => { store with journal := event :: store.journal }

/-- Give a notice. -/
def note (notice : Notice) : StoreM H Unit := log (.notice notice)

/-- Change a state's mailbox. -/
def setMailbox (state : Address) (box : Mailbox) : StoreM H Unit :=
  modify fun store => { store with mailboxes := store.mailboxes.set state box }

/-- Offer a command to a state's mailbox.  Without a mailbox there it is not accepted. -/
def post (state : Address) (command : Command) : StoreM H Bool := do
  match (← get).mailboxes.get? state with
  | none => pure false
  | some box =>
    if let some waiting := box.refusal? then note (.mailboxOccupied waiting.tag command.tag)
    let (accepted, box) := box.post command
    setMailbox state box
    log (.mail state (.posted command accepted))
    pure accepted

/-- Hand a command to a state, over any that waits. -/
def handTo (state : Address) (command : Command) : StoreM H Unit := do
  if let some box := (← get).mailboxes.get? state then
    setMailbox state (box.replace command)
    log (.mail state (.handed command))

/-- Empty a state's mailbox by a step that tells why.  The step is on record also where nothing
waits. -/
def drain (step : Option Command → MailStep) (state : Address) : StoreM H (Option Command) := do
  match (← get).mailboxes.get? state with
  | none =>
    log (.mail state (step none))
    pure none
  | some box =>
    let (command, box) := box.take
    setMailbox state box
    log (.mail state (step command))
    pure command

/-- Take the command that waits in a state's mailbox. -/
def takeFrom (state : Address) : StoreM H (Option Command) := drain .taken state

/-- Throw away the command that waits in a state's mailbox, by a step that tells why. -/
def discard (step : Option Command → MailStep) (state : Address) : StoreM H Unit := do
  if let some command ← drain step state then note (.staleDiscarded state.name command)

/-- Open the scope of a state, unless it is open. -/
def openScope (owner : Address) : StoreM H Unit :=
  modify fun store =>
    match store.scopes.get? owner with
    | some _ => store
    | none => { store with scopes := store.scopes.set owner .empty }

/-- Add a variable to an open scope.  The answer says whether the name was free. -/
def declare (owner : Address) (name : String) (value : Value) : StoreM H Bool := do
  match (← get).scopes.get? owner with
  | none => pure false
  | some scope =>
    let (free, scope) := scope.insert name value
    modify fun store => { store with scopes := store.scopes.set owner scope }
    pure free

/-- Record a change in a history. -/
def recordChange (history : String) (limit : Option Nat) (change : PathChange) : StoreM H Unit :=
  modify fun store =>
    { store with
      histories := store.histories.set history ((store.history history).recordWithin limit change) }

end Store

/-- Run a program against the store. -/
def Program.run {H : Host} {α : Type} : Program H α → StoreM H α
  | .done result => pure result
  | .read next => do (next (← get).shared).run
  | .write shared next => do
    modify fun store => { store with shared := shared }
    next.run
  | .remark said next => do
    Store.log (.remark said)
    next.run
  | .post state command next => do (next (← Store.post state command)).run
  | .pending state next => do (next ((← get).isPending state)).run
  | .look scope next => do (next ((← get).scope scope)).run
  | .declare scope name value next => do (next (← Store.declare scope name value)).run

end Statechart
