import Statechart.Checkpoint.Binary
import Statechart.Checkpoint.Document
import Statechart.Session.Step

/-!
# Running a session with a machine

How each step is carried out, and the snapshot after it.  A machine that is built anew takes the
place of the old one; what is registered by name stays registered and belongs to the old one.
-/
namespace Statechart.Session

open Script

/-- What a session with a machine keeps. -/
structure MachineSession where
  machine : Machine stage
  config : Config
  /-- Registered scopes: the states whose scopes they are. -/
  scopes : Registry String Address
  checkpoints : Registry String Checkpoint

namespace MachineSession

/-- The root of the machine. -/
def root (session : MachineSession) : State stage := session.machine.root

/-- The store of the machine. -/
def store (session : MachineSession) : Store stage := session.machine.store

/-- The session with another store. -/
def withStore (session : MachineSession) (store : Store stage) : MachineSession :=
  { session with machine := { session.machine with store := store } }

/-- What scripts share. -/
def desk (session : MachineSession) : Desk := session.store.shared

/-- The session with another desk. -/
def withDesk (session : MachineSession) (desk : Desk) : MachineSession :=
  session.withStore { session.store with shared := desk }

/-- The state that a place leads to. -/
def locate? (session : MachineSession) (place : Place) : Option (State stage) :=
  (session.root.descend? place.names).bind (·.activeAt? place.depth)

/-- Reply by the state that a place leads to. -/
def atPlace (session : MachineSession) (place : Place)
    (reply : State stage → Reply × MachineSession) : Reply × MachineSession :=
  match session.locate? place with
  | none => (.missing, session)
  | some state => reply state

/-- The reply that an answer of the machine gives. -/
def ofAnswer : Answer → Reply
  | .missing => .missing
  | .outcome outcome => .outcome outcome
  | .accepted accepted => .truth accepted

/-- Make a move. -/
def move (session : MachineSession) (move : Move stage) : Reply × MachineSession :=
  let (answer, machine) := session.machine.move move
  (ofAnswer answer, { session with machine := machine })

/-- Make a move so many times; the last one gives the reply, and none at all gives nothing. -/
def repeated (again : Move stage) (session : MachineSession) : Nat → Reply × MachineSession
  | 0 => (.nothing, session)
  | 1 => session.move again
  | times + 1 => ((session.move again).2).repeated again times

/-- Post a command to a state. -/
def postTo (session : MachineSession) (state : Address) (order : Order) :
    Reply × MachineSession :=
  let (command, desk) := session.desk.realizeOrder order
  (session.withDesk desk).move (.post state command)

/-- Post a command so many times; how many were accepted. -/
def postMany (session : MachineSession) (state : Address) (command : Command) :
    Nat → Nat × MachineSession
  | 0 => (0, session)
  | count + 1 =>
    let (accepted, store) := (Store.post state command).run session.store
    let (more, session) := (session.withStore store).postMany state command count
    (more + accepted.toNat, session)

/-- The reply to reading a variable of a registered scope. -/
def readReply (cells : List Int64) : Except LookupFault ValueContent → Reply
  | .ok content => .found (showContent cells content)
  | .error .missing => .nothing
  | .error .otherType => .otherType

/-- The description of a state. -/
def describe (session : MachineSession) (state : State stage) : Info where
  name := state.name
  typeName := state.core.typeName
  running := state.isRunning
  leaf := state.isLeaf
  atInitial := state.isAtInitial
  pending := session.store.isPending state.address
  path := state.path
  child := state.activeChild?.map State.name
  names := (session.store.scopeOf state.core.scope).map Scope.names
  actor := state.core.behavior

/-- Set the counter of an actor.  An actor without a part has none. -/
def setCounter (counter : Int64) (state : State stage) : Reply × State stage :=
  let actor : Actor := state.core.behavior
  match actor.kind with
  | .blank => (.nothing, state)
  | kind => (.kind kind, state.withCore { state.core with behavior := { actor with counter } })

/-- The observer of a sight. -/
def observer : Sight → Observer stage
  | .watcher watcher => .host watcher
  | .recorder history limit => .recorder history limit

/-- A checkpoint with some of its fields changed. -/
def edited (checkpoint : Checkpoint) (version : Option UInt32) (root statePath : Option String) :
    Checkpoint :=
  { checkpoint with
    version := version.getD checkpoint.version
    root := root.getD checkpoint.root
    statePath := statePath.getD checkpoint.statePath }

/-- Both written forms of a checkpoint, read back, against the checkpoint. -/
def readsBack (checkpoint : Checkpoint) : Bool × Bool :=
  let same : Except CheckpointFault Checkpoint → Bool
    | .ok read => read = checkpoint
    | .error _ => false
  (same (Checkpoint.read checkpoint.write), same (Checkpoint.readBytes checkpoint.writeBytes))

/-- Carry out a step. -/
def perform (session : MachineSession) : Step → Reply × MachineSession
  | .cycle depth times =>
    session.atPlace ⟨[], depth⟩ fun _ => session.repeated (.operate depth .cycle) times
  | .reset depth => session.move (.operate depth .reset)
  | .setPath depth path => session.move (.operate depth (.setPath path))
  | .injectVariable depth name payload =>
    let (value, desk) := session.desk.realize payload
    (session.withDesk desk).move (.operate depth (.injectVariable name value))
  | .restore depth name =>
    match session.checkpoints.get? name with
    | none => (.missing, session)
    | some checkpoint => session.move (.operate depth (.restore checkpoint))
  | .observe depth sight => session.move (.operate depth (.observe (observer sight)))
  | .poke depth counter =>
    let set (state : State stage) : StoreM stage (Reply × State stage) :=
      pure (setCounter counter state)
    let ((reply, root), store) := (session.root.onActive set depth).run session.store
    (reply.getD .missing, { session with machine := ⟨root, store⟩ })
  | .getVariable place name typeName =>
    session.atPlace place fun state =>
      match session.store.read state name typeName with
      | .error fault => (.failed fault, session)
      | .ok content => (.found (showContent session.desk.cells content), session)
  | .post place order => session.atPlace place fun state => session.postTo state.address order
  | .injector place name =>
    session.atPlace place fun state =>
      (.truth true, session.withDesk
        { session.desk with injectors := session.desk.injectors.set name state.address })
  | .scope place name =>
    session.atPlace place fun state =>
      match state.core.scope with
      | none => (.nothing, session)
      | some scope =>
        (.names (session.store.scope scope).names,
          { session with scopes := session.scopes.set name scope })
  | .info place => session.atPlace place fun state => (.info (session.describe state), session)
  | .inspect place =>
    session.atPlace place fun state =>
      (.text (state.inspect (session.store.scopeOf state.core.scope)), session)
  | .postThrough injector order =>
    match session.desk.injectors.get? injector with
    | none => (.nothing, session)
    | some state => session.postTo state order
  | .postMany injector count order =>
    match session.desk.injectors.get? injector with
    | none => (.nothing, session)
    | some state =>
      let (command, desk) := session.desk.realizeOrder order
      let (accepted, session) := (session.withDesk desk).postMany state command count
      (.count accepted, session)
  | .pendingBehind injector =>
    match session.desk.injectors.get? injector with
    | none => (.nothing, session)
    | some state => (.truth (session.store.isPending state), session)
  | .inspectInjector injector =>
    match (session.desk.injectors.get? injector).bind session.store.mailboxes.get? with
    | none => (.nothing, session)
    | some box => (.text box.inspectInjector, session)
  | .sameScope name other =>
    match session.scopes.get? name, session.scopes.get? other with
    | some x, some y => (.truth (x = y), session)
    | _, _ => (.truth false, session)
  | .declare scope name payload =>
    match session.scopes.get? scope with
    | none => (.nothing, session)
    | some owner =>
      let (value, desk) := session.desk.realize payload
      (session.withDesk desk).move (.declare owner name value)
  | .readScope scope name typeName =>
    match session.scopes.get? scope with
    | none => (.nothing, session)
    | some owner =>
      (readReply session.desk.cells ((session.store.scope owner).read name typeName), session)
  | .history name => (.history (session.store.history name), session)
  | .capture name history =>
    let recorded := (history.map session.store.history).getD .empty
    let (checkpoint, store) := (session.root.capture name recorded).run session.store
    let (document, binary) := readsBack checkpoint
    (.captured checkpoint document binary,
      { session.withStore store with checkpoints := session.checkpoints.set name checkpoint })
  | .makeCheckpoint name checkpoint =>
    (.truth true, { session with checkpoints := session.checkpoints.set name checkpoint })
  | .editCheckpoint name version root statePath =>
    match session.checkpoints.get? name with
    | none => (.missing, session)
    | some checkpoint =>
      let checkpoint := edited checkpoint version root statePath
      let session := { session with checkpoints := session.checkpoints.set name checkpoint }
      match checkpoint.validate with
      | .ok _ => (.nothing, session)
      | .error fault => (.outcome (.refused fault), session)
  | .rebuild plan =>
    let (built, store) := Machine.start session.config plan.name plan.typeName plan.cast session.store
    match built with
    | .error fault => (.failed fault, session.withStore store)
    | .ok machine => (.truth true, { session with machine := machine })

/-- Paths of the states below and including the root for which something holds. -/
def pathsWhere (session : MachineSession) (holds : State stage → Bool) : List String :=
  (session.root.subtree.filter holds).map fun state => state.address.text

/-- The snapshot after a reply, with the session in which its events have been shown. -/
def snapshot (session : MachineSession) (reply : Reply) : Snapshot × MachineSession :=
  ({ reply := reply
     events := session.store.journal.reverse
     path := session.root.path
     running := session.pathsWhere State.isRunning
     pending := session.pathsWhere fun state => session.store.isPending state.address
     moved := session.pathsWhere fun state => !state.isAtInitial },
    session.withStore { session.store with journal := [] })

/-- Carry out steps in order. -/
def run (session : MachineSession) : List Step → List Snapshot
  | [] => []
  | step :: steps =>
    let (reply, session) := session.perform step
    let (shown, session) := session.snapshot reply
    shown :: session.run steps

/-- Build a machine and carry out steps on it.  Without a machine, there are only the events of
the attempt to build it. -/
def runPlan (config : Config) (clock : Instant) (plan : Plan) (steps : List Step) :
    Except (Fault × List (Event stage)) (List Snapshot) :=
  let store : Store stage := .initial Desk.empty clock
  match Machine.start config plan.name plan.typeName plan.cast store with
  | (.error fault, store) => .error (fault, store.journal.reverse)
  | (.ok machine, _) =>
    let session : MachineSession := ⟨machine, config, .empty, .empty⟩
    let (shown, session) := session.snapshot .nothing
    .ok (shown :: session.run steps)

end MachineSession

end Statechart.Session
