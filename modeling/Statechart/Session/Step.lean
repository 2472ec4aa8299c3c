import Statechart.Checkpoint.Basic
import Statechart.Machine.Operation
import Statechart.Script.Perform

/-!
# Steps of a session with a machine

What can be asked of a machine of scripted behaviours, and the replies.  States are named by the
way to them, injectors, scopes, histories and checkpoints by names of their own.
-/
namespace Statechart.Session

open Script

/-- The way to a state: names of inner states from the root, then levels of the active chain. -/
structure Place where
  /-- Names of inner states. -/
  names : List String
  /-- Levels of the active chain. -/
  depth : Nat

/-- What is to observe the path of a state. -/
inductive Sight
  | watcher (watcher : Watcher)
  /-- A recorder into a history, which may keep the newest changes only. -/
  | recorder (history : String) (limit : Option Nat)

/-- How a machine is built. -/
structure Plan where
  name : String
  typeName : String
  /-- The root and all beneath it. -/
  cast : Cast

/-- A step of a session with a machine. -/
inductive Step
  /-- Run cycles; the last one gives the reply. -/
  | cycle (depth times : Nat)
  | reset (depth : Nat)
  | setPath (depth : Nat) (path : String)
  | injectVariable (depth : Nat) (name : String) (payload : Payload)
  | restore (depth : Nat) (checkpoint : String)
  | observe (depth : Nat) (sight : Sight)
  /-- Set the counter of an actor. -/
  | poke (depth : Nat) (counter : Int64)
  | getVariable (place : Place) (name typeName : String)
  | post (place : Place) (order : Order)
  | injector (place : Place) (name : String)
  | scope (place : Place) (name : String)
  | info (place : Place)
  | inspect (place : Place)
  | postThrough (injector : String) (order : Order)
  /-- Post a command so many times through an injector; the number accepted gives the reply. -/
  | postMany (injector : String) (count : Nat) (order : Order)
  | pendingBehind (injector : String)
  | inspectInjector (injector : String)
  /-- Ask whether two registered scopes are one. -/
  | sameScope (scope other : String)
  | declare (scope name : String) (payload : Payload)
  | readScope (scope name typeName : String)
  | history (name : String)
  /-- Take a checkpoint of the root, with a history. -/
  | capture (checkpoint : String) (history : Option String)
  | makeCheckpoint (name : String) (checkpoint : Checkpoint)
  /-- Change a checkpoint and check it. -/
  | editCheckpoint (name : String) (version : Option UInt32) (root statePath : Option String)
  /-- Build another machine in place of the one there is. -/
  | rebuild (plan : Plan)

/-- The description of a state. -/
structure Info where
  name : String
  typeName : String
  running : Bool
  leaf : Bool
  /-- Its initial inner state is active. -/
  atInitial : Bool
  pending : Bool
  /-- The active path from it down. -/
  path : String
  /-- Name of its active inner state. -/
  child : Option String
  /-- Names of the variables it sees, if it sees a scope. -/
  names : Option (List String)
  actor : Actor

/-- The reply to a step. -/
inductive Reply
  | nothing
  | missing
  | truth (value : Bool)
  | count (value : Nat)
  | text (value : String)
  | names (names : List String)
  | outcome (outcome : Outcome)
  | failed (fault : Fault)
  | found (shown : Shown)
  | otherType
  | kind (kind : Kind)
  | history (history : PathHistory)
  /-- A checkpoint, and whether its two written forms read back as it. -/
  | captured (checkpoint : Checkpoint) (document binary : Bool)
  | info (info : Info)

/-- What is shown after every step. -/
structure Snapshot where
  reply : Reply
  /-- What happened since the last snapshot, oldest first. -/
  events : List (Event stage)
  path : String
  /-- Paths of the states that run. -/
  running : List String
  /-- Paths of the states in whose mailbox a command waits. -/
  pending : List String
  /-- Paths of the states whose initial inner state is not active. -/
  moved : List String

end Statechart.Session
