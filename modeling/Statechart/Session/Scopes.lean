import Statechart.Script.Stage
import Statechart.Session.Slots

/-!
# Sessions with scopes

A list of steps on scopes that are named by handles, and the reply to each.
-/
namespace Statechart.Session

open Script (Desk Payload Shown showContent)

/-- A step of a session with scopes. -/
inductive ScopeStep
  | new (handle : String)
  /-- Make another handle to a scope. -/
  | clone (handle other : String)
  | insert (handle name : String) (payload : Payload)
  | get (handle name typeName : String)
  | contains (handle name : String)
  | size (handle : String)
  | isEmpty (handle : String)
  | names (handle : String)
  /-- Ask whether two handles lead to one scope. -/
  | same (handle other : String)
  | inspect (handle : String)

/-- The reply to a step of a session with scopes. -/
inductive ScopeReply
  | absent
  | truth (value : Bool)
  | count (value : Nat)
  | found (shown : Shown)
  | otherType
  | names (names : List String)
  | text (value : String)

/-- The reply to reading a variable. -/
def readReply (cells : List Int64) : Except LookupFault ValueContent → ScopeReply
  | .ok content => .found (showContent cells content)
  | .error .missing => .absent
  | .error .otherType => .otherType

/-- What a session with scopes keeps. -/
structure ScopeSession where
  scopes : Slots Scope
  desk : Desk

namespace ScopeSession

/-- A session in which nothing has been done. -/
def start : ScopeSession := ⟨.empty, .empty⟩

/-- The scope of a handle. -/
def scope (session : ScopeSession) (handle : String) : Scope :=
  (session.scopes.get? handle).getD .empty

/-- Carry out a step. -/
def perform (session : ScopeSession) : ScopeStep → ScopeReply × ScopeSession
  | .new handle => (.truth true, { session with scopes := session.scopes.place handle .empty })
  | .clone handle other =>
    (.truth true, { session with scopes := session.scopes.share handle other })
  | .insert handle name payload =>
    let (value, desk) := session.desk.realize payload
    let (free, scope) := (session.scope handle).insert name value
    (.truth free, ⟨session.scopes.update handle scope, desk⟩)
  | .get handle name typeName =>
    (readReply session.desk.cells ((session.scope handle).read name typeName), session)
  | .contains handle name => (.truth ((session.scope handle).contains name), session)
  | .size handle => (.count (session.scope handle).size, session)
  | .isEmpty handle => (.truth ((session.scope handle).size == 0), session)
  | .names handle => (.names (session.scope handle).names, session)
  | .same handle other => (.truth (session.scopes.same handle other), session)
  | .inspect handle => (.text (session.scope handle).inspect, session)

/-- Carry out steps in order. -/
def run (session : ScopeSession) : List ScopeStep → List ScopeReply
  | [] => []
  | step :: steps =>
    let (reply, session) := session.perform step
    reply :: session.run steps

end ScopeSession

end Statechart.Session
