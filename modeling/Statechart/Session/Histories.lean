import Statechart.Checkpoint.Document
import Statechart.Session.Slots

/-!
# Sessions with histories

A list of steps on histories that are named by handles, and the reply to each.  A recorder is made
on the place that a handle leads to at the time, and stays with that place.
-/
namespace Statechart.Session

/-- A step of a session with histories. -/
inductive HistoryStep
  | new (handle : String)
  /-- Record a change into a new history. -/
  | record (handle other : String) (change : PathChange)
  /-- Make a recorder, which may keep the newest changes only. -/
  | recorder (handle recorder : String) (limit : Option Nat)
  /-- Let a recorder see a change. -/
  | fire (recorder : String) (change : PathChange)
  | present (handle : String)
  | visited (handle : String)
  | duration (handle : String)
  | equal (handle other : String)
  | write (handle : String)
  | read (handle text : String)

/-- The reply to a step of a session with histories. -/
inductive HistoryReply
  | truth (value : Bool)
  /-- The lengths of two histories. -/
  | lengths (first second : Nat)
  | history (history : PathHistory)
  | paths (paths : List String)
  | span (span : Option Instant.Span)
  | text (value : String)
  | unreadable

/-- What a session with histories keeps. -/
structure HistorySession where
  histories : Slots PathHistory
  /-- The place and the limit of each recorder. -/
  recorders : Registry String (Nat × Option Nat)

namespace HistorySession

/-- A session in which nothing has been done. -/
def start : HistorySession := ⟨.empty, .empty⟩

/-- The history of a handle. -/
def history (session : HistorySession) (handle : String) : PathHistory :=
  (session.histories.get? handle).getD .empty

/-- Let a recorder see a change. -/
def fire (session : HistorySession) (recorder : String) (change : PathChange) : HistorySession :=
  match session.recorders.get? recorder with
  | none => session
  | some (index, limit) =>
    let history := session.histories.contents[index]?.getD .empty
    { session with histories := session.histories.put index (history.recordWithin limit change) }

/-- Carry out a step. -/
def perform (session : HistorySession) : HistoryStep → HistoryReply × HistorySession
  | .new handle =>
    (.truth true, { session with histories := session.histories.place handle .empty })
  | .record handle other change =>
    let recorded := (session.history handle).record change
    let session := { session with histories := session.histories.place other recorded }
    (.lengths (session.history handle).changes.length (session.history other).changes.length,
      session)
  | .recorder handle recorder limit =>
    match session.histories.handles.get? handle with
    | none => (.truth true, session)
    | some index =>
      (.truth true, { session with recorders := session.recorders.set recorder (index, limit) })
  | .fire recorder change => (.truth true, session.fire recorder change)
  | .present handle => (.history (session.history handle), session)
  | .visited handle => (.paths (session.history handle).visited, session)
  | .duration handle => (.span (session.history handle).duration?, session)
  | .equal handle other => (.truth (session.history handle == session.history other), session)
  | .write handle => (.text (session.history handle).write, session)
  | .read handle text =>
    match PathHistory.read? text with
    | none => (.unreadable, session)
    | some history =>
      (.history history, { session with histories := session.histories.place handle history })

/-- Carry out steps in order. -/
def run (session : HistorySession) : List HistoryStep → List HistoryReply
  | [] => []
  | step :: steps =>
    let (reply, session) := session.perform step
    reply :: session.run steps

end HistorySession

end Statechart.Session
