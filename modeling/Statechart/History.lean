import Statechart.Time.Instant

/-!
# Path histories

A change of the active path, and the list of changes over time.  A history grows at its end; a
bounded one then drops its oldest changes down to the bound.
-/
namespace Statechart

/-- A change of the active path. -/
structure PathChange where
  oldPath : String
  newPath : String
  changedAt : Instant
  deriving DecidableEq, Repr

/-- Changes of the active path, oldest first. -/
structure PathHistory where
  changes : List PathChange
  deriving DecidableEq, Repr

namespace PathHistory

/-- A history without changes. -/
def empty : PathHistory := ⟨[]⟩

/-- The history with one more change. -/
def record (history : PathHistory) (change : PathChange) : PathHistory :=
  ⟨history.changes ++ [change]⟩

/-- The newest changes, as many as the limit allows; without a limit, all of them. -/
def newest (limit : Option Nat) (history : PathHistory) : PathHistory :=
  match limit with
  | none => history
  | some limit => ⟨history.changes.drop (history.changes.length - limit)⟩

/-- The history with one more change, of which the newest are kept. -/
def recordWithin (limit : Option Nat) (history : PathHistory) (change : PathChange) :
    PathHistory := (history.record change).newest limit

/-- The paths visited: the one before the first change, then the one after each change. -/
def visited (history : PathHistory) : List String :=
  (history.changes.head?.map (·.oldPath)).toList ++ history.changes.map (·.newPath)

/-- The time from the first change to the last, unless the last has an earlier time. -/
def duration? (history : PathHistory) : Option Instant.Span := do
  let first ← history.changes.head?
  let last ← history.changes.getLast?
  first.changedAt.until? last.changedAt

end PathHistory

end Statechart
