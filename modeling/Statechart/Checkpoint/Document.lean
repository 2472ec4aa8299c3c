import Statechart.Checkpoint.Basic
import Statechart.Json.Printer
import Statechart.Json.Reader
import Statechart.Time.Text

/-!
# Histories and checkpoints as JSON

The JSON form of a path history, written on one line, and that of a checkpoint, written over lines.
Reading a checkpoint checks it too: what is not a checkpoint at all is told apart from a checkpoint
that is refused.
-/
namespace Statechart

namespace PathChange

/-- The names of the fields in documents. -/
def fieldNames : List String := ["old_path", "new_path", "changed_at"]

/-- The change as a document. -/
def toJson (change : PathChange) : Json :=
  .ofMembers [("old_path", .string change.oldPath), ("new_path", .string change.newPath),
    ("changed_at", .string change.changedAt.write)]

/-- The change that a document describes. -/
def ofJson? (document : Json) : Option PathChange := do
  match ← document.fullRecord? fieldNames with
  | [oldPath, newPath, changedAt] =>
    some ⟨← oldPath.string?, ← newPath.string?, ← changedAt.string?.bind Instant.read?⟩
  | _ => none

end PathChange

namespace PathHistory

/-- The history as a document. -/
def toJson (history : PathHistory) : Json :=
  .ofMembers [("changes", .array (history.changes.map PathChange.toJson))]

/-- The history that a document describes. -/
def ofJson? (document : Json) : Option PathHistory := do
  match ← document.fullRecord? ["changes"] with
  | [changes] => some ⟨← (← changes.items?).mapM PathChange.ofJson?⟩
  | _ => none

/-- The history as text. -/
def write (history : PathHistory) : String := history.toJson.compact

/-- Read a history. -/
def read? (s : String) : Option PathHistory := (Json.read? s).bind ofJson?

end PathHistory

namespace Checkpoint

/-- The names of the fields in documents. -/
def fieldNames : List String := ["version", "id", "timestamp", "root", "state_path", "history"]

/-- The checkpoint as a document. -/
def toJson (checkpoint : Checkpoint) : Json :=
  .ofMembers [("version", .nat checkpoint.version.toNat), ("id", .string checkpoint.id),
    ("timestamp", .string checkpoint.timestamp.write), ("root", .string checkpoint.root),
    ("state_path", .string checkpoint.statePath), ("history", checkpoint.history.toJson)]

/-- The checkpoint that a document describes. -/
def ofJson? (document : Json) : Option Checkpoint := do
  match ← document.fullRecord? fieldNames with
  | [version, id, timestamp, root, statePath, history] =>
    some ⟨UInt32.ofNat (← version.natBelow? UInt32.size), ← id.string?,
      ← timestamp.string?.bind Instant.read?, ← root.string?, ← statePath.string?,
      ← PathHistory.ofJson? history⟩
  | _ => none

/-- The checkpoint as text. -/
def write (checkpoint : Checkpoint) : String := checkpoint.toJson.pretty

/-- Read a checkpoint and check it. -/
def read (s : String) : Except CheckpointFault Checkpoint :=
  match (Json.read? s).bind ofJson? with
  | none => .error (.unreadable "not a checkpoint document")
  | some checkpoint => checkpoint.validated

end Checkpoint

end Statechart
