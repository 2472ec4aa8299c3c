import Statechart.Fault
import Statechart.History

/-!
# Checkpoints

A checkpoint says where a machine stood: the name of its root, its active path and how it came
there.  `Checkpoint.validate` checks what can be checked without a machine; the first check that
fails gives the fault.
-/
namespace Statechart

/-- Where a machine stood. -/
structure Checkpoint where
  version : UInt32
  id : String
  timestamp : Instant
  root : String
  statePath : String
  history : PathHistory
  deriving DecidableEq

/-- Why a checkpoint cannot be written, read, accepted or restored. -/
inductive CheckpointFault
  | unwritable (reason : String)
  | unreadable (reason : String)
  | unsupportedVersion (found supported : UInt32)
  | rootMismatch (found expected : String)
  | invalidPath (path : String) (cause : PathFault)
  | pathLeavesRoot (path root : String)
  | rejected (reason : String)
  /-- The machine cannot be put on the path. -/
  | restore (fault : Fault)
  deriving DecidableEq

namespace CheckpointFault

/-- Name of the kind of fault. -/
def kind : CheckpointFault → String
  | .unwritable _ => "SerializationFailed"
  | .unreadable _ => "DeserializationFailed"
  | .unsupportedVersion .. => "UnsupportedVersion"
  | .rootMismatch .. => "RootMismatch"
  | .invalidPath .. => "ValidationFailed"
  | .pathLeavesRoot .. => "ValidationFailed"
  | .rejected _ => "ValidationFailed"
  | .restore _ => "Restore"

/-- What a failed check says. -/
def reason : CheckpointFault → String
  | .invalidPath path cause => (Fault.invalidPath path cause).message
  | .pathLeavesRoot path root =>
    "state path '" ++ path ++ "' does not start at root '" ++ root ++ "'"
  | .rejected reason => reason
  | .unwritable reason => reason
  | .unreadable reason => reason
  | .unsupportedVersion .. => ""
  | .rootMismatch .. => ""
  | .restore fault => fault.message

/-- The fault in words. -/
def message (fault : CheckpointFault) : String :=
  match fault with
  | .unwritable reason => "Serialization failed: " ++ reason
  | .unreadable reason => "Deserialization failed: " ++ reason
  | .unsupportedVersion found supported =>
    "Unsupported checkpoint version " ++ toString found.toNat ++ ", supported: " ++
      toString supported.toNat
  | .rootMismatch found expected =>
    "Checkpoint root '" ++ found ++ "' does not match machine root '" ++ expected ++ "'"
  | .invalidPath .. | .pathLeavesRoot .. | .rejected _ =>
    "Checkpoint validation failed: " ++ fault.reason
  | .restore inner => "Restore failed: " ++ inner.message

/-- The fault as inspections show it. -/
def inspect (fault : CheckpointFault) : String :=
  match fault with
  | .unsupportedVersion found supported =>
    Text.record fault.kind
      [("found", toString found.toNat), ("supported", toString supported.toNat)]
  | .rootMismatch found expected =>
    Text.record fault.kind [("found", Text.quote found), ("expected", Text.quote expected)]
  | .restore inner => Text.tagged fault.kind inner.inspect
  | _ => Text.tagged fault.kind (Text.quote fault.reason)

/-- The machine's fault behind this one. -/
def source? : CheckpointFault → Option Fault
  | .restore fault => some fault
  | _ => none

end CheckpointFault

namespace Checkpoint

/-- The version of the form that is written and read. -/
def currentVersion : UInt32 := 1

/-- Check the version, then that the path is a path, then that it starts at the root. -/
def validate (checkpoint : Checkpoint) : Except CheckpointFault Unit :=
  if checkpoint.version ≠ currentVersion then
    .error (.unsupportedVersion checkpoint.version currentVersion)
  else
    match StatePath.parse checkpoint.statePath with
    | .error cause => .error (.invalidPath checkpoint.statePath cause)
    | .ok path =>
      if path.root = checkpoint.root then .ok ()
      else .error (.pathLeavesRoot checkpoint.statePath checkpoint.root)

/-- A checkpoint that has passed its checks. -/
def validated (checkpoint : Checkpoint) : Except CheckpointFault Checkpoint :=
  checkpoint.validate.map fun _ => checkpoint

end Checkpoint

end Statechart
