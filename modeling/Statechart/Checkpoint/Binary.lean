import Statechart.Checkpoint.Basic
import Statechart.Time.Text

/-!
# Checkpoints as bytes

The binary form of a checkpoint: its fields in order, numbers with their lowest byte first, the
version in four bytes, lengths in eight, a text as its length and its UTF-8 bytes, an instant as
its text, a list as its length and its items.  Bytes after the last field are ignored.
-/
namespace Statechart.Checkpoint

/-- A number in so many bytes, the lowest first. -/
def numberBytes : Nat → Nat → List UInt8
  | 0, _ => []
  | size + 1, n => UInt8.ofNat (n % 256) :: numberBytes size (n / 256)

/-- A text. -/
def textBytes (s : String) : List UInt8 :=
  let bytes := s.toUTF8.toList
  numberBytes 8 bytes.length ++ bytes

/-- A change of the path. -/
def changeBytes (change : PathChange) : List UInt8 :=
  textBytes change.oldPath ++ textBytes change.newPath ++ textBytes change.changedAt.write

/-- The checkpoint as bytes. -/
def writeBytes (checkpoint : Checkpoint) : List UInt8 :=
  numberBytes 4 checkpoint.version.toNat ++ textBytes checkpoint.id ++
    textBytes checkpoint.timestamp.write ++ textBytes checkpoint.root ++
    textBytes checkpoint.statePath ++ numberBytes 8 checkpoint.history.changes.length ++
    checkpoint.history.changes.flatMap changeBytes

/-- Read a number of so many bytes. -/
def readNumberBytes? : Nat → List UInt8 → Option (Nat × List UInt8)
  | 0, bytes => some (0, bytes)
  | _ + 1, [] => none
  | size + 1, byte :: bytes => do
    let (high, rest) ← readNumberBytes? size bytes
    some (byte.toNat + 256 * high, rest)

/-- Read a text. -/
def readTextBytes? (bytes : List UInt8) : Option (String × List UInt8) := do
  let (length, bytes) ← readNumberBytes? 8 bytes
  let own := bytes.take length
  if own.length < length then none
  else
    let s ← String.fromUTF8? (ByteArray.mk own.toArray)
    some (s, bytes.drop length)

/-- Read an instant. -/
def readInstantBytes? (bytes : List UInt8) : Option (Instant × List UInt8) := do
  let (s, bytes) ← readTextBytes? bytes
  let instant ← Instant.read? s
  some (instant, bytes)

/-- Read a change of the path. -/
def readChangeBytes? (bytes : List UInt8) : Option (PathChange × List UInt8) := do
  let (oldPath, bytes) ← readTextBytes? bytes
  let (newPath, bytes) ← readTextBytes? bytes
  let (changedAt, bytes) ← readInstantBytes? bytes
  some (⟨oldPath, newPath, changedAt⟩, bytes)

/-- Read so many changes. -/
def readChangesBytes? : Nat → List UInt8 → Option (List PathChange × List UInt8)
  | 0, bytes => some ([], bytes)
  | count + 1, bytes => do
    let (change, bytes) ← readChangeBytes? bytes
    let (changes, bytes) ← readChangesBytes? count bytes
    some (change :: changes, bytes)

/-- Read the fields of a checkpoint. -/
def ofBytes? (bytes : List UInt8) : Option Checkpoint := do
  let (version, bytes) ← readNumberBytes? 4 bytes
  let (id, bytes) ← readTextBytes? bytes
  let (timestamp, bytes) ← readInstantBytes? bytes
  let (root, bytes) ← readTextBytes? bytes
  let (statePath, bytes) ← readTextBytes? bytes
  let (count, bytes) ← readNumberBytes? 8 bytes
  let (changes, _) ← readChangesBytes? count bytes
  some ⟨UInt32.ofNat version, id, timestamp, root, statePath, ⟨changes⟩⟩

/-- Read a checkpoint and check it. -/
def readBytes (bytes : List UInt8) : Except CheckpointFault Checkpoint :=
  match ofBytes? bytes with
  | none => .error (.unreadable "not a checkpoint in bytes")
  | some checkpoint => checkpoint.validated

end Statechart.Checkpoint
