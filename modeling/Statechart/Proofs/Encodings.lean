import Statechart.Checkpoint.Binary
import Statechart.Checkpoint.Document
import Statechart.Proofs.Documents
import Statechart.Proofs.Instants
import Mathlib.Data.String.Basic

/-!
# Checkpoints are read back

What is written of a checkpoint is read as that checkpoint, with its times as clocks show them, and
then checked, from a document and from bytes alike; bytes after the checkpoint do not matter.  Whether
its checks pass plays no part in writing and reading it.

Lengths take eight bytes, so bytes are for texts and histories whose lengths fit in these.
-/
namespace Statechart

/-! ### Numbers and texts in bytes -/

/-- The list of an array's bytes is made from the last byte of the array to its first. -/
theorem toList_loop_eq_append_drop (bytes : ByteArray) (i : Nat) (before : List UInt8) :
    ByteArray.toList.loop bytes i before = before.reverse ++ bytes.data.toList.drop i := by
  fun_induction ByteArray.toList.loop bytes i before with
  | case1 i before inside ih =>
    have byte : bytes.get! i = bytes.data.toList.get ⟨i, inside⟩ := by
      simp [ByteArray.get!, inside]
    rw [ih, List.reverse_cons, List.append_assoc, List.drop_eq_getElem_cons inside, byte]
    rfl
  | case2 i before outside =>
    have past : bytes.data.toList.drop i = [] := List.drop_of_length_le (Nat.le_of_not_lt outside)
    rw [past, List.append_nil]

theorem toList_eq_data (bytes : ByteArray) : bytes.toList = bytes.data.toList :=
  toList_loop_eq_append_drop bytes 0 []

namespace Checkpoint

variable {size n : Nat} {rest : List UInt8} {s : String}

/-- A number is read back if the bytes can hold it. -/
theorem readNumberBytes?_numberBytes (h : n < 256 ^ size) :
    readNumberBytes? size (numberBytes size n ++ rest) = some (n, rest) := by
  induction size generalizing n with
  | zero =>
    have zero : n = 0 := by simpa using h
    rw [zero]
    rfl
  | succ size ih =>
    have high : n / 256 < 256 ^ size := by
      rw [Nat.pow_succ] at h
      omega
    have low : (UInt8.ofNat (n % 256)).toNat = n % 256 :=
      UInt8.toNat_ofNat_of_lt' (Nat.mod_lt n (by decide))
    simp only [numberBytes, List.cons_append, readNumberBytes?, ih high, low]
    simp only [Option.bind_eq_bind, Option.bind_some]
    congr 2
    omega

/-- A text is read back if eight bytes can hold its length. -/
theorem readTextBytes?_textBytes (h : s.utf8ByteSize < 256 ^ 8) :
    readTextBytes? (textBytes s ++ rest) = some (s, rest) := by
  have bytes : s.toUTF8.toList = s.toByteArray.data.toList := toList_eq_data s.toByteArray
  have length : s.toByteArray.data.toList.length = s.utf8ByteSize := rfl
  have back : String.fromUTF8? (ByteArray.mk s.toByteArray.data.toList.toArray) = some s := by
    rw [Array.toArray_toList, String.fromUTF8?, dif_pos s.isValidUTF8]
    rfl
  have own : (s.toByteArray.data.toList ++ rest).take s.utf8ByteSize = s.toByteArray.data.toList :=
    List.take_left' length
  have others : (s.toByteArray.data.toList ++ rest).drop s.utf8ByteSize = rest :=
    List.drop_left' length
  rw [textBytes, bytes, readTextBytes?]
  simp only [List.append_assoc, length, readNumberBytes?_numberBytes h, Option.bind_eq_bind,
    Option.bind_some, own, Nat.lt_irrefl, ↓reduceIte, back, others]

theorem utf8ByteSize_ofList_le (cs : List Char) :
    (String.ofList cs).utf8ByteSize ≤ 4 * cs.length := by
  rw [String.utf8ByteSize_ofList]
  induction cs with
  | nil => simp
  | cons c cs ih =>
    have := c.utf8Size_le_four
    rw [String.utf8Len_cons, List.length_cons]
    omega

theorem utf8ByteSize_write_lt (instant : Instant) : instant.write.utf8ByteSize < 256 ^ 8 := by
  have bytes := utf8ByteSize_ofList_le instant.chars
  have few := instant.length_chars_le
  rw [Instant.write]
  omega

theorem readInstantBytes?_textBytes (instant : Instant) :
    readInstantBytes? (textBytes instant.write ++ rest) = some (instant.asShown, rest) := by
  simp [readInstantBytes?, readTextBytes?_textBytes (utf8ByteSize_write_lt instant),
    Instant.read?_write]

end Checkpoint

/-! ### Times as clocks show them -/

/-- The change with its time as a clock shows it. -/
def PathChange.asShown (change : PathChange) : PathChange :=
  { change with changedAt := change.changedAt.asShown }

/-- The history with its times as clocks show them. -/
def PathHistory.asShown (history : PathHistory) : PathHistory :=
  ⟨history.changes.map PathChange.asShown⟩

namespace Checkpoint

/-- Clocks can show all the times of the checkpoint. -/
def Showable (checkpoint : Checkpoint) : Prop :=
  checkpoint.timestamp.Showable ∧ ∀ change ∈ checkpoint.history.changes, change.changedAt.Showable

/-- The checkpoint with its times as clocks show them. -/
def asShown (checkpoint : Checkpoint) : Checkpoint :=
  { checkpoint with
    timestamp := checkpoint.timestamp.asShown
    history := checkpoint.history.asShown }

theorem showable_asShown (checkpoint : Checkpoint) : checkpoint.asShown.Showable := by
  refine ⟨checkpoint.timestamp.showable_asShown, fun change mem => ?_⟩
  obtain ⟨own, -, rfl⟩ := List.mem_map.1 mem
  exact own.changedAt.showable_asShown

theorem Showable.asShown_eq {checkpoint : Checkpoint} (h : checkpoint.Showable) :
    checkpoint.asShown = checkpoint := by
  have each (change : PathChange) (mem : change ∈ checkpoint.history.changes) :
      change.asShown = change := by
    rw [PathChange.asShown, (h.2 change mem).asShown_eq]
  have changes : checkpoint.history.changes.map PathChange.asShown = checkpoint.history.changes :=
    (List.map_congr_left each).trans (List.map_id' _)
  rw [asShown, PathHistory.asShown, changes, h.1.asShown_eq]

end Checkpoint

/-! ### Changes and histories -/

/-- Eight bytes can hold the lengths of a change's paths, as they can for any text in memory. -/
structure PathChange.Fits (change : PathChange) : Prop where
  oldPath : change.oldPath.utf8ByteSize < 256 ^ 8
  newPath : change.newPath.utf8ByteSize < 256 ^ 8

namespace Checkpoint

variable {rest : List UInt8}

theorem readChangeBytes?_changeBytes {change : PathChange} (fits : change.Fits) :
    readChangeBytes? (changeBytes change ++ rest) = some (change.asShown, rest) := by
  simp [changeBytes, readChangeBytes?, readTextBytes?_textBytes fits.oldPath,
    readTextBytes?_textBytes fits.newPath, readInstantBytes?_textBytes, PathChange.asShown]

theorem readChangesBytes?_flatMap {changes : List PathChange} (fits : ∀ c ∈ changes, c.Fits) :
    readChangesBytes? changes.length (changes.flatMap changeBytes ++ rest) =
      some (changes.map PathChange.asShown, rest) := by
  induction changes with
  | nil => rfl
  | cons change changes ih =>
    rw [List.flatMap_cons, List.append_assoc, List.length_cons, readChangesBytes?,
      readChangeBytes?_changeBytes (fits change List.mem_cons_self)]
    simp [ih fun c mem => fits c (List.mem_cons_of_mem _ mem)]

/-- Eight bytes can hold the lengths of the checkpoint's texts and of its history. -/
structure Fits (checkpoint : Checkpoint) : Prop where
  id : checkpoint.id.utf8ByteSize < 256 ^ 8
  root : checkpoint.root.utf8ByteSize < 256 ^ 8
  statePath : checkpoint.statePath.utf8ByteSize < 256 ^ 8
  count : checkpoint.history.changes.length < 256 ^ 8
  changes : ∀ change ∈ checkpoint.history.changes, change.Fits

/-- A checkpoint is read back from its bytes, whatever bytes follow. -/
theorem ofBytes?_writeBytes {checkpoint : Checkpoint} (fits : checkpoint.Fits)
    (more : List UInt8) : ofBytes? (checkpoint.writeBytes ++ more) = some checkpoint.asShown := by
  have version : checkpoint.version.toNat < 256 ^ 4 := checkpoint.version.toNat_lt
  simp [ofBytes?, writeBytes, readNumberBytes?_numberBytes version,
    readTextBytes?_textBytes fits.id, readInstantBytes?_textBytes,
    readTextBytes?_textBytes fits.root, readTextBytes?_textBytes fits.statePath,
    readNumberBytes?_numberBytes fits.count, readChangesBytes?_flatMap fits.changes, asShown,
    PathHistory.asShown]

end Checkpoint

/-! ### Documents -/

theorem PathChange.plain_toJson (change : PathChange) : change.toJson.Plain := by
  refine .ofMembers fun field mem => ?_
  simp only [List.mem_cons, List.not_mem_nil, or_false] at mem
  rcases mem with rfl | rfl | rfl <;> exact .string _

theorem PathChange.ofJson?_toJson (change : PathChange) :
    ofJson? change.toJson = some change.asShown := by
  have fields : change.toJson.fullRecord? fieldNames = some [.string change.oldPath,
      .string change.newPath, .string change.changedAt.write] :=
    Json.fullRecord?_ofMembers (by decide : fieldNames.Nodup)
  simp [ofJson?, fields, Instant.read?_write, asShown]

theorem PathHistory.plain_toJson (history : PathHistory) : history.toJson.Plain := by
  refine .ofMembers fun field mem => ?_
  rw [List.mem_singleton.1 mem]
  refine .array fun item mem => ?_
  obtain ⟨change, -, rfl⟩ := List.mem_map.1 mem
  exact change.plain_toJson

theorem PathHistory.ofJson?_toJson (history : PathHistory) :
    ofJson? history.toJson = some history.asShown := by
  have fields : history.toJson.fullRecord? ["changes"] =
      some [.array (history.changes.map PathChange.toJson)] :=
    Json.fullRecord?_ofMembers (by decide : ["changes"].Nodup)
  have changes : (history.changes.map PathChange.toJson).mapM PathChange.ofJson? =
      some (history.changes.map PathChange.asShown) := by
    induction history.changes with
    | nil => rfl
    | cons change changes ih => simp [PathChange.ofJson?_toJson, ih]
  simp only [ofJson?, fields, Option.bind_eq_bind, Option.bind_some, Json.items?_array, changes,
    asShown]

/-- A history is read back, with its times as clocks show them. -/
theorem PathHistory.read?_write (history : PathHistory) :
    read? history.write = some history.asShown := by
  have document := history.plain_toJson.read?_compact
  rw [read?, write, document, Option.bind_some, ofJson?_toJson]

namespace Checkpoint

theorem plain_toJson (checkpoint : Checkpoint) : checkpoint.toJson.Plain := by
  refine .ofMembers fun field mem => ?_
  simp only [List.mem_cons, List.not_mem_nil, or_false] at mem
  rcases mem with rfl | rfl | rfl | rfl | rfl | rfl
  case inl => exact .nat _
  case inr.inr.inr.inr.inr => exact checkpoint.history.plain_toJson
  all_goals exact .string _

/-- A checkpoint is read back from its document. -/
theorem ofJson?_toJson (checkpoint : Checkpoint) :
    ofJson? checkpoint.toJson = some checkpoint.asShown := by
  have fields : checkpoint.toJson.fullRecord? fieldNames = some [.nat checkpoint.version.toNat,
      .string checkpoint.id, .string checkpoint.timestamp.write, .string checkpoint.root,
      .string checkpoint.statePath, checkpoint.history.toJson] :=
    Json.fullRecord?_ofMembers (by decide : fieldNames.Nodup)
  have version : (Json.nat checkpoint.version.toNat).natBelow? UInt32.size =
      some checkpoint.version.toNat := Json.natBelow?_nat checkpoint.version.toNat_lt
  simp [ofJson?, fields, version, Instant.read?_write, PathHistory.ofJson?_toJson, asShown]

/-! ### Reading and checking -/

/-- What is written as a document is read back and checked. -/
theorem read_write (checkpoint : Checkpoint) :
    read checkpoint.write = checkpoint.validate.map fun _ => checkpoint.asShown := by
  have document := checkpoint.plain_toJson.read?_pretty
  rw [read, write, document, Option.bind_some, ofJson?_toJson]
  rfl

/-- What is written as bytes is read back and checked. -/
theorem readBytes_writeBytes {checkpoint : Checkpoint} (fits : checkpoint.Fits)
    (more : List UInt8) :
    readBytes (checkpoint.writeBytes ++ more) =
      checkpoint.validate.map fun _ => checkpoint.asShown := by
  rw [readBytes, ofBytes?_writeBytes fits more]
  rfl

/-- A checkpoint that is written as a document or as bytes is read back, and the outcome is that of
its checks: if it passes them, the checkpoint itself but for leap seconds within a minute, which have
become the seconds after them, and if it does not, their fault.  Nothing is asked of the texts in a
document; in bytes their lengths have to fit, and more bytes may follow. -/
theorem written_read_back (checkpoint : Checkpoint) :
    read checkpoint.write = (checkpoint.validate.map fun _ => checkpoint.asShown) ∧
      (checkpoint.Fits → ∀ more : List UInt8,
        readBytes (checkpoint.writeBytes ++ more) =
          checkpoint.validate.map fun _ => checkpoint.asShown) ∧
      (checkpoint.asShown = checkpoint ↔ checkpoint.Showable) :=
  ⟨checkpoint.read_write, readBytes_writeBytes,
    fun same => same ▸ checkpoint.showable_asShown, Showable.asShown_eq⟩

end Checkpoint

/-- A checkpoint with a leap second at the end of a day, years of more than four digits and before
year zero, and characters that are escaped. -/
def Sample.logged : Checkpoint :=
  ⟨1, "a \"b\" \\ \n\x01 ∀", ⟨⟨12016, 12, 31, by decide, by decide, by decide⟩,
    ⟨23, 59, 59, 1500000000, by decide, by decide, by decide, by decide⟩⟩, "Root", "Root->Idle",
    ⟨[⟨"Root", "Root->Idle", ⟨⟨-44, 3, 15, by decide, by decide, by decide⟩,
      ⟨9, 30, 5, 1, by decide, by decide, by decide, by decide⟩⟩⟩]⟩⟩

theorem Sample.fits_logged : Sample.logged.Fits := by
  refine ⟨by decide, by decide, by decide, by decide, fun change mem => ?_⟩
  rw [List.mem_singleton.1 mem]
  exact ⟨by decide, by decide⟩

theorem Checkpoint.written_read_back_sample :
    Sample.logged.Fits ∧ Checkpoint.read Sample.logged.write = .ok Sample.logged ∧
      Checkpoint.readBytes (Sample.logged.writeBytes ++ [0, 255]) = .ok Sample.logged := by
  have valid : Sample.logged.validate = .ok () := by decide
  obtain ⟨document, bytes, same⟩ := written_read_back Sample.logged
  have changes : ∀ change ∈ Sample.logged.history.changes, change.changedAt.Showable := by
    intro change mem leap
    rw [List.mem_singleton.1 mem] at leap
    exact absurd leap (by decide)
  have kept : Sample.logged.asShown = Sample.logged := same.2 ⟨fun _ => rfl, changes⟩
  rw [valid, kept] at document bytes
  exact ⟨Sample.fits_logged, document, bytes Sample.fits_logged _⟩

/-- The same checkpoint at another time of that day. -/
def Sample.loggedAt (time : TimeOfDay) : Checkpoint :=
  { Sample.logged with timestamp := { Sample.logged.timestamp with time := time } }

/-- A leap second within a minute is not kept: what is read in its place is the second after it. -/
theorem Checkpoint.leap_second_not_kept :
    let early := Sample.loggedAt
      ⟨23, 56, 4, 1333333333, by decide, by decide, by decide, by decide⟩
    let found := Sample.loggedAt
      ⟨23, 56, 5, 333333333, by decide, by decide, by decide, by decide⟩
    early.validate = .ok () ∧ Checkpoint.read early.write = .ok found ∧
      Checkpoint.readBytes early.writeBytes = .ok found ∧ found ≠ early := by
  intro early found
  have valid : early.validate = .ok () := by decide
  have shown : early.asShown = found := by decide
  have fits : early.Fits := { Sample.fits_logged with }
  have document := early.read_write
  have bytes := readBytes_writeBytes fits []
  rw [valid, shown] at document bytes
  rw [List.append_nil] at bytes
  exact ⟨valid, document, bytes, by decide⟩

end Statechart
