import Statechart.Proofs.Restoring

/-!
# Checkpoints that are declined

A checkpoint passes its own checks before it is compared with a machine, and only then its path is
looked up there.  So what the machine itself finds wrong with the path is that it leads nowhere: that
the path is a path and starts at the root has been made sure of before.  Main statement: a checkpoint
is restored if and only if it passes every check, and otherwise the first check that it fails gives the
fault, and nothing has changed.
-/
namespace Statechart

variable {H : Host}

namespace State

variable {s : State H} {checkpoint : Checkpoint} {names : List String} {text : String} {fault : Fault}
  {declined : CheckpointFault}

/-! ## Where a path ends too soon -/

/-- The names lead from the state down to one that has no inner state of the next name. -/
inductive Strands (s : State H) (text : String) (names : List String) : Fault → Prop
  /-- It has no inner states at all. -/
  | belowLeaf {front rest : List String} {name : String} {t : State H}
    (split : names = front ++ name :: rest) (leads : s.descend? front = some t)
    (isLeaf : t.isLeaf = true) : Strands s text names (.invalidPath text (.noInnerState t.name name))
  /-- It has others only. -/
  | unknownName {front rest : List String} {name : String} {t : State H}
    (split : names = front ++ name :: rest) (leads : s.descend? front = some t)
    (composite : t.isLeaf = false) (unknown : t.child? name = none) :
    Strands s text names (.stateNotFound t.name name)

/-- Looking names up goes on where the first of them lead. -/
theorem resolve_append {front rest : List String} {t : State H} (leads : s.descend? front = some t) :
    s.resolve text (front ++ rest) = t.resolve text rest := by
  induction front generalizing s with
  | nil =>
    obtain rfl := Option.some.inj leads
    rfl
  | cons name front ih =>
    obtain ⟨child, found, below⟩ := Option.bind_eq_some_iff.1 leads
    cases s with
    | leaf core => simp [child?, children] at found
    | composite core routes before active after =>
      rw [List.cons_append, resolve, found]
      exact ih below

/-- Looking names up fails just where they strand. -/
theorem resolve_eq_error_iff : s.resolve text names = .error fault ↔ Strands s text names fault := by
  constructor
  · intro failed
    obtain ⟨front, name, rest, t, split, leads, ⟨isLeaf, rfl⟩ | ⟨composite, unknown, rfl⟩⟩ :=
      resolve_eq_error failed
    · exact .belowLeaf split leads isLeaf
    · exact .unknownName split leads composite unknown
  · intro strands
    cases strands with
    | @belowLeaf front rest name t split leads isLeaf =>
      rw [split, resolve_append leads]
      cases t with
      | leaf core => rfl
      | composite core routes before active after => contradiction
    | @unknownName front rest name t split leads composite unknown =>
      rw [split, resolve_append leads]
      cases t with
      | leaf core => contradiction
      | composite core routes before active after =>
        rw [resolve, unknown]
        rfl

/-! ## The checks in their order -/

/-- The first check that the checkpoint fails in the state, with the fault that it gives: all checks
before it have been passed. -/
inductive Declines (s : State H) (checkpoint : Checkpoint) : CheckpointFault → Prop
  | version (other : checkpoint.version ≠ Checkpoint.currentVersion) :
    Declines s checkpoint (.unsupportedVersion checkpoint.version Checkpoint.currentVersion)
  /-- The path is no path. -/
  | unreadable {cause : PathFault} (current : checkpoint.version = Checkpoint.currentVersion)
    (parsed : StatePath.parse checkpoint.statePath = .error cause) :
    Declines s checkpoint (.invalidPath checkpoint.statePath cause)
  /-- The path starts elsewhere than at the checkpoint's own root. -/
  | astray {path : StatePath} (current : checkpoint.version = Checkpoint.currentVersion)
    (parsed : StatePath.parse checkpoint.statePath = .ok path)
    (elsewhere : path.root ≠ checkpoint.root) :
    Declines s checkpoint (.pathLeavesRoot checkpoint.statePath checkpoint.root)
  /-- The checkpoint is of a state of another name. -/
  | foreign {path : StatePath} (current : checkpoint.version = Checkpoint.currentVersion)
    (parsed : StatePath.parse checkpoint.statePath = .ok path) (starts : path.root = checkpoint.root)
    (other : checkpoint.root ≠ s.name) : Declines s checkpoint (.rootMismatch checkpoint.root s.name)
  /-- The path leads nowhere. -/
  | stranded {path : StatePath} {fault : Fault}
    (current : checkpoint.version = Checkpoint.currentVersion)
    (parsed : StatePath.parse checkpoint.statePath = .ok path) (starts : path.root = checkpoint.root)
    (root : checkpoint.root = s.name) (strands : Strands s checkpoint.statePath path.inner fault) :
    Declines s checkpoint (.restore fault)

/-- The checkpoint passes every check in the state. -/
def Accepts (s : State H) (checkpoint : Checkpoint) : Prop :=
  checkpoint.version = Checkpoint.currentVersion ∧
    ∃ path, StatePath.parse checkpoint.statePath = .ok path ∧ path.root = checkpoint.root ∧
      checkpoint.root = s.name ∧ (s.descend? path.inner).isSome

/-- There is no third way. -/
theorem accepts_or_declines (s : State H) (checkpoint : Checkpoint) :
    Accepts s checkpoint ∨ ∃ declined, Declines s checkpoint declined := by
  by_cases current : checkpoint.version = Checkpoint.currentVersion
  · rcases parsed : StatePath.parse checkpoint.statePath with cause | path
    · exact .inr ⟨_, .unreadable current parsed⟩
    · by_cases starts : path.root = checkpoint.root
      · by_cases root : checkpoint.root = s.name
        · rcases resolved : s.resolve checkpoint.statePath path.inner with fault | ⟨⟩
          · exact .inr ⟨_, .stranded current parsed starts root (resolve_eq_error_iff.1 resolved)⟩
          · exact .inl ⟨current, path, parsed, starts, root, (resolve_eq_ok_iff _).1 resolved⟩
        · exact .inr ⟨_, .foreign current parsed starts root⟩
      · exact .inr ⟨_, .astray current parsed starts⟩
  · exact .inr ⟨_, .version current⟩

/-- A checkpoint whose path starts at its root and whose version is supported passes its own check. -/
theorem validate_of_starts {path : StatePath}
    (current : checkpoint.version = Checkpoint.currentVersion)
    (parsed : StatePath.parse checkpoint.statePath = .ok path)
    (starts : path.root = checkpoint.root) : checkpoint.validate = .ok () := by
  simp only [Checkpoint.validate, current, parsed, starts, ne_eq, not_true_eq_false, if_false, if_true]

/-- What is accepted is restored. -/
theorem restore_of_accepts (accepted : Accepts s checkpoint) (σ : Store H) :
    ∃ s' σ', (s.restore checkpoint).run σ = ((.ok (), s'), σ') := by
  obtain ⟨current, path, parsed, starts, root, leads⟩ := accepted
  have set := run_setPath parsed (starts.trans root) ((resolve_eq_ok_iff _).2 leads) σ
  exact ⟨_, _, run_restore checkpoint (validate_of_starts current parsed starts) root.symm set⟩

/-- What is declined is refused with the fault of the check, and nothing changes. -/
theorem restore_of_declines (declines : Declines s checkpoint declined) (σ : Store H) :
    (s.restore checkpoint).run σ = ((.error declined, s), σ) := by
  cases declines with
  | version other =>
    simp only [restore, Checkpoint.validate, other, ne_eq, not_false_eq_true, if_true, StoreM.run_pure]
  | unreadable current parsed =>
    simp only [restore, Checkpoint.validate, current, parsed, ne_eq, not_true_eq_false, if_false,
      StoreM.run_pure]
  | astray current parsed elsewhere =>
    simp only [restore, Checkpoint.validate, current, parsed, elsewhere, ne_eq, not_true_eq_false,
      if_false, StoreM.run_pure]
  | foreign current parsed starts other =>
    simp only [restore, validate_of_starts current parsed starts, ne_eq, Ne.symm other,
      not_false_eq_true, if_true, StoreM.run_pure]
  | @stranded path fault current parsed starts root strands =>
    have set : (s.setPath checkpoint.statePath).run σ = ((.error fault, s), σ) := by
      simp only [setPath, parsed, starts.trans root, resolve_eq_error_iff.2 strands, ne_eq,
        not_true_eq_false, if_false, StoreM.run_pure]
    simp only [restore, validate_of_starts current parsed starts, root.symm, ne_eq, not_true_eq_false,
      if_false, StoreM.run_bind, set, StoreM.run_pure]

end State

namespace Machine

open State

variable [Conduct H]

/-- Restoring a checkpoint in a machine is done if and only if the version is the supported one, the
path is a path that starts at the checkpoint's root, this is the name of the machine's root, and all
further segments lead from inner state to inner state there.  Otherwise nothing has changed, and the
fault is that of the first check that is failed: the version, the path with its start, the name of the
machine's root, and last that the path leads somewhere, where a segment is unknown or the state that
the segments before it lead to has no inner states. -/
theorem restored_or_declined (machine : Machine H) (checkpoint : Checkpoint) :
    let moved := machine.move (.operate 0 (.restore checkpoint))
    (moved.1 = .outcome .done ↔ checkpoint.version = Checkpoint.currentVersion ∧
      ∃ path, StatePath.parse checkpoint.statePath = .ok path ∧ path.root = checkpoint.root ∧
        checkpoint.root = machine.root.name ∧ (machine.root.descend? path.inner).isSome) ∧
    (∀ fault, moved.1 = .outcome (.refused fault) ↔ Declines machine.root checkpoint fault) ∧
    (moved.1 ≠ .outcome .done → moved.2 = machine ∧ ∃ fault, moved.1 = .outcome (.refused fault)) := by
  intro moved
  have refused {fault : CheckpointFault} (declines : Declines machine.root checkpoint fault) :
      moved = (.outcome (.refused fault), machine) := by
    simp only [moved, move, onActive, perform, StoreM.run_bind, restore_of_declines declines,
      StoreM.run_pure]
    rfl
  have done (accepted : Accepts machine.root checkpoint) : moved.1 = .outcome .done := by
    obtain ⟨root, σ, run⟩ := restore_of_accepts accepted machine.store
    simp only [moved, move, onActive, perform, StoreM.run_bind, run, StoreM.run_pure]
    rfl
  rcases accepts_or_declines machine.root checkpoint with accepted | ⟨fault, declines⟩
  · refine ⟨⟨fun _ => accepted, done⟩, fun fault => ⟨fun failed => ?_, fun declines => ?_⟩,
      fun undone => absurd (done accepted) undone⟩
    · simp [done accepted] at failed
    · rw [refused declines]
  · refine ⟨⟨fun succeeded => ?_, done⟩, fun other => ⟨fun failed => ?_, fun declines => ?_⟩,
      fun _ => ⟨?_, fault, ?_⟩⟩
    · simp [refused declines] at succeeded
    · rw [refused declines] at failed
      obtain rfl : fault = other := by simpa using failed
      exact declines
    · rw [refused declines]
    · rw [refused declines]
    · rw [refused declines]

end Machine

end Statechart
