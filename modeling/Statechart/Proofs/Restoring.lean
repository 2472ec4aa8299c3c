import Statechart.Proofs.Naming

/-!
# Restoring elsewhere

A checkpoint that has been captured from a machine can be restored in every machine that has been
built from the same blueprint under the same name, whatever either of them has done since: the names
of the one chain lead from state to state in the other machine too, and end at a state without inner
states there as well.
-/
namespace Statechart

variable {H : Host}

namespace State

variable {s s' t t' : State H} {names more : List String} {text : String} {σ σ' : Store H}

/-! ## Ways down -/

/-- Names lead to one state. -/
theorem Beneath.unique (h : Beneath s names t) (h' : Beneath s names t') (built : s.WellBuilt) :
    t = t' := by
  induction h with
  | here s =>
    cases h'
    rfl
  | @inner s child t names mem below ih =>
    generalize eq : child.name :: names = way at h'
    cases h' with
    | here => nomatch eq
    | inner mem' below' =>
      obtain ⟨same, rfl⟩ := List.cons.inj eq
      obtain rfl := built.eq_of_name_eq mem mem' same
      exact ih below' (built.child mem)

/-- The names can be followed one part after the other. -/
theorem Beneath.split (h : Beneath s (names ++ more) t) :
    ∃ u, Beneath s names u ∧ Beneath u more t := by
  induction names generalizing s with
  | nil => exact ⟨s, .here s, h⟩
  | cons name names ih =>
    cases h with
    | inner mem below =>
      obtain ⟨u, first, rest⟩ := ih below
      exact ⟨u, .inner mem first, rest⟩

/-- No names lead further down than the chain goes. -/
theorem Beneath.eq_nil (h : Beneath s (s.course ++ more) t) (built : s.WellBuilt) : more = [] := by
  obtain ⟨u, first, rest⟩ := h.split
  obtain ⟨last, here, childless⟩ := beneath_course s
  obtain rfl := first.unique here built
  cases rest with
  | here => rfl
  | inner mem => simp [childless] at mem

/-! ## Restoring -/

/-- A checkpoint that is valid and of the right root is restored by setting its path. -/
theorem run_restore (checkpoint : Checkpoint) (valid : checkpoint.validate = .ok ())
    (root : s.name = checkpoint.root)
    (set : (s.setPath checkpoint.statePath).run σ = ((.ok (), s'), σ')) :
    (s.restore checkpoint).run σ = ((.ok (), s'), σ'.after
      (Store.note (.checkpointRestored checkpoint.id checkpoint.statePath))) := by
  simp only [restore, valid, root, ne_eq, not_true_eq_false, if_false, StoreM.run_bind, set,
    StoreM.run_pure, Store.after]

/-- What is captured passes its own check. -/
theorem validate_capture (segments : ∀ t ∈ s.subtree, isSegment t.name = true) (id : String)
    (history : PathHistory) (σ : Store H) :
    ((s.capture id history).run σ).1.validate = .ok () := by
  simp only [capture, StoreM.run_bind, StoreM.run_get, StoreM.run_pure, Checkpoint.validate,
    ne_eq, not_true_eq_false, if_false, parse_path segments, if_true]

end State

namespace Machine

open State

variable [Conduct H] {machine other origin target : Machine H} {config : Config}
  {name typeName : String} {blueprint : Blueprint H} {σ τ : Store H}

theorem move_restore {checkpoint : Checkpoint} {root : State H} {σ : Store H}
    (run : (machine.root.restore checkpoint).run machine.store = ((.ok (), root), σ)) :
    machine.move (.operate 0 (.restore checkpoint)) = (.outcome .done, ⟨root, σ⟩) := by
  simp only [move, onActive, perform, StoreM.run_bind, run, StoreM.run_pure]
  rfl

/-- The name of a machine is the one that it was started under. -/
theorem name_of_start (started : (start config name typeName blueprint σ).1 = .ok origin)
    (moves : List (Move H)) : (origin.run moves).2.root.name = name := by
  have placed := (address_eq_of_layout_eq (layout_run origin moves)).trans
    (builds_of_start started).2.address_eq
  exact congrArg Address.name placed

/-- In machines of one blueprint the same names lead down, whatever has been done to them. -/
theorem beneath_of_start (started : (start config name typeName blueprint σ).1 = .ok origin)
    (started' : (start config name typeName blueprint τ).1 = .ok target)
    (moves moves' : List (Move H)) {names : List String} {t : State H}
    (below : Beneath (origin.run moves).2.root names t) :
    ∃ t', Beneath (target.run moves').2.root names t' := by
  have built := ((started_of_start started).reachable moves).spec.1
  obtain ⟨u, below⟩ := below.of_layout built (layout_run origin moves).symm
  obtain ⟨u', below'⟩ := (builds_of_start started).2.beneath (builds_of_start started').2 below
  exact below'.of_layout (started_of_start started').spec.1 (layout_run target moves')

/-- A chain that goes down by all names on the chain of a machine of the same blueprint goes no further
than that one. -/
theorem course_eq_of_prefix (started : (start config name typeName blueprint σ).1 = .ok origin)
    (started' : (start config name typeName blueprint τ).1 = .ok target)
    (moves moves' : List (Move H)) {s : State H} (same : s.layout = (target.run moves').2.root.layout)
    (onward : (origin.run moves).2.root.course <+: s.course) :
    s.course = (origin.run moves).2.root.course := by
  have built := ((started_of_start started).reachable moves).spec.1
  have built' := ((started_of_start started').reachable moves').spec.1
  obtain ⟨more, further⟩ := onward
  obtain ⟨t, below, -⟩ := beneath_course s
  obtain ⟨t', below'⟩ := below.of_layout (built'.of_layout same) same.symm
  -- the names lead down in the first machine as well, where the chain ends after its own
  obtain ⟨u, deep⟩ := beneath_of_start started' started moves' moves below'
  rw [← further] at deep
  rw [← further, deep.eq_nil built, List.append_nil]

/-- A checkpoint that is captured from a machine is valid.  Restored in a machine of the same
blueprint, configuration and name, whether that one has just been built or has been at work, it puts
that machine on the same path without calling anything, and all states off the chain are at rest and
initial then.  Restored in the machine that it was captured from it changes nothing. -/
theorem captured_restores_elsewhere
    (started : (start config name typeName blueprint σ).1 = .ok origin)
    (started' : (start config name typeName blueprint τ).1 = .ok target)
    (moves moves' : List (Move H)) (id : String) (history : PathHistory) :
    let machine := (origin.run moves).2
    let other := (target.run moves').2
    let checkpoint := ((machine.root.capture id history).run machine.store).1
    let restored := other.move (.operate 0 (.restore checkpoint))
    checkpoint.validate = .ok () ∧
    (restored.1 = .outcome .done ∧ callsIn (Store.since other.store restored.2.store) = [] ∧
      restored.2.root.path = machine.root.path ∧
      ∀ t ∈ restored.2.root.subtree, t ∉ restored.2.root.chain →
        t.isRunning = false ∧ t.isAtInitial = true) ∧
    machine.move (.operate 0 (.restore checkpoint)) =
      (.outcome .done, ⟨machine.root, (machine.store.after
        (Store.note (.pathRestored machine.root.name machine.root.path))).after
        (Store.note (.checkpointRestored id machine.root.path))⟩) := by
  intro machine other checkpoint restored
  have reachable : machine.Reachable := (started_of_start started).reachable moves
  have reachable' : other.Reachable := (started_of_start started').reachable moves'
  obtain ⟨built, idle⟩ := reachable'.spec
  have segments := reachable.isSegment_name
  have named : machine.root.name = name := name_of_start started moves
  have named' : other.root.name = name := name_of_start started' moves'
  have valid : checkpoint.validate = .ok () := validate_capture segments id history machine.store
  have parsed : StatePath.parse machine.root.path = .ok ⟨machine.root.name, machine.root.course⟩ :=
    parse_path segments
  refine ⟨valid, ?_, ?_⟩
  · obtain ⟨t, below, -⟩ := beneath_course machine.root
    obtain ⟨t', below'⟩ := beneath_of_start started started' moves moves' below
    have resolved := below'.resolve_eq built machine.root.path
    obtain ⟨marks, points, fired⟩ := points_run machine.root.course other.root other.store
    have run := run_restore checkpoint valid (named'.trans named.symm)
      (run_setPath parsed (named.trans named'.symm) resolved other.store)
    have moved : restored = _ := move_restore run
    have idle' := points.idle built idle
    obtain ⟨onward, -⟩ := points.steers built idle ((resolve_eq_ok_iff _).1 resolved)
    rw [moved]
    refine ⟨rfl, ?_, ?_, ?_⟩
    · rw [callsIn, ((fired.noted _).noted _).marksIn_since]
      exact List.filterMap_eq_nil_iff.2 points.silent
    · rw [chain_names, List.cons_prefix_cons] at onward
      obtain ⟨named'', onward⟩ := onward
      have same := course_eq_of_prefix started started' moves moves' points.layout_eq onward
      rw [path, path, chain_names, chain_names, same, ← named'', named', named]
    · intro t mem off
      exact idle' t ((mem_subtree_iff.1 mem).resolve_left off)
  · exact move_restore (run_restore checkpoint valid rfl
      (run_setPath_path segments reachable.spec.1 machine.store))

end Machine

/-! ## Two machines of one blueprint -/

namespace Sample

open Script

/-- The machine of the same root that is built beside the first one. -/
def twin : Machine stage :=
  match (Machine.start .default "R" "Node" cast machine.store).1 with
  | .ok twin => twin
  | .error _ => machine

theorem start_twin : (Machine.start .default "R" "Node" cast machine.store).1 = .ok twin := rfl

end Sample

/-- What has been captured from a machine at work is restored in a second machine beside it, which has
not run yet. -/
theorem Machine.captured_restores_elsewhere_sample :
    let machine := (Sample.machine.run [.operate 0 .cycle, .operate 0 .cycle]).2
    let other := (Sample.twin.run []).2
    let checkpoint := ((machine.root.capture "first" .empty).run machine.store).1
    let restored := other.move (.operate 0 (.restore checkpoint))
    (start .default "R" "Node" Sample.cast (.initial .empty Sample.clock)).1 = .ok Sample.machine ∧
    (start .default "R" "Node" Sample.cast Sample.machine.store).1 = .ok Sample.twin ∧
    machine.root.path = "R->Work->Part" ∧ other.root.path = "R->Idle" ∧
    checkpoint.validate = .ok () ∧
    (restored.1 = .outcome .done ∧ callsIn (Store.since other.store restored.2.store) = [] ∧
      restored.2.root.path = machine.root.path ∧
      ∀ t ∈ restored.2.root.subtree, t ∉ restored.2.root.chain →
        t.isRunning = false ∧ t.isAtInitial = true) ∧
    machine.move (.operate 0 (.restore checkpoint)) =
      (.outcome .done, ⟨machine.root, (machine.store.after
        (Store.note (.pathRestored machine.root.name machine.root.path))).after
        (Store.note (.checkpointRestored "first" machine.root.path))⟩) :=
  ⟨Sample.start_machine, Sample.start_twin, by decide +kernel, by decide +kernel,
    captured_restores_elsewhere Sample.start_machine Sample.start_twin
      [.operate 0 .cycle, .operate 0 .cycle] [] "first" .empty⟩

end Statechart
