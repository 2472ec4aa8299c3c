import Statechart.Proofs.Blueprints
import Statechart.Proofs.Steering

/-!
# Paths name chains

The path of a machine is the text of the names on its active chain.  All names are segments, so they
can be read from the path again, and two paths are the same text only where the chains are the same
states.  The path that a machine has can always be set, and then there is nothing to do.
-/
namespace Statechart

variable {H : Host}

namespace State

variable {s s' : State H} {text : String}

/-- The names on the active chain below the state. -/
def course (s : State H) : List String := s.chain.tail.map State.name

theorem chain_names (s : State H) : s.chain.map State.name = s.name :: s.course := by
  obtain ⟨deeper, chain_eq⟩ := chain_eq_cons s
  rw [course, chain_eq, List.map_cons, List.tail_cons]

@[simp] theorem course_composite {core : Core H} {routes : Routes} {before after : List (State H)}
    {active : State H} :
    (composite core routes before active after).course = active.name :: active.course := by
  rw [course, chain, List.tail_cons, chain_names]

/-- The chain is where its own names lead. -/
theorem beneath_course (s : State H) : ∃ t, Beneath s s.course t ∧ t.children = [] := by
  induction s using chainInduction with
  | leaf core => exact ⟨_, .here _, rfl⟩
  | composite core routes before active after ih =>
    obtain ⟨t, beneath, last⟩ := ih
    rw [course_composite]
    exact ⟨t, .inner active_mem_children beneath, last⟩

/-- Selecting the chain by its own names does nothing. -/
theorem run_applyPath_course (s : State H) (σ : Store H) : (s.applyPath s.course).run σ = (s, σ) := by
  induction s using chainInduction with
  | leaf core => rfl
  | composite core routes before active after ih =>
    rw [course_composite]
    simp only [applyPath, retarget, if_true, StoreM.run_bind, StoreM.run_pure, ih]

/-- In trees of one place, chains of the same names are chains of the same states. -/
theorem WellBuilt.chain_address_eq_iff (built : s.WellBuilt) (built' : s'.WellBuilt)
    (same : s.address = s'.address) :
    s.chain.map State.address = s'.chain.map State.address ↔
      s.chain.map State.name = s'.chain.map State.name := by
  constructor
  · intro places
    have names := congrArg (List.map Address.name) places
    rwa [List.map_map, List.map_map] at names
  · induction s using chainInduction generalizing s' with
    | leaf core =>
      intro names
      cases s' with
      | leaf core' => simpa [chain] using same
      | composite core' routes' before' active' after' => simp [chain, chain_ne_nil] at names
    | composite core routes before active after ih =>
      intro names
      cases s' with
      | leaf core' => simp [chain, chain_ne_nil] at names
      | composite core' routes' before' active' after' =>
        rw [chain, chain, List.map_cons, List.map_cons, List.cons.injEq] at names ⊢
        have named : active.name = active'.name := by
          have heads := names.2
          rw [chain_names, chain_names] at heads
          exact (List.cons.inj heads).1
        have placed : active.address = active'.address := by
          rw [built.address_active, built'.address_active, named]
          exact congrArg (Address.inner · active'.name) same
        exact ⟨same, ih built.inner built'.inner placed names.2⟩

/-- The names on the chain can be read from the path. -/
theorem parse_path (segments : ∀ t ∈ s.subtree, isSegment t.name = true) :
    StatePath.parse s.path = .ok ⟨s.name, s.course⟩ := by
  rw [path, chain_names]
  apply StatePath.parse_joined
  rw [← chain_names]
  intro name mem
  obtain ⟨t, inside, rfl⟩ := List.mem_map.1 mem
  exact segments t (mem_subtree_iff.2 (.inl inside))

/-- Setting the path that a state has is done and changes nothing, but for the notice. -/
theorem run_setPath_path (segments : ∀ t ∈ s.subtree, isSegment t.name = true)
    (built : s.WellBuilt) (σ : Store H) :
    (s.setPath s.path).run σ =
      ((.ok (), s), σ.after (Store.note (.pathRestored s.name s.path))) := by
  obtain ⟨t, below, -⟩ := beneath_course s
  rw [run_setPath (parse_path segments) rfl (below.resolve_eq built s.path)]
  simp only [run_applyPath_course, Store.after]

/-- Two paths are the same just if the names on the chains are. -/
theorem path_eq_iff_names (segments : ∀ t ∈ s.subtree, isSegment t.name = true)
    (segments' : ∀ t ∈ s'.subtree, isSegment t.name = true) :
    s.path = s'.path ↔ s.chain.map State.name = s'.chain.map State.name := by
  constructor
  · intro same
    have read := parse_path segments
    rw [same, parse_path segments'] at read
    obtain ⟨named, deeper⟩ := StatePath.mk.inj (Except.ok.inj read)
    rw [chain_names, chain_names, named, deeper]
  · intro names
    rw [path, path, names]

end State

namespace Machine

open State

variable [Conduct H] {machine first : Machine H}

/-- Two machines that can be reached, whose roots have one place, have the same path just if their
chains are the same states. -/
theorem path_eq_iff {other : Machine H} (reachable : machine.Reachable)
    (reachable' : other.Reachable) (same : machine.root.address = other.root.address) :
    machine.root.path = other.root.path ↔
      machine.root.chain.map State.address = other.root.chain.map State.address := by
  rw [path_eq_iff_names reachable.isSegment_name reachable'.isSegment_name,
    reachable.spec.1.chain_address_eq_iff reachable'.spec.1 same]

/-- Setting a machine on the path that it has is done, and all that comes of it is a notice. -/
theorem move_setPath_path (reachable : machine.Reachable) :
    machine.move (.operate 0 (.setPath machine.root.path)) =
      (.outcome .done, ⟨machine.root, machine.store.after
        (Store.note (.pathRestored machine.root.name machine.root.path))⟩) :=
  move_setPath (run_setPath_path reachable.isSegment_name reachable.spec.1 machine.store)

/-- The path of a machine can be read, and it names the active chain, whatever the names are.  Setting
the machine on it is done, and leaves the machine as it is: the tree, with all that runs, that is
selected, that behaviours keep and that is in sight, and the store but for the notice.  And two states
of one machine have the same path just if their active chains are the same states. -/
theorem path_names_chain (started : first.Started) (moves moves' : List (Move H)) :
    let machine := (first.run moves).2
    let other := (first.run moves').2
    (∃ path, StatePath.parse machine.root.path = .ok path ∧
      path.segments = machine.root.chain.map State.name) ∧
    machine.move (.operate 0 (.setPath machine.root.path)) =
      (.outcome .done, ⟨machine.root, machine.store.after
        (Store.note (.pathRestored machine.root.name machine.root.path))⟩) ∧
    (machine.root.path = other.root.path ↔
      machine.root.chain.map State.address = other.root.chain.map State.address) := by
  have reachable := started.reachable moves
  have reachable' := started.reachable moves'
  have same : (first.run moves).2.root.address = (first.run moves').2.root.address :=
    address_eq_of_layout_eq ((layout_run first moves).trans (layout_run first moves').symm)
  refine ⟨⟨_, parse_path reachable.isSegment_name, ?_⟩, move_setPath_path reachable,
    path_eq_iff reachable reachable' same⟩
  rw [StatePath.segments, chain_names]

end Machine

/-! ## A machine with names like separators -/

namespace Sample

open Script State

/-- The place of a root whose name ends like a separator begins. -/
def dash : Address := .root 0 "a-"

/-- The root selects a state whose name is half a separator, beside one whose name begins and ends
like one. -/
def dashed : State stage :=
  .composite (fresh dash mute) ⟨[(first, ">"), (next, ">b-")], ">"⟩ []
    (.leaf (fresh (dash.inner ">") eager)) [.leaf (fresh (dash.inner ">b-") mute)]

/-- How the root is built. -/
def dashedCast : Cast :=
  .ofPart .node mute [⟨first, ">", "Node", true, .ofPart .node eager []⟩,
    ⟨next, ">b-", "Node", false, .ofPart .node mute []⟩]

/-- The machine of this root, as it is built on an empty store. -/
def dashedMachine : Machine stage :=
  ⟨dashed, ((dashedCast.start .default "a-" "Node").run (.initial .empty clock)).2⟩

theorem dashedMachine_started : dashedMachine.Started :=
  ⟨.default, "a-", "Node", dashedCast, .initial .empty clock, rfl⟩

end Sample

/-- A machine whose names look like separators, before and after its first cycle. -/
theorem Machine.path_names_chain_sample :
    let machine := Sample.dashedMachine
    let other := (machine.run [.operate 0 .cycle]).2
    machine.Started ∧ machine.root.path = "a-->>" ∧ other.root.path = "a-->>b-" ∧
    (∃ path, StatePath.parse machine.root.path = .ok path ∧
      path.segments = machine.root.chain.map State.name) ∧
    machine.move (.operate 0 (.setPath machine.root.path)) =
      (.outcome .done, ⟨machine.root, machine.store.after
        (Store.note (.pathRestored machine.root.name machine.root.path))⟩) ∧
    (machine.root.path = other.root.path ↔
      machine.root.chain.map State.address = other.root.chain.map State.address) :=
  ⟨Sample.dashedMachine_started, by decide +kernel, by decide +kernel,
    path_names_chain Sample.dashedMachine_started [] [.operate 0 .cycle]⟩

end Statechart
