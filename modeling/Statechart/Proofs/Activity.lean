import Statechart.Proofs.Moves

/-!
# Who runs

A state runs only while the state above it runs, so what runs is the beginning of the active chain.
Main statement: after every run of moves that operate on the root, whatever the callbacks do, the
states that run are the first so many of the active chain, and all others neither run nor select
anything but what is initial.
-/
namespace Statechart

variable {H : Host}

namespace State

variable {core core' : Core H} {routes : Routes} {before after : List (State H)}
  {active s s' t : State H} {σ σ' : Store H} {names : List String} {marks : List Mark}

/-- Along the active chain a state runs only if the states above it do. -/
def Nested (s : State H) : Prop :=
  s.chain.Pairwise fun upper lower => lower.isRunning = true → upper.isRunning = true

/-- Nothing in the tree runs. -/
def Still (s : State H) : Prop := ∀ t ∈ s.subtree, t.isRunning = false

theorem Dormant.still (h : s.Dormant) : s.Still := fun t mem => (h t mem).1

theorem nested_leaf : (State.leaf core).Nested := by simp [Nested, chain]

theorem nested_composite : (composite core routes before active after).Nested ↔
    (∀ t ∈ active.chain, t.isRunning = true → core.running = true) ∧ active.Nested := by
  rw [Nested, chain, List.pairwise_cons]
  rfl

theorem still_composite : (composite core routes before active after).Still ↔
    core.running = false ∧ ∀ child ∈ before ++ active :: after, child.Still := by
  rw [Still, subtree_eq, List.forall_mem_cons, forall_mem_forest]
  simp only [isRunning, core_composite, children]
  rfl

/-- Where nothing runs, nothing on the chain runs. -/
theorem Still.chain (h : s.Still) : ∀ t ∈ s.chain, t.isRunning = false :=
  fun t mem => h t (mem_subtree_iff.2 (.inl mem))

theorem Still.nested (h : s.Still) : s.Nested :=
  List.pairwise_of_forall_mem_list fun _ _ lower mem runs => by
    rw [h.chain lower mem] at runs
    contradiction

/-- What is off the chain being dormant, nothing runs where nothing on the chain runs. -/
theorem Idle.still (idle : s.Idle) (h : ∀ t ∈ s.chain, t.isRunning = false) : s.Still := by
  intro t mem
  rcases mem_subtree_iff.1 mem with mem | mem
  · exact h t mem
  · exact (idle t mem).1

/-- Nesting shows in the outline. -/
theorem Nested.of_outline (h : s.Nested) (eq : t.outline = s.outline) : t.Nested := by
  have nested (u : State H) : u.outline.Nested ↔ u.Nested := by
    rw [Nested, chain_outline, List.pairwise_map]
    simp only [isRunning_outline]
    rfl
  rw [← nested, eq, nested]
  exact h

/-- A state that starts to run, or runs as before, may be put above a chain. -/
theorem Nested.withCore (h : s.Nested)
    (running : core'.running = true ∨ core'.running = s.core.running) :
    (s.withCore core').Nested := by
  cases s with
  | leaf core => exact nested_leaf
  | composite core routes before active after =>
    have inner := nested_composite.1 h
    refine nested_composite.2 ⟨fun t mem runs => ?_, inner.2⟩
    rcases running with running | running
    · exact running
    · exact running.trans (inner.1 t mem runs)

/-- Selecting among states in which nothing runs. -/
theorem nested_select (h : ∀ child ∈ before ++ active :: after, child.Still) (name : String) :
    ((composite core routes before active after).select name).Nested := by
  obtain ⟨before', chosen, after', eq, same, -⟩ := exists_select name core routes before active after
  have still : chosen.Still := h chosen (same ▸ by simp)
  rw [eq]
  refine nested_composite.2 ⟨fun t mem runs => ?_, still.nested⟩
  rw [still.chain t mem] at runs
  contradiction

/-- Setting a path starts nothing. -/
theorem Points.still (h : Points names s marks s') (built : s.WellBuilt) (idle : s.Idle)
    (still : s.Still) : s'.Still := by
  induction h with
  | here s => exact still
  | leaf name names core => exact still
  | @along core routes before after active active' names marks inner ih =>
    have below := still_composite.1 still
    have here := ih built.inner (idle_composite.1 idle).2 (below.2 active (by simp))
    refine still_composite.2 ⟨below.1, fun child mem => ?_⟩
    simp only [List.mem_append, List.mem_cons] at mem
    rcases mem with mem | rfl | mem
    · exact below.2 child (by simp [mem])
    · exact here
    · exact below.2 child (by simp [mem])
  | @turns core routes before after before' after' active active' chosen chosen' name names left
      marks other quiets chosen_eq inner ih =>
    have dormant := idle.dormant_children (quiets.dormant built.inner (idle_composite.1 idle).2)
    obtain ⟨same, placed⟩ := children_chosen chosen_eq
      (built.of_layout (layout_active quiets.layout_eq))
    rw [← same] at dormant
    have awake := dormant chosen (by simp)
    have here := ih placed.inner awake.idle awake.still
    refine still_composite.2 ⟨(still_composite.1 still).1, fun child mem => ?_⟩
    simp only [List.mem_append, List.mem_cons] at mem
    rcases mem with mem | rfl | mem
    · exact (dormant child (by simp [mem])).still
    · exact here
    · exact (dormant child (by simp [mem])).still

/-- Setting a path keeps the running states at the beginning of the chain. -/
theorem Points.nested (h : Points names s marks s') (built : s.WellBuilt) (idle : s.Idle)
    (nested : s.Nested) : s'.Nested := by
  induction h with
  | here s => exact nested
  | leaf name names core => exact nested
  | @along core routes before after active active' names marks inner ih =>
    have above := nested_composite.1 nested
    have idleInner := (idle_composite.1 idle).2
    refine nested_composite.2 ⟨fun t mem runs => ?_, ih built.inner idleInner above.2⟩
    by_contra stopped
    have still : active.Still := idleInner.still fun u inside => by
      by_contra awake
      exact stopped (above.1 u inside (by simpa using awake))
    have quiet := (inner.still built.inner idleInner still).chain t mem
    rw [quiet] at runs
    contradiction
  | @turns core routes before after before' after' active active' chosen chosen' name names left
      marks other quiets chosen_eq inner ih =>
    have dormant := idle.dormant_children (quiets.dormant built.inner (idle_composite.1 idle).2)
    obtain ⟨same, placed⟩ := children_chosen chosen_eq
      (built.of_layout (layout_active quiets.layout_eq))
    rw [← same] at dormant
    have awake := dormant chosen (by simp)
    have still := inner.still placed.inner awake.idle awake.still
    refine nested_composite.2 ⟨fun t mem runs => ?_, still.nested⟩
    rw [still.chain t mem] at runs
    contradiction

/-- A reset keeps the running states at the beginning of the chain, whether it fails or not. -/
theorem Resets.nested {result : Except Fault Unit} (h : Resets s marks result s')
    (built : s.WellBuilt) (idle : s.Idle) (nested : s.Nested) : s'.Nested := by
  rcases result with fault | ⟨⟩
  · exact nested.of_outline h.outline_eq
  · exact (h.dormant built idle).still.nested

/-- Following a request keeps the running states at the beginning of the chain. -/
theorem Settles.nested {outcome : Except Fault (Option Tag)} {settled : Except Fault Unit}
    (h : Settles core routes before active after outcome marks settled s')
    (built : (composite core routes before active after).WellBuilt)
    (idle : (composite core routes before active after).Idle)
    (nested : (composite core routes before active after).Nested) : s'.Nested := by
  cases h with
  | failed => exact nested
  | stays => exact nested
  | unknown => exact nested
  | innerFails leads inner => exact nested.of_outline (outline_active inner.outline_eq)
  | follows leads inner chosen_eq =>
    rw [← chosen_eq]
    have below := inner.dormant built.inner (idle_composite.1 idle).2
    exact nested_select (fun child mem => (idle.dormant_children below child mem).still) _

/-- A cycle keeps the running states at the beginning of the chain, whether it fails or not. -/
theorem Cycles.nested {outcome : Except Fault (Option Tag)} (h : Cycles s marks outcome s')
    (built : s.WellBuilt) (idle : s.Idle) (nested : s.Nested) : s'.Nested := by
  induction h with
  | fails advanced => exact nested.withCore advanced.running_mono
  | leaf advanced => exact nested_leaf
  | composite advanced hands inner settles ih =>
    have idleInner := idle_composite.1 idle
    have running := advanced.running_of_ok
    apply settles.nested
    · exact built.of_layout (layout_composite advanced.kept inner.layout_eq)
    · exact idle_composite.2 ⟨idleInner.1, inner.idle built.inner idleInner.2⟩
    · exact nested_composite.2
        ⟨fun _ _ _ => running, ih built.inner idleInner.2 (nested_composite.1 nested).2⟩

theorem Performs.nested {operation : Operation H} (h : Performs s σ operation s' σ')
    (built : s.WellBuilt) (idle : s.Idle) (nested : s.Nested) : s'.Nested := by
  cases h with
  | cycle cycles fired => exact cycles.nested built idle nested
  | reset resets fired => exact resets.nested built idle nested
  | path sets points fired => exact points.nested built idle nested
  | outline same fired => exact nested.of_outline same

/-- Of a list in which what passes comes first, what passes is the beginning. -/
theorem filter_eq_take {α : Type} {p : α → Bool} {xs : List α}
    (first : xs.Pairwise fun x y => p y = true → p x = true) :
    xs.filter p = xs.take (xs.countP p) := by
  induction xs with
  | nil => rfl
  | cons x xs ih =>
    obtain ⟨here, later⟩ := List.pairwise_cons.1 first
    by_cases passes : p x = true
    · simp [passes, ih later]
    · have none : ∀ y ∈ xs, ¬ p y = true := fun y mem also => passes (here y mem also)
      simp [passes, List.filter_eq_nil_iff.2 none, List.countP_eq_zero.2 none]

/-- Only states of the chain run. -/
theorem Idle.filter_subtree (idle : s.Idle) :
    s.subtree.filter isRunning = s.chain.filter isRunning := by
  induction s using chainInduction with
  | leaf core => simp [subtree, chain]
  | composite core routes before active after ih =>
    obtain ⟨dormant, inner⟩ := idle_composite.1 idle
    have none (states : List (State H)) (h : ∀ child ∈ states, child.Dormant) :
        (forest states).filter isRunning = [] := by
      apply List.filter_eq_nil_iff.2
      intro t mem
      obtain ⟨child, mem, inside⟩ := mem_forest.1 mem
      simp [(h child mem t inside).1]
    have left := none before fun child mem => dormant child (List.mem_append_left _ mem)
    have right := none after fun child mem => dormant child (List.mem_append_right _ mem)
    simp only [subtree, chain, List.filter_cons, List.filter_append, left, right, ih inner,
      List.nil_append, List.append_nil]

end State

namespace Machine

open State

variable [Conduct H] {machine : Machine H}

/-- Rooted moves keep the running states at the beginning of the chain. -/
theorem nested_move (built : machine.root.WellBuilt) (idle : machine.root.Idle)
    (nested : machine.root.Nested) {move : Move H} (rooted : move.isRooted) :
    (machine.move move).2.root.Nested := by
  rcases machine.move_rooted rooted with ⟨operation, -, performs⟩ | ⟨same, -⟩
  · exact performs.nested built idle nested
  · exact nested.of_outline same

/-- After every run of rooted moves on a machine that has been started, the states that run are the
first so many of the active chain, and every state that is not on the chain neither runs nor selects
anything but its initial inner state. -/
theorem running_eq_take_chain (started : machine.Started) {moves : List (Move H)}
    (rooted : ∀ move ∈ moves, move.isRooted) :
    (∃ count, (machine.run moves).2.root.subtree.filter isRunning =
      (machine.run moves).2.root.chain.take count) ∧
    ∀ s ∈ (machine.run moves).2.root.subtree, s ∉ (machine.run moves).2.root.chain →
      s.isRunning = false ∧ s.isAtInitial = true := by
  obtain ⟨built, dormant⟩ := started.spec
  have kept : ((machine.run moves).2.root.WellBuilt ∧ (machine.run moves).2.root.Idle) ∧
      (machine.run moves).2.root.Nested := run_induction
    (motive := fun machine => (machine.root.WellBuilt ∧ machine.root.Idle) ∧ machine.root.Nested)
    (fun move mem machine ⟨⟨built, idle⟩, nested⟩ =>
      ⟨⟨built.of_layout (layout_move machine move), idle_move built idle move⟩,
        nested_move built idle nested (rooted move mem)⟩)
    ⟨⟨built, dormant.idle⟩, dormant.still.nested⟩
  obtain ⟨⟨-, idle⟩, nested⟩ := kept
  refine ⟨⟨_, idle.filter_subtree.trans (filter_eq_take nested)⟩, fun s mem off => ?_⟩
  exact idle s ((mem_subtree_iff.1 mem).resolve_left off)

/-- The last of these moves fails: the state beneath the one that works cannot be left. -/
theorem running_eq_take_chain_sample :
    let moves : List (Move Script.stage) :=
      [.operate 0 .cycle, .post Sample.part Sample.order, .operate 0 .cycle, .operate 0 .reset]
    Sample.machine.Started ∧ (∀ move ∈ moves, move.isRooted) ∧
    (∃ count, (Sample.machine.run moves).2.root.subtree.filter isRunning =
      (Sample.machine.run moves).2.root.chain.take count) ∧
    ∀ s ∈ (Sample.machine.run moves).2.root.subtree,
      s ∉ (Sample.machine.run moves).2.root.chain → s.isRunning = false ∧ s.isAtInitial = true :=
  ⟨Sample.machine_started, by simp [Move.isRooted],
    running_eq_take_chain Sample.machine_started (by simp [Move.isRooted])⟩

end Machine

end Statechart
