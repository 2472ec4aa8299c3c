import Statechart.Proofs.Naming
import Statechart.Proofs.Recorders
import Mathlib.Data.List.ReduceOption

/-!
# Notifications

The observers of a root are told of a change of the path after the cycle that has made it, and they are
told nothing else.  So a cycle is one with nothing to observe the root, followed by telling every
observer of the change, if there is one.  What observers are told in a run links up from the path at
its start to the path at its end, and a recorder's history holds just this, after what was there.
-/
namespace Statechart

variable {H : Host}

/-- The core with other observers. -/
def Core.watchedBy (observers : List (Observer H)) (core : Core H) : Core H :=
  { core with observers := observers }

namespace State

variable {s : State H} {name : String} {limit : Option Nat}

/-- The state with other observers. -/
def watchedBy (observers : List (Observer H)) (s : State H) : State H :=
  s.withCore (s.core.watchedBy observers)

@[simp] theorem watchedBy_composite (observers : List (Observer H)) (core : Core H)
    (routes : Routes) (before : List (State H)) (active : State H) (after : List (State H)) :
    (composite core routes before active after).watchedBy observers =
      .composite (core.watchedBy observers) routes before active after := rfl

@[simp] theorem watchedBy_watchedBy (observers observers' : List (Observer H)) (s : State H) :
    (s.watchedBy observers).watchedBy observers' = s.watchedBy observers' := by
  cases s <;> rfl

@[simp] theorem watchedBy_self (s : State H) : s.watchedBy s.core.observers = s := by
  cases s <;> rfl

@[simp] theorem observers_watchedBy (observers : List (Observer H)) (s : State H) :
    (s.watchedBy observers).core.observers = observers := by
  cases s <;> rfl

theorem children_watchedBy (observers : List (Observer H)) (s : State H) :
    (s.watchedBy observers).children = s.children := by
  cases s <;> rfl

/-- Who observes a state does not show in its path. -/
@[simp] theorem path_watchedBy (observers : List (Observer H)) (s : State H) :
    (s.watchedBy observers).path = s.path := by
  cases s <;> rfl

theorem select_watchedBy (observers : List (Observer H)) (name : String) (s : State H) :
    (s.watchedBy observers).select name = (s.select name).watchedBy observers := by
  cases s with
  | leaf core => rfl
  | composite core routes before active after =>
    simp only [watchedBy_composite, select]
    split <;> rfl

end State

/-! ## Cycles with and without observers -/

namespace Core

variable {α : Type}

/-- Who observes a state does not matter to its callbacks. -/
theorem run_call_watchedBy (observers : List (Observer H)) (phase : Phase)
    (requests : α → Option Tag) (command : Option Command)
    (body : View → H.Behavior → Program H (Except Fault α × H.Behavior)) (core : Core H)
    (σ : Store H) :
    ((core.watchedBy observers).call phase requests command body).run σ =
      let called := (core.call phase requests command body).run σ
      ((called.1.1, called.1.2.watchedBy observers), called.2) := rfl

theorem run_advance_watchedBy [Conduct H] (observers : List (Observer H)) (command : Option Command)
    (core : Core H) (σ : Store H) :
    ((core.watchedBy observers).advance command).run σ =
      let advanced := (core.advance command).run σ
      ((advanced.1.1, advanced.1.2.watchedBy observers), advanced.2) := by
  rcases running : core.running
  · have idle : (core.watchedBy observers).running = false := running
    simp only [advance, enter, idle, running, Bool.false_eq_true, if_false, StoreM.run_bind,
      run_call_watchedBy]
    rcases (core.call .entry (fun _ => none) command Conduct.entry).run σ with ⟨⟨fault | ⟨⟩, core'⟩, σ'⟩
    · rfl
    · rfl
  · have active : (core.watchedBy observers).running = true := running
    simp only [advance, enter, active, running, if_true, StoreM.run_bind, StoreM.run_pure,
      run_call_watchedBy]

end Core

namespace State

variable [Conduct H] {s : State H}

/-- Who observes a state does not matter to how it settles a cycle. -/
theorem run_settle_watchedBy (observers : List (Observer H)) (core : Core H) (routes : Routes)
    (before : List (State H)) (active : State H) (after : List (State H))
    (outcome : Except Fault (Option Tag)) (σ : Store H) :
    ((composite (core.watchedBy observers) routes before active after).settle outcome).run σ =
      let settled := ((composite core routes before active after).settle outcome).run σ
      ((settled.1.1, settled.1.2.watchedBy observers), settled.2) := by
  rcases outcome with fault | _ | request
  · rfl
  · rfl
  · rcases leads : routes.target? request with _ | target
    · simp only [settle, follow, leads, StoreM.run_pure]
      rfl
    · simp only [settle, follow, leads, StoreM.run_bind]
      rcases active.reset.run σ with ⟨⟨fault | ⟨⟩, active'⟩, σ'⟩
      · rfl
      · simp only [StoreM.run_bind, StoreM.run_pure, run_activate, ← watchedBy_composite,
          select_watchedBy]
        cases (composite core routes before active' after).select target <;> rfl

omit [Conduct H] in
/-- The path shows nothing of a state but its name. -/
theorem path_withCore {core : Core H} (place : core.address = s.core.address) :
    (s.withCore core).path = s.path := by
  have named : core.name = s.core.name := congrArg Address.name place
  cases s with
  | leaf own => simp only [withCore, path, chain, List.map_cons, name, core_leaf] at named ⊢; rw [named]
  | composite own routes before active after =>
    simp only [withCore, path, chain, List.map_cons, name, core_composite] at named ⊢
    rw [named]

theorem run_cycle_leaf_of {core core' : Core H} {result : Except Fault (Option Tag)} {σ σ' : Store H}
    (advanced : (core.advance (σ.waiting core.address)).run
      (σ.after (Store.takeFrom core.address)) = ((result, core'), σ')) :
    (State.leaf core).cycle.run σ = ((result, .leaf core'), σ') := by
  rw [run_cycle_leaf]
  simp only [advanced]

/-- A cycle that leaves the path as it is goes as if nothing observed it. -/
theorem watched_of_stays {core : Core H} {result : Except Fault (Option Tag)} {σ σ' : Store H}
    (place : core.address = s.core.address) (observed : core.observers = s.core.observers)
    (run : s.cycle.run σ = ((result, s.withCore core), σ'))
    (alone : (s.watchedBy []).cycle.run σ = ((result, (s.withCore core).watchedBy []), σ')) :
    s.cycle.run σ =
      let alone := (s.watchedBy []).cycle.run σ
      ((alone.1.1, alone.1.2.watchedBy s.core.observers),
        alone.2.told s.core.observers
          (PathChange.between? s.path alone.1.2.path alone.2.clock)) := by
  have again : (s.withCore core).watchedBy s.core.observers = s.withCore core := by
    rw [← observed]
    cases s <;> rfl
  simp only [run, alone, path_watchedBy, path_withCore place, watchedBy_watchedBy, again,
    PathChange.between?, if_true, Store.told]

/-- A cycle is one that nothing observes, after which the observers are told of the change, if there
is one. -/
theorem run_cycle_watched (s : State H) (σ : Store H) :
    s.cycle.run σ =
      let alone := (s.watchedBy []).cycle.run σ
      ((alone.1.1, alone.1.2.watchedBy s.core.observers),
        alone.2.told s.core.observers
          (PathChange.between? s.path alone.1.2.path alone.2.clock)) := by
  let σ₁ := σ.after (Store.takeFrom s.core.address)
  obtain ⟨calls, advances, -⟩ := s.core.advances_run (σ.waiting s.core.address) σ₁
  have unwatched := s.core.run_advance_watchedBy [] (σ.waiting s.core.address) σ₁
  rcases advanced : (s.core.advance (σ.waiting s.core.address)).run σ₁ with ⟨⟨result, core'⟩, σ₂⟩
  rw [advanced] at advances unwatched
  have place : core'.address = s.core.address := advances.kept.address
  have observed : core'.observers = s.core.observers := advances.fitted Core.fitted_observers
  cases s with
  | leaf core =>
    exact watched_of_stays place observed (run_cycle_leaf_of advanced) (run_cycle_leaf_of unwatched)
  | composite core routes before active after =>
    rcases result with fault | requested
    · exact watched_of_stays place observed (run_cycle_of_error advanced)
        (run_cycle_of_error unwatched)
    · -- the inner cycle is the same one, and only the announcement at the end reads the observers
      let σ₃ := σ₂.after (passOn active.address (σ.waiting core.address))
      rcases inner : active.cycle.run σ₃ with ⟨⟨outcome, active'⟩, σ₄⟩
      obtain ⟨marks, settles, -⟩ := settles_run core' routes before active' after outcome σ₄
      have unwatched' := run_settle_watchedBy [] core' routes before active' after outcome σ₄
      rcases settled : ((composite core' routes before active' after).settle outcome).run σ₄ with
        ⟨⟨result, s'⟩, σ₅⟩
      rw [settled] at settles unwatched'
      have observed' : s'.core.observers = core.observers :=
        (feature_eq_of_survey_eq (settles.survey_eq Core.fitted_observers)).trans observed
      have alone : ((composite core routes before active after).watchedBy []).cycle.run σ =
          ((result.map fun _ => requested, s'.watchedBy []), σ₅) := by
        refine (run_cycle_of_ok unwatched inner unwatched').trans ?_
        rw [Store.after_announce, observers_watchedBy, Store.told_nil]
      have again : (s'.watchedBy []).watchedBy core.observers = s' := by
        rw [watchedBy_watchedBy, ← observed', watchedBy_self]
      refine (run_cycle_of_ok advanced inner settled).trans ?_
      rw [Store.after_announce, observed', alone]
      simp only [core_composite, again, path_watchedBy]

omit [Conduct H] in
/-- Who observes a state does not matter where a variable is added to it. -/
theorem run_injectVariable_watchedBy (observers : List (Observer H)) (name : String) (value : Value)
    (s : State H) (σ : Store H) :
    ((s.watchedBy observers).injectVariable name value).run σ =
      let injected := (s.injectVariable name value).run σ
      ((injected.1.1, injected.1.2.watchedBy observers), injected.2) := by
  have seen : (s.watchedBy observers).ensureScope.run σ =
      let seen := s.ensureScope.run σ
      ((seen.1.1, seen.1.2.watchedBy observers), seen.2) := by
    cases s with
    | leaf core | composite core routes before active after =>
      obtain ⟨place, typeName, running, scope, behavior, others⟩ := core
      cases scope <;> rfl
  have linked (scope : Address) (t : State H) (τ : Store H) :
      (attach scope (t.watchedBy observers)).run τ =
        let linked := (attach scope t).run τ
        (linked.1.watchedBy observers, linked.2) := by
    cases t <;> rfl
  have named (t : State H) : (t.watchedBy observers).name = t.name := by cases t <;> rfl
  simp only [injectVariable, StoreM.run_bind, seen]
  split
  · simp only [StoreM.run_bind, StoreM.run_pure, linked, named]
  · simp only [StoreM.run_pure, named]

end State

/-! ## Moves with and without observers -/

/-- The move runs a cycle of the root. -/
def Move.isCycle : Move H → Bool
  | .operate 0 .cycle => true
  | _ => false

/-- The move runs a cycle of the root, posts a command or adds a variable. -/
def Move.isDriving : Move H → Bool
  | .operate 0 .cycle => true
  | .operate _ (.injectVariable ..) => true
  | .post .. | .declare .. => true
  | _ => false

/-- The moves that drive a machine. -/
theorem Move.eq_of_isDriving {move : Move H} (drives : move.isDriving) :
    move = .operate 0 .cycle ∨
    (∃ depth name value, move = .operate depth (.injectVariable name value)) ∨
    (∃ state command, move = .post state command) ∨
    ∃ scope name value, move = .declare scope name value := by
  cases move with
  | operate depth operation =>
    cases operation with
    | cycle => cases depth <;> simp_all [isDriving]
    | injectVariable name value => simp
    | reset | setPath path | restore checkpoint | observe observer =>
      cases depth <;> simp [isDriving] at drives
  | post state command | declare scope name value => simp

namespace Machine

open State

/-- The machine with nothing to observe its root. -/
def unwatched (machine : Machine H) : Machine H := ⟨machine.root.watchedBy [], machine.store⟩

variable [Conduct H] {machine : Machine H}

/-- The machine with observers of its root, which have been told of a change if there is one. -/
def told (observers : List (Observer H)) (change : Option PathChange) (machine : Machine H) :
    Machine H :=
  ⟨machine.root.watchedBy observers, machine.store.told observers change⟩

/-- The change of path that a move makes: there is one if the chain is not of the same states then. -/
def change? (machine : Machine H) (move : Move H) : Option PathChange :=
  let later := (machine.move move).2.root
  if later.chain.map State.address = machine.root.chain.map State.address then none
  else some ⟨machine.root.path, later.path, machine.store.clock⟩

/-- The changes that the moves of a run make, move by move. -/
def changes (machine : Machine H) : List (Move H) → List (Option PathChange)
  | [] => []
  | move :: moves => machine.change? move :: (machine.move move).2.changes moves

/-- There is a change just if the path is another one. -/
theorem change?_eq (reachable : machine.Reachable) (move : Move H) :
    machine.change? move = PathChange.between? machine.root.path (machine.move move).2.root.path
      machine.store.clock := by
  have same := path_eq_iff (reachable.run [move]) reachable
    (address_eq_of_layout_eq (layout_move machine move))
  simp only [change?, PathChange.between?]
  exact if_congr same.symm rfl rfl

/-- Moves that leave the outline as it is make no change. -/
theorem change?_of_outline {move : Move H}
    (same : (machine.move move).2.root.outline = machine.root.outline) :
    machine.change? move = none := by
  have places (s : State H) : s.chain.map State.address = s.outline.chain.map State.address := by
    simp [chain_outline, Function.comp_def]
  exact if_pos (by rw [places, same, ← places])

/-- A cycle of the root goes as if nothing observed it, and then its observers are told. -/
theorem move_cycle_watched (reachable : machine.Reachable) :
    machine.move (.operate 0 .cycle) =
      let alone := machine.unwatched.move (.operate 0 .cycle)
      (alone.1, alone.2.told machine.root.core.observers (machine.change? (.operate 0 .cycle))) := by
  have clock : ((machine.root.watchedBy []).cycle.run machine.store).2.clock =
      machine.store.clock :=
    Store.keepsClock_lasting.cycle Store.keepsClock_lasting.recordChange (fun _ _ => trivial) _
  rw [change?_eq reachable, move_cycle_eq, move_cycle_eq, run_cycle_watched]
  simp only [unwatched, told, path_watchedBy, clock]

/-- Where a variable is added, nothing is told. -/
theorem move_injectVariable_watched (depth : Nat) (name : String) (value : Value) :
    machine.move (.operate depth (.injectVariable name value)) =
      let alone := machine.unwatched.move (.operate depth (.injectVariable name value))
      (alone.1, alone.2.told machine.root.core.observers none) := by
  obtain ⟨root, σ⟩ := machine
  cases depth with
  | zero =>
    have observed : ((root.injectVariable name value).run σ).1.2.core.observers =
        root.core.observers :=
      feature_eq_of_survey_eq (survey_injectVariable (fun _ _ => rfl) name value root σ)
    simp only [move, onActive, perform, unwatched, StoreM.run_bind, StoreM.run_pure,
      run_injectVariable_watchedBy, told, Store.told, watchedBy_watchedBy]
    rw [← observed, watchedBy_self]
  | succ depth =>
    cases root with
    | leaf core => rfl
    | composite core routes before active after => rfl

/-- Adding a variable makes no change. -/
theorem change?_injectVariable (depth : Nat) (name : String) (value : Value) :
    machine.change? (.operate depth (.injectVariable name value)) = none := by
  apply change?_of_outline
  exact onActive_induction (motive := fun s _ s' _ => s'.outline = s.outline)
    (fun _ _ _ _ performs => (performs.of_passive rfl).1) (fun _ _ => rfl)
    (fun _ _ _ _ _ _ _ _ same => outline_active same) depth machine.root machine.store

/-- A move that drives a machine goes as if nothing observed the root, and then the observers of the
root are told of the change, if there is one. -/
theorem move_watched (reachable : machine.Reachable) {move : Move H} (drives : move.isDriving) :
    machine.move move =
      let alone := machine.unwatched.move move
      (alone.1, alone.2.told machine.root.core.observers (machine.change? move)) := by
  have again : (machine.root.watchedBy []).watchedBy machine.root.core.observers = machine.root := by
    rw [watchedBy_watchedBy, watchedBy_self]
  obtain rfl | ⟨depth, name, value, rfl⟩ | ⟨state, command, rfl⟩ | ⟨scope, name, value, rfl⟩ :=
    move.eq_of_isDriving drives
  · exact move_cycle_watched reachable
  · rw [change?_injectVariable]
    exact move_injectVariable_watched depth name value
  · rw [change?_of_outline rfl]
    rcases posted : (Store.post state command).run machine.store with ⟨accepted, σ⟩
    simp only [Machine.move, posted, unwatched, told, Store.told, again]
  · rw [change?_of_outline rfl]
    rcases declared : (Store.declare scope name value).run machine.store with ⟨free, σ⟩
    simp only [Machine.move, declared, unwatched, told, Store.told, again]

/-- Only cycles make changes. -/
theorem isCycle_of_change? {move : Move H} (drives : move.isDriving)
    (changed : (machine.change? move).isSome) : move.isCycle := by
  obtain rfl | ⟨depth, name, value, rfl⟩ | ⟨state, command, rfl⟩ | ⟨scope, name, value, rfl⟩ :=
    move.eq_of_isDriving drives
  · rfl
  · rw [change?_injectVariable] at changed
    contradiction
  · rw [change?_of_outline rfl] at changed
    contradiction
  · rw [change?_of_outline rfl] at changed
    contradiction

end Machine

/-! ## What is told in a run -/

/-- Changes that lead from one path to another: each begins where the one before ends, and none ends
where it begins. -/
inductive Linked : String → List PathChange → String → Prop
  | here (path : String) : Linked path [] path
  | next (change : PathChange) {changes : List PathChange} {last : String}
    (moves : change.oldPath ≠ change.newPath) (rest : Linked change.newPath changes last) :
    Linked change.oldPath (change :: changes) last

/-- Of all the observers in a tree only one of the state itself records into a history. -/
structure State.FedBy (s : State H) (name : String) (limit : Option Nat) : Prop where
  own : s.core.limits name = [limit]
  others : ∀ child ∈ s.children, ∀ t ∈ child.subtree, t.core.limits name = []

namespace Machine

open State

variable [Conduct H] {machine : Machine H} {moves : List (Move H)}

/-- A run of a machine whose observers are told of changes, move by move: each move goes as if nothing
observed the root, and then every observer of the root is told of the change that comes with the move,
if there is one. -/
inductive Tells : Machine H → List (Move H) → List (Option PathChange) → Prop
  | done (machine : Machine H) : Tells machine [] []
  | next {machine : Machine H} {move : Move H} {moves : List (Move H)} {change : Option PathChange}
    {changes : List (Option PathChange)}
    (watched : machine.move move =
      let alone := machine.unwatched.move move
      (alone.1, alone.2.told machine.root.core.observers change))
    (rest : Tells (machine.move move).2 moves changes) :
    Tells machine (move :: moves) (change :: changes)

theorem tells_changes (reachable : machine.Reachable) (driven : ∀ move ∈ moves, move.isDriving) :
    Tells machine moves (machine.changes moves) := by
  induction moves generalizing machine with
  | nil => exact .done machine
  | cons move moves ih =>
    exact .next (move_watched reachable (driven move List.mem_cons_self))
      (ih (reachable.run [move]) fun other mem => driven other (List.mem_cons_of_mem _ mem))

/-- Only cycles make changes in a run. -/
theorem isCycle_of_mem_zip (driven : ∀ move ∈ moves, move.isDriving) :
    ∀ pair ∈ moves.zip (machine.changes moves), pair.2.isSome → pair.1.isCycle := by
  induction moves generalizing machine with
  | nil => simp [changes]
  | cons move moves ih =>
    intro pair mem
    rcases List.mem_cons.1 mem with rfl | mem
    · exact isCycle_of_change? (driven move List.mem_cons_self)
    · exact ih (fun other mem => driven other (List.mem_cons_of_mem _ mem)) pair mem

/-- The changes of a run link up. -/
theorem linked_changes (reachable : machine.Reachable) (moves : List (Move H)) :
    Linked machine.root.path (machine.changes moves).reduceOption (machine.run moves).2.root.path := by
  induction moves generalizing machine with
  | nil => exact .here _
  | cons move moves ih =>
    have rest := ih (reachable.run [move])
    rw [changes, change?_eq reachable]
    by_cases same : (machine.move move).2.root.path = machine.root.path
    · rw [PathChange.between?, if_pos same, List.reduceOption_cons_of_none, ← same]
      exact rest
    · rw [PathChange.between?, if_neg same, List.reduceOption_cons_of_some]
      exact .next ⟨_, _, _⟩ (Ne.symm same) rest

/-! ## Histories -/

omit [Conduct H] in
/-- Who records into a history shows in the survey of limits. -/
theorem fedBy_iff {s : State H} {name : String} {limit : Option Nat} :
    s.FedBy name limit ↔ ∃ others, s.survey (Core.limits name) = [limit] :: others ∧
      ∀ limits ∈ others, limits = [] := by
  have inner (P : List (Option Nat) → Prop) :
      (∀ limits ∈ s.children.flatMap (survey (Core.limits name)), P limits) ↔
        ∀ child ∈ s.children, ∀ t ∈ child.subtree, P (t.core.limits name) := by
    constructor
    · intro all child mem t inside
      exact all _ (List.mem_flatMap.2 ⟨child, mem, List.mem_map_of_mem inside⟩)
    · intro all limits listed
      obtain ⟨child, mem, below⟩ := List.mem_flatMap.1 listed
      obtain ⟨t, inside, eq⟩ := List.mem_map.1 below
      exact eq ▸ all child mem t inside
  rw [survey_eq]
  constructor
  · rintro ⟨own, others⟩
    exact ⟨_, by rw [own], (inner _).2 others⟩
  · rintro ⟨others, eq, none⟩
    obtain ⟨own, rfl⟩ := List.cons.inj eq
    exact ⟨own, (inner _).1 none⟩

/-- What shows neither who runs nor what is kept or in sight stays as it is where a machine is driven. -/
theorem survey_move {α : Type} {feature : Core H → α} (fitted : Core.Fitted feature)
    (blind : Core.Blind feature) {move : Move H} (drives : move.isDriving) :
    (machine.move move).2.root.survey feature = machine.root.survey feature := by
  obtain rfl | ⟨depth, name, value, rfl⟩ | ⟨state, command, rfl⟩ | ⟨scope, name, value, rfl⟩ :=
    move.eq_of_isDriving drives
  · obtain ⟨marks, outcome, cycles, -, -⟩ := machine.move_cycle
    exact cycles.survey_eq fitted
  · have here (s : State H) (σ : Store H) :
        ((s.perform (.injectVariable name value)).run σ).1.2.survey feature = s.survey feature :=
      survey_injectVariable blind name value s σ
    exact survey_onActive here depth machine.root machine.store
  · rfl
  · rfl

/-- Driving a machine whose tree does not record into a history leaves the history as it is. -/
theorem history_move {name : String} (clear : ∀ t ∈ machine.root.subtree, t.core.limits name = [])
    {move : Move H} (drives : move.isDriving) :
    (machine.move move).2.store.history name = machine.store.history name := by
  have steady := Store.keepsHistories_steady (H := H)
  obtain rfl | ⟨depth, title, value, rfl⟩ | ⟨state, command, rfl⟩ | ⟨scope, title, value, rfl⟩ :=
    move.eq_of_isDriving drives
  · rw [move_cycle_eq]
    exact history_cycle clear machine.store
  · have here (s : State H) : Along Store.KeepsHistories (s.perform (.injectVariable title value)) :=
      steady.bind (steady.injectVariable Store.keepsHistories_openScope title value s) fun _ =>
        steady.refl
    have kept := steady.onActive (s := machine.root) (fun s _ => here s) depth fun _ _ => trivial
    exact (kept machine.store).history_eq name
  · exact (steady.post state command machine.store).history_eq name
  · exact (steady.declare scope title value machine.store).history_eq name

/-- A recorder of the root records the change that a move makes, if there is one. -/
theorem history_move_of_fedBy (reachable : machine.Reachable) {name : String} {limit : Option Nat}
    (fed : machine.root.FedBy name limit) {move : Move H} (drives : move.isDriving) :
    (machine.move move).2.store.history name =
      (machine.store.history name).recordAll limit (machine.change? move).toList := by
  have clear : ∀ t ∈ machine.unwatched.root.subtree, t.core.limits name = [] := by
    intro t mem
    rcases mem_subtree.1 mem with rfl | ⟨child, inside, below⟩
    · exact congrArg (List.filterMap _) (observers_watchedBy [] machine.root)
    · rw [unwatched, children_watchedBy] at inside
      exact fed.others child inside t below
  rw [move_watched reachable drives]
  exact (Store.history_told_of_one fed.own _ _).trans
    (congrArg (PathHistory.recordAll limit _) (history_move clear drives))

/-- The recorder of a root leaves the earlier history followed by all changes, or the newest part. -/
theorem history_run (reachable : machine.Reachable) {name : String} {limit : Option Nat}
    (fed : machine.root.FedBy name limit) (driven : ∀ move ∈ moves, move.isDriving) :
    (machine.run moves).2.store.history name =
      (machine.store.history name).recordAll limit (machine.changes moves).reduceOption := by
  induction moves generalizing machine with
  | nil => rfl
  | cons move moves ih =>
    have drives := driven move List.mem_cons_self
    have fed' : (machine.move move).2.root.FedBy name limit := by
      rw [fedBy_iff, survey_move ⟨fun _ _ => rfl, fun _ => rfl, fun _ => rfl⟩ (fun _ _ => rfl) drives,
        ← fedBy_iff]
      exact fed
    have rest := ih (reachable.run [move]) fed' fun other mem =>
      driven other (List.mem_cons_of_mem _ mem)
    have here := history_move_of_fedBy reachable fed drives
    refine rest.trans ?_
    rw [show (machine.run [move]).2 = (machine.move move).2 from rfl, here, changes]
    cases machine.change? move with
    | none => rw [List.reduceOption_cons_of_none]; rfl
    | some change => rw [List.reduceOption_cons_of_some]; rfl

/-- Where a root is observed while its cycles run and commands and variables are given, each move goes
as if it were not observed, and then each observer is told once of the change of the chain, if there is
one, which only a cycle makes.  The changes link up from the path at the start to the path at the end.
A history that one recorder of the root feeds is what it was followed by the changes, or the newest part
of that if the recorder is bounded and there was a change. -/
theorem observers_told_of_changes (reachable : machine.Reachable)
    (driven : ∀ move ∈ moves, move.isDriving) :
    let changes := machine.changes moves
    let told := changes.reduceOption
    let later := (machine.run moves).2
    Tells machine moves changes ∧
    (∀ pair ∈ moves.zip changes, pair.2.isSome → pair.1.isCycle) ∧
    Linked machine.root.path told later.root.path ∧
    ∀ name limit, machine.root.FedBy name limit →
      let earlier := machine.store.history name
      later.store.history name =
        if told = [] then earlier else PathHistory.newest limit ⟨earlier.changes ++ told⟩ := by
  intro changes told later
  refine ⟨tells_changes reachable driven, isCycle_of_mem_zip driven, linked_changes reachable moves, ?_⟩
  intro name limit fed earlier
  have recorded := history_run reachable fed driven
  by_cases nothing : told = []
  · rw [if_pos nothing]
    exact recorded.trans (congrArg (PathHistory.recordAll limit · _) nothing)
  · rw [if_neg nothing]
    exact recorded.trans (PathHistory.recordAll_eq limit _ nothing)

end Machine

/-! ## A machine with recorders -/

namespace Sample

open Script

/-- The small machine, with a recorder of the newest change on its root. -/
def recorded : Machine stage :=
  (machine.run [.operate 0 (.observe (.recorder "newest" (some 1)))]).2

/-- A machine that is driven into work. -/
def drive : List (Move stage) :=
  [.post part order, .operate 0 .cycle, .operate 0 (.injectVariable "x" ⟨"u8", .text "1"⟩),
    .operate 0 .cycle]

end Sample

/-- The small machine changes its path in the first of two cycles. -/
theorem Machine.observers_told_of_changes_sample :
    let machine := Sample.recorded
    let moves := Sample.drive
    let changes := machine.changes moves
    let told := changes.reduceOption
    let later := (machine.run moves).2
    machine.Reachable ∧ (∀ move ∈ moves, move.isDriving) ∧
    machine.root.FedBy "newest" (some 1) ∧
    changes = [none, some ⟨"R->Idle", "R->Work->Part", Sample.clock⟩, none, none] ∧
    Tells machine moves changes ∧
    (∀ pair ∈ moves.zip changes, pair.2.isSome → pair.1.isCycle) ∧
    Linked machine.root.path told later.root.path ∧
    ∀ name limit, machine.root.FedBy name limit →
      let earlier := machine.store.history name
      later.store.history name =
        if told = [] then earlier else PathHistory.newest limit ⟨earlier.changes ++ told⟩ := by
  have reachable : Sample.recorded.Reachable := Sample.machine_started.reachable _
  have driven : ∀ move ∈ Sample.drive, move.isDriving := by decide
  have fed : Sample.recorded.root.FedBy "newest" (some 1) := ⟨rfl, by decide +kernel⟩
  exact ⟨reachable, driven, fed, by decide +kernel, observers_told_of_changes reachable driven⟩

end Statechart
