import Statechart.Proofs.Building
import Statechart.Script.Perform

/-!
# What moves do

`Performs` lists all that an operation can do to a state: it runs a cycle, it resets, it points the
chain along a path, or it changes no more than the outline leaves out.  A move carries out an
operation somewhere on the active chain, or it does not touch the tree at all; `move_induction` and
`run_induction` take what holds of operations to moves and to whole runs.
-/
namespace Statechart

variable {H : Host}

namespace Store

theorem fires_openScope (owner : Address) (σ : Store H) : Fires σ (σ.after (openScope owner)) [] := by
  rcases found : σ.scopes.get? owner with _ | scope
  · simp only [after, openScope, StoreM.run_modify, found]
    exact ⟨[], ⟨rfl, fun _ => rfl⟩, rfl⟩
  · simp only [after, openScope, StoreM.run_modify, found]
    exact .refl σ

theorem fires_declare (owner : Address) (name : String) (value : Value) (σ : Store H) :
    Fires σ (σ.after (declare owner name value)) [] := ⟨[], records_declare owner name value σ, rfl⟩

theorem fires_post (state : Address) (command : Command) (σ : Store H) :
    Fires σ (σ.after (post state command)) [] := by
  obtain ⟨events, recorded, hosted⟩ := records_post state command σ
  exact ⟨events, recorded, marksIn_eq_nil hosted⟩

/-- One operation after another, neither of which makes a mark. -/
theorem Fires.then {σ₁ σ₂ σ₃ : Store H} (h : Fires σ₁ σ₂ []) (k : Fires σ₂ σ₃ []) :
    Fires σ₁ σ₃ [] := h.trans k

end Store

/-- The operation has nothing to do with activity. -/
def Operation.isPassive : Operation H → Bool
  | .injectVariable .. | .observe _ => true
  | .cycle | .reset | .setPath _ | .restore _ => false

/-- The operation sets the path. -/
def Operation.setsPath : Operation H → Bool
  | .setPath _ | .restore _ => true
  | .cycle | .reset | .injectVariable .. | .observe _ => false

/-- The move operates on the root, if it has to do with activity. -/
def Move.isRooted : Move H → Bool
  | .operate depth operation => depth = 0 || operation.isPassive
  | .post .. | .declare .. => true

namespace State

variable {s s' : State H} {σ σ' : Store H}

mutual

theorem fires_inherit (scope : Address) (s : State H) (σ : Store H) :
    Store.Fires σ (σ.after (inherit scope s)) [] := by
  cases s with
  | leaf core =>
    rw [inherit]
    split
    · exact .refl σ
    · exact Store.fires_note _ σ
  | composite core routes before active after =>
    rw [inherit]
    split
    · exact .refl σ
    · simp only [Store.after_bind, Store.after_pure]
      exact (Store.fires_note _ σ).then ((fires_inheritAll scope before _).then
        ((fires_inherit scope active _).then (fires_inheritAll scope after _)))

theorem fires_inheritAll (scope : Address) (states : List (State H)) (σ : Store H) :
    Store.Fires σ (σ.after (inheritAll scope states)) [] := by
  cases states with
  | nil => exact .refl σ
  | cons state rest =>
    simp only [inheritAll, Store.after_bind, Store.after_pure]
    exact (fires_inherit scope state σ).then (fires_inheritAll scope rest _)

end

theorem fires_attach (scope : Address) (s : State H) (σ : Store H) :
    Store.Fires σ (σ.after (attach scope s)) [] := by
  cases s with
  | leaf core => exact .refl σ
  | composite core routes before active after =>
    simp only [attach, Store.after_bind, Store.after_pure]
    exact (fires_inheritAll scope before σ).then
      ((fires_inherit scope active _).then (fires_inheritAll scope after _))

theorem fires_ensureScope (s : State H) (σ : Store H) :
    Store.Fires σ (σ.after s.ensureScope) [] := by
  rcases seen : s.core.scope with _ | scope
  · simp only [ensureScope, seen, Store.after_bind, Store.after_pure]
    exact Store.fires_openScope _ σ
  · simp only [ensureScope, seen, Store.after_pure]
    exact .refl σ

theorem fires_injectVariable (name : String) (value : Value) (s : State H) (σ : Store H) :
    Store.Fires σ (σ.after (s.injectVariable name value)) [] := by
  rw [injectVariable, Store.after_bind]
  refine (fires_ensureScope s σ).then ?_
  rw [Store.after_bind]
  refine (Store.fires_declare (s.ensureScope.run σ).1.1 name value (σ.after s.ensureScope)).then ?_
  split
  · simp only [Store.after_bind, Store.after_pure]
    exact (fires_attach _ _ _).then (Store.fires_note _ _)
  · exact .refl _

/-- All that an operation can do to a state. -/
inductive Performs (s : State H) (σ : Store H) : Operation H → State H → Store H → Prop
  | cycle {marks : List Mark} {outcome : Except Fault (Option Tag)} {s' : State H} {σ' : Store H}
    (cycles : Cycles s marks outcome s') (fired : Store.Fires σ σ' marks) :
    Performs s σ .cycle s' σ'
  | reset {marks : List Mark} {result : Except Fault Unit} {s' : State H} {σ' : Store H}
    (resets : Resets s marks result s') (fired : Store.Fires σ σ' marks) :
    Performs s σ .reset s' σ'
  | path {operation : Operation H} {names : List String} {marks : List Mark} {s' : State H}
    {σ' : Store H} (sets : operation.setsPath) (points : Points names s marks s')
    (fired : Store.Fires σ σ' marks) : Performs s σ operation s' σ'
  /-- It does not change the outline, and makes no mark. -/
  | outline {operation : Operation H} {s' : State H} {σ' : Store H}
    (same : s'.outline = s.outline) (fired : Store.Fires σ σ' []) : Performs s σ operation s' σ'

theorem Performs.layout_eq {operation : Operation H} (h : Performs s σ operation s' σ') :
    s'.layout = s.layout := by
  cases h with
  | cycle cycles fired => exact cycles.layout_eq
  | reset resets fired => exact resets.layout_eq
  | path sets points fired => exact points.layout_eq
  | outline same fired => exact layout_eq_of_outline_eq same

/-- All that is off the chain is dormant after every operation. -/
theorem Performs.idle {operation : Operation H} (h : Performs s σ operation s' σ')
    (built : s.WellBuilt) (idle : s.Idle) : s'.Idle := by
  cases h with
  | cycle cycles fired => exact cycles.idle built idle
  | reset resets fired => exact resets.idle built idle
  | path sets points fired => exact points.idle built idle
  | outline same fired => exact idle.of_outline same

/-- A passive operation does not change the outline, and makes no mark. -/
theorem Performs.of_passive {operation : Operation H} (h : Performs s σ operation s' σ')
    (passive : operation.isPassive) : s'.outline = s.outline ∧ Store.Fires σ σ' [] := by
  cases h with
  | cycle => contradiction
  | reset => contradiction
  | path sets points fired => cases operation <;> contradiction
  | outline same fired => exact ⟨same, fired⟩

variable [Conduct H]

/-- Every operation does one of these. -/
theorem performs_run (operation : Operation H) (s : State H) (σ : Store H) :
    Performs s σ operation ((s.perform operation).run σ).1.2 ((s.perform operation).run σ).2 := by
  cases operation with
  | cycle =>
    obtain ⟨marks, cycles, fired⟩ := cycles_run s σ
    have run : ((s.perform .cycle).run σ).1.2 = (s.cycle.run σ).1.2 ∧
        ((s.perform .cycle).run σ).2 = σ.after s.cycle := by
      rcases cycled : s.cycle.run σ with ⟨⟨fault | request, s'⟩, σ'⟩ <;>
        simp only [perform, StoreM.run_bind, cycled, StoreM.run_pure, Store.after, and_self]
    rw [run.1, run.2]
    exact .cycle cycles fired
  | reset =>
    obtain ⟨marks, resets, fired⟩ := resets_run s σ
    exact .reset resets fired
  | setPath text =>
    rcases setPath_run text s σ with ⟨same, fired⟩ | ⟨names, marks, resolved, points, fired⟩
    · exact .outline (congrArg outline same) fired
    · exact .path rfl points fired
  | restore checkpoint =>
    have rule := restore_run checkpoint s σ
    have run : ((s.perform (.restore checkpoint)).run σ).1.2 = ((s.restore checkpoint).run σ).1.2 ∧
        ((s.perform (.restore checkpoint)).run σ).2 = σ.after (s.restore checkpoint) := by
      rcases restored : (s.restore checkpoint).run σ with ⟨⟨fault | ⟨⟩, s'⟩, σ'⟩ <;>
        simp only [perform, StoreM.run_bind, restored, StoreM.run_pure, Store.after, and_self]
    rw [run.1, run.2]
    rcases rule with ⟨same, fired⟩ | ⟨names, marks, resolved, points, fired⟩
    · exact .outline (congrArg outline same) fired
    · exact .path rfl points fired
  | injectVariable name value =>
    exact .outline (outline_injectVariable name value s σ) (fires_injectVariable name value s σ)
  | observe observer => exact .outline (outline_observe observer s) (.refl σ)

/-- What holds of an operation where it is carried out holds of it from every state above. -/
theorem onActive_induction {operation : Operation H}
    {motive : State H → Store H → State H → Store H → Prop}
    (here : ∀ s σ s' σ', Performs s σ operation s' σ' → motive s σ s' σ')
    (short : ∀ core σ, motive (.leaf core) σ (.leaf core) σ)
    (inner : ∀ core routes before active after active' σ σ', motive active σ active' σ' →
      motive (.composite core routes before active after) σ
        (.composite core routes before active' after) σ')
    (depth : Nat) (s : State H) (σ : Store H) :
    motive s σ ((s.onActive (fun s => s.perform operation) depth).run σ).1.2
      ((s.onActive (fun s => s.perform operation) depth).run σ).2 := by
  induction depth generalizing s with
  | zero => exact here _ _ _ _ (performs_run operation s σ)
  | succ depth ih =>
    cases s with
    | leaf core => exact short core σ
    | composite core routes before active after => exact inner _ _ _ _ _ _ _ _ (ih active)

/-- No operation on a state of the chain changes the layout. -/
theorem layout_onActive (operation : Operation H) (depth : Nat) (s : State H) (σ : Store H) :
    ((s.onActive (fun s => s.perform operation) depth).run σ).1.2.layout = s.layout :=
  onActive_induction (motive := fun s _ s' _ => s'.layout = s.layout)
    (fun _ _ _ _ performs => performs.layout_eq) (fun _ _ => rfl)
    (fun _ _ _ _ _ _ _ _ same => layout_active same) depth s σ

end State

namespace Machine

open State

variable [Conduct H] {machine : Machine H}

/-- The machine has just been built. -/
def Started (machine : Machine H) : Prop :=
  ∃ config name typeName blueprint store, (start config name typeName blueprint store).1 = .ok machine

/-- The machine has made some moves since it was built. -/
def Reachable (machine : Machine H) : Prop :=
  ∃ (first : Machine H) (moves : List (Move H)), first.Started ∧ (first.run moves).2 = machine

omit [Conduct H] in
/-- What is started is what its blueprint builds. -/
theorem run_of_start {config : Config} {name typeName : String} {blueprint : Blueprint H}
    {σ : Store H} (started : (start config name typeName blueprint σ).1 = .ok machine) :
    (blueprint.start config name typeName).run σ = (.ok machine.root, machine.store) := by
  rcases run : (blueprint.start config name typeName).run σ with ⟨fault | root, σ'⟩
  · rw [start, run] at started
    nomatch started
  · rw [start, run] at started
    obtain rfl := Except.ok.inj started
    rfl

omit [Conduct H] in
theorem started_of_start {config : Config} {name typeName : String} {blueprint : Blueprint H}
    {σ : Store H} (started : (start config name typeName blueprint σ).1 = .ok machine) :
    machine.Started := ⟨config, name, typeName, blueprint, σ, started⟩

omit [Conduct H] in
/-- A machine that has just been built is well built and dormant, and nothing is above its root. -/
theorem Started.built (h : machine.Started) :
    machine.root.WellBuilt ∧ machine.root.Dormant ∧ machine.root.address.above = [] := by
  obtain ⟨config, name, typeName, blueprint, store, h⟩ := h
  exact Blueprint.start_spec (run_of_start h)

omit [Conduct H] in
theorem Started.spec (h : machine.Started) : machine.root.WellBuilt ∧ machine.root.Dormant :=
  ⟨h.built.1, h.built.2.1⟩

/-- What holds of operations and of changes outside the tree holds of moves. -/
theorem move_induction {motive : State H → Store H → State H → Store H → Prop} (move : Move H)
    (here : ∀ depth operation, move = .operate depth operation →
      motive machine.root machine.store
        ((machine.root.onActive (fun s => s.perform operation) depth).run machine.store).1.2
        ((machine.root.onActive (fun s => s.perform operation) depth).run machine.store).2)
    (outside : ∀ σ, Store.Fires machine.store σ [] →
      motive machine.root machine.store machine.root σ) :
    motive machine.root machine.store (machine.move move).2.root (machine.move move).2.store := by
  cases move with
  | operate depth operation => exact here depth operation rfl
  | post state command => exact outside _ (Store.fires_post state command machine.store)
  | declare scope name value => exact outside _ (Store.fires_declare scope name value machine.store)

/-- A rooted move is an operation on the root, or it does not change the outline. -/
theorem move_rooted (machine : Machine H) {move : Move H} (rooted : move.isRooted) :
    (∃ operation, move = .operate 0 operation ∧ Performs machine.root machine.store operation
      (machine.move move).2.root (machine.move move).2.store) ∨
    ((machine.move move).2.root.outline = machine.root.outline ∧
      Store.Fires machine.store (machine.move move).2.store []) := by
  cases move with
  | operate depth operation =>
    cases depth with
    | zero => exact .inl ⟨operation, rfl, performs_run operation machine.root machine.store⟩
    | succ depth =>
      have passive : operation.isPassive := by simpa [Move.isRooted] using rooted
      exact .inr (onActive_induction
        (motive := fun s σ s' σ' => s'.outline = s.outline ∧ Store.Fires σ σ' [])
        (fun _ _ _ _ performs => performs.of_passive passive) (fun _ σ => ⟨rfl, .refl σ⟩)
        (fun _ _ _ _ _ _ _ _ kept => ⟨outline_active kept.1, kept.2⟩) _ _ _)
  | post state command => exact .inr ⟨rfl, Store.fires_post state command machine.store⟩
  | declare scope name value =>
    exact .inr ⟨rfl, Store.fires_declare scope name value machine.store⟩

/-- What every move of a run keeps, the run keeps. -/
theorem run_induction {motive : Machine H → Prop} {moves : List (Move H)}
    (step : ∀ move ∈ moves, ∀ machine, motive machine → motive (machine.move move).2)
    (h : motive machine) : motive (machine.run moves).2 := by
  induction moves generalizing machine with
  | nil => exact h
  | cons move moves ih =>
    exact ih (fun other mem => step other (List.mem_cons_of_mem _ mem))
      (step move List.mem_cons_self machine h)

/-- A run that goes on is a run of what it has made. -/
theorem run_append (machine : Machine H) (moves more : List (Move H)) :
    (machine.run (moves ++ more)).2 = ((machine.run moves).2.run more).2 := by
  induction moves generalizing machine with
  | nil => rfl
  | cons move moves ih => exact ih (machine.move move).2

theorem Reachable.run (h : machine.Reachable) (moves : List (Move H)) :
    (machine.run moves).2.Reachable := by
  obtain ⟨first, earlier, started, rfl⟩ := h
  exact ⟨first, earlier ++ moves, started, first.run_append earlier moves⟩

theorem Started.reachable {first : Machine H} (h : first.Started) (moves : List (Move H)) :
    (first.run moves).2.Reachable := ⟨first, moves, h, rfl⟩

/-- No move changes the layout. -/
theorem layout_move (machine : Machine H) (move : Move H) :
    (machine.move move).2.root.layout = machine.root.layout := by
  refine move_induction (motive := fun s _ s' _ => s'.layout = s.layout) move ?_ fun _ _ => rfl
  exact fun depth operation _ => layout_onActive operation depth machine.root machine.store

/-- No run changes the layout. -/
theorem layout_run (machine : Machine H) (moves : List (Move H)) :
    (machine.run moves).2.root.layout = machine.root.layout :=
  run_induction (motive := fun later => later.root.layout = machine.root.layout)
    (fun move _ later same => (layout_move later move).trans same) rfl

/-- All that is off the chain is dormant after every move, if it was before. -/
theorem idle_move (built : machine.root.WellBuilt) (idle : machine.root.Idle) (move : Move H) :
    (machine.move move).2.root.Idle := by
  revert built idle
  refine move_induction (motive := fun s _ s' _ => s.WellBuilt → s.Idle → s'.Idle) move ?_
    fun _ _ _ idle => idle
  intro depth operation _
  refine onActive_induction (motive := fun s _ s' _ => s.WellBuilt → s.Idle → s'.Idle)
    (fun _ _ _ _ performs => performs.idle) (fun _ _ _ idle => idle) ?_ depth _ _
  intro core routes before active after active' σ σ' kept built idle
  have below := idle_composite.1 idle
  exact idle_composite.2 ⟨below.1, kept built.inner below.2⟩

/-- A well-built machine with nothing awake off its chain is still so after a run. -/
theorem idle_run (built : machine.root.WellBuilt) (idle : machine.root.Idle)
    (moves : List (Move H)) :
    (machine.run moves).2.root.WellBuilt ∧ (machine.run moves).2.root.Idle :=
  run_induction (motive := fun machine => machine.root.WellBuilt ∧ machine.root.Idle)
    (fun move _ machine ⟨built, idle⟩ =>
      ⟨built.of_layout (layout_move machine move), idle_move built idle move⟩) ⟨built, idle⟩

/-- Every machine that can be reached is well built, and all that is off its chain is dormant. -/
theorem Reachable.spec (h : machine.Reachable) : machine.root.WellBuilt ∧ machine.root.Idle := by
  obtain ⟨first, moves, started, rfl⟩ := h
  exact idle_run started.spec.1 started.spec.2.idle moves

/-- Nothing is above the root of a machine that can be reached. -/
theorem Reachable.top (h : machine.Reachable) : machine.root.address.above = [] := by
  obtain ⟨first, moves, started, rfl⟩ := h
  rw [address_eq_of_layout_eq (layout_run first moves)]
  exact started.built.2.2

end Machine

/-! ## A small machine -/

namespace Sample

open Script State

/-- The tag of initial states. -/
def first : Tag := ⟨"Turn", .symbol "First"⟩

/-- The tag that leads to work. -/
def next : Tag := ⟨"Turn", .symbol "Next"⟩

/-- A command. -/
def order : Command := ⟨⟨"Order", .text "go"⟩, none⟩

/-- The part of a state that does nothing. -/
def mute : Part := ⟨[], [], []⟩

/-- The part of a state that asks for work on every step. -/
def eager : Part := ⟨[], [.go next], []⟩

/-- The part of a state that looks at the command and cannot be left. -/
def stuck : Part := ⟨[.raw], [.raw], [.fail (.stateNotFound "Part" "Way out")]⟩

/-- The place of the root. -/
def top : Address := .root 0 "R"

/-- The place of the state that works. -/
def work : Address := top.inner "Work"

/-- The place of the state beneath the one that works. -/
def part : Address := work.inner "Part"

/-- A state that has not been run yet. -/
def fresh (place : Address) (role : Part) : Core stage :=
  ⟨place, "Node", false, none, .new .node role, []⟩

/-- The root selects a state that asks for work, beside one that works in an inner state. -/
def root : State stage :=
  .composite (fresh top mute) ⟨[(first, "Idle"), (next, "Work")], "Idle"⟩ []
    (.leaf (fresh (top.inner "Idle") eager))
    [.composite (fresh work mute) ⟨[(first, "Part")], "Part"⟩ [] (.leaf (fresh part stuck)) []]

/-- How the root is built. -/
def cast : Cast :=
  .ofPart .node mute [⟨first, "Idle", "Node", true, .ofPart .node eager []⟩,
    ⟨next, "Work", "Node", false,
      .ofPart .node mute [⟨first, "Part", "Node", true, .ofPart .node stuck []⟩]⟩]

/-- The first instant of a year. -/
def clock : Instant :=
  ⟨⟨2024, 1, 1, by decide, by decide, by decide⟩,
    ⟨0, 0, 0, 0, by decide, by decide, by decide, by decide⟩⟩

/-- The machine of this root, as it is built on an empty store. -/
def machine : Machine stage :=
  ⟨root, ((cast.start .default "R" "Node").run (.initial .empty clock)).2⟩

theorem start_machine :
    (Machine.start .default "R" "Node" cast (.initial .empty clock)).1 = .ok machine := rfl

theorem machine_started : machine.Started := Machine.started_of_start start_machine

end Sample

end Statechart
