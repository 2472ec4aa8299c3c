import Statechart.Machine.Cycle
import Statechart.Proofs.Journal
import Statechart.Proofs.Tree

/-!
# Cycles step by step

A machine does not hold on to its mailboxes while it runs: every step on one is taken by itself, and
between two of them commands may be posted by whoever has a handle for posting.  A routine is an
operation that is cut into single steps on the store.  Main statement: run without a break, the
routine of a cycle is the cycle.
-/
namespace Statechart

variable {H : Host} {α β : Type}

/-- An operation that is cut into steps on the store. -/
inductive Routine (H : Host) (α : Type) : Type 1
  | done (result : α)
  /-- Take a step on the store, and go on with what comes of it. -/
  | act {β : Type} (step : StoreM H β) (next : β → Routine H α)

namespace Routine

/-- Go on with another routine. -/
def bind : Routine H α → (α → Routine H β) → Routine H β
  | .done result, f => f result
  | .act step next, f => .act step fun value => (next value).bind f

instance : Monad (Routine H) where
  pure := .done
  bind := bind

/-- A single step. -/
def step (op : StoreM H α) : Routine H α := .act op .done

/-- Take all steps without a break. -/
def run : Routine H α → StoreM H α
  | .done result => pure result
  | .act step next => do (next (← step)).run

@[simp] theorem run_pure (a : α) : (pure a : Routine H α).run = pure a := rfl

@[simp] theorem run_step (op : StoreM H α) : (step op).run = op := rfl

@[simp] theorem run_bind (x : Routine H α) (f : α → Routine H β) :
    (x >>= f).run = x.run >>= fun a => (f a).run := by
  induction x with
  | done result => rfl
  | act step next ih => exact congrArg (step >>= ·) (funext ih)

/-- Two ways to go on agree if they do after a failure and after a success. -/
theorem bind_outcome_congr {γ : Type} {op : StoreM H (Except Fault α × β)}
    {f g : Except Fault α × β → StoreM H γ}
    (failed : ∀ fault b, f (.error fault, b) = g (.error fault, b))
    (succeeded : ∀ a b, f (.ok a, b) = g (.ok a, b)) : op >>= f = op >>= g := by
  refine bind_congr ?_
  rintro ⟨fault | a, b⟩
  · exact failed fault b
  · exact succeeded a b

/-! ## Callbacks -/

/-- The steps of a program. -/
def program : Program H α → Routine H α
  | .done result => .done result
  | .read next => .act get fun store => program (next store.shared)
  | .write shared next =>
    .act (modify fun store => { store with shared := shared }) fun _ => program next
  | .remark said next => .act (Store.log (.remark said)) fun _ => program next
  | .post state command next =>
    .act (Store.post state command) fun accepted => program (next accepted)
  | .pending state next => .act get fun store => program (next (store.isPending state))
  | .look scope next => .act get fun store => program (next (store.scope scope))
  | .declare scope name value next =>
    .act (Store.declare scope name value) fun free => program (next free)

theorem run_program (body : Program H α) : (program body).run = body.run := by
  induction body with
  | done result => rfl
  | write shared next ih => exact congrArg (_ >>= fun _ : Unit => ·) ih
  | remark said next ih => exact congrArg (_ >>= fun _ : Unit => ·) ih
  | read next ih | post state command next ih | pending state next ih | look scope next ih
  | declare scope name value next ih => exact congrArg (_ >>= ·) (funext fun _ => ih _)

/-- The steps of a callback. -/
def call (phase : Phase) (requests : α → Option Tag) (command : Option Command)
    (body : View → H.Behavior → Program H (Except Fault α × H.Behavior)) (core : Core H) :
    Routine H (Except Fault α × Core H) := do
  step (Store.note (.callback phase core.name))
  let (result, behavior) ← program (body (core.view command) core.behavior)
  step (Store.log (.called (core.record phase requests command result)))
  pure (result, { core with behavior := behavior })

@[simp] theorem run_call (phase : Phase) (requests : α → Option Tag) (command : Option Command)
    (body : View → H.Behavior → Program H (Except Fault α × H.Behavior)) (core : Core H) :
    (call phase requests command body core).run = core.call phase requests command body := by
  simp only [call, Core.call, run_bind, run_step, run_program, run_pure]

variable [Conduct H]

/-- The steps of an entry. -/
def enter (command : Option Command) (core : Core H) : Routine H (Except Fault Unit × Core H) := do
  if core.running then pure (.ok (), core)
  else
    match ← call .entry (fun _ => none) command Conduct.entry core with
    | (.error fault, core) => pure (.error fault, core)
    | (.ok _, core) => pure (.ok (), { core with running := true })

@[simp] theorem run_enter (command : Option Command) (core : Core H) :
    (enter command core).run = core.enter command := by
  rw [enter, Core.enter]
  split
  · rfl
  · rw [run_bind, run_call]
    exact bind_outcome_congr (fun _ _ => rfl) fun _ _ => rfl

/-- The steps of an entry, and then of a step. -/
def advance (command : Option Command) (core : Core H) :
    Routine H (Except Fault (Option Tag) × Core H) := do
  match ← enter command core with
  | (.error fault, core) => pure (.error fault, core)
  | (.ok _, core) => call .step id command Conduct.step core

@[simp] theorem run_advance (command : Option Command) (core : Core H) :
    (advance command core).run = core.advance command := by
  rw [advance, Core.advance, run_bind, run_enter]
  exact bind_outcome_congr (fun _ _ => rfl) fun _ _ => run_call ..

/-- The steps of an exit. -/
def leave (core : Core H) : Routine H (Except Fault Unit × Core H) := do
  if core.running then call .exit (fun _ => none) none Conduct.exit core else pure (.ok (), core)

@[simp] theorem run_leave (core : Core H) : (leave core).run = core.leave := by
  rw [leave, Core.leave]
  split
  · exact run_call ..
  · rfl

/-! ## Resets -/

omit [Conduct H] in
/-- The steps of emptying a mailbox. -/
def discard (why : Option Command → MailStep) (state : Address) : Routine H Unit := do
  if let some command ← step (Store.drain why state) then
    step (Store.note (.staleDiscarded state.name command))

omit [Conduct H] in
@[simp] theorem run_discard (why : Option Command → MailStep) (state : Address) :
    (discard why state : Routine H Unit).run = Store.discard why state := by
  rw [discard, Store.discard, run_bind, run_step]
  refine bind_congr fun command => ?_
  cases command <;> rfl

omit [Conduct H] in
/-- The steps of a selection. -/
def activate (name : String) (state : State H) : Routine H (State H) := do
  let state := state.select name
  if let some active := state.activeChild? then discard .selected active.address
  pure state

omit [Conduct H] in
@[simp] theorem run_activate (name : String) (state : State H) :
    (activate name state).run = state.activate name := by
  rw [activate, State.activate]
  rcases (state.select name).activeChild? with _ | active
  · rfl
  · simp only [run_bind, run_discard, run_pure]

/-- The steps of a reset. -/
def reset : State H → Routine H (Except Fault Unit × State H)
  | .leaf core => do
    discard .discarded core.address
    match ← leave core with
    | (.error fault, core) => pure (.error fault, .leaf core)
    | (.ok _, core) =>
      step (Store.note (.reset core.name))
      pure (.ok (), .leaf core.stopped)
  | .composite core routes before active after => do
    discard .discarded core.address
    match ← leave core with
    | (.error fault, core) => pure (.error fault, .composite core routes before active after)
    | (.ok _, core) =>
      match ← reset active with
      | (.error fault, active) =>
        pure (.error fault, .composite core routes before active after)
      | (.ok _, active) =>
        let state ← activate routes.initial (.composite core.stopped routes before active after)
        step (Store.note (.reset core.name))
        pure (.ok (), state)

@[simp] theorem run_reset (state : State H) : (reset state).run = state.reset := by
  induction state using State.chainInduction with
  | leaf core =>
    rw [reset, State.reset, run_bind, run_discard]
    refine bind_congr fun _ => ?_
    rw [run_bind, run_leave]
    exact bind_outcome_congr (fun _ _ => rfl) fun _ _ => rfl
  | composite core routes before active after ih =>
    rw [reset, State.reset, run_bind, run_discard]
    refine bind_congr fun _ => ?_
    rw [run_bind, run_leave]
    refine bind_outcome_congr (fun _ _ => rfl) fun _ core => ?_
    rw [run_bind, ih]
    refine bind_outcome_congr (fun _ _ => rfl) fun _ active => ?_
    simp only [run_bind, run_activate, run_step, run_pure]

/-! ## Cycles -/

/-- The steps of following a request. -/
def follow (request : Tag) (state : State H) : Routine H (Except Fault Unit × State H) :=
  match state with
  | .leaf core => pure (.ok (), .leaf core)
  | .composite core routes before active after =>
    match routes.target? request with
    | none =>
      pure (.error (.unknownTransition core.name active.name request.label),
        .composite core routes before active after)
    | some target => do
      match ← reset active with
      | (.error fault, active) =>
        pure (.error fault, .composite core routes before active after)
      | (.ok _, active) =>
        step (Store.note (.transition core.name active.name target request))
        let state ← activate target (.composite core routes before active after)
        pure (.ok (), state)

@[simp] theorem run_follow (request : Tag) (state : State H) :
    (follow request state).run = state.follow request := by
  cases state with
  | leaf core => rfl
  | composite core routes before active after =>
    rw [follow, State.follow]
    rcases routes.target? request with _ | target
    · rfl
    · rw [run_bind, run_reset]
      refine bind_outcome_congr (fun _ _ => rfl) fun _ active => ?_
      simp only [run_bind, run_activate, run_step, run_pure]

/-- The steps of what is done about the outcome of the active inner state's cycle. -/
def settle (outcome : Except Fault (Option Tag)) (state : State H) :
    Routine H (Except Fault Unit × State H) :=
  match outcome with
  | .error fault => pure (.error fault, state)
  | .ok none => pure (.ok (), state)
  | .ok (some request) => follow request state

@[simp] theorem run_settle (outcome : Except Fault (Option Tag)) (state : State H) :
    (settle outcome state).run = state.settle outcome := by
  rcases outcome with fault | _ | request
  · rfl
  · rfl
  · exact run_follow request state

/-- The steps of telling one observer. -/
def tell (change : PathChange) : Observer H → Routine H Unit
  | .host observer => program (Conduct.notify change observer)
  | .recorder history limit => step (Store.recordChange history limit change)

@[simp] theorem run_tell (change : PathChange) (observer : Observer H) :
    (tell change observer).run = State.tell change observer := by
  cases observer with
  | host observer => exact run_program _
  | recorder history limit => rfl

/-- The steps of telling all observers of a changed path. -/
def announce (oldPath : String) (state : State H) : Routine H Unit := do
  let newPath := state.path
  if newPath ≠ oldPath then
    let change : PathChange := ⟨oldPath, newPath, (← step get).clock⟩
    state.core.observers.forM (tell change)

theorem run_forM_tell (change : PathChange) (observers : List (Observer H)) :
    (observers.forM (tell change)).run = observers.forM (State.tell change) := by
  induction observers with
  | nil => rfl
  | cons observer rest ih =>
    rw [List.forM, List.forM, run_bind, run_tell]
    exact bind_congr fun _ => ih

@[simp] theorem run_announce (oldPath : String) (state : State H) :
    (announce oldPath state).run = state.announce oldPath := by
  rw [announce, State.announce]
  split
  · simp only [run_bind, run_step, run_forM_tell]
  · rfl

/-- The steps of a cycle. -/
def cycle : State H → Routine H (Except Fault (Option Tag) × State H)
  | .leaf core => do
    let command ← step (Store.takeFrom core.address)
    let (requested, core) ← advance command core
    pure (requested, .leaf core)
  | .composite core routes before active after => do
    let oldPath := (State.composite core routes before active after).path
    let command ← step (Store.takeFrom core.address)
    match ← advance command core with
    | (.error fault, core) => pure (.error fault, .composite core routes before active after)
    | (.ok requested, core) =>
      if let some command := command then step (Store.handTo active.address command)
      let (outcome, active) ← cycle active
      let (settled, state) ← settle outcome (.composite core routes before active after)
      announce oldPath state
      pure (settled.map fun _ => requested, state)

/-- Without a break the steps of a cycle make up the cycle. -/
@[simp] theorem run_cycle (state : State H) : (cycle state).run = state.cycle := by
  induction state using State.chainInduction with
  | leaf core => simp only [cycle, State.cycle, run_bind, run_step, run_advance, run_pure]
  | composite core routes before active after ih =>
    rw [cycle, State.cycle, run_bind, run_step]
    refine bind_congr fun command => ?_
    rw [run_bind, run_advance]
    refine bind_outcome_congr (fun _ _ => rfl) fun requested core => ?_
    rcases command with _ | command <;>
      simp only [run_bind, run_step, run_settle, run_announce, run_pure, ih]

end Routine

end Statechart
