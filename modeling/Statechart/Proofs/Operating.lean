import Statechart.Proofs.Composing
import Statechart.Proofs.Moves

/-!
# What is done to a machine

Whatever is done to a tree is made of a few things: the programs of callbacks and observers, entries in
the journal, and single steps of mailboxes, scopes and histories.  A property of operations that passes
from operations to what is made of them therefore holds of all that is done to a tree, if it holds of
these.  Mailboxes are emptied and filled only at places of the tree, so the property need hold of them
only there.  The programs that make behaviours are not among what a machine is run by.
-/
namespace Statechart

variable {H : Host} {places : Address → Prop}

/-- All inner states stand at such places. -/
def State.Below (places : Address → Prop) (s : State H) : Prop :=
  ∀ child ∈ s.children, ∀ t ∈ child.subtree, places t.address

/-- The state and all beneath it stand at such places. -/
def State.Inside (places : Address → Prop) (s : State H) : Prop := ∀ t ∈ s.subtree, places t.address

namespace State

variable {core core' : Core H} {routes : Routes} {before after : List (State H)}
  {active active' s s' : State H}

theorem Inside.here (h : s.Inside places) : places s.address := h s (self_mem_subtree s)

theorem Inside.below (h : s.Inside places) : s.Below places :=
  fun child mem t inside => h t (mem_subtree.2 (.inr ⟨child, mem, inside⟩))

theorem Inside.of_layout (h : s.Inside places) (same : s'.layout = s.layout) :
    s'.Inside places := by
  intro t mem
  obtain ⟨u, there, placed⟩ := exists_of_layout_eq same mem
  exact placed ▸ h u there

theorem Below.inner (h : (composite core routes before active after).Below places) :
    active.Inside places := h active active_mem_children

theorem Below.select (h : s.Below places) (name : String) : (s.select name).Below places := by
  rwa [Below, children_select]

/-- Where the inner states stand does not change with the state itself and what its active inner state
becomes. -/
theorem Below.of_layout (h : (composite core routes before active after).Below places)
    (same : active'.layout = active.layout) :
    (composite core' routes before active' after).Below places := by
  intro child mem
  rw [children] at mem
  rcases List.mem_append.1 mem with mem | mem
  · exact h child (List.mem_append_left _ mem)
  · rcases List.mem_cons.1 mem with rfl | mem
    · exact h.inner.of_layout same
    · exact h child (List.mem_append_right _ (List.mem_cons_of_mem _ mem))

theorem layout_deactivate (s : State H) (σ : Store H) : (s.deactivate.run σ).1.layout = s.layout := by
  obtain ⟨marks, quiets, -⟩ := quiets_run s σ
  exact quiets.layout_eq

theorem layout_reset [Conduct H] (s : State H) (σ : Store H) :
    (s.reset.run σ).1.2.layout = s.layout := by
  obtain ⟨marks, resets, -⟩ := resets_run s σ
  exact resets.layout_eq

theorem layout_cycle [Conduct H] (s : State H) (σ : Store H) :
    (s.cycle.run σ).1.2.layout = s.layout := by
  obtain ⟨marks, cycles, -⟩ := cycles_run s σ
  exact cycles.layout_eq

theorem Below.activate (h : s.Below places) (name : String) (σ : Store H) :
    ((s.activate name).run σ).1.Below places := by
  rw [run_activate]
  exact h.select name

theorem Below.retarget (h : s.Below places) (name : String) (σ : Store H) :
    ((s.retarget name).run σ).1.Below places := by
  cases s with
  | leaf core => exact h
  | composite core routes before active after =>
    rw [State.retarget]
    split
    · exact h
    · exact (h.of_layout (layout_deactivate active σ)).activate name _

end State

variable {P : ∀ {α : Type}, StoreM H α → Prop}

/-! ## Linking -/

namespace Composes

open State

mutual

theorem inherit (h : Composes P) (scope : Address) (s : State H) : P (inherit scope s) := by
  cases s with
  | leaf core =>
    rw [State.inherit]
    split
    · exact h.pure _
    · exact h.bind (h.note _) fun _ => h.pure _
  | composite core routes before active after =>
    rw [State.inherit]
    split
    · exact h.pure _
    · exact h.bind (h.note _) fun _ => h.bind (inheritAll h scope before) fun _ =>
        h.bind (inherit h scope active) fun _ => h.bind (inheritAll h scope after) fun _ => h.pure _

theorem inheritAll (h : Composes P) (scope : Address) (states : List (State H)) :
    P (inheritAll scope states) := by
  cases states with
  | nil => exact h.pure _
  | cons state rest =>
    rw [State.inheritAll]
    exact h.bind (inherit h scope state) fun _ => h.bind (inheritAll h scope rest) fun _ => h.pure _

end

theorem attach (h : Composes P) (scope : Address) (s : State H) : P (attach scope s) := by
  cases s with
  | leaf core => exact h.pure _
  | composite core routes before active after =>
    exact h.bind (h.inheritAll _ _) fun _ => h.bind (h.inherit _ _) fun _ =>
      h.bind (h.inheritAll _ _) fun _ => h.pure _

theorem injectVariable (h : Composes P) (opens : ∀ owner, P (Store.openScope (H := H) owner))
    (declares : ∀ owner name value, P (Store.declare (H := H) owner name value)) (name : String)
    (value : Value) (s : State H) : P (s.injectVariable name value) := by
  have seen : P s.ensureScope := by
    rw [ensureScope]
    split
    · exact h.pure _
    · exact h.bind (opens _) fun _ => h.pure _
  refine h.bind seen fun σ => h.bind (declares _ _ _) fun τ => ?_
  split
  · exact h.bind (h.attach _ _) fun _ => h.bind (h.note _) fun _ => h.pure _
  · exact h.pure _

/-- What holds of an operation wherever it is carried out holds of it on the active chain. -/
theorem onActive {β : Type} (h : Composes P) {act : State H → StoreM H (β × State H)}
    (here : ∀ s : State H, s.Inside places → P (act s)) (depth : Nat) {s : State H}
    (inside : s.Inside places) : P (s.onActive act depth) := by
  induction depth generalizing s with
  | zero => exact h.bind (here s inside) fun _ => h.pure _
  | succ depth ih =>
    cases s with
    | leaf core => exact h.pure _
    | composite core routes before active after =>
      exact h.bind (ih inside.below.inner) fun _ => h.pure _

end Composes

/-! ## Setting the path -/

/-- The property passes on, and holds of emptying mailboxes at such places. -/
structure Empties (places : Address → Prop) (P : ∀ {α : Type}, StoreM H α → Prop) : Prop
    extends Composes P where
  drain : ∀ step state, places state → P (Store.drain step state)

namespace Empties

open State

theorem discard (h : Empties places P) (step : Option Command → MailStep) {state : Address}
    (allowed : places state) : P (Store.discard (H := H) step state) := by
  refine h.bind (h.drain step state allowed) fun σ => ?_
  split
  · exact h.note _
  · exact h.pure _

theorem activate (h : Empties places P) (name : String) {s : State H} (below : s.Below places) :
    P (s.activate name) := by
  rw [State.activate]
  split
  · next active child =>
    have mem := mem_children_of_activeChild? child
    exact h.bind (h.discard _ (below.select name active mem active (self_mem_subtree active)))
      fun _ => h.pure _
  · exact h.pure _

theorem deactivate (h : Empties places P) {s : State H} (inside : s.Inside places) :
    P s.deactivate := by
  induction s using chainInduction with
  | leaf core => exact h.bind (h.discard _ inside.here) fun _ => h.pure _
  | composite core routes before active after ih =>
    exact h.bind (h.discard _ inside.here) fun _ => h.bind (ih inside.below.inner) fun σ =>
      h.activate _ (inside.below.of_layout (layout_deactivate active σ))

theorem applyPath (h : Empties places P) (names : List String) {s : State H}
    (below : s.Below places) : P (s.applyPath names) := by
  induction names generalizing s with
  | nil => exact h.pure _
  | cons name names ih =>
    have turned : P (s.retarget name) := by
      cases s with
      | leaf core => exact h.pure _
      | composite core routes before active after =>
        rw [retarget]
        split
        · exact h.pure _
        · exact h.bind (h.deactivate below.inner) fun σ => h.bind (h.note _) fun _ =>
            h.activate _ (below.of_layout (layout_deactivate active σ))
    refine h.bind turned fun σ => ?_
    have later := below.retarget name σ
    revert later
    split
    · exact fun _ => h.pure _
    · next turned =>
      rw [turned]
      exact fun later => h.bind (ih later.inner.below) fun _ => h.pure _

theorem setPath (h : Empties places P) (text : String) {s : State H} (below : s.Below places) :
    P (s.setPath text) := by
  rw [State.setPath]
  split
  · exact h.pure _
  · split
    · exact h.pure _
    · split
      · exact h.pure _
      · exact h.bind (h.applyPath _ below) fun _ => h.bind (h.note _) fun _ => h.pure _

theorem restore (h : Empties places P) (checkpoint : Checkpoint) {s : State H}
    (below : s.Below places) : P (s.restore checkpoint) := by
  rw [State.restore]
  split
  · exact h.pure _
  · split
    · exact h.pure _
    · refine h.bind (h.setPath _ below) fun σ => ?_
      split
      · exact h.pure _
      · exact h.bind (h.note _) fun _ => h.pure _

end Empties

/-! ## Cycles, resets and all operations -/

/-- The property passes on, and holds of the programs of callbacks and observers, of putting the end of
a callback on record, and of emptying and filling mailboxes at such places. -/
structure Operates [Conduct H] (places : Address → Prop) (P : ∀ {α : Type}, StoreM H α → Prop) : Prop
    extends Empties places P where
  entry : ∀ view behavior, P (Conduct.entry view behavior).run
  step : ∀ view behavior, P (Conduct.step view behavior).run
  exit : ∀ view behavior, P (Conduct.exit view behavior).run
  notify : ∀ change observer, P (Conduct.notify change observer).run
  ended : ∀ call, P (Store.log (H := H) (.called call))
  clock : ∀ {α : Type} {f : Store H → StoreM H α}, (∀ store, P (f store)) → P (get >>= f)
  handTo : ∀ state command, places state → P (Store.handTo (H := H) state command)

namespace Operates

open State

variable [Conduct H]

theorem call {α : Type} (h : Operates places P) (phase : Phase) (requests : α → Option Tag)
    (command : Option Command)
    {body : View → H.Behavior → Program H (Except Fault α × H.Behavior)}
    (fires : ∀ view behavior, P (body view behavior).run) (core : Core H) :
    P (core.call phase requests command body) :=
  h.bind (h.note _) fun _ => h.bind (fires _ _) fun _ => h.bind (h.ended _) fun _ => h.pure _

theorem advance (h : Operates places P) (command : Option Command) (core : Core H) :
    P (core.advance command) :=
  h.toComposes.advance (fun _ => h.call _ _ _ h.entry) (fun _ => h.call _ _ _ h.step) command core

theorem leave (h : Operates places P) (core : Core H) : P core.leave :=
  h.toComposes.leave (h.call _ _ _ h.exit) core

theorem reset (h : Operates places P) {s : State H} (inside : s.Inside places) : P s.reset := by
  induction s using chainInduction with
  | leaf core =>
    refine h.bind (h.discard _ inside.here) fun _ => h.bind (h.leave core) fun _ => ?_
    split
    · exact h.pure _
    · exact h.bind (h.note _) fun _ => h.pure _
  | composite core routes before active after ih =>
    refine h.bind (h.discard _ inside.here) fun _ => h.bind (h.leave core) fun _ => ?_
    split
    · exact h.pure _
    · refine h.bind (ih inside.below.inner) fun σ => ?_
      have same := layout_reset active σ
      split
      · exact h.pure _
      · next left =>
        rw [left] at same
        exact h.bind (h.activate _ (inside.below.of_layout same)) fun _ =>
          h.bind (h.note _) fun _ => h.pure _

theorem settle (h : Operates places P) (outcome : Except Fault (Option Tag)) {s : State H}
    (below : s.Below places) : P (s.settle outcome) := by
  rcases outcome with fault | _ | request
  · exact h.pure _
  · exact h.pure _
  · cases s with
    | leaf core => exact h.pure _
    | composite core routes before active after =>
      rw [State.settle, follow]
      split
      · exact h.pure _
      · refine h.bind (h.reset below.inner) fun σ => ?_
        have same := layout_reset active σ
        split
        · exact h.pure _
        · next left =>
          rw [left] at same
          exact h.bind (h.note _) fun _ => h.bind (h.activate _ (below.of_layout same)) fun _ =>
            h.pure _

theorem announce (h : Operates places P)
    (records : ∀ history limit change, P (Store.recordChange (H := H) history limit change))
    (oldPath : String) (s : State H) : P (s.announce oldPath) := by
  have told (change : PathChange) (observers : List (Observer H)) :
      P (observers.forM (tell change)) := by
    induction observers with
    | nil => exact h.pure _
    | cons observer rest ih =>
      refine h.bind ?_ fun _ => ih
      cases observer with
      | host observer => exact h.notify _ _
      | recorder history limit => exact records _ _ _
  rw [State.announce]
  split
  · exact h.clock fun store => told _ _
  · exact h.pure _

/-- Once a state has taken what waited for it, its cycle is made of what follows. -/
theorem cycle_of_taken (h : Operates places P)
    (records : ∀ history limit change, P (Store.recordChange (H := H) history limit change))
    {s : State H} (below : s.Below places)
    (inner : ∀ active, s.activeChild? = some active → P active.cycle) :
    ∃ next : Option Command → StoreM H (Except Fault (Option Tag) × State H),
      s.cycle = Store.takeFrom s.address >>= next ∧ ∀ command, P (next command) := by
  cases s with
  | leaf core =>
    exact ⟨_, rfl, fun command => h.bind (h.advance command core) fun _ => h.pure _⟩
  | composite core routes before active after =>
    have turned : P active.cycle := inner active rfl
    rw [State.cycle]
    refine ⟨_, rfl, fun command => h.bind (h.advance command core) fun _ => ?_⟩
    split
    · exact h.pure _
    · have rest {α : Type} {f : _ → StoreM H α} (next : ∀ cycled : Except Fault (Option Tag) × State H,
          cycled.2.layout = active.layout → P (f cycled)) : P (active.cycle >>= f) :=
        h.bind turned fun σ => next _ (layout_cycle active σ)
      split
      · exact h.bind (h.handTo _ _ below.inner.here) fun _ => rest fun _ same =>
          h.bind (h.settle _ (below.of_layout same)) fun _ =>
            h.bind (h.announce records _ _) fun _ => h.pure _
      · exact rest fun _ same => h.bind (h.settle _ (below.of_layout same)) fun _ =>
          h.bind (h.announce records _ _) fun _ => h.pure _

theorem cycle (h : Operates places P)
    (records : ∀ history limit change, P (Store.recordChange (H := H) history limit change))
    {s : State H} (inside : s.Inside places) : P s.cycle := by
  have taken {s : State H} (inside : s.Inside places)
      (inner : ∀ active, s.activeChild? = some active → P active.cycle) : P s.cycle := by
    obtain ⟨next, cycle_eq, kept⟩ := h.cycle_of_taken records inside.below inner
    rw [cycle_eq]
    exact h.bind (h.drain _ _ inside.here) fun _ => kept _
  induction s using chainInduction with
  | leaf core => exact taken inside fun _ child => nomatch child
  | composite core routes before active after ih =>
    refine taken inside ?_
    rintro _ ⟨⟩
    exact ih inside.below.inner

/-- An operation that adds no variable opens no scope either. -/
theorem perform (h : Operates places P)
    (records : ∀ history limit change, P (Store.recordChange (H := H) history limit change))
    (operation : Operation H) (other : ∀ name value, operation ≠ .injectVariable name value)
    {s : State H} (inside : s.Inside places) : P (s.perform operation) := by
  cases operation with
  | cycle =>
    refine h.bind (h.cycle records inside) fun _ => ?_
    split <;> exact h.pure _
  | reset => exact h.bind (h.reset inside) fun _ => h.pure _
  | setPath path => exact h.bind (h.setPath path inside.below) fun _ => h.pure _
  | restore checkpoint =>
    refine h.bind (h.restore checkpoint inside.below) fun _ => ?_
    split <;> exact h.pure _
  | injectVariable name value => exact absurd rfl (other name value)
  | observe observer => exact h.pure _

/-- Where scopes can be opened and variables declared, the property holds of every operation. -/
theorem perform_of_opens (h : Operates places P)
    (opens : ∀ owner, P (Store.openScope (H := H) owner))
    (declares : ∀ owner name value, P (Store.declare (H := H) owner name value))
    (records : ∀ history limit change, P (Store.recordChange (H := H) history limit change))
    (operation : Operation H) {s : State H} (inside : s.Inside places) :
    P (s.perform operation) := by
  by_cases adds : ∃ name value, operation = .injectVariable name value
  · obtain ⟨name, value, rfl⟩ := adds
    exact h.bind (h.injectVariable opens declares name value s) fun _ => h.pure _
  · exact h.perform records operation (fun name value eq => adds ⟨name, value, eq⟩) inside

end Operates

end Statechart
