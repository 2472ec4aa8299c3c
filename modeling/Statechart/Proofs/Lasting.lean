import Statechart.Proofs.Operating

/-!
# What lasts

A relation from earlier to later stores is steady if it is a preorder to which almost every single
step on a store keeps: all but the opening of a scope and the recording of a change, and what a
machine does to the mailboxes of other places than those the relation allows for.  It is lasting if it
stands these as well.  Then everything that is done to a machine keeps to it, whatever the host does:
what holds of single steps need not be proved of operations again.  For linking states to a scope it
is enough that the relation stands entries in the journal that are not of a mailbox.
-/
namespace Statechart

variable {H : Host} {α β : Type} {R : Store H → Store H → Prop} {places : Address → Prop}

/-- The event is about a mailbox. -/
def Event.isMail : Event H → Bool
  | .mail .. => true
  | _ => false

/-- From every store the operation leads to one that the relation allows. -/
def Along (R : Store H → Store H → Prop) (op : StoreM H α) : Prop := ∀ σ, R σ (σ.after op)

/-- A preorder to which entries in the journal keep, but for those of mailboxes. -/
structure Loggable (R : Store H → Store H → Prop) : Prop where
  refl : ∀ σ, R σ σ
  trans : ∀ {σ₁ σ₂ σ₃}, R σ₁ σ₂ → R σ₂ σ₃ → R σ₁ σ₃
  log : ∀ event, event.isMail = false → Along R (Store.log event)

/-- A preorder to which the steps keep that callbacks and selections are made of, where only mailboxes
at some places are emptied and filled by the machine. -/
structure Steady (places : Address → Prop) (R : Store H → Store H → Prop) : Prop
    extends Loggable R where
  share : ∀ shared, Along R (modify fun store : Store H => { store with shared := shared })
  post : ∀ state command, Along R (Store.post state command)
  handTo : ∀ state command, places state → Along R (Store.handTo state command)
  drain : ∀ step state, places state → Along R (Store.drain step state)
  declare : ∀ owner name value, Along R (Store.declare owner name value)

/-- A preorder to which every single step on a store keeps. -/
structure Lasting (R : Store H → Store H → Prop) : Prop extends Steady (fun _ => True) R where
  openScope : ∀ owner, Along R (Store.openScope owner)
  recordChange : ∀ history limit change, Along R (Store.recordChange history limit change)

/-- The stores are the same, but for the mailboxes, what the host shares and the journal. -/
def Store.SameRest (σ σ' : Store H) : Prop :=
  ∃ mailboxes shared journal, σ' = { σ with mailboxes, shared, journal }

/-- A preorder that says nothing of mailboxes, of what the host shares and of the journal is steady, if
variables can be declared. -/
theorem Store.SameRest.steady (rest : ∀ {σ σ' : Store H}, σ.SameRest σ' → R σ σ')
    (trans : ∀ {σ₁ σ₂ σ₃}, R σ₁ σ₂ → R σ₂ σ₃ → R σ₁ σ₃)
    (declare : ∀ owner name value, Along R (Store.declare owner name value)) :
    Steady places R where
  refl _ := rest ⟨_, _, _, rfl⟩
  trans := trans
  log _ _ _ := rest ⟨_, _, _, rfl⟩
  share _ _ := rest ⟨_, _, _, rfl⟩
  post state command σ := by
    rcases found : σ.mailboxes.get? state with _ | box
    · rw [after, run_post, found]
      exact rest ⟨_, _, _, rfl⟩
    · rcases refused : box.refusal? with _ | waiting <;>
        (simp only [after, run_post, found, refused]; exact rest ⟨_, _, _, rfl⟩)
  handTo state command _ σ := by
    rcases found : σ.mailboxes.get? state with _ | box <;>
      (simp only [after, run_handTo, found]; exact rest ⟨_, _, _, rfl⟩)
  drain step state _ σ := by
    rw [after, run_drain]
    exact rest ⟨_, _, _, rfl⟩
  declare := declare

namespace Loggable

theorem bind (h : Loggable R) {x : StoreM H α} {f : α → StoreM H β} (first : Along R x)
    (next : ∀ a, Along R (f a)) : Along R (x >>= f) :=
  fun σ => h.trans (first σ) (next _ _)

/-- Whatever is read from the store. -/
theorem get (h : Loggable R) {f : Store H → StoreM H β} (next : ∀ store, Along R (f store)) :
    Along R (get >>= f) :=
  h.bind h.refl next

theorem note (h : Loggable R) (notice : Notice) : Along R (Store.note (H := H) notice) :=
  h.log _ rfl

/-- That operations keep to the relation passes on to what is made of them. -/
theorem composes (h : Loggable R) : Composes (H := H) fun op => Along R op where
  pure _ := h.refl
  bind first next σ := h.trans (first σ) (next σ _)
  note := h.note

end Loggable

namespace Steady

open State

/-- Emptying mailboxes at the places that are allowed for keeps to the relation. -/
theorem empties (h : Steady places R) : Empties (H := H) places fun op => Along R op where
  toComposes := h.composes
  drain := h.drain

/-- Programs of the host keep to the relation. -/
theorem program (h : Steady places R) (program : Program H α) : Along R program.run := by
  induction program with
  | done result => exact h.refl
  | read next ih => exact h.get fun store => ih store.shared
  | write shared next ih => exact h.bind (h.share shared) fun _ => ih
  | remark said next ih => exact h.bind (h.log _ rfl) fun _ => ih
  | post state command next ih => exact h.bind (h.post state command) ih
  | pending state next ih => exact h.get fun store => ih (store.isPending state)
  | look scope next ih => exact h.get fun store => ih (store.scope scope)
  | declare scope name value next ih => exact h.bind (h.declare scope name value) ih

/-! ## Setting the path -/

theorem setPath (h : Steady places R) (text : String) {s : State H} (below : s.Below places) :
    Along R (s.setPath text) := h.empties.setPath text below

theorem restore (h : Steady places R) (checkpoint : Checkpoint) {s : State H}
    (below : s.Below places) : Along R (s.restore checkpoint) := h.empties.restore checkpoint below

theorem injectVariable (h : Steady places R) (opens : ∀ owner, Along R (Store.openScope owner))
    (name : String) (value : Value) (s : State H) : Along R (s.injectVariable name value) :=
  h.composes.injectVariable opens h.declare name value s

/-! ## Building -/

/-- Building keeps to the relation. -/
theorem build (h : Steady places R) (config : Config) (place : Address) (typeName : String)
    (blueprint : Blueprint H) : Along R (blueprint.build config place typeName) :=
  h.composes.build config place typeName blueprint fun program _ => h.program program

/-- Giving states mailboxes keeps to a relation that stands new mailboxes. -/
theorem house (h : Steady places R) (boxes : ∀ place box, Along R (Store.setMailbox place box))
    (policy : MailboxPolicy) (root : State H) : Along R (Blueprint.house policy root) := by
  rw [Blueprint.house]
  induction root.subtree with
  | nil => exact h.refl
  | cons s rest ih => exact h.bind (boxes _ _) fun _ => ih

/-! ## Cycles and resets -/

variable [Conduct H]

/-- All that is done to a tree is made of what keeps to the relation, whatever the host does. -/
theorem operates (h : Steady places R) : Operates (H := H) places fun op => Along R op where
  toEmpties := h.empties
  entry _ _ := h.program _
  step _ _ := h.program _
  exit _ _ := h.program _
  notify _ _ := h.program _
  ended _ := h.log _ rfl
  clock := h.get
  handTo := h.handTo

theorem advance (h : Steady places R) (command : Option Command) (core : Core H) :
    Along R (core.advance command) := h.operates.advance command core

theorem leave (h : Steady places R) (core : Core H) : Along R core.leave := h.operates.leave core

theorem settle (h : Steady places R) (outcome : Except Fault (Option Tag)) {s : State H}
    (below : s.Below places) : Along R (s.settle outcome) := h.operates.settle outcome below

theorem announce (h : Steady places R)
    (records : ∀ history limit change, Along R (Store.recordChange history limit change))
    (oldPath : String) (s : State H) : Along R (s.announce oldPath) :=
  h.operates.announce records oldPath s

/-- What follows in a cycle once the state has taken what waited for it. -/
theorem cycle_of_taken (h : Steady places R)
    (records : ∀ history limit change, Along R (Store.recordChange history limit change))
    {s : State H} (below : s.Below places)
    (inner : ∀ active, s.activeChild? = some active → Along R active.cycle) (σ : Store H) :
    R (σ.after (Store.takeFrom s.address)) (σ.after s.cycle) := by
  obtain ⟨next, cycle_eq, kept⟩ := h.operates.cycle_of_taken records below inner
  rw [cycle_eq, Store.after_bind]
  exact kept _ _

theorem cycle (h : Steady places R)
    (records : ∀ history limit change, Along R (Store.recordChange history limit change))
    {s : State H} (inside : s.Inside places) : Along R s.cycle := h.operates.cycle records inside

/-! ## Operations and moves -/

/-- An operation that adds no variable opens no scope either. -/
theorem perform (h : Steady places R)
    (records : ∀ history limit change, Along R (Store.recordChange history limit change))
    (operation : Operation H) (other : ∀ name value, operation ≠ .injectVariable name value)
    {s : State H} (inside : s.Inside places) : Along R (s.perform operation) :=
  h.operates.perform records operation other inside

/-- Where scopes can be opened, every operation keeps to the relation. -/
theorem perform_of_opens (h : Steady places R) (opens : ∀ owner, Along R (Store.openScope owner))
    (records : ∀ history limit change, Along R (Store.recordChange history limit change))
    (operation : Operation H) {s : State H} (inside : s.Inside places) :
    Along R (s.perform operation) :=
  h.operates.perform_of_opens opens h.declare records operation inside

/-- What an operation keeps to wherever it is carried out, it keeps to on the active chain. -/
theorem onActive (h : Steady places R) {operation : Operation H}
    (here : ∀ s : State H, s.Inside places → Along R (s.perform operation)) (depth : Nat)
    {s : State H} (inside : s.Inside places) :
    Along R (s.onActive (fun s => s.perform operation) depth) :=
  h.composes.onActive here depth inside

end Steady

variable [Conduct H]

/-- What is kept to by all that is done to a tree, and by steps outside of it, is kept to by every move
of a machine. -/
theorem Operates.move (h : Operates (H := H) (fun _ => True) fun op => Along R op)
    (opens : ∀ owner, Along R (Store.openScope owner))
    (declares : ∀ owner name value, Along R (Store.declare owner name value))
    (records : ∀ history limit change, Along R (Store.recordChange history limit change))
    (posts : ∀ state command, Along R (Store.post state command)) (machine : Machine H)
    (move : Move H) : R machine.store (machine.move move).2.store := by
  cases move with
  | operate depth operation =>
    exact h.toComposes.onActive
      (fun _ inside => h.perform_of_opens opens declares records operation inside) depth
      (fun _ _ => trivial) _
  | post state command => exact posts state command _
  | declare scope name value => exact declares scope name value _

namespace Lasting

/-- Every move of a machine keeps to the relation. -/
theorem move (h : Lasting R) (machine : Machine H) (move : Move H) :
    R machine.store (machine.move move).2.store :=
  h.operates.move h.openScope h.declare h.recordChange h.post machine move

/-- Every run of a machine keeps to the relation. -/
theorem moves (h : Lasting R) (machine : Machine H) (moves : List (Move H)) :
    R machine.store (machine.run moves).2.store :=
  Machine.run_induction (motive := fun later => R machine.store later.store)
    (fun move _ later kept => h.trans kept (h.move later move)) (h.refl _)

end Lasting

end Statechart
