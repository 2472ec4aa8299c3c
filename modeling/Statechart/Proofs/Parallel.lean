import Statechart.Proofs.Lasting

/-!
# Runs in parallel

Two stores are twins if they are the same but for their journals, which are in some relation.  Carried
out on twins two operations run in parallel if their results are related and they leave twins again.
The rules say how operations that run in parallel compose; what a machine is made of, but for its tree,
runs in parallel with itself, whatever the host does.  So what is said of two runs has to be proved of
the two trees only.

A relation of journals has to stand every entry that is made in both, and entries of links to scopes in
one of them alone: in which order a tree is linked to a scope depends on the order of its tables.
-/
namespace Statechart

variable {H : Host} {α β α' β' : Type}

/-- A relation of journals that stands the same entry in both, and links to scopes in one of them. -/
structure Tolerant (J : List (Event H) → List (Event H) → Prop) : Prop where
  both : ∀ {xs ys} event, J xs ys → J (event :: xs) (event :: ys)
  left : ∀ {xs ys} state, J xs ys → J (.notice (.scopeAttached state) :: xs) ys
  right : ∀ {xs ys} state, J xs ys → J xs (.notice (.scopeAttached state) :: ys)

/-- The stores are the same, with mailboxes compared place by place, but for their journals. -/
structure Store.Twins (J : List (Event H) → List (Event H) → Prop) (σ τ : Store H) : Prop where
  mailboxes : ∀ place, τ.mailboxes.get? place = σ.mailboxes.get? place
  scopes : τ.scopes = σ.scopes
  histories : τ.histories = σ.histories
  shared : τ.shared = σ.shared
  machines : τ.machines = σ.machines
  clock : τ.clock = σ.clock
  journal : J σ.journal τ.journal

/-- Carried out on twins, the operations give related results and leave twins. -/
def Parallel (J : List (Event H) → List (Event H) → Prop) (Q : α → β → Prop) (x : StoreM H α)
    (y : StoreM H β) : Prop :=
  ∀ σ τ, Store.Twins J σ τ → Q (x.run σ).1 (y.run τ).1 ∧ Store.Twins J (σ.after x) (τ.after y)

/-- The operation runs in parallel with itself. -/
def Even (J : List (Event H) → List (Event H) → Prop) (x : StoreM H α) : Prop :=
  Parallel J (· = ·) x x

section Rules

variable {J : List (Event H) → List (Event H) → Prop} {Q : α → β → Prop} {Q' : α' → β' → Prop}
  {x : StoreM H α} {y : StoreM H β}

namespace Parallel

theorem pure {a : α} {b : β} (h : Q a b) : Parallel J Q (pure a) (pure b) :=
  fun _ _ twins => ⟨h, twins⟩

theorem bind {f : α → StoreM H α'} {g : β → StoreM H β'} (first : Parallel J Q x y)
    (next : ∀ a b, Q a b → Parallel J Q' (f a) (g b)) : Parallel J Q' (x >>= f) (y >>= g) := by
  intro σ τ twins
  obtain ⟨related, twins'⟩ := first σ τ twins
  exact next _ _ related _ _ twins'

/-- After the same operation on both, whatever its result is. -/
theorem after {z : StoreM H α} {f : α → StoreM H α'} {g : α → StoreM H β'} (even : Even J z)
    (next : ∀ a, Parallel J Q' (f a) (g a)) : Parallel J Q' (z >>= f) (z >>= g) :=
  even.bind fun _ _ same => same ▸ next _

/-- Whatever is read from twins. -/
theorem get {f g : Store H → StoreM H α'} {Q : α' → α' → Prop}
    (next : ∀ σ τ, Store.Twins J σ τ → Parallel J Q (f σ) (g τ)) :
    Parallel J Q (get >>= f) (get >>= g) :=
  fun σ τ twins => next σ τ twins σ τ twins

/-- Of the first result more is known. -/
theorem and {P : α → Prop} (h : Parallel J Q x y) (known : ∀ σ, P (x.run σ).1) :
    Parallel J (fun a b => Q a b ∧ P a) x y := by
  intro σ τ twins
  obtain ⟨related, twins'⟩ := h σ τ twins
  exact ⟨⟨related, known σ⟩, twins'⟩

end Parallel

/-- An operation that is made of such as run in parallel with themselves does so too. -/
theorem Even.bind {f : α → StoreM H α'} (first : Even J x) (next : ∀ a, Even J (f a)) :
    Even J (x >>= f) :=
  Parallel.after first next

theorem Even.pure (a : α) : Even J (pure a) := Parallel.pure rfl

theorem Even.get {f : Store H → StoreM H α}
    (next : ∀ σ τ, Store.Twins J σ τ → Parallel J (· = ·) (f σ) (f τ)) : Even J (get >>= f) :=
  Parallel.get next

end Rules

namespace Tolerant

variable {J : List (Event H) → List (Event H) → Prop} (tolerant : Tolerant J)
include tolerant

open Store

/-! ## Steps on the store -/

theorem log (event : Event H) : Even J (Store.log event) :=
  fun _ _ twins => ⟨rfl, { twins with journal := tolerant.both event twins.journal }⟩

theorem note (notice : Notice) : Even (H := H) J (Store.note notice) := tolerant.log _

omit tolerant in
theorem setMailbox (state : Address) (box : Mailbox) : Even (H := H) J (setMailbox state box) := by
  intro σ τ twins
  refine ⟨rfl, { twins with mailboxes := fun place => ?_ }⟩
  simp only [Store.after, Store.setMailbox, StoreM.run_modify, Registry.get?_set, twins.mailboxes]

theorem post (state : Address) (command : Command) : Even (H := H) J (Store.post state command) := by
  refine .get fun σ τ twins => ?_
  rw [twins.mailboxes]
  rcases σ.mailboxes.get? state with _ | box
  · exact .pure rfl
  · have posted : Even J (do
        Store.setMailbox state (box.post command).2
        Store.log (.mail state (.posted command (box.post command).1))
        Pure.pure (box.post command).1) :=
      Even.bind (setMailbox _ _) fun _ => Even.bind (tolerant.log _) fun _ => .pure _
    rcases refused : box.refusal? with _ | waiting <;> simp only [refused]
    · exact posted
    · exact Even.bind (tolerant.note _) fun _ => posted

theorem handTo (state : Address) (command : Command) :
    Even (H := H) J (Store.handTo state command) := by
  refine .get fun σ τ twins => ?_
  rw [twins.mailboxes]
  rcases σ.mailboxes.get? state with _ | box
  · exact .pure rfl
  · exact Even.bind (setMailbox _ _) fun _ => tolerant.log _

theorem drain (step : Option Command → MailStep) (state : Address) :
    Even (H := H) J (Store.drain step state) := by
  refine .get fun σ τ twins => ?_
  simp only [twins.mailboxes]
  rcases σ.mailboxes.get? state with _ | box
  · exact Even.bind (tolerant.log _) fun _ => .pure _
  · exact Even.bind (setMailbox _ _) fun _ => Even.bind (tolerant.log _) fun _ => .pure _

theorem discard (step : Option Command → MailStep) (state : Address) :
    Even (H := H) J (Store.discard step state) := by
  refine Even.bind (tolerant.drain step state) fun command => ?_
  rcases command with _ | command
  · exact .pure _
  · exact tolerant.note _

omit tolerant in
theorem openScope (owner : Address) : Even (H := H) J (Store.openScope owner) := by
  refine fun σ τ twins => ⟨rfl, ?_⟩
  simp only [Store.after, Store.openScope, StoreM.run_modify, twins.scopes]
  rcases σ.scopes.get? owner with _ | scope
  · exact { twins with scopes := rfl }
  · exact twins

omit tolerant in
theorem declare (owner : Address) (name : String) (value : Value) :
    Even (H := H) J (Store.declare owner name value) := by
  refine .get fun σ τ twins => ?_
  simp only [twins.scopes]
  rcases σ.scopes.get? owner with _ | scope
  · exact .pure rfl
  · refine Even.bind (fun _ _ twins => ⟨rfl, { twins with scopes := ?_ }⟩) fun _ => .pure _
    exact congrArg (fun scopes => scopes.set owner (scope.insert name value).2) twins.scopes

omit tolerant in
theorem recordChange (history : String) (limit : Option Nat) (change : PathChange) :
    Even (H := H) J (Store.recordChange history limit change) := by
  refine fun _ _ twins => ⟨rfl, { twins with histories := ?_ }⟩
  simp only [Store.after, Store.recordChange, StoreM.run_modify, Store.history, twins.histories]

/-! ## Programs and callbacks -/

/-- Programs of the host do not see the journal. -/
theorem program (program : Program H α) : Even J program.run := by
  induction program with
  | done result => exact .pure _
  | read next ih => exact .get fun σ τ twins => twins.shared ▸ ih σ.shared
  | write shared next ih =>
    exact Even.bind (fun _ _ twins => ⟨rfl, { twins with shared := rfl }⟩) fun _ => ih
  | remark said next ih => exact Even.bind (tolerant.log _) fun _ => ih
  | post state command next ih => exact Even.bind (tolerant.post state command) ih
  | pending state next ih =>
    refine .get fun σ τ twins => ?_
    simp only [Store.isPending, twins.mailboxes]
    exact ih _
  | look scope next ih =>
    refine .get fun σ τ twins => ?_
    simp only [Store.scope, twins.scopes]
    exact ih _
  | declare scope name value next ih => exact Even.bind (declare scope name value) ih

theorem call (phase : Phase) (requests : α → Option Tag) (command : Option Command)
    (body : View → H.Behavior → Program H (Except Fault α × H.Behavior)) (core : Core H) :
    Even J (core.call phase requests command body) :=
  Even.bind (tolerant.note _) fun _ => Even.bind (tolerant.program _) fun _ =>
    Even.bind (tolerant.log _) fun _ => .pure _

/-- That operations run in parallel with themselves passes on to what is made of them. -/
theorem composes : Composes (H := H) fun x => Even J x where
  pure a := .pure a
  bind first next σ τ twins := by
    obtain ⟨same, twins'⟩ := first σ τ twins
    have rest := next σ _ _ twins'
    rw [StoreM.run_bind, StoreM.run_bind, ← same]
    refine ⟨rest.1, ?_⟩
    rw [Store.after, Store.after, StoreM.run_bind, StoreM.run_bind, ← same]
    exact rest.2
  note := tolerant.note

variable [Conduct H]

theorem advance (command : Option Command) (core : Core H) : Even J (core.advance command) :=
  tolerant.composes.advance (fun _ _ => tolerant.call _ _ _ _ _) (fun _ _ => tolerant.call _ _ _ _ _)
    command core

theorem leave (core : Core H) : Even J core.leave :=
  tolerant.composes.leave (fun _ => tolerant.call _ _ _ _ _) core

/-- Observers are told the same. -/
theorem tell (change : PathChange) (observers : List (Observer H)) :
    Even J (observers.forM (State.tell change)) := by
  induction observers with
  | nil => exact .pure _
  | cons observer rest ih =>
    refine Even.bind ?_ fun _ => ih
    cases observer with
    | host observer => exact tolerant.program _
    | recorder history limit => exact recordChange _ _ _

end Tolerant

end Statechart
