import Statechart.Proofs.Commands

/-!
# What a mailbox delivers

A command that is posted to a root waits for the root's next cycle, beside or instead of those posted
before it, as the policy has it.  The steps of a mailbox that the journal tells of can be replayed on
the mailbox itself; as long as the root is not reset they are posts, by whomever, and takes, one for
each cycle of the root.  Main statement: over every run without a reset of the root each post is
accepted, and each cycle gets its command, by what has been posted since the cycle before; nothing
that was accepted is lost under the policy to keep it, and nothing is delivered twice.
-/
namespace Statechart

variable {H : Host}

/-- The steps of one mailbox in some events, in order. -/
def mailOf (place : Address) (events : List (Event H)) : List MailStep :=
  events.filterMap fun event =>
    match event with
    | .mail state step => if state = place then some step else none
    | _ => none

@[simp] theorem mailOf_append (place : Address) (xs ys : List (Event H)) :
    mailOf place (xs ++ ys) = mailOf place xs ++ mailOf place ys := List.filterMap_append

@[simp] theorem mailOf_own (place : Address) (step : MailStep) :
    mailOf place [(.mail place step : Event H)] = [step] := by
  simp [mailOf]

theorem mailOf_other {place state : Address} (other : state ≠ place) (step : MailStep) :
    mailOf place [(.mail state step : Event H)] = [] := by
  simp [mailOf, other]

theorem mailOf_of_not_mail {event : Event H} (other : event.isMail = false) (place : Address) :
    mailOf place [event] = [] := by
  cases event <;> first | rfl | contradiction

namespace MailboxPolicy

/-- What waits in a mailbox to which some commands have been posted since it was empty. -/
def keeps (policy : MailboxPolicy) (offered : List Command) : Option Command :=
  match policy with
  | .keepPending => offered.head?
  | .replacePending => offered.getLast?

/-- Whether a mailbox to which some commands have been posted since it was empty accepts another. -/
def accepts (policy : MailboxPolicy) (offered : List Command) : Bool :=
  match policy with
  | .keepPending => offered.isEmpty
  | .replacePending => true

variable {policy : MailboxPolicy} {offered : List Command}

/-- Nothing waits just where nothing has been posted. -/
theorem keeps_eq_none : policy.keeps offered = none ↔ offered = [] := by
  cases policy <;> simp [keeps]

/-- A post to a mailbox is accepted, and changes what waits, by what has been posted before. -/
theorem post_keeps (command : Command) :
    (Mailbox.mk policy (policy.keeps offered)).post command =
      (policy.accepts offered, ⟨policy, policy.keeps (offered ++ [command])⟩) := by
  cases policy with
  | keepPending => cases offered <;> rfl
  | replacePending => simp [Mailbox.post, Mailbox.refusal?, keeps, accepts]

end MailboxPolicy

namespace MailStep

/-- A command was posted. -/
def isPosted : MailStep → Bool
  | .posted .. => true
  | _ => false

/-- The command that was posted. -/
def posted? : MailStep → Option Command
  | .posted command _ => some command
  | _ => none

/-- The command that was posted and accepted. -/
def accepted? : MailStep → Option Command
  | .posted command true => some command
  | _ => none

/-- The command that a cycle got. -/
def delivered? : MailStep → Option Command
  | .taken command => command
  | _ => none

/-- The commands that have been posted since the last cycle, after a step. -/
def offer (offered : List Command) : MailStep → List Command
  | .posted command _ => offered ++ [command]
  | .taken _ => []
  | _ => offered

/-- The commands that have been posted since the last cycle. -/
def offers (steps : List MailStep) : List Command := steps.foldl offer []

end MailStep

namespace Mailbox

/-- The mailbox after a post or a take on record, if that has gone as recorded. -/
def next? (box : Mailbox) : MailStep → Option Mailbox
  | .posted command accepted =>
    if (box.post command).1 = accepted then some (box.post command).2 else none
  | .taken command => if command = box.slot then some box.take.2 else none
  | _ => none

variable {box box' : Mailbox} {policy : MailboxPolicy} {offered : List Command}
  {step : MailStep} {steps : List MailStep}

/-- A step on record is a post with its answer, or the take of what waits. -/
theorem next?_cases (h : box.next? step = some box') :
    (∃ command, step = .posted command (box.post command).1 ∧ box' = (box.post command).2) ∨
      (step = .taken box.slot ∧ box' = box.take.2) := by
  cases step with
  | posted command accepted =>
    simp only [next?, Option.ite_none_right_eq_some, Option.some.injEq] at h
    obtain ⟨rfl, rfl⟩ := h
    exact .inl ⟨command, rfl, rfl⟩
  | taken command =>
    simp only [next?, Option.ite_none_right_eq_some, Option.some.injEq] at h
    obtain ⟨rfl, rfl⟩ := h
    exact .inr ⟨rfl, rfl⟩
  | handed | discarded | abandoned | selected => contradiction

/-- What a step on record says of the posts before it, and what waits then. -/
theorem next?_keeps (h : (Mailbox.mk policy (policy.keeps offered)).next? step = some box') :
    ((∃ command, step = .posted command (policy.accepts offered)) ∨
      step = .taken (policy.keeps offered)) ∧
    box' = ⟨policy, policy.keeps (step.offer offered)⟩ := by
  rcases next?_cases h with ⟨command, rfl, rfl⟩ | ⟨rfl, rfl⟩
  · rw [MailboxPolicy.post_keeps]
    exact ⟨.inl ⟨command, rfl⟩, rfl⟩
  · have empty : policy.keeps [] = none := MailboxPolicy.keeps_eq_none.2 rfl
    exact ⟨.inr rfl, by rw [MailStep.offer, empty]; rfl⟩

/-- What waits after some steps on record is what the policy keeps of the posts. -/
theorem replay_keeps
    (h : steps.foldlM next? ⟨policy, policy.keeps offered⟩ = some box') :
    box' = ⟨policy, policy.keeps (steps.foldl MailStep.offer offered)⟩ := by
  induction steps generalizing offered with
  | nil => exact (Option.some.inj h).symm
  | cons step steps ih =>
    rw [List.foldlM_cons] at h
    obtain ⟨between, first, rest⟩ := Option.bind_eq_some_iff.1 h
    obtain ⟨-, rfl⟩ := next?_keeps first
    exact ih rest

/-- Each step on record goes by the posts since the last cycle. -/
theorem replay_cut {earlier later : List MailStep}
    (h : (earlier ++ step :: later).foldlM next? (.empty policy) = some box') :
    (∃ command, step = .posted command (policy.accepts (MailStep.offers earlier))) ∨
      step = .taken (policy.keeps (MailStep.offers earlier)) := by
  have empty : Mailbox.empty policy = ⟨policy, policy.keeps []⟩ := by
    rw [MailboxPolicy.keeps_eq_none.2 rfl, Mailbox.empty]
  obtain ⟨between, before, after⟩ := foldlM_split h
  rw [empty] at before
  obtain rfl := replay_keeps before
  rw [List.foldlM_cons] at after
  obtain ⟨_, here, -⟩ := Option.bind_eq_some_iff.1 after
  exact (next?_keeps here).1

/-- Under the policy to keep what waits all that has been accepted has been delivered, or waits. -/
theorem replay_accepted (keeps : box.policy = .keepPending)
    (h : steps.foldlM next? box = some box') :
    box.slot.toList ++ steps.filterMap MailStep.accepted? =
      steps.filterMap MailStep.delivered? ++ box'.slot.toList := by
  induction steps generalizing box with
  | nil =>
    obtain rfl : box = box' := by simpa using h
    simp
  | cons step steps ih =>
    rw [List.foldlM_cons] at h
    obtain ⟨between, first, rest⟩ := Option.bind_eq_some_iff.1 h
    rcases next?_cases first with ⟨command, rfl, rfl⟩ | ⟨rfl, rfl⟩
    · have later := ih (by rw [policy_post, keeps]) rest
      rw [List.filterMap_cons, List.filterMap_cons]
      rcases waits : box.slot with _ | waiting <;>
        simpa [post, refusal?, keeps, waits, MailStep.accepted?, MailStep.delivered?] using later
    · have later := ih ((policy_take box).trans keeps) rest
      rw [List.filterMap_cons, List.filterMap_cons]
      rcases waits : box.slot with _ | waiting <;>
        simpa [MailStep.accepted?, MailStep.delivered?] using later

/-- What has been delivered or waits has been posted, in this order. -/
theorem replay_sublist (h : steps.foldlM next? box = some box') :
    (steps.filterMap MailStep.delivered? ++ box'.slot.toList).Sublist
      (box.slot.toList ++ steps.filterMap MailStep.posted?) := by
  induction steps generalizing box with
  | nil =>
    obtain rfl : box = box' := by simpa using h
    simp
  | cons step steps ih =>
    rw [List.foldlM_cons] at h
    obtain ⟨between, first, rest⟩ := Option.bind_eq_some_iff.1 h
    have later := ih rest
    rcases next?_cases first with ⟨command, rfl, rfl⟩ | ⟨rfl, rfl⟩
    · rw [List.filterMap_cons, List.filterMap_cons]
      rcases refused : box.refusal? with _ | waiting
      · simp only [post, refused, Option.toList_some] at later
        exact later.trans (List.sublist_append_right _ _)
      · simp only [post, refused] at later
        exact later.trans ((List.sublist_cons_self _ _).append_left _)
    · rw [List.filterMap_cons, List.filterMap_cons]
      rcases waits : box.slot with _ | waiting
      · simpa [MailStep.delivered?, MailStep.posted?] using later
      · simpa [MailStep.delivered?, MailStep.posted?] using later

end Mailbox

/-! ## What is on record -/

namespace Store

variable {place state : Address} {σ σ' σ₁ σ₂ σ₃ : Store H} {steps steps' : List MailStep}

/-- On the way from one store to the other these steps of a mailbox were put on record, and they tell
what has become of the mailbox. -/
structure Delivers (place : Address) (steps : List MailStep) (σ σ' : Store H) : Prop where
  journal : ∃ events, σ'.journal = events.reverse ++ σ.journal ∧ mailOf place events = steps
  boxes : ∀ box, σ.mailboxes.get? place = some box →
    ∃ box', steps.foldlM Mailbox.next? box = some box' ∧ σ'.mailboxes.get? place = some box'

theorem Delivers.trans (h : Delivers place steps σ₁ σ₂) (k : Delivers place steps' σ₂ σ₃) :
    Delivers place (steps ++ steps') σ₁ σ₃ := by
  obtain ⟨earlier, first, rfl⟩ := h.journal
  obtain ⟨later, second, rfl⟩ := k.journal
  refine ⟨⟨earlier ++ later, ?_, mailOf_append _ _ _⟩, fun box found => ?_⟩
  · rw [second, first, List.reverse_append, List.append_assoc]
  · obtain ⟨box₂, fold, found₂⟩ := h.boxes box found
    obtain ⟨box₃, fold', found₃⟩ := k.boxes box₂ found₂
    exact ⟨box₃, foldlM_trans fold fold', found₃⟩

theorem Delivers.mailOf_since (h : Delivers place steps σ σ') :
    mailOf place (since σ σ') = steps := by
  obtain ⟨events, recorded, rfl⟩ := h.journal
  rw [since_eq recorded]

/-- Where neither the journal nor the mailbox changes, there are no steps. -/
theorem delivers_of_same (journal : σ'.journal = σ.journal)
    (box : σ'.mailboxes.get? place = σ.mailboxes.get? place) : Delivers place [] σ σ' :=
  ⟨⟨[], journal, rfl⟩, fun _ found => ⟨_, rfl, box.trans found⟩⟩

/-- An event that is not of the mailbox, and does not change it. -/
theorem delivers_of_other {event : Event H} (journal : σ'.journal = event :: σ.journal)
    (other : mailOf place [event] = [])
    (box : σ'.mailboxes.get? place = σ.mailboxes.get? place) : Delivers place [] σ σ' :=
  ⟨⟨[event], journal, other⟩, fun _ found => ⟨_, rfl, box.trans found⟩⟩

/-- A step of the mailbox. -/
theorem delivers_step {step : MailStep} (journal : σ'.journal = .mail place step :: σ.journal)
    (box : ∀ box, σ.mailboxes.get? place = some box →
      ∃ box', box.next? step = some box' ∧ σ'.mailboxes.get? place = some box') :
    Delivers place [step] σ σ' :=
  ⟨⟨[.mail place step], journal, mailOf_own _ _⟩, fun before found => by
    obtain ⟨box', next, found'⟩ := box before found
    exact ⟨box', by rw [List.foldlM_cons, next]; rfl, found'⟩⟩

/-- A step of another mailbox. -/
theorem delivers_elsewhere (other : state ≠ place) (step : MailStep) (box : Mailbox) (σ : Store H) :
    Delivers place [] σ { σ with
      mailboxes := σ.mailboxes.set state box, journal := .mail state step :: σ.journal } :=
  delivers_of_other rfl (mailOf_other other step)
    (Registry.get?_set_of_ne σ.mailboxes (Ne.symm other) box)

/-- On the way from one store to the other nothing but posts was done to a mailbox. -/
def Offers (place : Address) (σ σ' : Store H) : Prop :=
  ∃ steps, Delivers place steps σ σ' ∧ ∀ step ∈ steps, step.isPosted = true

/-- The answer to a post is the mailbox's. -/
theorem fst_post {box : Mailbox} (command : Command) (found : σ.mailboxes.get? place = some box) :
    ((post place command).run σ).1 = (box.post command).1 := by
  rw [run_post, found]

/-- A post to a mailbox is on record with its answer. -/
theorem delivers_post {box : Mailbox} (command : Command)
    (found : σ.mailboxes.get? place = some box) :
    Delivers place [.posted command ((post place command).run σ).1] σ
      (σ.after (post place command)) := by
  rw [fst_post command found]
  have next : box.next? (.posted command (box.post command).1) = some (box.post command).2 :=
    if_pos rfl
  have own (τ : Store H) (same : τ.mailboxes = σ.mailboxes) : Delivers place
      [.posted command (box.post command).1] τ { τ with
        mailboxes := τ.mailboxes.set place (box.post command).2
        journal := .mail place (.posted command (box.post command).1) :: τ.journal } := by
    refine delivers_step rfl fun before there => ?_
    rw [same, found] at there
    obtain rfl := Option.some.inj there
    exact ⟨_, next, Registry.get?_set_self _ _ _⟩
  rcases refused : box.refusal? with _ | waiting
  · simp only [after, run_post, found, refused]
    exact own σ rfl
  · simp only [after, run_post, found, refused]
    have noted : Delivers place [] σ
        (σ.after (note (.mailboxOccupied waiting.tag command.tag))) :=
      delivers_of_other rfl rfl rfl
    exact noted.trans (own _ rfl)

/-- What takes a command out of the mailbox is on record. -/
theorem delivers_takeFrom (place : Address) (σ : Store H) :
    Delivers place [.taken (σ.waiting place)] σ (σ.after (takeFrom place)) := by
  rw [after, takeFrom, run_drain]
  refine delivers_step rfl fun box found => ?_
  have waits : σ.waiting place = box.slot := by rw [waiting, found]; rfl
  simp only [found, Registry.get?_set_self]
  exact ⟨_, if_pos waits, rfl⟩

/-- All that is done elsewhere does no more to a mailbox than post to it. -/
theorem offers_steady (place : Address) : Steady (· ≠ place) (Offers (H := H) place) where
  refl σ := ⟨[], delivers_of_same rfl rfl, by simp⟩
  trans := by
    rintro σ₁ σ₂ σ₃ ⟨steps, first, posted⟩ ⟨steps', second, posted'⟩
    exact ⟨_, first.trans second, List.forall_mem_append.2 ⟨posted, posted'⟩⟩
  log event other σ :=
    ⟨[], delivers_of_other rfl (mailOf_of_not_mail other place) rfl, by simp⟩
  share _ _ := ⟨[], delivers_of_same rfl rfl, by simp⟩
  post state command σ := by
    rcases found : σ.mailboxes.get? state with _ | box
    · rw [after, run_post, found]
      exact ⟨[], delivers_of_same rfl rfl, by simp⟩
    · by_cases here : state = place
      · subst here
        exact ⟨_, delivers_post command found, by simp [MailStep.isPosted]⟩
      · refine ⟨[], ?_, by simp⟩
        rcases refused : box.refusal? with _ | waiting
        · simp only [after, run_post, found, refused]
          exact delivers_elsewhere here _ _ σ
        · simp only [after, run_post, found, refused]
          have noted : Delivers place [] σ
              (σ.after (note (.mailboxOccupied waiting.tag command.tag))) :=
            delivers_of_other rfl rfl rfl
          exact noted.trans (delivers_elsewhere here _ _ _)
  handTo state command other σ := by
    rcases found : σ.mailboxes.get? state with _ | box
    · simp only [after, run_handTo, found]
      exact ⟨[], delivers_of_same rfl rfl, by simp⟩
    · simp only [after, run_handTo, found]
      exact ⟨[], delivers_elsewhere other _ _ σ, by simp⟩
  drain step state other σ := by
    rw [after, run_drain]
    rcases found : σ.mailboxes.get? state with _ | box
    · exact ⟨[], delivers_of_other rfl (mailOf_other other _) rfl, by simp⟩
    · exact ⟨[], delivers_elsewhere other _ _ σ, by simp⟩
  declare owner name value σ := by
    rcases found : σ.scopes.get? owner with _ | scope <;>
      (simp only [after, declare, found, StoreM.run_bind, StoreM.run_get, StoreM.run_modify,
        StoreM.run_pure]; exact ⟨[], delivers_of_same rfl rfl, by simp⟩)

theorem offers_openScope (place owner : Address) : Along (Offers (H := H) place) (openScope owner) := by
  intro σ
  rcases found : σ.scopes.get? owner with _ | scope <;>
    (simp only [after, openScope, found, StoreM.run_modify]
     exact ⟨[], delivers_of_same rfl rfl, by simp⟩)

theorem offers_recordChange (place : Address) (history : String) (limit : Option Nat)
    (change : PathChange) : Along (Offers (H := H) place) (recordChange history limit change) :=
  fun _ => ⟨[], delivers_of_same rfl rfl, by simp⟩

end Store

namespace State

variable {s : State H}

/-- The inner states of a state do not stand at its own place. -/
theorem WellBuilt.below_ne (built : s.WellBuilt) : s.Below (· ≠ s.address) :=
  fun _ mem _ inside => built.ne_of_mem mem inside

variable [Conduct H]

/-- A cycle takes what waits for the state first, and then does no more to its mailbox than post to it. -/
theorem offers_cycle (built : s.WellBuilt) (σ : Store H) :
    Store.Offers s.address (σ.after (Store.takeFrom s.address)) (σ.after s.cycle) := by
  have steady := Store.offers_steady (H := H) s.address
  refine steady.cycle_of_taken (Store.offers_recordChange s.address) built.below_ne ?_ σ
  intro active child
  exact steady.cycle (Store.offers_recordChange s.address)
    (built.below_ne active (mem_children_of_activeChild? child))

/-- An operation that is neither a cycle nor a reset does no more to the state's mailbox than post to
it. -/
theorem offers_perform (built : s.WellBuilt) {operation : Operation H} (running : operation ≠ .cycle)
    (staying : operation ≠ .reset) : Along (Store.Offers s.address) (s.perform operation) := by
  have steady := Store.offers_steady (H := H) s.address
  cases operation with
  | cycle => contradiction
  | reset => contradiction
  | setPath text => exact steady.bind (steady.setPath text built.below_ne) fun _ => steady.refl
  | restore checkpoint =>
    refine steady.bind (steady.restore checkpoint built.below_ne) fun restored => ?_
    split <;> exact steady.refl
  | injectVariable name value =>
    exact steady.bind (steady.injectVariable (Store.offers_openScope s.address) name value s)
      fun _ => steady.refl
  | observe observer => exact steady.refl

/-- Whatever is done to an inner state does no more to the state's mailbox than post to it. -/
theorem offers_inner (built : s.WellBuilt) (depth : Nat) (operation : Operation H) (σ : Store H) :
    Store.Offers s.address σ
      (σ.after (s.onActive (fun s => s.perform operation) (depth + 1))) := by
  have steady := Store.offers_steady (H := H) s.address
  cases s with
  | leaf core => exact steady.refl σ
  | composite core routes before active after =>
    have inner := steady.onActive (fun t inside => steady.perform_of_opens (Store.offers_openScope _)
      (Store.offers_recordChange _) operation inside) depth
      (built.below_ne active active_mem_children)
    refine (steady.bind inner fun _ => ?_) σ
    exact steady.refl

end State

/-! ## Who sees the command -/

namespace Core

variable {core core' : Core H} {command : Option Command} {marks : List Mark}
  {result : Except Fault (Option Tag)}

/-- A state's own cycle fires a callback. -/
theorem Advances.fires (h : core.Advances command marks result core') :
    ∃ call, .called call ∈ marks ∧ call.state = core.address := by
  cases h with
  | refused => exact ⟨_, List.mem_singleton_self _, rfl⟩
  | entered => exact ⟨_, List.mem_cons_self, rfl⟩
  | resumed _ _ result => exact ⟨_, List.mem_singleton_self _, by cases result <;> rfl⟩

end Core

namespace State

variable {core : Core H} {routes : Routes} {before after : List (State H)} {active s s' : State H}
  {marks : List Mark}

/-- The exits that settling an outcome fires are not the state's own. -/
theorem Settles.elsewhere {outcome : Except Fault (Option Tag)} {settled : Except Fault Unit}
    (h : Settles core routes before active after outcome marks settled s')
    (built : (composite core routes before active after).WellBuilt) {call : Call}
    (mem : .called call ∈ marks) : call.state ≠ core.address := by
  have apart {marks : List Mark} {result : Except Fault Unit} {active' : State H}
      (inner : Resets active marks result active') (mem : .called call ∈ marks) :
      call.state ≠ core.address := by
    intro same
    have covers : active.address.Covers call.state := (inner.within built.inner _ mem).covers
    rw [same] at covers
    exact built.not_covers_owner active_mem_children covers
  cases h with
  | failed | stays | unknown => simp at mem
  | innerFails leads inner => exact apart inner mem
  | follows leads inner chosen_eq => exact apart inner (by simpa using mem)

/-- All callbacks of a state in its own cycle see the command that the cycle has taken, and there is
one. -/
theorem Cycles.own_calls {outcome : Except Fault (Option Tag)} (h : Cycles s marks outcome s')
    (built : s.WellBuilt) :
    ∃ command rest, marks = .taken s.address command :: rest ∧
      (∃ call, .called call ∈ rest ∧ call.state = s.address) ∧
      ∀ call, .called call ∈ rest → call.state = s.address → call.view.command = command := by
  cases h with
  | fails advanced =>
    exact ⟨_, _, rfl, advanced.fires, fun call mem _ => (advanced.sees call mem).2.1⟩
  | leaf advanced =>
    exact ⟨_, _, rfl, advanced.fires, fun call mem _ => (advanced.sees call mem).2.1⟩
  | composite advanced hands inner settles =>
    obtain ⟨call, mem, own⟩ := advanced.fires
    refine ⟨_, _, rfl, ⟨call, List.mem_append_left _ mem, own⟩, fun call mem own => ?_⟩
    rcases List.mem_append.1 mem with mem | mem
    · exact (advanced.sees call mem).2.1
    rcases List.mem_append.1 mem with mem | mem
    · cases hands <;> simp at mem
    rcases List.mem_append.1 mem with mem | mem
    · exact absurd own (inner.elsewhere built mem)
    · have placed := built.of_layout (layout_composite advanced.kept inner.layout_eq)
      exact absurd (own.trans advanced.kept.address.symm) (settles.elsewhere placed mem)

end State

/-! ## Moves and runs -/

namespace Machine

open State

variable [Conduct H] {machine : Machine H}

/-- A cycle of the root takes what waits for it, and then does no more to its mailbox than post to it. -/
theorem offers_move_cycle (built : machine.root.WellBuilt) :
    Store.Offers machine.root.address (machine.store.after (Store.takeFrom machine.root.address))
      (machine.move (.operate 0 .cycle)).2.store := by
  rw [move_cycle_eq]
  exact offers_cycle built machine.store

/-- A move that neither turns nor resets the root does no more to its mailbox than post to it. -/
theorem offers_move (built : machine.root.WellBuilt) {move : Move H}
    (running : move ≠ .operate 0 .cycle) (staying : move ≠ .operate 0 .reset) :
    Store.Offers machine.root.address machine.store (machine.move move).2.store := by
  have steady := Store.offers_steady (H := H) machine.root.address
  cases move with
  | operate depth operation =>
    rcases depth with _ | depth
    · have here : operation ≠ .cycle ∧ operation ≠ .reset :=
        ⟨fun same => running (same ▸ rfl), fun same => staying (same ▸ rfl)⟩
      exact offers_perform built here.1 here.2 machine.store
    · exact offers_inner built depth operation machine.store
  | post state command => exact steady.post state command machine.store
  | declare scope name value => exact steady.declare scope name value machine.store

/-- A cycle of the root takes what waits for it before anything else, and hands it to all callbacks that
the root fires then.  Nothing more is taken in the same cycle. -/
theorem cycle_takes (built : machine.root.WellBuilt) :
    let root := machine.root.address
    let command := machine.store.waiting root
    ∃ rest, Store.since machine.store (machine.move (.operate 0 .cycle)).2.store =
        .mail root (.taken command) :: rest ∧
      (∀ step ∈ mailOf root rest, step.isPosted = true) ∧
      (∃ call ∈ callsIn rest, call.state = root) ∧
      ∀ call ∈ callsIn rest, call.state = root → call.view.command = command := by
  intro root command
  obtain ⟨steps, delivers, posted⟩ := offers_move_cycle built
  obtain ⟨rest, recorded, rfl⟩ := delivers.journal
  obtain ⟨marks, outcome, cycles, fired, -⟩ := machine.move_cycle
  have taken : (machine.store.after (Store.takeFrom root)).journal =
      .mail root (.taken command) :: machine.store.journal := by
    rw [Store.after, Store.takeFrom, Store.run_drain]
  have cut : Store.since machine.store (machine.move (.operate 0 .cycle)).2.store =
      .mail root (.taken command) :: rest := by
    apply Store.since_eq
    rw [recorded, taken, List.reverse_cons, List.append_assoc]
    rfl
  obtain ⟨command', rest', rfl, ⟨call, mem, own⟩, sees⟩ := cycles.own_calls built
  have same := fired.marksIn_since
  rw [cut] at same
  obtain ⟨head, tail⟩ := List.cons.inj (same : Mark.taken root command :: marksIn rest = _)
  obtain ⟨-, rfl⟩ := Mark.taken.inj head
  subst tail
  exact ⟨rest, cut, posted, ⟨call, mem_calls.2 mem, own⟩,
    fun call mem => sees call (mem_calls.1 mem)⟩

/-- A run without a reset of the root leaves the steps of its mailbox on record. -/
theorem delivers_run (built : machine.root.WellBuilt) {moves : List (Move H)}
    (staying : ∀ move ∈ moves, move ≠ .operate 0 .reset) :
    ∃ steps, Store.Delivers machine.root.address steps machine.store
      (machine.run moves).2.store := by
  induction moves generalizing machine with
  | nil => exact ⟨[], Store.delivers_of_same rfl rfl⟩
  | cons move moves ih =>
    have same := layout_move machine move
    have first : ∃ steps, Store.Delivers machine.root.address steps machine.store
        (machine.move move).2.store := by
      by_cases turns : move = .operate 0 .cycle
      · subst turns
        obtain ⟨steps, offers, -⟩ := offers_move_cycle built
        exact ⟨_, (Store.delivers_takeFrom machine.root.address machine.store).trans offers⟩
      · obtain ⟨steps, offers, -⟩ := offers_move built turns (staying move List.mem_cons_self)
        exact ⟨steps, offers⟩
    obtain ⟨steps, delivers⟩ := first
    obtain ⟨steps', delivers'⟩ :=
      ih (built.of_layout same) fun other mem => staying other (List.mem_cons_of_mem _ mem)
    rw [address_eq_of_layout_eq same] at delivers'
    exact ⟨_, delivers.trans delivers'⟩

/-- What is in the mailbox of the root after a run without a reset of the root shows in the posts since
the last cycle. -/
theorem box_of_run {config : Config} {name typeName : String} {blueprint : Blueprint H} {σ : Store H}
    (started : (start config name typeName blueprint σ).1 = .ok machine) {moves : List (Move H)}
    (staying : ∀ move ∈ moves, move ≠ .operate 0 .reset) :
    let final := (machine.run moves).2
    let steps := mailOf machine.root.address (Store.since machine.store final.store)
    let box : Mailbox := ⟨config.policy, config.policy.keeps (MailStep.offers steps)⟩
    steps.foldlM Mailbox.next? (.empty config.policy) = some box ∧
      final.store.mailboxes.get? machine.root.address = some box := by
  intro final steps box
  have built := (started_of_start started).spec.1
  obtain ⟨steps', delivers⟩ := delivers_run built staying
  have same : steps = steps' := delivers.mailOf_since
  obtain ⟨box', fold, found⟩ :=
    delivers.boxes _ (Blueprint.get?_start (run_of_start started) (self_mem_subtree _))
  have empty : Mailbox.empty config.policy = ⟨config.policy, config.policy.keeps []⟩ := by
    rw [MailboxPolicy.keeps_eq_none.2 rfl, Mailbox.empty]
  have kept : box' = box := by
    rw [empty] at fold
    exact (Mailbox.replay_keeps fold).trans (by rw [← same]; rfl)
  rw [kept] at fold found
  rw [same]
  exact ⟨fold, found⟩

/-- In every run without a reset of the root nothing happens to the root's mailbox but posts, by whomever,
and takes, one for each cycle of the root.  By the posts since the cycle before, a post is accepted or
not, and a cycle gets the first or the last of them, or nothing if there are none; all callbacks that
the root fires in the cycle see just that.  Under the policy to keep what waits, what has been accepted
has been delivered or waits, in order; under both, nothing is delivered twice.  A post is on record with
the answer that whoever posts gets. -/
theorem commands_delivered_in_turn {config : Config} {name typeName : String}
    {blueprint : Blueprint H} {σ : Store H}
    (started : (start config name typeName blueprint σ).1 = .ok machine) {moves : List (Move H)}
    (staying : ∀ move ∈ moves, move ≠ .operate 0 .reset) :
    let root := machine.root.address
    let policy := config.policy
    let final := (machine.run moves).2
    let steps := mailOf root (Store.since machine.store final.store)
    let waits := final.store.waiting root
    (∀ earlier step later, steps = earlier ++ step :: later →
      (∃ command, step = .posted command (policy.accepts (MailStep.offers earlier))) ∨
        step = .taken (policy.keeps (MailStep.offers earlier))) ∧
    waits = policy.keeps (MailStep.offers steps) ∧
    (policy = .keepPending → steps.filterMap MailStep.accepted? =
      steps.filterMap MailStep.delivered? ++ waits.toList) ∧
    (steps.filterMap MailStep.delivered? ++ waits.toList).Sublist
      (steps.filterMap MailStep.posted?) ∧
    (∀ (τ : Store H) command, (τ.mailboxes.get? root).isSome →
      mailOf root (Store.since τ (τ.after (Store.post root command))) =
        [.posted command ((Store.post root command).run τ).1]) ∧
    ∀ earlier move later, moves = earlier ++ move :: later →
      let before := (machine.run earlier).2
      let offered := MailStep.offers (mailOf root (Store.since machine.store before.store))
      let moved := before.move move
      let events := Store.since before.store moved.2.store
      (∀ command, move = .post root command → moved.1 = .accepted (policy.accepts offered)) ∧
      (move ≠ .operate 0 .cycle → ∀ step ∈ mailOf root events, step.isPosted = true) ∧
      (move = .operate 0 .cycle → ∃ command rest, command = policy.keeps offered ∧
        (command = none ↔ offered = []) ∧ events = .mail root (.taken command) :: rest ∧
        (∀ step ∈ mailOf root rest, step.isPosted = true) ∧
        (∃ call ∈ callsIn rest, call.state = root) ∧
        ∀ call ∈ callsIn rest, call.state = root → call.view.command = command) := by
  intro root policy final steps waits
  have built := (started_of_start started).spec.1
  obtain ⟨fold, found⟩ := box_of_run started staying
  have slot : waits = policy.keeps (MailStep.offers steps) :=
    congrArg (·.bind Mailbox.slot) found
  refine ⟨fun earlier step later cut => ?_, slot, fun keeps => ?_, ?_, fun τ command housed => ?_,
    fun earlier move later cut => ?_⟩
  · have replayed : steps.foldlM Mailbox.next? (.empty policy) = some _ := fold
    rw [cut] at replayed
    exact Mailbox.replay_cut replayed
  · rw [slot]
    exact Mailbox.replay_accepted keeps fold
  · rw [slot]
    exact Mailbox.replay_sublist fold
  · obtain ⟨box, there⟩ := Option.isSome_iff_exists.1 housed
    exact (Store.delivers_post command there).mailOf_since
  · intro before offered moved events
    have staying' : ∀ move ∈ earlier, move ≠ .operate 0 .reset :=
      fun move mem => staying move (cut ▸ List.mem_append_left _ mem)
    have here : move ≠ .operate 0 .reset := staying move (cut ▸ by simp)
    have placed : before.root.layout = machine.root.layout := layout_run machine earlier
    have built' : before.root.WellBuilt := built.of_layout placed
    have same : before.root.address = root := address_eq_of_layout_eq placed
    obtain ⟨-, found'⟩ := box_of_run started staying'
    refine ⟨?_, fun other => ?_, ?_⟩
    · rintro command rfl
      have answer : moved.1 = .accepted ((Store.post root command).run before.store).1 := rfl
      rw [answer, Store.fst_post command found', MailboxPolicy.post_keeps]
    · obtain ⟨steps', delivers, posted⟩ := offers_move built' other here
      rw [same] at delivers
      rw [show mailOf root events = steps' from delivers.mailOf_since]
      exact posted
    · rintro rfl
      obtain ⟨rest, takes⟩ := cycle_takes built'
      rw [same] at takes
      have waits' : before.store.waiting root = policy.keeps offered :=
        congrArg (·.bind Mailbox.slot) found'
      rw [waits'] at takes
      exact ⟨_, rest, rfl, MailboxPolicy.keeps_eq_none, takes⟩

/-- Moves that post two commands to the root of the small machine and turn it twice. -/
def Sample.errand : List (Move Script.stage) :=
  [.post Sample.top Sample.order, .post Sample.top Sample.hint, .operate 0 .cycle, .operate 0 .cycle]

/-- The first command is accepted and delivered, the second is dropped, and the second cycle gets none. -/
theorem commands_delivered_in_turn_sample :
    let final := (Sample.machine.run Sample.errand).2
    let steps := mailOf Sample.top (Store.since Sample.machine.store final.store)
    let turned := (Sample.machine.run (Sample.errand.take 2)).2
    (start .default "R" "Node" Sample.cast (.initial .empty Sample.clock)).1 = .ok Sample.machine ∧
    (∀ move ∈ Sample.errand, move ≠ .operate 0 .reset) ∧
    steps = [.posted Sample.order true, .posted Sample.hint false, .taken (some Sample.order),
      .taken none] ∧
    final.store.waiting Sample.top =
      MailboxPolicy.keeps .keepPending (MailStep.offers steps) ∧
    steps.filterMap MailStep.accepted? =
      steps.filterMap MailStep.delivered? ++ (final.store.waiting Sample.top).toList ∧
    ∃ rest, Store.since turned.store (turned.move (.operate 0 .cycle)).2.store =
      .mail Sample.top (.taken (some Sample.order)) :: rest := by
  intro final steps turned
  have staying : ∀ move ∈ Sample.errand, move ≠ .operate 0 .reset := by
    simp [Sample.errand]
  obtain ⟨-, waits, accepted, -, -, moved⟩ :=
    commands_delivered_in_turn Sample.start_machine staying
  obtain ⟨-, -, turns⟩ := moved (Sample.errand.take 2) (.operate 0 .cycle) [.operate 0 .cycle] rfl
  obtain ⟨command, rest, given, -, cut, -⟩ := turns rfl
  have first : command = some Sample.order := by
    rw [given]
    decide +kernel
  exact ⟨Sample.start_machine, staying, by decide +kernel, waits, accepted rfl, rest,
    by rw [← first]; exact cut⟩

end Machine

end Statechart
