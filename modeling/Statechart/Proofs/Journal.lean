import Statechart.Machine.Cycle
import Mathlib.Data.List.Basic

/-!
# The journal of an operation

Operations on a store compose by their runs, and every one of them adds to the journal what it
records, oldest first in `Store.since`.  The journal explains the mailboxes: `Event.waits` reads
from it what waits in each of them.

The marks are the events that a machine itself brings about.  A program of the host makes none:
all it leaves in the journal are remarks, posts, and notices of posts that were dropped.
`Store.Fires` says which marks were made on the way from one store to a later one.
-/
namespace Statechart

variable {H : Host} {α β : Type}

@[simp] theorem StoreM.run_bind (x : StoreM H α) (f : α → StoreM H β) (σ : Store H) :
    (x >>= f).run σ = (f (x.run σ).1).run (x.run σ).2 := rfl

@[simp] theorem StoreM.run_pure (a : α) (σ : Store H) :
    (pure a : StoreM H α).run σ = (a, σ) := rfl

@[simp] theorem StoreM.run_get (σ : Store H) : (get : StoreM H (Store H)).run σ = (σ, σ) := rfl

@[simp] theorem StoreM.run_modify (f : Store H → Store H) (σ : Store H) :
    (modify f : StoreM H Unit).run σ = ((), f σ) := rfl

/-- Going through a list and then through another is going through both. -/
theorem foldlM_trans {σ : Type} {next : σ → α → Option σ} {xs ys : List α} {x y z : σ}
    (h : xs.foldlM next x = some y) (k : ys.foldlM next y = some z) :
    (xs ++ ys).foldlM next x = some z := by
  rw [List.foldlM_append, h]
  exact k

/-- What goes through two lists goes through the one and then through the other. -/
theorem foldlM_split {σ : Type} {next : σ → α → Option σ} {xs ys : List α} {x z : σ}
    (h : (xs ++ ys).foldlM next x = some z) :
    ∃ y, xs.foldlM next x = some y ∧ ys.foldlM next y = some z := by
  rw [List.foldlM_append] at h
  exact Option.bind_eq_some_iff.1 h

/-! ## Marks -/

/-- What a machine itself does about its states. -/
inductive Mark
  | called (call : Call)
  /-- A state's cycle has taken out what waited for it. -/
  | taken (state : Address) (command : Option Command)
  /-- A command was handed down to a state. -/
  | handed (state : Address) (command : Command)
  | selected (state : Address)
  /-- A state was left without callbacks. -/
  | quieted (state : Address)
  deriving DecidableEq

/-- The callback that a mark is the end of. -/
def Mark.call? : Mark → Option Call
  | .called call => some call
  | _ => none

/-- The mark that an event is. -/
def Event.mark? : Event H → Option Mark
  | .called call => some (.called call)
  | .mail state (.taken command) => some (.taken state command)
  | .mail state (.handed command) => some (.handed state command)
  | .mail state (.selected _) => some (.selected state)
  | .mail state (.abandoned _) => some (.quieted state)
  | _ => none

/-- The event that makes a mark, but for what is thrown away where a state is selected or quieted. -/
theorem Event.of_mark? {event : Event H} {mark : Mark} (h : event.mark? = some mark) :
    match mark with
    | .called call => event = .called call
    | .taken state command => event = .mail state (.taken command)
    | .handed state command => event = .mail state (.handed command)
    | .selected state => ∃ old, event = .mail state (.selected old)
    | .quieted state => ∃ old, event = .mail state (.abandoned old) := by
  cases event with
  | called call =>
    obtain rfl := Option.some.inj h
    rfl
  | mail state step =>
    cases step with
    | taken command | handed command =>
      obtain rfl := Option.some.inj h
      rfl
    | selected old | abandoned old =>
      obtain rfl := Option.some.inj h
      exact ⟨old, rfl⟩
    | posted command accepted | discarded old => nomatch h
  | notice notice | remark said => nomatch h

/-- The marks in some events, in order. -/
def marksIn (events : List (Event H)) : List Mark := events.filterMap Event.mark?

/-- The callbacks that end in some events, in order. -/
def callsIn (events : List (Event H)) : List Call := (marksIn events).filterMap Mark.call?

/-- A callback is among the callbacks of some marks if its mark is among them. -/
theorem mem_calls {call : Call} {marks : List Mark} :
    call ∈ marks.filterMap Mark.call? ↔ .called call ∈ marks := by
  rw [List.mem_filterMap]
  constructor
  · rintro ⟨mark, mem, here⟩
    cases mark <;> simp only [Mark.call?, Option.some.injEq, reduceCtorEq] at here
    rwa [← here]
  · exact fun mem => ⟨_, mem, rfl⟩

@[simp] theorem marksIn_append (xs ys : List (Event H)) :
    marksIn (xs ++ ys) = marksIn xs ++ marksIn ys := List.filterMap_append

/-- The callbacks that end in some events, in order, are those of the events that are such an end. -/
theorem mem_callsIn {call : Call} {events : List (Event H)} :
    call ∈ callsIn events ↔ .called call ∈ events := by
  rw [callsIn, mem_calls, marksIn, List.mem_filterMap]
  constructor
  · rintro ⟨event, mem, here⟩
    rwa [Event.of_mark? here] at mem
  · exact fun mem => ⟨_, mem, rfl⟩

@[simp] theorem callsIn_append (xs ys : List (Event H)) :
    callsIn (xs ++ ys) = callsIn xs ++ callsIn ys := by
  simp [callsIn]

/-- What a program of the host may leave in the journal. -/
inductive Event.Hosted : Event H → Prop
  | remark (said : H.Remark) : Hosted (.remark said)
  | posted (state : Address) (command : Command) (accepted : Bool) :
    Hosted (.mail state (.posted command accepted))
  | dropped (pending dropped : Tag) : Hosted (.notice (.mailboxOccupied pending dropped))

theorem marksIn_eq_nil {events : List (Event H)} (hosted : ∀ event ∈ events, event.Hosted) :
    marksIn events = [] := by
  apply List.filterMap_eq_nil_iff.2
  intro event mem
  cases hosted event mem <;> rfl

/-! ## Mailboxes -/

/-- What waits after a step of a mailbox in which something waited before.  What is emptied out of
it is what waited. -/
def MailStep.waits (before : Option Command) : MailStep → Option (Option Command)
  | .posted command accepted => some (if accepted then some command else before)
  | .handed command => some (some command)
  | .taken command | .discarded command | .abandoned command | .selected command =>
    if command = before then some none else none

/-- What waits at a place after an event. -/
def Event.waits (place : Address) (before : Option Command) : Event H → Option (Option Command)
  | .mail state step => if state = place then step.waits before else some before
  | _ => some before

namespace Store

variable {σ σ₁ σ₂ σ₃ : Store H}

/-- The command that waits in a state's mailbox. -/
def waiting (σ : Store H) (state : Address) : Option Command :=
  (σ.mailboxes.get? state).bind Mailbox.slot

/-- The store after an operation. -/
def after (σ : Store H) (op : StoreM H α) : Store H := (op.run σ).2

@[simp] theorem after_bind (x : StoreM H α) (f : α → StoreM H β) (σ : Store H) :
    σ.after (x >>= f) = (σ.after x).after (f (x.run σ).1) := rfl

@[simp] theorem after_pure (a : α) (σ : Store H) : σ.after (pure a) = σ := rfl

/-- What was recorded since an earlier store, oldest first. -/
def since (earlier later : Store H) : List (Event H) :=
  (later.journal.take (later.journal.length - earlier.journal.length)).reverse

theorem since_eq {events : List (Event H)} (h : σ₂.journal = events.reverse ++ σ₁.journal) :
    since σ₁ σ₂ = events := by
  simp [since, h]

/-- The events, oldest first, are what was recorded on the way from one store to the other, and
they tell what has become of every mailbox. -/
structure Records (σ σ' : Store H) (events : List (Event H)) : Prop where
  journal : σ'.journal = events.reverse ++ σ.journal
  mailboxes : ∀ place,
    events.foldlM (Event.waits place) (σ.waiting place) = some (σ'.waiting place)

theorem Records.refl (σ : Store H) : Records σ σ [] := ⟨rfl, fun _ => rfl⟩

theorem Records.trans {xs ys : List (Event H)} (h : Records σ₁ σ₂ xs) (k : Records σ₂ σ₃ ys) :
    Records σ₁ σ₃ (xs ++ ys) := by
  constructor
  · rw [k.journal, h.journal, List.reverse_append, List.append_assoc]
  · exact fun place => foldlM_trans (h.mailboxes place) (k.mailboxes place)

theorem Records.since_eq {events : List (Event H)} (h : Records σ₁ σ₂ events) :
    since σ₁ σ₂ = events := Store.since_eq h.journal

/-- What waits at a place once some more events have happened. -/
def waitingAfter (σ : Store H) (events : List (Event H)) (place : Address) : Option Command :=
  (events.foldlM (Event.waits place) (σ.waiting place)).join

theorem Records.waitingAfter_eq {events : List (Event H)} (h : Records σ₁ σ₂ events)
    (place : Address) : σ₁.waitingAfter events place = σ₂.waiting place := by
  rw [waitingAfter, h.mailboxes]
  rfl

theorem Records.waitingAfter_append {xs : List (Event H)} (h : Records σ₁ σ₂ xs)
    (ys : List (Event H)) (place : Address) :
    σ₁.waitingAfter (xs ++ ys) place = σ₂.waitingAfter ys place := by
  rw [waitingAfter, List.foldlM_append, h.mailboxes]
  rfl

/-- An event that is not of a mailbox leaves all mailboxes as they are. -/
theorem records_log {event : Event H} (quiet : ∀ place before, event.waits place before = some before)
    (σ : Store H) : Records σ (σ.after (log event)) [event] := by
  refine ⟨rfl, fun place => ?_⟩
  simp only [List.foldlM_cons, List.foldlM_nil, quiet]
  rfl

theorem records_note (notice : Notice) (σ : Store H) :
    Records σ (σ.after (note notice)) [.notice notice] := records_log (fun _ _ => rfl) σ

/-- An event of one mailbox that says what has become of it. -/
theorem records_mail {state : Address} {step : MailStep} {box : Mailbox} (σ : Store H)
    (told : step.waits (σ.waiting state) = some box.slot) :
    Records σ { σ with
      mailboxes := σ.mailboxes.set state box, journal := .mail state step :: σ.journal }
      [.mail state step] := by
  refine ⟨rfl, fun place => ?_⟩
  by_cases here : state = place
  · subst here
    simp [Event.waits, waiting] at told ⊢
    exact told
  · simp [Event.waits, waiting, here, Registry.get?_set_of_ne _ (Ne.symm here)]

/-- A post is refused while a command waits under the policy to keep it. -/
theorem run_post (state : Address) (command : Command) (σ : Store H) :
    (post state command).run σ = match σ.mailboxes.get? state with
      | none => (false, σ)
      | some box =>
        let noted := match box.refusal? with
          | none => σ
          | some waiting => σ.after (note (.mailboxOccupied waiting.tag command.tag))
        ((box.post command).1, { noted with
          mailboxes := noted.mailboxes.set state (box.post command).2
          journal := .mail state (.posted command (box.post command).1) :: noted.journal }) := by
  rcases found : σ.mailboxes.get? state with _ | box
  · simp only [post, found, StoreM.run_bind, StoreM.run_get, StoreM.run_pure]
  · rcases refused : box.refusal? with _ | waiting <;>
      simp only [post, found, refused, setMailbox, log, after, StoreM.run_bind, StoreM.run_get,
        StoreM.run_modify, StoreM.run_pure]

/-- What a post to a mailbox does to what waits in it. -/
theorem waits_post (box : Mailbox) (command : Command) :
    (MailStep.posted command (box.post command).1).waits box.slot =
      some (box.post command).2.slot := by
  rcases refused : box.refusal? with _ | waiting <;> simp [MailStep.waits, Mailbox.post, refused]

theorem records_post (state : Address) (command : Command) (σ : Store H) :
    ∃ events, Records σ (σ.after (post state command)) events ∧ ∀ event ∈ events, event.Hosted := by
  rcases found : σ.mailboxes.get? state with _ | box
  · refine ⟨[], ?_, by simp⟩
    rw [after, run_post, found]
    exact .refl σ
  · have posted : Event.Hosted (.mail state (.posted command (box.post command).1) : Event H) :=
      .posted _ _ _
    have told (τ : Store H) (same : τ.mailboxes = σ.mailboxes) :
        (MailStep.posted command (box.post command).1).waits (τ.waiting state) =
          some (box.post command).2.slot := by
      rw [waiting, same, found]
      exact waits_post box command
    rcases refused : box.refusal? with _ | waiting
    · refine ⟨[.mail state (.posted command (box.post command).1)], ?_, by simpa using posted⟩
      simp only [after, run_post, found, refused]
      exact records_mail σ (told σ rfl)
    · refine ⟨[.notice (.mailboxOccupied waiting.tag command.tag),
        .mail state (.posted command (box.post command).1)], ?_, ?_⟩
      · simp only [after, run_post, found, refused]
        exact (records_note _ σ).trans (records_mail _ (told _ rfl))
      · simpa using ⟨.dropped waiting.tag command.tag, posted⟩

theorem records_declare (owner : Address) (name : String) (value : Value) (σ : Store H) :
    Records σ (σ.after (declare owner name value)) [] := by
  rcases found : σ.scopes.get? owner with _ | scope
  · simp only [after, declare, found, StoreM.run_bind, StoreM.run_get, StoreM.run_pure]
    exact .refl σ
  · simp only [after, declare, found, StoreM.run_bind, StoreM.run_get, StoreM.run_modify,
      StoreM.run_pure]
    exact ⟨rfl, fun _ => rfl⟩

/-- Emptying a mailbox gives what waited and puts the step on record. -/
theorem run_drain (step : Option Command → MailStep) (state : Address) (σ : Store H) :
    (drain step state).run σ = (σ.waiting state, { σ with
      mailboxes := match σ.mailboxes.get? state with
        | none => σ.mailboxes
        | some box => σ.mailboxes.set state box.take.2
      journal := .mail state (step (σ.waiting state)) :: σ.journal }) := by
  rcases found : σ.mailboxes.get? state with _ | box <;>
    simp only [drain, found, waiting, setMailbox, log, Mailbox.fst_take, StoreM.run_bind,
      StoreM.run_get, StoreM.run_modify, StoreM.run_pure, Option.bind_none, Option.bind_some]

theorem fst_takeFrom (state : Address) (σ : Store H) :
    ((takeFrom state).run σ).1 = σ.waiting state := by
  rw [takeFrom, run_drain]

theorem waiting_drain (step : Option Command → MailStep) (state place : Address) (σ : Store H) :
    (σ.after (drain step state)).waiting place =
      if place = state then none else σ.waiting place := by
  rw [after, run_drain]
  rcases found : σ.mailboxes.get? state with _ | box <;> by_cases here : place = state <;>
    simp [waiting, found, here, Registry.get?_set]

theorem records_drain {step : Option Command → MailStep}
    (empties : ∀ command, (step command).waits command = some none) (state : Address)
    (σ : Store H) :
    Records σ (σ.after (drain step state)) [.mail state (step (σ.waiting state))] := by
  refine ⟨by rw [after, run_drain]; rfl, fun place => ?_⟩
  rw [waiting_drain]
  by_cases here : place = state
  · simp [Event.waits, here, empties]
  · simp [Event.waits, here, Ne.symm here]

theorem waiting_discard (step : Option Command → MailStep) (state place : Address) (σ : Store H) :
    (σ.after (discard step state)).waiting place =
      if place = state then none else σ.waiting place := by
  rw [discard, after_bind]
  split
  · exact waiting_drain step state place σ
  · exact waiting_drain step state place σ

theorem run_handTo (state : Address) (command : Command) (σ : Store H) :
    (handTo state command).run σ = match σ.mailboxes.get? state with
      | none => ((), σ)
      | some box => ((), { σ with
          mailboxes := σ.mailboxes.set state (box.replace command)
          journal := .mail state (.handed command) :: σ.journal }) := by
  rcases found : σ.mailboxes.get? state with _ | box <;>
    simp only [handTo, found, setMailbox, log, StoreM.run_bind, StoreM.run_get, StoreM.run_modify,
      StoreM.run_pure]

/-! ## The marks of an operation -/

/-- On the way from one store to the other just these marks were made, in this order. -/
def Fires (σ σ' : Store H) (marks : List Mark) : Prop :=
  ∃ events, Records σ σ' events ∧ marksIn events = marks

theorem Fires.refl (σ : Store H) : Fires σ σ [] := ⟨[], .refl σ, rfl⟩

theorem Fires.trans {xs ys : List Mark} (h : Fires σ₁ σ₂ xs) (k : Fires σ₂ σ₃ ys) :
    Fires σ₁ σ₃ (xs ++ ys) := by
  obtain ⟨earlier, first, rfl⟩ := h
  obtain ⟨later, second, rfl⟩ := k
  exact ⟨earlier ++ later, first.trans second, marksIn_append _ _⟩

theorem Fires.marksIn_since {marks : List Mark} (h : Fires σ₁ σ₂ marks) :
    marksIn (since σ₁ σ₂) = marks := by
  obtain ⟨events, recorded, rfl⟩ := h
  rw [recorded.since_eq]

theorem Fires.records {marks : List Mark} (h : Fires σ₁ σ₂ marks) :
    Records σ₁ σ₂ (since σ₁ σ₂) := by
  obtain ⟨events, recorded, -⟩ := h
  rwa [recorded.since_eq]

theorem fires_note (notice : Notice) (σ : Store H) : Fires σ (σ.after (note notice)) [] :=
  ⟨_, records_note notice σ, rfl⟩

/-- A notice makes no mark. -/
theorem Fires.noted {marks : List Mark} (h : Fires σ₁ σ₂ marks) (notice : Notice) :
    Fires σ₁ (σ₂.after (note notice)) marks := by
  rw [← List.append_nil marks]
  exact h.trans (fires_note notice σ₂)

theorem fires_takeFrom (state : Address) (σ : Store H) :
    Fires σ (σ.after (takeFrom state)) [.taken state (σ.waiting state)] :=
  ⟨_, records_drain (by simp [MailStep.waits]) state σ, rfl⟩

theorem fires_discard {step : Option Command → MailStep}
    (empties : ∀ command, (step command).waits command = some none) (state : Address)
    (σ : Store H) :
    Fires σ (σ.after (discard step state))
      (marksIn [(.mail state (step (σ.waiting state)) : Event H)]) := by
  have drained : Fires σ (σ.after (drain step state)) _ :=
    ⟨_, records_drain empties state σ, rfl⟩
  rw [discard, after_bind]
  split
  · exact drained.noted _
  · exact drained

theorem fires_discarded (state : Address) (σ : Store H) :
    Fires σ (σ.after (discard .discarded state)) [] := fires_discard (by simp [MailStep.waits]) state σ

theorem fires_abandoned (state : Address) (σ : Store H) :
    Fires σ (σ.after (discard .abandoned state)) [.quieted state] :=
  fires_discard (by simp [MailStep.waits]) state σ

theorem fires_selected (state : Address) (σ : Store H) :
    Fires σ (σ.after (discard .selected state)) [.selected state] :=
  fires_discard (by simp [MailStep.waits]) state σ

/-- A command that is handed down is on record, unless there is no mailbox. -/
theorem fires_handTo (state : Address) (command : Command) (σ : Store H) :
    ∃ marks, Fires σ (σ.after (handTo state command)) marks ∧
      (marks = [] ∨ marks = [.handed state command]) := by
  rw [after, run_handTo]
  rcases σ.mailboxes.get? state with _ | box
  · exact ⟨[], .refl σ, .inl rfl⟩
  · exact ⟨_, ⟨_, records_mail σ (by simp [MailStep.waits]), rfl⟩, .inr rfl⟩

end Store

end Statechart
