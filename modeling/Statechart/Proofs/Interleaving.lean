import Statechart.Proofs.Deliveries
import Statechart.Proofs.Routines

/-!
# Cycles while commands are posted

A state hands its command to its active inner state in one step, and the inner state takes it in
another.  A post that comes in between finds the command waiting, so it is a matter of policy which of
the two is taken.  Main statement: all of the chain takes and sees the command of the root, whatever is
posted and whenever, if the policy is to keep what waits, or if no other command is accepted in between;
under the policy to replace what waits, one that is takes its place.
-/
namespace Statechart

variable {H : Host} {α β : Type}

namespace Store

variable {σ σ' σ₁ σ₂ σ₃ : Store H}

/-- The store once some commands have been posted. -/
def land (posts : List (Address × Command)) (σ : Store H) : Store H :=
  posts.foldl (fun σ (state, command) => σ.after (post state command)) σ

/-- The policy of the mailbox at a place. -/
def policy? (σ : Store H) (place : Address) : Option MailboxPolicy :=
  (σ.mailboxes.get? place).map Mailbox.policy

end Store

namespace Routine

variable {σ σ' : Store H} {x : Routine H α} {f : α → Routine H β} {a : α} {b : β}

/-- A routine runs while commands are posted: before every step of it, and behind the last one, any
commands to any mailboxes. -/
inductive Amid : Routine H α → Store H → α → Store H → Prop
  | done (posts : List (Address × Command)) (result : α) (σ : Store H) :
    Amid (.done result) σ result (σ.land posts)
  | act {β : Type} {step : StoreM H β} {next : β → Routine H α} {σ σ' : Store H} {result : α}
    (posts : List (Address × Command))
    (rest : Amid (next (step.run (σ.land posts)).1) ((σ.land posts).after step) result σ') :
    Amid (.act step next) σ result σ'

/-- A run of two routines is a run of the one and then of the other. -/
theorem Amid.split (h : Amid (x >>= f) σ b σ') : ∃ a τ, Amid x σ a τ ∧ Amid (f a) τ b σ' := by
  induction x generalizing σ with
  | done result => exact ⟨result, σ, .done [] result σ, h⟩
  | act step next ih =>
    cases h with
    | act posts rest =>
      obtain ⟨a, τ, first, second⟩ := ih _ rest
      exact ⟨a, τ, .act posts first, second⟩

/-- Run a routine, where these commands are posted before its steps. -/
def amid : Routine H α → List (List (Address × Command)) → StoreM H α
  | .done result, _ => pure result
  | .act step next, schedule => do
    modify (Store.land (schedule.headD []))
    (next (← step)).amid schedule.tail

theorem amid_run (x : Routine H α) (schedule : List (List (Address × Command))) (σ : Store H) :
    Amid x σ ((x.amid schedule).run σ).1 (σ.after (x.amid schedule)) := by
  induction x generalizing σ schedule with
  | done result => exact .done [] result σ
  | act step next ih => exact .act _ (ih _ _ _)

/-- If nothing is posted, a routine does what the operation does. -/
theorem amid_nil (x : Routine H α) : x.amid [] = x.run := by
  induction x with
  | done result => rfl
  | act step next ih => exact congrArg (step >>= ·) (funext ih)

/-! ## What steps keep to -/

/-- Every step of the routine keeps to the relation. -/
def Along (R : Store H → Store H → Prop) : Routine H α → Prop
  | .done _ => True
  | .act step next => Statechart.Along R step ∧ ∀ value, (next value).Along R

section

variable {R : Store H → Store H → Prop}

theorem along_pure (a : α) : (pure a : Routine H α).Along R := trivial

theorem along_step {op : StoreM H α} (h : Statechart.Along R op) : (step op).Along R :=
  ⟨h, fun _ => trivial⟩

theorem along_bind (first : x.Along R) (next : ∀ a, (f a).Along R) : (x >>= f).Along R := by
  induction x with
  | done result => exact next result
  | act step rest ih => exact ⟨first.1, fun value => ih value (first.2 value)⟩

theorem along_outcome {γ : Type} {x : Routine H (Except Fault α × β)}
    {f : Except Fault α × β → Routine H γ} (first : x.Along R)
    (failed : ∀ fault b, (f (.error fault, b)).Along R)
    (succeeded : ∀ a b, (f (.ok a, b)).Along R) : (x >>= f).Along R := by
  refine along_bind first ?_
  rintro ⟨fault | a, b⟩
  · exact failed fault b
  · exact succeeded a b

/-- What all steps and all posts keep to, a run amid posts keeps to. -/
theorem Amid.along (h : Amid x σ a σ')
    (trans : ∀ {σ₁ σ₂ σ₃}, R σ₁ σ₂ → R σ₂ σ₃ → R σ₁ σ₃)
    (land : ∀ posts σ, R σ (σ.land posts)) (kept : x.Along R) : R σ σ' := by
  induction h with
  | done posts result σ => exact land posts σ
  | act posts rest ih => exact trans (land posts _) (trans (kept.1 _) (ih (kept.2 _)))

end

end Routine

/-! ## What is carried -/

/-- In the event no mailbox is emptied by a cycle or filled by hand with another command than this, and
no callback but an exit sees another. -/
def Event.Carries (command : Option Command) : Event H → Prop
  | .called call => call.phase = .exit ∨ call.view.command = command
  | .mail _ (.taken taken) => taken = command
  | .mail _ (.handed handed) => some handed = command
  | _ => True

theorem Event.Hosted.carries {event : Event H} (h : event.Hosted) (command : Option Command) :
    event.Carries command := by
  cases h <;> trivial

namespace Store

variable {σ σ' σ₁ σ₂ σ₃ : Store H} {command : Option Command}

/-- No other command than this was carried on the way, and every mailbox has kept its policy. -/
structure Carries (command : Option Command) (σ σ' : Store H) : Prop where
  recorded : ∃ events, Records σ σ' events ∧ ∀ event ∈ events, event.Carries command
  policies : σ'.policy? = σ.policy?

namespace Carries

theorem refl (σ : Store H) : Carries command σ σ := ⟨⟨[], .refl σ, by simp⟩, rfl⟩

theorem trans (h : Carries command σ₁ σ₂) (k : Carries command σ₂ σ₃) : Carries command σ₁ σ₃ := by
  obtain ⟨xs, first, here⟩ := h.recorded
  obtain ⟨ys, second, there⟩ := k.recorded
  exact ⟨⟨xs ++ ys, first.trans second, List.forall_mem_append.2 ⟨here, there⟩⟩,
    k.policies.trans h.policies⟩

end Carries

theorem policies_of_same (boxes : σ'.mailboxes = σ.mailboxes) : σ'.policy? = σ.policy? := by
  funext place
  rw [policy?, policy?, boxes]

/-- A mailbox is replaced by one of its policy. -/
theorem policies_set {state : Address} {box box' : Mailbox} (found : σ.mailboxes.get? state = some box)
    (boxes : σ'.mailboxes = σ.mailboxes.set state box') (same : box'.policy = box.policy) :
    σ'.policy? = σ.policy? := by
  funext place
  rw [policy?, policy?, boxes, Registry.get?_set]
  split
  · next here => rw [here, found, Option.map_some, Option.map_some, same]
  · rfl

/-- An event that is not of a mailbox, and carries no other command. -/
theorem carries_log {event : Event H} (quiet : ∀ place before, event.waits place before = some before)
    (fits : event.Carries command) : Along (Carries command) (log event) := fun σ =>
  ⟨⟨[event], records_log quiet σ, by simpa using fits⟩, rfl⟩

theorem carries_note (notice : Notice) : Along (Carries (H := H) command) (note notice) :=
  carries_log (fun _ _ => rfl) trivial

/-- What changes neither mailboxes nor the journal. -/
theorem carries_of_same (journal : σ'.journal = σ.journal) (boxes : σ'.mailboxes = σ.mailboxes) :
    Carries command σ σ' :=
  ⟨⟨[], ⟨journal, fun place => by rw [waiting, waiting, boxes]; rfl⟩, by simp⟩,
    policies_of_same boxes⟩

theorem policies_post (state : Address) (posted : Command) (σ : Store H) :
    (σ.after (post state posted)).policy? = σ.policy? := by
  rcases found : σ.mailboxes.get? state with _ | box
  · simp only [after, run_post, found]
  · rcases refused : box.refusal? with _ | waiting <;>
      (simp only [after, run_post, found, refused]
       exact policies_set found rfl (Mailbox.policy_post box posted))

theorem carries_post (state : Address) (posted : Command) :
    Along (Carries (H := H) command) (post state posted) := fun σ => by
  obtain ⟨events, recorded, hosted⟩ := records_post state posted σ
  exact ⟨⟨events, recorded, fun event mem => (hosted event mem).carries command⟩,
    policies_post state posted σ⟩

theorem policies_drain (why : Option Command → MailStep) (state : Address) (σ : Store H) :
    (σ.after (drain why state)).policy? = σ.policy? := by
  rw [after, run_drain]
  rcases found : σ.mailboxes.get? state with _ | box
  · rfl
  · exact policies_set found rfl (Mailbox.policy_take box)

theorem carries_drain {why : Option Command → MailStep}
    (empties : ∀ command, (why command).waits command = some none) (state : Address)
    (fits : ∀ found, (Event.mail state (why found) : Event H).Carries command) :
    Along (Carries (H := H) command) (drain why state) := fun σ =>
  ⟨⟨_, records_drain empties state σ, by simpa using fits _⟩, policies_drain why state σ⟩

theorem carries_handTo (state : Address) (handed : Command) :
    Along (Carries (H := H) (some handed)) (handTo state handed) := fun σ => by
  rcases found : σ.mailboxes.get? state with _ | box
  · simp only [after, run_handTo, found]
    exact .refl σ
  · simp only [after, run_handTo, found]
    exact ⟨⟨_, records_mail σ rfl, by simp [Event.Carries]⟩, policies_set found rfl rfl⟩

theorem carries_declare (owner : Address) (name : String) (value : Value) :
    Along (Carries (H := H) command) (declare owner name value) := fun σ => by
  refine ⟨⟨[], records_declare owner name value σ, by simp⟩, policies_of_same ?_⟩
  rcases found : σ.scopes.get? owner with _ | scope <;>
    simp only [after, declare, found, StoreM.run_bind, StoreM.run_get, StoreM.run_modify,
      StoreM.run_pure]

end Store

namespace Routine

open Store

variable {σ σ' : Store H} {a : α} {x : Routine H α} {command : Option Command}

theorem carries_program (body : Program H α) : (program body).Along (Carries command) := by
  induction body with
  | done result => trivial
  | read next ih => exact ⟨.refl, fun store => ih store.shared⟩
  | write shared next ih => exact ⟨fun _ => carries_of_same rfl rfl, fun _ => ih⟩
  | remark said next ih => exact ⟨carries_log (fun _ _ => rfl) trivial, fun _ => ih⟩
  | post state posted next ih => exact ⟨carries_post state posted, ih⟩
  | pending state next ih => exact ⟨.refl, fun store => ih (store.isPending state)⟩
  | look scope next ih => exact ⟨.refl, fun store => ih (store.scope scope)⟩
  | declare scope name value next ih => exact ⟨carries_declare scope name value, ih⟩

/-- A callback carries the command that it sees, and an exit any. -/
theorem carries_call {phase : Phase} {requests : α → Option Tag} {seen : Option Command}
    (fits : phase = .exit ∨ seen = command)
    (body : View → H.Behavior → Program H (Except Fault α × H.Behavior)) (core : Core H) :
    (call phase requests seen body core).Along (Carries command) := by
  refine along_bind (along_step (carries_note _)) fun _ => along_bind (carries_program _) fun
    ⟨result, behavior⟩ => along_bind (along_step (carries_log (fun _ _ => rfl) ?_)) fun _ => along_pure _
  cases result <;> exact fits

variable [Conduct H]

theorem carries_advance (command : Option Command) (core : Core H) :
    (advance command core).Along (Carries command) := by
  refine along_outcome ?_ (fun _ _ => along_pure _) fun _ core => carries_call (.inr rfl) _ _
  rw [enter]
  split
  · exact along_pure _
  · exact along_outcome (carries_call (.inr rfl) _ _) (fun _ _ => along_pure _)
      fun _ _ => along_pure _

theorem carries_leave (core : Core H) : (leave core).Along (Carries command) := by
  rw [leave]
  split
  · exact carries_call (.inl rfl) _ _
  · exact along_pure _

omit [Conduct H] in
theorem carries_discard {why : Option Command → MailStep}
    (empties : ∀ command, (why command).waits command = some none) (state : Address)
    (fits : ∀ found, (Event.mail state (why found) : Event H).Carries command) :
    (discard why state : Routine H Unit).Along (Carries command) := by
  refine along_bind (along_step (carries_drain empties state fits)) fun found => ?_
  cases found with
  | none => exact along_pure _
  | some waiting => exact along_step (carries_note _)

omit [Conduct H] in
theorem carries_activate (name : String) (state : State H) :
    (activate name state).Along (Carries command) := by
  rw [activate]
  split
  · exact along_bind (carries_discard (by simp [MailStep.waits]) _ fun _ => trivial) fun _ => along_pure _
  · exact along_pure _

theorem carries_reset (state : State H) : (reset state).Along (Carries command) := by
  induction state using State.chainInduction with
  | leaf core =>
    exact along_bind (carries_discard (by simp [MailStep.waits]) _ fun _ => trivial) fun _ =>
      along_outcome (carries_leave core) (fun _ _ => along_pure _) fun _ _ =>
        along_bind (along_step (carries_note _)) fun _ => along_pure _
  | composite core routes before active after ih =>
    refine along_bind (carries_discard (by simp [MailStep.waits]) _ fun _ => trivial) fun _ =>
      along_outcome (carries_leave core) (fun _ _ => along_pure _) fun _ core => ?_
    exact along_outcome ih (fun _ _ => along_pure _) fun _ active =>
      along_bind (carries_activate _ _) fun _ =>
        along_bind (along_step (carries_note _)) fun _ => along_pure _

/-- Nothing is carried on the way up. -/
theorem carries_settle (outcome : Except Fault (Option Tag)) (state : State H) :
    (settle outcome state).Along (Carries command) := by
  rcases outcome with fault | _ | request
  · exact along_pure _
  · exact along_pure _
  · cases state with
    | leaf core => exact along_pure _
    | composite core routes before active after =>
      rw [settle, follow]
      rcases routes.target? request with _ | target
      · exact along_pure _
      · exact along_outcome (carries_reset active) (fun _ _ => along_pure _) fun _ active =>
          along_bind (along_step (carries_note _)) fun _ =>
            along_bind (carries_activate _ _) fun _ => along_pure _

theorem carries_announce (oldPath : String) (state : State H) :
    (announce oldPath state).Along (Carries command) := by
  have told (change : PathChange) (observers : List (Observer H)) :
      (observers.forM (tell change)).Along (Carries command) := by
    induction observers with
    | nil => exact along_pure _
    | cons observer rest ih =>
      refine along_bind ?_ fun _ => ih
      cases observer with
      | host observer => exact carries_program _
      | recorder history limit => exact along_step fun _ => carries_of_same rfl rfl
  rw [announce]
  split
  · exact along_bind (along_step Carries.refl) fun _ => told _ _
  · exact along_pure _

end Routine

/-! ## Between two steps -/

namespace Store

variable {σ σ' : Store H} {place : Address} {command : Command} {events gap later : List (Event H)}

/-- By these events nothing but the command can get into a mailbox where it waits: the policy is to
keep it, or no other is accepted. -/
def Spares (σ : Store H) (command : Command) (events : List (Event H)) (place : Address) : Prop :=
  σ.policy? place = some .keepPending ∨
    ∀ other, .mail place (.posted other true) ∈ events → other = command

theorem Spares.mono (h : σ.Spares command later place) (within : ∀ event ∈ events, event ∈ later)
    (same : σ'.policy? = σ.policy?) : σ'.Spares command events place :=
  h.imp (fun keeps => same ▸ keeps) fun alone other mem => alone other (within _ mem)

/-- What waits still waits after a post, if it is spared. -/
theorem waiting_post (waits : σ.waiting place = some command) (state : Address) (posted : Command)
    (recorded : Records σ (σ.after (post state posted)) events)
    (spared : σ.Spares command events place) :
    (σ.after (post state posted)).waiting place = some command := by
  by_cases here : place = state
  · subst here
    obtain ⟨box, found, slot⟩ := Option.bind_eq_some_iff.1 waits
    rcases refused : box.refusal? with _ | first
    · have accepted : box.post posted = (true, { box with slot := some posted }) := by
        rw [Mailbox.post, refused]
      have told : σ.after (post place posted) = { σ with
          mailboxes := σ.mailboxes.set place { box with slot := some posted }
          journal := .mail place (.posted posted true) :: σ.journal } := by
        simp only [after, run_post, found, refused, accepted]
      have events_eq : events = [.mail place (.posted posted true)] := by
        rw [← recorded.since_eq, told]
        exact since_eq rfl
      have same : posted = command := by
        rcases spared with keeps | alone
        · rw [policy?, found] at keeps
          rw [Mailbox.refusal?, Option.some.inj keeps, slot] at refused
          contradiction
        · exact alone posted (by simp [events_eq])
      rw [told, same]
      simp [waiting]
    · have kept : (box.post posted).2 = box := by rw [Mailbox.post, refused]
      simp only [after, run_post, found, refused, kept]
      simp [waiting, slot]
  · have kept : ((σ.after (post state posted)).mailboxes.get? place) = σ.mailboxes.get? place := by
      rcases found : σ.mailboxes.get? state with _ | box
      · simp only [after, run_post, found]
      · rcases refused : box.refusal? with _ | waiting <;>
          (simp only [after, run_post, found, refused]
           exact Registry.get?_set_of_ne σ.mailboxes here _)
    rwa [waiting, kept]

/-- Posts put themselves on record, and what waits still waits if they spare it. -/
theorem records_land (posts : List (Address × Command)) (σ : Store H) :
    ∃ events, Records σ (σ.land posts) events ∧ (∀ event ∈ events, event.Hosted) ∧
      ∀ place command, σ.waiting place = some command → σ.Spares command events place →
        (σ.land posts).waiting place = some command := by
  induction posts generalizing σ with
  | nil => exact ⟨[], .refl σ, by simp, fun _ _ waits _ => waits⟩
  | cons post' posts ih =>
    obtain ⟨state, posted⟩ := post'
    obtain ⟨first, recorded, hosted⟩ := records_post state posted σ
    obtain ⟨rest, recorded', hosted', stays⟩ := ih (σ.after (post state posted))
    refine ⟨first ++ rest, recorded.trans recorded', List.forall_mem_append.2 ⟨hosted, hosted'⟩,
      fun place command waits spared => ?_⟩
    have waits' := waiting_post waits state posted recorded (spared.mono (by simp +contextual) rfl)
    exact stays place command waits'
      (spared.mono (by simp +contextual) (policies_post state posted σ))

theorem carries_land (command : Option Command) (posts : List (Address × Command)) (σ : Store H) :
    Carries command σ (σ.land posts) := by
  induction posts generalizing σ with
  | nil => exact .refl σ
  | cons post' posts ih => exact (carries_post post'.1 post'.2 σ).trans (ih _)

/-- After some posts a cycle takes what waits, and that is what waited before if they spare it. -/
theorem records_land_take (posts : List (Address × Command)) (place : Address) (σ : Store H) :
    ∃ gap, Records σ ((σ.land posts).after (takeFrom place))
        (gap ++ [.mail place (.taken ((σ.land posts).waiting place))]) ∧
      (∀ event ∈ gap, event.Hosted) ∧
      ∀ command, σ.waiting place = some command → σ.Spares command gap place →
        (σ.land posts).waiting place = some command := by
  obtain ⟨gap, landed, hosted, stays⟩ := records_land posts σ
  exact ⟨gap, landed.trans (records_drain (by simp [MailStep.waits]) place _), hosted, stays place⟩

theorem policies_land_take (posts : List (Address × Command)) (place : Address) (σ : Store H) :
    ((σ.land posts).after (takeFrom place)).policy? = σ.policy? :=
  (policies_drain .taken place _).trans (carries_land none posts σ).policies

/-- Wherever the command is handed to a place and the place's cycle takes what waits next, it is spared
by what happens in between. -/
def Undisturbed (σ : Store H) (command : Command) (events : List (Event H)) (place : Address) : Prop :=
  ∀ earlier gap taken later,
    events = earlier ++ .mail place (.handed command) :: gap ++ .mail place (.taken taken) :: later →
    (∀ event ∈ gap, event.Hosted) → σ.Spares command gap place

/-- What is not disturbed in some events is not in those among them that follow each other. -/
theorem Undisturbed.within (earlier : List (Event H)) {later : List (Event H)}
    (h : σ.Undisturbed command (earlier ++ events ++ later) place)
    (same : σ'.policy? = σ.policy?) : σ'.Undisturbed command events place := by
  rintro before gap taken behind rfl hosted
  refine (h (earlier ++ before) gap taken (behind ++ later) ?_ hosted).mono (fun _ mem => mem) same
  simp

/-- What is not disturbed in some events is not in the last of them. -/
theorem Undisturbed.last (earlier : List (Event H))
    (h : σ.Undisturbed command (earlier ++ events) place)
    (same : σ'.policy? = σ.policy?) : σ'.Undisturbed command events place := by
  rw [← List.append_nil (earlier ++ events)] at h
  exact h.within earlier same

end Store

namespace Routine

open Store

variable {σ σ' : Store H} {a : α} {b : β} {x : Routine H α} {f : α → Routine H β}

/-- A single step, before which some commands land. -/
theorem Amid.of_step {op : StoreM H α} (h : Amid (step op >>= f) σ b σ') :
    ∃ posts, Amid (f (op.run (σ.land posts)).1) ((σ.land posts).after op) b σ' := by
  cases h with
  | act posts rest => exact ⟨posts, rest⟩

theorem Amid.carries {command : Option Command} (h : Amid x σ a σ')
    (kept : x.Along (Store.Carries command)) : Store.Carries command σ σ' :=
  h.along .trans (carries_land command) kept

end Routine

/-! ## Cycles amid posts -/

namespace State

open Store

variable {σ τ σ' σ₁ σ₂ σ₃ : Store H} {command : Option Command} {s active : State H}
  {events xs ys : List (Event H)}

/-- Where all policies are kept, all mailboxes are. -/
theorem houses_of_policies (housed : σ.Houses s) (policies : σ'.policy? = σ.policy?) :
    σ'.Houses s := by
  intro t mem
  have same := congrArg Option.isSome (congrFun policies t.address)
  rw [Store.policy?, Store.policy?, Option.isSome_map, Option.isSome_map] at same
  exact same.trans (housed t mem)

/-- What happens on the way carries the command, if there is one and no place of the tree is disturbed. -/
structure Passes (command : Option Command) (s : State H) (σ σ' : Store H)
    (events : List (Event H)) : Prop where
  recorded : Records σ σ' events
  policies : σ'.policy? = σ.policy?
  carried : ∀ c, command = some c → (∀ t ∈ s.subtree, σ.Undisturbed c events t.address) →
    ∀ event ∈ events, event.Carries (some c)

namespace Passes

theorem of_carries (h : Carries command σ σ') : ∃ events, Passes command s σ σ' events := by
  obtain ⟨⟨events, recorded, carried⟩, policies⟩ := h
  exact ⟨events, recorded, policies, fun c same _ => same ▸ carried⟩

theorem trans (h : Passes command s σ₁ σ₂ xs) (k : Passes command s σ₂ σ₃ ys) :
    Passes command s σ₁ σ₃ (xs ++ ys) := by
  refine ⟨h.recorded.trans k.recorded, k.policies.trans h.policies,
    fun c same calm => List.forall_mem_append.2 ⟨h.carried c same fun t mem => ?_,
      k.carried c same fun t mem => ?_⟩⟩
  · exact Undisturbed.within [] (calm t mem) rfl
  · exact (calm t mem).last xs h.policies

end Passes

/-- A state hands its command to an inner state, whose cycle takes what waits after some posts. -/
theorem passes_handed {c : Command} {posts : List (Address × Command)} (mem : active ∈ s.children)
    (housed : (σ.mailboxes.get? active.address).isSome)
    (inner : Passes ((σ.after (handTo active.address c)).land posts |>.waiting active.address) active
      (((σ.after (handTo active.address c)).land posts).after (takeFrom active.address)) σ' events) :
    ∃ events, Passes (some c) s σ σ' events := by
  obtain ⟨box, found⟩ := Option.isSome_iff_exists.1 housed
  let σ₁ := σ.after (handTo active.address c)
  have told : σ₁ = { σ with
      mailboxes := σ.mailboxes.set active.address (box.replace c)
      journal := .mail active.address (.handed c) :: σ.journal } := by
    simp only [σ₁, after, run_handTo, found]
  have handed : Records σ σ₁ [.mail active.address (.handed c)] := told ▸ records_mail σ rfl
  have waits : σ₁.waiting active.address = some c := by simp [told, waiting]
  obtain ⟨gap, taken, hosted, stays⟩ := records_land_take posts active.address σ₁
  have first : σ₁.policy? = σ.policy? := (carries_handTo active.address c σ).policies
  have second := (policies_land_take posts active.address σ₁).trans first
  refine ⟨_, handed.trans (taken.trans inner.recorded), inner.policies.trans second,
    fun d same calm => ?_⟩
  obtain rfl := Option.some.inj same
  -- nothing gets between the handing and the taking, so the inner state goes on with the command
  have kept : (σ₁.land posts).waiting active.address = some c := by
    refine stays c waits ((calm active (child_mem_subtree mem) [] gap
      ((σ₁.land posts).waiting active.address) events ?_ hosted).mono (fun _ mem => mem) first)
    simp
  have below : ∀ event ∈ events, event.Carries (some c) := by
    refine inner.carried c kept fun t inside => ?_
    have calm := calm t (mem_subtree.2 (.inr ⟨active, mem, inside⟩))
    rw [← List.append_assoc, ← List.append_assoc] at calm
    exact calm.last _ second
  simp only [List.forall_mem_append, List.forall_mem_singleton]
  exact ⟨rfl, ⟨fun event mem => (hosted event mem).carries _, kept⟩, below⟩

/-- Where there is nothing to carry, it is enough that what happens is on record. -/
theorem passes_none {posts : List (Address × Command)} {command : Option Command}
    (inner : Passes command active ((σ.land posts).after (takeFrom active.address)) σ' events) :
    ∃ events, Passes none s σ σ' events := by
  obtain ⟨gap, taken, -⟩ := records_land_take posts active.address σ
  exact ⟨_, taken.trans inner.recorded,
    inner.policies.trans (policies_land_take posts active.address σ), by simp⟩

variable [Conduct H]

/-- A cycle amid posts: after some of them the state takes what waits, and if that is a command, it
and all that is run below it see the same, where nothing is disturbed. -/
theorem cycle_amid {result : Except Fault (Option Tag) × State H} (housed : σ.Houses s)
    (run : (Routine.cycle s).Amid σ result σ') :
    ∃ posts events, Passes ((σ.land posts).waiting s.address) s
      ((σ.land posts).after (takeFrom s.address)) σ' events := by
  induction s using chainInduction generalizing σ σ' result with
  | leaf core =>
    rw [Routine.cycle] at run
    obtain ⟨posts, run⟩ := run.of_step
    rw [fst_takeFrom] at run
    exact ⟨posts, Passes.of_carries (run.carries
      (Routine.along_bind (Routine.carries_advance _ core) fun _ => Routine.along_pure _))⟩
  | composite core routes before active after ih =>
    rw [Routine.cycle] at run
    obtain ⟨posts, run⟩ := run.of_step
    rw [fst_takeFrom] at run
    refine ⟨posts, ?_⟩
    obtain ⟨⟨advanced, core'⟩, σ₁, own, run⟩ := run.split
    have advances := own.carries (Routine.carries_advance _ core)
    obtain ⟨calls, called⟩ := Passes.of_carries (s := composite core routes before active after) advances
    rcases advanced with fault | requested
    · obtain ⟨rest, passed⟩ := Passes.of_carries (run.carries (Routine.along_pure _))
      exact ⟨_, called.trans passed⟩
    · have mem : active ∈ (composite core routes before active after).children := active_mem_children
      have up (outcome : Except Fault (Option Tag)) (active' : State H) :
          (do
            let settled ← Routine.settle outcome (composite core' routes before active' after)
            Routine.announce (composite core routes before active after).path settled.2
            pure (settled.1.map fun _ => requested, settled.2) : Routine H _).Along
              (Carries ((σ.land posts).waiting core.address)) :=
        Routine.along_bind (Routine.carries_settle _ _) fun _ =>
          Routine.along_bind (Routine.carries_announce _ _) fun _ => Routine.along_pure _
      have inside : σ.Houses active := fun t below => housed t (mem_subtree.2 (.inr ⟨_, mem, below⟩))
      have housed₁ : σ₁.Houses active := houses_of_policies inside
        (advances.policies.trans (policies_land_take posts core.address σ))
      rcases waits : (σ.land posts).waiting core.address with _ | c
      all_goals simp only [State.address, core_composite, waits] at run up called ⊢
      · obtain ⟨⟨outcome, active'⟩, σ₂, inner, run⟩ := run.split
        obtain ⟨posts', events, passed⟩ := ih housed₁ inner
        obtain ⟨below, passed⟩ := passes_none passed
        obtain ⟨last, settled⟩ := Passes.of_carries (run.carries (up outcome active'))
        exact ⟨_, called.trans (passed.trans settled)⟩
      · obtain ⟨posts', run⟩ := run.of_step
        obtain ⟨⟨outcome, active'⟩, σ₂, inner, run⟩ := run.split
        have housed₂ : (σ₁.land posts').Houses active :=
          houses_of_policies housed₁ (carries_land none posts' σ₁).policies
        have housed₃ : ((σ₁.land posts').after (handTo active.address c)).Houses active :=
          houses_of_policies housed₂ (carries_handTo active.address c _).policies
        obtain ⟨posts'', events, passed⟩ := ih housed₃ inner
        obtain ⟨below, passed⟩ := passes_handed mem (housed₂ active (self_mem_subtree active)) passed
        obtain ⟨landed, early⟩ := Passes.of_carries (carries_land (some c) posts' σ₁)
        obtain ⟨last, settled⟩ := Passes.of_carries (run.carries (up outcome active'))
        exact ⟨_, called.trans (early.trans (passed.trans settled))⟩

end State

namespace Machine

open State

variable [Conduct H] {machine : Machine H}

/-- The steps of a cycle are those of the machine.  Whatever is posted before whichever step, the root
takes what waits for it after the first posts; and if that is a command, all mailboxes below from which
a command is taken give just that one, and entries and steps see no other, unless the policy is to
replace what waits and another command is accepted just between a handing and the taking. -/
theorem chain_takes_one_command (reachable : machine.Reachable) :
    (Routine.cycle machine.root).amid [] = machine.root.cycle ∧
    ∀ schedule, ∃ earlier command later,
      Store.since machine.store (machine.store.after ((Routine.cycle machine.root).amid schedule)) =
        earlier ++ .mail machine.root.address (.taken command) :: later ∧
      (∀ event ∈ earlier, event.Hosted) ∧
      ∀ c, command = some c →
        (∀ s ∈ machine.root.subtree, machine.store.Undisturbed c later s.address) →
        (∀ place taken, .mail place (.taken taken) ∈ later → taken = some c) ∧
        ∀ call ∈ callsIn later, call.phase ≠ .exit → call.view.command = some c := by
  refine ⟨(Routine.amid_nil _).trans (Routine.run_cycle _), fun schedule => ?_⟩
  obtain ⟨posts, events, passed⟩ := cycle_amid reachable.houses
    (Routine.amid_run (Routine.cycle machine.root) schedule machine.store)
  let place := machine.root.address
  obtain ⟨gap, taken, hosted, -⟩ := Store.records_land_take posts place machine.store
  have recorded := taken.trans passed.recorded
  rw [List.append_assoc, List.singleton_append] at recorded
  refine ⟨gap, (machine.store.land posts).waiting place, events, recorded.since_eq, hosted,
    fun c same calm => ?_⟩
  have carried := passed.carried c same fun s mem =>
    (calm s mem).last [] (Store.policies_land_take posts place machine.store)
  refine ⟨fun place taken mem => carried _ mem, fun call mem phase => ?_⟩
  exact (carried _ (mem_callsIn.1 mem)).resolve_left phase

end Machine

namespace Sample

open Script

/-- Another command. -/
def rush : Command := ⟨⟨"Order", .text "rush"⟩, none⟩

/-- The place of the state that the root selects at first. -/
def aside : Address := top.inner "Idle"

/-- The small machine under a policy, with an order for the root. -/
def governed (policy : MailboxPolicy) : Machine stage :=
  ((Machine.mk root ((cast.start ⟨policy, false⟩ "R" "Node").run (.initial .empty clock)).2).move
    (.post top order)).2

/-- The other command is posted to the state below the root, after the root has handed down its own. -/
def between : List (List (Address × Command)) := List.replicate 8 [] ++ [[(aside, rush)]]

theorem governed_reachable (policy : MailboxPolicy) : (governed policy).Reachable :=
  ⟨_, [.post top order],
    ⟨⟨policy, false⟩, "R", "Node", cast, .initial .empty clock, by cases policy <;> rfl⟩, rfl⟩

end Sample

namespace Machine

/-- Under the policy to keep what waits, the command that comes in between is dropped. -/
theorem chain_takes_one_command_sample :
    let machine := Sample.governed .keepPending
    let cycled := machine.store.after ((Routine.cycle machine.root).amid Sample.between)
    let events := Store.since machine.store cycled
    machine.Reachable ∧ mailOf Sample.aside events =
      [.handed Sample.order, .posted Sample.rush false, .taken (some Sample.order), .discarded none] ∧
    ∃ earlier later, events = earlier ++ .mail Sample.top (.taken (some Sample.order)) :: later ∧
      (∀ place taken, .mail place (.taken taken) ∈ later → taken = some Sample.order) ∧
      ∀ call ∈ callsIn later, call.phase ≠ .exit → call.view.command = some Sample.order := by
  intro machine cycled events
  obtain ⟨-, amid⟩ := chain_takes_one_command (Sample.governed_reachable .keepPending)
  obtain ⟨earlier, command, later, cut, -, sees⟩ := amid Sample.between
  have taken : mailOf Sample.top events = [.taken (some Sample.order)] := by decide +kernel
  have same : command = some Sample.order := by
    have among : Event.mail Sample.top (.taken command) ∈ events := by
      rw [show events = _ from cut]
      exact List.mem_append_right _ List.mem_cons_self
    have mem : .taken command ∈ mailOf Sample.top events :=
      List.mem_filterMap.2 ⟨_, among, if_pos rfl⟩
    rw [taken, List.mem_singleton] at mem
    exact MailStep.taken.inj mem
  have keeps : ∀ s ∈ machine.root.subtree,
      machine.store.policy? s.address = some .keepPending := by
    decide +kernel
  subst same
  exact ⟨Sample.governed_reachable _, by decide +kernel, earlier, later, cut,
    sees _ rfl fun s mem _ _ _ _ _ _ => .inl (keeps s mem)⟩

/-- Under the policy to replace what waits, the command that comes in between is taken: the root sees
the order, and the state below it sees the other command. -/
theorem posted_in_between_taken :
    let machine := Sample.governed .replacePending
    let cycled := machine.store.after ((Routine.cycle machine.root).amid Sample.between)
    let events := Store.since machine.store cycled
    machine.Reachable ∧ mailOf Sample.top events = [.taken (some Sample.order)] ∧
    mailOf Sample.aside events =
      [.handed Sample.order, .posted Sample.rush true, .taken (some Sample.rush), .discarded none] ∧
    ¬ ∀ call ∈ callsIn events, call.phase ≠ .exit → call.view.command = some Sample.order :=
  ⟨Sample.governed_reachable _, by decide +kernel, by decide +kernel, by decide +kernel⟩

end Machine

end Statechart
