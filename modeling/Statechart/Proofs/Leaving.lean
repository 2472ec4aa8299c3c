import Statechart.Proofs.Failures
import Statechart.Proofs.Resetting
import Statechart.Proofs.Steering
import Statechart.Proofs.Variables

/-!
# Two ways of leaving a chain

A reset and a deactivation go down the same chain by recursions of their own.  Whoever runs and
whatever waits, in the tree and off its chain, they stop the same states, select the same ones and
empty the same mailboxes in the same order, as long as no exit fails or has a post accepted.  So two
stores whose mailboxes are abreast stay so while the one is reset and the other deactivated.  Main
statement: all that tells the two apart is what the exits of the states that run have done.
-/
namespace Statechart

variable {H : Host}

/-- What was thrown away, and the state in whose mailbox it waited. -/
def Event.thrown? : Event H → Option (Address × Option Command)
  | .mail state (.discarded command) | .mail state (.abandoned command)
  | .mail state (.selected command) => some (state, command)
  | _ => none

/-- What was thrown away in some events, in order, also where nothing waited. -/
def thrownIn (events : List (Event H)) : List (Address × Option Command) :=
  events.filterMap Event.thrown?

@[simp] theorem thrownIn_append (xs ys : List (Event H)) :
    thrownIn (xs ++ ys) = thrownIn xs ++ thrownIn ys := List.filterMap_append

/-- A command was posted, and a mailbox took it. -/
def Event.accepts : Event H → Bool
  | .mail _ (.posted _ accepted) => accepted
  | _ => false

/-- The step throws away what waits. -/
def Throws (step : Option Command → MailStep) : Prop :=
  step = .discarded ∨ step = .abandoned ∨ step = .selected

theorem Throws.thrown? {step : Option Command → MailStep} (h : Throws step) (state : Address)
    (command : Option Command) :
    Event.thrown? (H := H) (.mail state (step command)) = some (state, command) := by
  rcases h with rfl | rfl | rfl <;> rfl

namespace Store

variable {σ σ' τ σ₁ σ₂ σ₃ : Store H}

/-! ## Stores that are abreast -/

/-- The mailboxes are the same, and so is what has been thrown away. -/
structure Abreast (σ τ : Store H) : Prop where
  mailboxes : τ.mailboxes = σ.mailboxes
  thrown : thrownIn τ.journal = thrownIn σ.journal

theorem Abreast.refl (σ : Store H) : Abreast σ σ := ⟨rfl, rfl⟩

theorem Abreast.symm (h : Abreast σ τ) : Abreast τ σ := ⟨h.mailboxes.symm, h.thrown.symm⟩

theorem Abreast.trans (h : Abreast σ₁ σ₂) (k : Abreast σ₂ σ₃) : Abreast σ₁ σ₃ :=
  ⟨k.mailboxes.trans h.mailboxes, k.thrown.trans h.thrown⟩

/-- Events of which nothing is thrown away keep stores abreast. -/
theorem abreast_log {event : Event H} (keeps : event.thrown? = none) (σ : Store H) :
    Abreast σ (σ.after (log event)) := ⟨rfl, List.filterMap_cons_none keeps⟩

theorem abreast_note (notice : Notice) (σ : Store H) : Abreast σ (σ.after (note notice)) :=
  abreast_log rfl σ

/-- Stores stay abreast where the same is thrown away in both, whatever the reasons. -/
theorem Abreast.discard {step step' : Option Command → MailStep} (h : Abreast σ τ) (throws : Throws step)
    (throws' : Throws step') (state : Address) :
    Abreast (σ.after (discard step state)) (τ.after (discard step' state)) := by
  have waits : τ.waiting state = σ.waiting state := by rw [waiting, waiting, h.mailboxes]
  have drained : Abreast (σ.after (drain step state)) (τ.after (drain step' state)) := by
    rw [after, after, run_drain, run_drain]
    refine ⟨by rw [h.mailboxes], ?_⟩
    simp only [thrownIn, List.filterMap_cons, throws.thrown?, throws'.thrown?, waits]
    exact congrArg _ h.thrown
  rw [Store.discard, Store.discard, after_bind, after_bind, run_drain, run_drain, waits]
  rcases σ.waiting state with _ | command
  · exact drained
  · exact (abreast_note _ _).symm.trans (drained.trans (abreast_note _ _))

/-- A journal that has grown is what it was with what has happened since. -/
theorem journal_eq (h : σ.journal <:+ σ'.journal) :
    σ'.journal = (since σ σ').reverse ++ σ.journal := by
  obtain ⟨xs, eq⟩ := h
  have happened : since σ σ' = xs.reverse := since_eq (by rw [List.reverse_reverse, eq])
  rw [happened, List.reverse_reverse, eq]

/-- What happens on one way and then on another happens on both of them. -/
theorem since_trans (first : σ₁.journal <:+ σ₂.journal) (next : σ₂.journal <:+ σ₃.journal) :
    since σ₁ σ₃ = since σ₁ σ₂ ++ since σ₂ σ₃ := by
  apply since_eq
  rw [journal_eq next, journal_eq first, List.reverse_append, List.append_assoc]

/-- Since stores were the same, the same has been thrown away on the way to stores that are abreast. -/
theorem Abreast.thrown_since (h : Abreast σ₁ σ₂) (first : σ.journal <:+ σ₁.journal)
    (second : σ.journal <:+ σ₂.journal) :
    thrownIn (since σ σ₂) = thrownIn (since σ σ₁) := by
  have thrown := h.thrown
  rw [journal_eq first, journal_eq second, thrownIn_append, thrownIn_append,
    List.append_cancel_right_eq, thrownIn, thrownIn, List.filterMap_reverse, List.filterMap_reverse]
    at thrown
  exact List.reverse_inj.1 thrown

/-! ## Ways without a post -/

/-- On the way from one store to the other no post was accepted. -/
def Unposted (σ σ' : Store H) : Prop := ∀ event ∈ since σ σ', event.accepts = false

instance decidableUnposted (σ σ' : Store H) : Decidable (Unposted σ σ') :=
  inferInstanceAs (Decidable (∀ event ∈ since σ σ', event.accepts = false))

theorem not_unposted {place : Address} {command : Command}
    (posted : σ'.journal = .mail place (.posted command true) :: σ.journal) : ¬ Unposted σ σ' := by
  intro unposted
  have happened : since σ σ' = [.mail place (.posted command true)] := since_eq posted
  rw [Unposted, happened] at unposted
  exact Bool.noConfusion (unposted _ (List.mem_singleton_self _))

theorem Unposted.split (h : Unposted σ₁ σ₃) (first : σ₁.journal <:+ σ₂.journal)
    (next : σ₂.journal <:+ σ₃.journal) : Unposted σ₁ σ₂ ∧ Unposted σ₂ σ₃ := by
  rw [Unposted, since_trans first next, List.forall_mem_append] at h
  exact h

theorem Fires.suffix {marks : List Mark} (h : Fires σ σ' marks) : σ.journal <:+ σ'.journal := by
  obtain ⟨events, recorded, -⟩ := h
  exact ⟨_, recorded.journal.symm⟩

/-- The later store is abreast of the earlier one unless a post was accepted on the way. -/
def AbreastUnlessPosted (σ σ' : Store H) : Prop :=
  σ.journal <:+ σ'.journal ∧ (Unposted σ σ' → Abreast σ σ')

/-- Programs of the host change mailboxes by posts only. -/
theorem abreastUnlessPosted_steady :
    Steady (fun _ => False) (AbreastUnlessPosted (H := H)) where
  refl σ := ⟨List.suffix_rfl, fun _ => .refl σ⟩
  trans := by
    rintro σ₁ σ₂ σ₃ ⟨first, abreast⟩ ⟨next, abreast'⟩
    refine ⟨first.trans next, fun unposted => ?_⟩
    obtain ⟨before, after⟩ := unposted.split first next
    exact (abreast before).trans (abreast' after)
  log event other σ := by
    refine ⟨List.suffix_cons _ _, fun _ => abreast_log ?_ σ⟩
    cases event with
    | mail => contradiction
    | notice | remark | called => rfl
  share _ σ := ⟨List.suffix_rfl, fun _ => ⟨rfl, rfl⟩⟩
  post state command σ := by
    rcases found : σ.mailboxes.get? state with _ | box
    · simp only [after, run_post, found]
      exact ⟨List.suffix_rfl, fun _ => .refl σ⟩
    · rcases refused : box.refusal? with _ | waiting
      · have posted : (box.post command).1 = true := by simp [Mailbox.post, refused]
        simp only [after, run_post, found, refused, posted]
        exact ⟨List.suffix_cons _ _, fun unposted => absurd unposted (not_unposted rfl)⟩
      · have same : box.post command = (false, box) := by simp [Mailbox.post, refused]
        simp only [after, run_post, found, refused, same]
        refine ⟨(List.suffix_cons _ _).trans (List.suffix_cons _ _), fun _ => ⟨?_, rfl⟩⟩
        exact Registry.set_of_get? found
  handTo _ _ allowed := allowed.elim
  drain _ _ allowed := allowed.elim
  declare owner name value σ := by
    rcases found : σ.scopes.get? owner with _ | scope <;>
      simp only [after, declare, found, StoreM.run_bind, StoreM.run_get, StoreM.run_modify,
        StoreM.run_pure] <;>
      exact ⟨List.suffix_rfl, fun _ => ⟨rfl, rfl⟩⟩

/-! ## Ways on which nothing but mailboxes changes -/

/-- The stores are the same, but for the mailboxes and the journal. -/
def MailOnly (σ σ' : Store H) : Prop := ∃ mailboxes journal, σ' = { σ with mailboxes, journal }

theorem mailOnly_loggable : Loggable (MailOnly (H := H)) where
  refl _ := ⟨_, _, rfl⟩
  trans := by
    rintro _ _ _ ⟨_, _, rfl⟩ ⟨_, _, rfl⟩
    exact ⟨_, _, rfl⟩
  log _ _ _ := ⟨_, _, rfl⟩

theorem mailOnly_empties : Empties (H := H) (fun _ => True) fun op => Along MailOnly op where
  toComposes := mailOnly_loggable.composes
  drain step state _ σ := ⟨_, _, by rw [after, run_drain]⟩

/-- Stores that differ in their mailboxes and journals at most, from one, differ in their journals only
if the mailboxes are the same. -/
theorem MailOnly.eq_of_mailboxes (h : MailOnly σ σ₁) (k : MailOnly σ σ₂)
    (same : σ₁.mailboxes = σ₂.mailboxes) : σ₁ = { σ₂ with journal := σ₁.journal } := by
  obtain ⟨_, _, rfl⟩ := h
  obtain ⟨_, _, rfl⟩ := k
  simp only at same
  rw [same]

end Store

namespace State

open Store

variable {core core' : Core H} {routes : Routes} {before after : List (State H)}
  {active active' s s' t t' : State H} {marks marks' : List Mark} {σ τ : Store H}

/-! ## What becomes of the tree -/

theorem focus_outline (name : String) (states : List (State H)) :
    focus name (states.map outline) =
      (focus name states).map fun parts =>
        (parts.1.map outline, parts.2.1.outline, parts.2.2.map outline) := by
  induction states with
  | nil => rfl
  | cons state rest ih =>
    simp only [List.map_cons, focus, name_outline, ih]
    split
    · rfl
    · rcases focus name rest with _ | ⟨before, active, after⟩ <;> rfl

/-- A selection shows in the outline as that selection. -/
theorem outline_select (name : String) (s : State H) :
    (s.select name).outline = s.outline.select name := by
  cases s with
  | leaf core => rfl
  | composite core routes before active after =>
    have found := focus_outline name (before ++ active :: after)
    rw [List.map_append, List.map_cons] at found
    rw [outline_composite, select, select, found]
    rcases focus name (before ++ active :: after) with _ | ⟨before', active', after'⟩ <;>
      exact outline_composite

/-- A state that has been left and stopped looks like one that has only been stopped. -/
theorem outline_left {exit : List Mark} {result : Except Fault Unit}
    (left : core.Leaves exit result core') : core'.stopped.outline = core.stopped.outline :=
  Core.Kept.outline_eq ⟨left.kept.address, left.kept.typeName⟩ rfl

/-- A reset that completes and a deactivation stop the same states and select the same ones. -/
theorem Resets.outline_eq_quieted (h : Resets s marks (.ok ()) s') (k : Quiets s marks' t) :
    s'.outline = t.outline := by
  generalize eq : Except.ok () = result at h
  induction h generalizing marks' t with
  | exitFails => contradiction
  | innerFails => contradiction
  | @leaf core core' exit left =>
    cases k with
    | leaf =>
      rw [outline_leaf, outline_leaf, outline_left left]
  | @composite core core' routes before after _ _ active active' _ exit marks left inner chosen_eq ih =>
    cases k with
    | composite quiets chosen_eq' =>
      rw [← chosen_eq, ← chosen_eq', outline_select, outline_select, outline_composite,
        outline_composite, outline_left left, ih quiets rfl]

/-- Where no state of the chain runs, a reset and a deactivation make the same tree. -/
theorem Resets.eq_quieted (h : Resets s marks (.ok ()) s') (k : Quiets s marks' t)
    (rests : ∀ u ∈ s.chain, u.isRunning = false) : s' = t := by
  generalize eq : Except.ok () = result at h
  induction h generalizing marks' t with
  | exitFails => contradiction
  | innerFails => contradiction
  | leaf left =>
    have idle := rests _ (List.mem_singleton_self _)
    cases k with
    | leaf =>
      cases left with
      | idle => rfl
      | left running => exact absurd idle (by simp [isRunning, running])
  | composite left inner chosen_eq ih =>
    have idle := rests _ List.mem_cons_self
    cases k with
    | composite quiets chosen_eq' =>
      cases left with
      | idle =>
        obtain rfl := ih quiets (fun u mem => rests u (List.mem_cons_of_mem _ mem)) rfl
        exact chosen_eq.symm.trans chosen_eq'
      | left running => exact absurd idle (by simp [isRunning, running])

/-- The later state behaves by what the earlier one keeps, unless its exit was fired on the chain of
a tree. -/
def KeepsBehavior (s t t' : State H) : Prop :=
  t'.core.behavior = t.core.behavior ∨ (t ∈ s.chain ∧ t.isRunning = true)

/-- A reset changes what is kept by behaviours of the chain that run, and by no others. -/
theorem Resets.keepsBehavior (h : Resets s marks (.ok ()) s') :
    List.Forall₂ (KeepsBehavior s) s.subtree s'.subtree := by
  have own {core core' : Core H} {exit : List Mark} (left : core.Leaves exit (.ok ()) core') :
      core'.stopped.behavior = core.behavior ∨ core.running = true := by
    cases left with
    | idle => exact .inl rfl
    | left running => exact .inr running
  have others (s : State H) (states : List (State H)) :
      List.Forall₂ (KeepsBehavior s) states states :=
    List.forall₂_same.2 fun _ _ => .inl rfl
  generalize eq : Except.ok () = result at h
  induction h with
  | exitFails => contradiction
  | innerFails => contradiction
  | @leaf core core' exit left =>
    rw [subtree, subtree]
    exact .cons ((own left).imp_right fun running => ⟨List.mem_singleton_self _, running⟩) .nil
  | @composite core core' routes before after _ _ active active' _ exit marks left inner chosen_eq ih =>
    rw [← chosen_eq, subtree_eq, subtree_eq, children_select]
    refine .cons ?_ ?_
    · refine (own left).imp (fun same => ?_) fun running => ⟨List.mem_cons_self, running⟩
      rwa [core_select]
    · have below : List.Forall₂ (KeepsBehavior (.composite core routes before active after))
          active.subtree active'.subtree :=
        (ih rfl).imp fun t t' kept => kept.imp_right (And.imp_left (List.mem_cons_of_mem _))
      simp only [children, forest_append, forest_cons]
      exact List.rel_append (others _ _) (List.rel_append below (others _ _))

/-! ## What becomes of the store -/

/-- Trees of one outline select states of one place. -/
theorem abreast_activate (abreast : Abreast σ τ) (same : t.outline = s.outline) (name : String) :
    Abreast (σ.after (s.activate name)) (τ.after (t.activate name)) := by
  have selected : (t.select name).activeChild?.map address =
      (s.select name).activeChild?.map address := by
    have chosen : (t.select name).outline = (s.select name).outline := by
      rw [outline_select, outline_select, same]
    have active := congrArg (fun u => u.activeChild?.map address) chosen
    simpa [activeChild?_outline, Function.comp_def] using active
  rw [Store.after, Store.after, run_activate, run_activate]
  rcases here : (s.select name).activeChild? with _ | active <;>
    rcases there : (t.select name).activeChild? with _ | active' <;>
    rw [here, there] at selected
  · exact abreast
  · contradiction
  · contradiction
  · have place : active'.address = active.address := Option.some.inj selected
    simp only [place]
    exact abreast.discard (.inr (.inr rfl)) (.inr (.inr rfl)) _

variable [Conduct H]

/-- Where no state of the chain runs, a reset does nothing but empty mailboxes. -/
theorem mailOnly_reset (rests : ∀ t ∈ s.chain, t.isRunning = false) : Along MailOnly s.reset := by
  have empties := mailOnly_empties (H := H)
  have left {core : Core H} (idle : core.running = false) : Along MailOnly core.leave := by
    rw [Core.leave, idle]
    exact empties.pure _
  induction s using chainInduction with
  | leaf core =>
    refine empties.bind (empties.discard _ trivial) fun _ =>
      empties.bind (left (rests _ (List.mem_singleton_self _))) fun _ => ?_
    split
    · exact empties.pure _
    · exact empties.bind (empties.note _) fun _ => empties.pure _
  | composite core routes before active after ih =>
    refine empties.bind (empties.discard _ trivial) fun _ =>
      empties.bind (left (rests _ List.mem_cons_self)) fun _ => ?_
    split
    · exact empties.pure _
    · refine empties.bind (ih fun t mem => rests t (List.mem_cons_of_mem _ mem)) fun _ => ?_
      split
      · exact empties.pure _
      · exact empties.bind (empties.activate _ fun _ _ _ _ => trivial) fun _ =>
          empties.bind (empties.note _) fun _ => empties.pure _

/-- A reset of a state without inner states that is done has fired its exit. -/
theorem exists_of_reset_leaf (done : ((State.leaf core).reset.run σ).1.1 = .ok ()) :
    ∃ core' σ₁, core.leave.run (σ.after (Store.discard .discarded core.address)) =
        ((.ok (), core'), σ₁) ∧
      (State.leaf core).reset.run σ =
        ((.ok (), .leaf core'.stopped), σ₁.after (Store.note (.reset core'.name))) := by
  rcases left : core.leave.run (σ.after (Store.discard .discarded core.address)) with
    ⟨⟨fault | ⟨⟩, core'⟩, σ₁⟩
  · simp only [Store.after] at left
    simp only [reset, StoreM.run_bind, left, StoreM.run_pure, reduceCtorEq] at done
  · refine ⟨core', σ₁, rfl, ?_⟩
    simp only [Store.after] at left
    simp only [reset, StoreM.run_bind, left, StoreM.run_pure, Store.after]

/-- A reset of a state with inner states that is done has fired its exit, reset its active inner state
and selected the initial one. -/
theorem exists_of_reset_composite
    (done : ((composite core routes before active after).reset.run σ).1.1 = .ok ()) :
    ∃ core' σ₁ active' σ₂, core.leave.run (σ.after (Store.discard .discarded core.address)) =
        ((.ok (), core'), σ₁) ∧
      active.reset.run σ₁ = ((.ok (), active'), σ₂) ∧
      σ.after (composite core routes before active after).reset =
        (σ₂.after ((composite core'.stopped routes before active' after).activate
          routes.initial)).after (Store.note (.reset core'.name)) := by
  rcases left : core.leave.run (σ.after (Store.discard .discarded core.address)) with
    ⟨⟨fault | ⟨⟩, core'⟩, σ₁⟩
  · simp only [Store.after] at left
    simp only [reset, StoreM.run_bind, left, StoreM.run_pure, reduceCtorEq] at done
  · rcases inner : active.reset.run σ₁ with ⟨⟨fault | ⟨⟩, active'⟩, σ₂⟩
    · simp only [Store.after] at left
      simp only [reset, StoreM.run_bind, left, inner, StoreM.run_pure, reduceCtorEq] at done
    · refine ⟨core', σ₁, active', σ₂, rfl, inner, ?_⟩
      simp only [Store.after] at left
      simp only [reset, StoreM.run_bind, left, inner, StoreM.run_pure, Store.after]

/-- Abreast stores stay so while a tree is reset in the one and deactivated in the other, if the reset is
done and no post was accepted meanwhile. -/
theorem abreast_leave (abreast : Abreast σ τ) (done : (s.reset.run σ).1.1 = .ok ())
    (unposted : Unposted σ (σ.after s.reset)) :
    Abreast (σ.after s.reset) (τ.after s.deactivate) := by
  induction s using chainInduction generalizing σ τ with
  | leaf core =>
    obtain ⟨core', σ₁, left, run⟩ := exists_of_reset_leaf done
    let σ₀ := σ.after (Store.discard .discarded core.address)
    have emptied : Abreast σ₀ (τ.after (Store.discard .abandoned core.address)) :=
      abreast.discard (.inl rfl) (.inr (.inl rfl)) core.address
    have quiet : AbreastUnlessPosted σ₀ σ₁ := by
      have kept := abreastUnlessPosted_steady.leave core σ₀
      rwa [Store.after, left] at kept
    rw [Store.after, run] at unposted ⊢
    have own := (unposted.split (Store.fires_discarded core.address σ).suffix
      (quiet.1.trans (List.suffix_cons _ _))).2
    have stays := quiet.2 (own.split quiet.1 (List.suffix_cons _ _)).1
    exact (abreast_note _ _).symm.trans (stays.symm.trans emptied)
  | composite core routes before active after ih =>
    obtain ⟨core', σ₁, active', σ₂, left, inner, run⟩ := exists_of_reset_composite done
    let σ₀ := σ.after (Store.discard .discarded core.address)
    let τ₀ := τ.after (Store.discard .abandoned core.address)
    have emptied : Abreast σ₀ τ₀ := abreast.discard (.inl rfl) (.inr (.inl rfl)) core.address
    have quiet : AbreastUnlessPosted σ₀ σ₁ := by
      have kept := abreastUnlessPosted_steady.leave core σ₀
      rwa [Store.after, left] at kept
    obtain ⟨marks, resets, fired⟩ := resets_run active σ₁
    obtain ⟨marks', quiets, -⟩ := quiets_run active τ₀
    rw [inner] at resets
    rw [Store.after, inner] at fired
    have chosen : σ₂.journal <:+
        (σ.after (composite core routes before active after).reset).journal := by
      obtain ⟨before', chosen, after', chosen_eq, -, -⟩ :=
        exists_select routes.initial core'.stopped routes before active' after
      rw [run]
      exact (fires_activate (by rw [chosen_eq]; rfl) σ₂).suffix.trans (List.suffix_cons _ _)
    obtain ⟨-, unposted⟩ := unposted.split (Store.fires_discarded core.address σ).suffix
      (quiet.1.trans (fired.suffix.trans chosen))
    obtain ⟨own, unposted⟩ := unposted.split quiet.1 (fired.suffix.trans chosen)
    obtain ⟨below, -⟩ := unposted.split fired.suffix chosen
    have left_below : Abreast σ₂ (τ₀.after active.deactivate) := by
      have kept := ih ((quiet.2 own).symm.trans emptied) (by rw [inner]) (by rwa [Store.after, inner])
      rwa [Store.after, inner] at kept
    have same : (composite core.stopped routes before (active.deactivate.run τ₀).1 after).outline =
        (composite core'.stopped routes before active' after).outline := by
      obtain ⟨exit, leaves, -⟩ := core.leaves_run σ₀
      rw [left] at leaves
      rw [outline_composite, outline_composite, outline_left leaves, resets.outline_eq_quieted quiets]
    rw [run]
    exact (abreast_note _ _).symm.trans (abreast_activate left_below same routes.initial)

/-- A reset whose exits all complete is done. -/
theorem reset_done (exits : ∀ call ∈ callsIn (Store.since σ (σ.after s.reset)), call.completed = true) :
    (s.reset.run σ).1.1 = .ok () := by
  obtain ⟨marks, resets, fired⟩ := resets_run s σ
  rcases result : (s.reset.run σ).1.1 with fault | ⟨⟩
  · rw [result] at resets
    obtain ⟨earlier, call, calls_eq, -, failed, -⟩ := resets.last_call
    have mem : call ∈ callsIn (Store.since σ (σ.after s.reset)) := by
      rw [callsIn, fired.marksIn_since, calls_eq]
      simp
    have completed := exits call mem
    rw [Call.completed, failed] at completed
    contradiction
  · rfl

/-- Whatever runs, is selected and waits anywhere in a tree: if all exits complete and have no post
accepted, a reset is done, and it leaves the tree with the same running states, the same selections and
the same links to scopes as a deactivation, and the same commands in all mailboxes; and both throw away
the same, in the same order.  The reset fires the exits of the states of the chain that run, from the
top down; the deactivation fires nothing.  So what else may tell the two apart is due to these exits:
the deactivation changes nothing but running states, selections and mailboxes, and the reset no
behaviours but of states whose exits it fires.  Where there are none, the two do the same. -/
theorem reset_agrees_with_deactivate (s : State H) (σ : Store H)
    (exits : ∀ call ∈ callsIn (Store.since σ (σ.after s.reset)), call.completed = true)
    (unposted : Store.Unposted σ (σ.after s.reset)) :
    let left := s.reset.run σ
    let quieted := s.deactivate.run σ
    (left.1.1 = .ok () ∧ left.1.2.outline = quieted.1.outline ∧
      left.1.2.survey Core.link = quieted.1.survey Core.link ∧
      left.1.2.survey Core.observers = quieted.1.survey Core.observers ∧
      left.2.mailboxes = quieted.2.mailboxes ∧
      thrownIn (Store.since σ left.2) = thrownIn (Store.since σ quieted.2)) ∧
    ((callsIn (Store.since σ left.2)).map (fun call => (call.phase, call.state, call.view.command)) =
        (s.chain.filter isRunning).map (fun t => (.exit, t.address, none)) ∧
      callsIn (Store.since σ quieted.2) = []) ∧
    (List.Forall₂ (KeepsBehavior s) s.subtree left.1.2.subtree ∧
      quieted.1.survey Core.behavior = s.survey Core.behavior ∧ MailOnly σ quieted.2) ∧
    ((∀ t ∈ s.chain, t.isRunning = false) →
      left.1.2 = quieted.1 ∧ left.2 = { quieted.2 with journal := left.2.journal }) := by
  intro left quieted
  have done : left.1.1 = .ok () := reset_done exits
  obtain ⟨marks, resets, fired⟩ := resets_run s σ
  obtain ⟨marks', quiets, fired'⟩ := quiets_run s σ
  rw [show (s.reset.run σ).1.1 = .ok () from done] at resets
  have abreast : Abreast left.2 quieted.2 := abreast_leave (.refl σ) done unposted
  have mail : MailOnly σ quieted.2 := mailOnly_empties.deactivate (fun _ _ => trivial) σ
  refine ⟨⟨done, resets.outline_eq_quieted quiets, ?_, ?_, abreast.mailboxes.symm, ?_⟩, ⟨?_, ?_⟩,
    ⟨resets.keepsBehavior, quiets.survey_eq fun _ => rfl, mail⟩, fun rests => ⟨?_, ?_⟩⟩
  · exact (resets.survey_eq Core.fitted_link).trans (quiets.survey_eq fun _ => rfl).symm
  · exact (resets.survey_eq Core.fitted_observers).trans (quiets.survey_eq fun _ => rfl).symm
  · exact (abreast.thrown_since fired.suffix fired'.suffix).symm
  · have called : marksIn (Store.since σ left.2) = marks := fired.marksIn_since
    rw [callsIn, called]
    exact resets.exits_eq
  · have called : marksIn (Store.since σ quieted.2) = marks' := fired'.marksIn_since
    rw [callsIn, called]
    exact List.filterMap_eq_nil_iff.2 quiets.silent
  · exact resets.eq_quieted quiets rests
  · exact MailOnly.eq_of_mailboxes (mailOnly_reset rests σ) mail abreast.mailboxes.symm

end State

namespace Sample

open Script

/-- The part of a state that looks at the command when it is left. -/
def parting : Part := ⟨[], [], [.raw]⟩

/-- A tree that no machine gets into: the root and a state two levels down run, but not the one in
between, and a state off the chain runs as well. -/
def disordered : State stage :=
  .composite (fresh top parting).started ⟨[(first, "Idle"), (next, "Work")], "Idle"⟩
    [.leaf (fresh (top.inner "Idle") eager)]
    (.composite (fresh work mute) ⟨[(first, "Spare"), (next, "Part")], "Spare"⟩
      [.leaf (fresh (work.inner "Spare") parting).started] (.leaf (fresh part parting).started) []) []

/-- A command waits in every mailbox. -/
def crowded : Store stage :=
  [top, top.inner "Idle", work, work.inner "Spare", part].foldl
    (fun σ place => { σ with mailboxes := σ.mailboxes.set place ⟨.keepPending, some order⟩ })
    (.initial .empty clock)

end Sample

namespace State

/-- A reset of the disordered tree fires the exits of the root and of the state two levels down, and
for the rest does what a deactivation does: both empty all five mailboxes. -/
theorem reset_agrees_with_deactivate_sample :
    let left := Sample.disordered.reset.run Sample.crowded
    let quieted := Sample.disordered.deactivate.run Sample.crowded
    left.1.1 = .ok () ∧ left.1.2.outline = quieted.1.outline ∧
      left.2.mailboxes = quieted.2.mailboxes ∧
      (callsIn (Store.since Sample.crowded left.2)).map
        (fun call => (call.phase, call.state, call.view.command)) =
          [(.exit, Sample.top, none), (.exit, Sample.part, none)] ∧
      thrownIn (Store.since Sample.crowded left.2) = thrownIn (Store.since Sample.crowded quieted.2) ∧
      (thrownIn (Store.since Sample.crowded quieted.2)).map Prod.fst =
        [Sample.top, Sample.work, Sample.part, Sample.work.inner "Spare", Sample.top.inner "Idle"] := by
  obtain ⟨⟨done, outline, -, -, mailboxes, thrown⟩, ⟨called, -⟩, -, -⟩ :=
    reset_agrees_with_deactivate Sample.disordered Sample.crowded (by decide +kernel)
      (by decide +kernel)
  exact ⟨done, outline, mailboxes, called, thrown, by decide +kernel⟩

end State

end Statechart
