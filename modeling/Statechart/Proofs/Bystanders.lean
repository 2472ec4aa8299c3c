import Statechart.Proofs.Deliveries
import Statechart.Proofs.Scopes

/-!
# What a cycle leaves alone

What is off the active chain is dormant, and a dormant state can be selected and left again without
any change: no exit is fired in it, nothing in it is stopped, and its initial inner states are
selected already.  So a cycle that selects such states on several levels, and leaves some of them
again on its way up, still has all of them in its tree as they were.  Only their mailboxes may have
been emptied.  Main statement: a cycle of the root leaves every state off the active chain as it is,
and all that happens to its mailbox are posts, unless the state is on the initial chain of one that
is selected; and a state keeps its behaviour as long as it is not on the active chain.
-/
namespace Statechart

variable {H : Host}

namespace State

variable {core core' : Core H} {routes : Routes} {before after : List (State H)}
  {active active' s s' t u v : State H} {marks : List Mark} {σ σ' : Store H}

/-! ## Dormant states -/

/-- The first of a name among some states is where no state before it has the name. -/
theorem focus_append (fresh : ∀ state ∈ before, state.name ≠ active.name) :
    focus active.name (before ++ active :: after) = some (before, active, after) := by
  induction before with
  | nil => simp [focus]
  | cons state before ih =>
    have rest := ih fun other mem => fresh other (List.mem_cons_of_mem _ mem)
    simp [focus, fresh state List.mem_cons_self, rest]

/-- Selecting what is active already changes nothing. -/
theorem select_active (built : (composite core routes before active after).WellBuilt) :
    (composite core routes before active after).select active.name =
      .composite core routes before active after := by
  have distinct := built.sound.distinct
  rw [innerNames_site, children, List.map_append, List.map_cons, List.nodup_middle,
    List.nodup_cons] at distinct
  have found : focus active.name (before ++ active :: after) = some (before, active, after) :=
    focus_append fun state mem (same : state.name = active.name) =>
      distinct.1 (same ▸ List.mem_append_left _ (List.mem_map_of_mem mem))
  simp [select, found]

theorem Dormant.of_mem (h : s.Dormant) (mem : t ∈ s.subtree) : t.Dormant :=
  fun u inside => h u (mem_subtree_trans mem inside)

theorem mem_offChain : t ∈ (composite core routes before active after).offChain ↔
    (∃ child ∈ before ++ after, t ∈ child.subtree) ∨ t ∈ active.offChain := by
  rw [offChain, ← forest_append, List.mem_append, mem_forest]

/-- What is off the chain is dormant with all beneath it. -/
theorem Idle.dormant_of_mem (idle : s.Idle) (mem : t ∈ s.offChain) : t.Dormant := by
  induction s using chainInduction with
  | leaf core => simp [offChain] at mem
  | composite core routes before active after ih =>
    obtain ⟨dormant, inner⟩ := idle_composite.1 idle
    rcases mem_offChain.1 mem with ⟨child, here, below⟩ | mem
    · exact (dormant child here).of_mem below
    · exact ih inner mem

/-- Leaving a dormant state changes nothing. -/
theorem Resets.of_dormant {result : Except Fault Unit} (h : Resets s marks result s')
    (built : s.WellBuilt) (dormant : s.Dormant) : result = .ok () ∧ s' = s := by
  induction h with
  | @exitFails s core' exit fault left =>
    have stopped := (dormant s (self_mem_subtree s)).1
    generalize eq : Except.error fault = result at left
    cases left with
    | idle => contradiction
    | left running => simp [isRunning, running] at stopped
  | @leaf core core' exit left =>
    have stopped := dormant_leaf.1 dormant
    cases left with
    | idle => exact ⟨rfl, by rw [Core.stopped, ← stopped]⟩
    | left running => simp [running] at stopped
  | @innerFails core core' routes before after active active' exit marks fault left inner ih =>
    have below := (dormant_composite.1 dormant).2 active (by simp)
    exact absurd (ih built.inner below).1 (by simp)
  | @composite core core' routes before after before' after' active active' chosen exit marks left
      inner chosen_eq ih =>
    obtain ⟨⟨stopped, initial⟩, below⟩ := dormant_composite.1 dormant
    obtain ⟨-, rfl⟩ := ih built.inner (below active (by simp))
    cases left with
    | idle =>
      have same : core.stopped = core := by rw [Core.stopped, ← stopped]
      rw [same, ← initial, select_active built] at chosen_eq
      exact ⟨rfl, by rw [same, chosen_eq]⟩
    | left running => simp [running] at stopped

/-! ## What stays in the tree -/

/-- Some inner state has the state in its tree. -/
def Lower (t s : State H) : Prop := ∃ child ∈ s.children, t ∈ child.subtree

theorem mem_subtree_iff_lower : t ∈ s.subtree ↔ t = s ∨ t.Lower s := mem_subtree

/-- What is within a state stays there whatever becomes of the state itself and its active inner state,
if that one keeps it. -/
theorem Lower.replace (h : t.Lower (composite core routes before active after))
    (kept : t ∈ active.subtree → t ∈ active'.subtree) :
    t.Lower (composite core' routes before active' after) := by
  obtain ⟨child, here, below⟩ := h
  rcases List.mem_append.1 here with here | here
  · exact ⟨child, List.mem_append_left _ here, below⟩
  · rcases List.mem_cons.1 here with rfl | here
    · exact ⟨active', active_mem_children, kept below⟩
    · exact ⟨child, List.mem_append_right _ (List.mem_cons_of_mem _ here), below⟩

theorem Lower.select (h : t.Lower s) (name : String) : t.Lower (s.select name) := by
  rwa [Lower, children_select]

theorem Lower.withCore (h : t.Lower s) (core : Core H) : t.Lower (s.withCore core) := by
  cases s <;> exact h

/-- A dormant state is in the tree after a reset as it was before. -/
theorem Resets.keeps {result : Except Fault Unit} (h : Resets s marks result s')
    (built : s.WellBuilt) (dormant : t.Dormant) :
    (t ∈ s.subtree → t ∈ s'.subtree) ∧ (t.Lower s → t.Lower s') := by
  have self {s s' : State H} {marks : List Mark} {result : Except Fault Unit}
      (h : Resets s marks result s') (built : s.WellBuilt) (below : t.Lower s → t.Lower s')
      (mem : t ∈ s.subtree) : t ∈ s'.subtree := by
    rcases mem_subtree_iff_lower.1 mem with rfl | mem
    · rwa [(h.of_dormant built dormant).2]
    · exact mem_subtree_iff_lower.2 (.inr (below mem))
  suffices below : t.Lower s → t.Lower s' from ⟨self h built below, below⟩
  induction h with
  | exitFails left => exact fun mem => mem.withCore _
  | @leaf core core' exit left => exact fun mem => mem.withCore (s := .leaf core) _
  | innerFails left inner ih =>
    exact fun mem => mem.replace (self inner built.inner (ih built.inner))
  | composite left inner chosen_eq ih =>
    rw [← chosen_eq]
    exact fun mem => (mem.replace (self inner built.inner (ih built.inner))).select _

/-- A dormant state that is beneath a state is so when the outcome below is settled. -/
theorem Settles.keeps {outcome : Except Fault (Option Tag)} {settled : Except Fault Unit}
    (h : Settles core routes before active after outcome marks settled s')
    (built : (composite core routes before active after).WellBuilt) (dormant : t.Dormant)
    (mem : t.Lower (composite core routes before active after)) : t.Lower s' := by
  cases h with
  | failed | stays | unknown => exact mem
  | innerFails leads inner => exact mem.replace (inner.keeps built.inner dormant).1
  | follows leads inner chosen_eq =>
    rw [← chosen_eq]
    exact (mem.replace (inner.keeps built.inner dormant).1).select _

/-- What is beneath an inner state that is not active is within the state, whatever is active. -/
theorem lower_of_inactive {child : State H} (here : child ∈ before ++ after)
    (below : t ∈ child.subtree) : t.Lower (composite core routes before active after) := by
  refine ⟨child, ?_, below⟩
  rcases List.mem_append.1 here with here | here
  · exact List.mem_append_left _ here
  · exact List.mem_append_right _ (List.mem_cons_of_mem _ here)

theorem lower_of_active (h : t.Lower active) :
    t.Lower (composite core routes before active after) :=
  ⟨active, active_mem_children, mem_subtree_iff_lower.2 (.inr h)⟩

theorem lower_of_mem_offChain (mem : t ∈ s.offChain) : t.Lower s := by
  induction s using chainInduction with
  | leaf core => simp [offChain] at mem
  | composite core routes before active after ih =>
    rcases mem_offChain.1 mem with ⟨child, here, below⟩ | mem
    · exact lower_of_inactive here below
    · exact lower_of_active (ih mem)

/-- Every state off the chain is in the tree after a cycle as it was before. -/
theorem Cycles.keeps {outcome : Except Fault (Option Tag)} (h : Cycles s marks outcome s')
    (built : s.WellBuilt) (idle : s.Idle) (mem : t ∈ s.offChain) : t.Lower s' := by
  have dormant := idle.dormant_of_mem mem
  clear idle
  induction h with
  | fails advanced => exact (lower_of_mem_offChain mem).withCore _
  | leaf advanced => simp [offChain] at mem
  | composite advanced hands inner settles ih =>
    apply settles.keeps (built.of_layout (layout_composite advanced.kept inner.layout_eq)) dormant
    rcases mem_offChain.1 mem with ⟨child, here, below⟩ | mem
    · exact lower_of_inactive here below
    · exact lower_of_active (ih built.inner mem)

/-! ## Where the chain turns -/

/-- What is on one chain but not on another of the same top is beneath a state that is selected on the
one chain and not on the other. -/
theorem turn_of_mem_chain (built : s.WellBuilt) (built' : s'.WellBuilt)
    (top : s'.address = s.address) (mem : u ∈ s'.chain) :
    u.address ∈ s.chain.map address ∨
      ∃ p ∈ s.chain, ∃ p' ∈ s'.chain, p'.address = p.address ∧
        ∃ v, p'.activeChild? = some v ∧ p.activeName ≠ some v.name ∧ u ∈ v.chain := by
  induction s' using chainInduction generalizing s with
  | leaf core' =>
    obtain rfl : u = .leaf core' := by simpa [chain] using mem
    exact .inl (top ▸ List.mem_map_of_mem (List.mem_of_getElem? (getElem?_chain_zero s)))
  | composite core' routes' before' active' after' ih =>
    have here : s ∈ s.chain := List.mem_of_getElem? (getElem?_chain_zero s)
    rw [chain] at mem
    rcases List.mem_cons.1 mem with rfl | mem
    · exact .inl (top ▸ List.mem_map_of_mem here)
    · by_cases turned : s.activeName = some active'.name
      · rcases s with core | ⟨core, routes, before, active, after⟩
        · simp [activeName, activeChild?] at turned
        · have named : active.name = active'.name := by
            simpa [activeName, activeChild?] using turned
          have place : active'.address = active.address := by
            rw [built'.address_active, built.address_active, named]
            exact congrArg (fun place : Address => place.inner active'.name) top
          rcases ih built.inner built'.inner place mem with known | ⟨p, there, p', there', turn⟩
          · exact .inl (List.mem_cons_of_mem _ known)
          · exact .inr ⟨p, List.mem_cons_of_mem _ there, p', List.mem_cons_of_mem _ there', turn⟩
      · exact .inr ⟨s, here, _, List.mem_cons_self, top, active', rfl, turned, mem⟩

end State

/-- A selection that is no longer what it was has been changed by the last mark of a selection there. -/
theorem Ledger.selected_of_next {ledger ledger' : Ledger} {marks : List Mark} {place : Address}
    (h : marks.foldlM next ledger = some ledger') :
    ledger'.selection place = ledger.selection place ∨
      ∃ other, .selected other ∈ marks ∧ other.owner? = some place ∧
        ledger'.selection place = some other.name := by
  induction marks generalizing ledger with
  | nil =>
    obtain rfl : ledger = ledger' := by simpa using h
    exact .inl rfl
  | cons mark marks ih =>
    rw [List.foldlM_cons] at h
    obtain ⟨between, first, rest⟩ := Option.bind_eq_some_iff.1 h
    rcases ih rest with same | ⟨other, mem, owned, now⟩
    · rw [same]
      rcases selection_of_next first with same | ⟨other, rfl, same⟩
      · exact .inl (congrFun same place)
      · by_cases owned : other.owner? = some place
        · refine .inr ⟨other, List.mem_cons_self, owned, ?_⟩
          rw [same, select, owned]
          exact Function.update_self _ _ _
        · refine .inl ?_
          rw [same, select]
          rcases owner : other.owner? with _ | above
          · rfl
          · exact Function.update_of_ne (fun eq => owned (owner.trans (congrArg some eq.symm))) _ _
    · exact .inr ⟨other, List.mem_cons_of_mem _ mem, owned, now⟩

namespace State

variable {core core' : Core H} {routes : Routes} {before after : List (State H)}
  {active active' s s' t u v : State H} {marks : List Mark} {σ σ' : Store H}

/-- Some ledger shows the selections of a tree that is itself selected, whatever is above it. -/
theorem WellBuilt.exists_ledger (built : s.WellBuilt) :
    ∃ ledger : Ledger, Shows activeName ledger.selection s ∧
      isSelected ledger.selection s.address = true := by
  have shown := built.shows_lookup activeName
  rcases owned : s.address.owner? with _ | owner
  · exact ⟨⟨s.lookup activeName, fun _ => none⟩, shown, by simp [isSelected, owned]⟩
  · let selection := Function.update (s.lookup activeName) owner (some s.address.name)
    refine ⟨⟨selection, fun _ => none⟩, fun t mem => ?_, by simp [isSelected, owned, selection]⟩
    have apart : t.address ≠ owner := by
      rintro rfl
      exact Address.not_covers_owner owned (built.covers mem)
    exact (Function.update_of_ne apart _ _).trans (shown t mem)

/-- A selection that a cycle has changed is among its marks. -/
theorem Cycles.selected_of_ne {outcome : Except Fault (Option Tag)} (h : Cycles s marks outcome s')
    (built : s.WellBuilt) {p p' : State H} (mem : p ∈ s.subtree) (mem' : p' ∈ s'.subtree)
    (place : p'.address = p.address) (selects : p'.activeChild? = some v)
    (turned : p.activeName ≠ some v.name) : .selected v.address ∈ marks := by
  obtain ⟨ledger, shown, selected⟩ := built.exists_ledger
  obtain ⟨ledger', fold, -, shown'⟩ := h.booked built ledger shown selected
  have now : ledger'.selection p.address = some v.name := by
    rw [← place, shown' p' mem', activeName, selects]
    rfl
  have placed : v.address = p'.address.inner v.name :=
    ((built.of_layout h.layout_eq).of_mem mem').address_child (mem_children_of_activeChild? selects)
  have turns : ledger'.selection p.address = ledger.selection p.address ∨
      ∃ other, .selected other ∈ marks ∧ other.owner? = some p.address ∧
        ledger'.selection p.address = some other.name := Ledger.selected_of_next fold
  rcases turns with same | ⟨other, marked, owned, named⟩
  · rw [now, shown p mem] at same
    exact absurd same.symm turned
  · rw [now] at named
    rw [placed, place, Option.some.inj named, ← Address.eq_inner_of_owner? owned]
    exact marked

/-- Of the inner states of a state on the chain only the active one is on the chain. -/
theorem WellBuilt.activeName_of_chain (built : s.WellBuilt) {p : State H} (mem : p ∈ s.chain)
    (mem' : v ∈ s.chain) (owned : v.address.owner? = some p.address) :
    p.activeName = some v.name := by
  have covers := built.covers (mem_subtree_iff.2 (.inl mem))
  induction s using chainInduction with
  | leaf core =>
    obtain rfl : v = .leaf core := by simpa [chain] using mem'
    exact absurd covers (Address.not_covers_owner owned)
  | composite core routes before active after ih =>
    rw [chain] at mem mem'
    rcases List.mem_cons.1 mem' with rfl | mem'
    · exact absurd covers (Address.not_covers_owner owned)
    · have below := built.inner.covers (mem_subtree_iff.2 (.inl mem'))
      rcases List.mem_cons.1 mem with rfl | mem
      · have here : v.address = active.address := by
          by_contra apart
          exact built.not_covers_owner active_mem_children (below.of_owner? apart owned)
        exact congrArg (fun place : Address => some place.name) here.symm
      · exact ih built.inner mem mem' (built.inner.covers (mem_subtree_iff.2 (.inl mem)))

/-- The state is on the initial chain of a state off the active chain that some marks select. -/
def Recalled (s : State H) (marks : List Mark) (t : State H) : Prop :=
  ∃ v ∈ s.offChain, .selected v.address ∈ marks ∧ t ∈ v.chain ∧ ∀ u ∈ v.chain, u.isAtInitial = true

/-- What is on the chain after a cycle has been there before, or is recalled by it. -/
theorem Cycles.recalled_of_mem_chain {outcome : Except Fault (Option Tag)}
    (h : Cycles s marks outcome s') (built : s.WellBuilt) (idle : s.Idle) (mem : u ∈ s'.chain) :
    u.address ∈ s.chain.map address ∨ s.Recalled marks u := by
  have built' := built.of_layout h.layout_eq
  rcases turn_of_mem_chain built built' (address_eq_of_layout_eq h.layout_eq) mem with
    known | ⟨p, there, p', there', place, v, selects, turned, below⟩
  · exact .inl known
  · have inside' := mem_subtree_iff.2 (.inl there')
    have child := mem_children_of_activeChild? selects
    have marked := h.selected_of_ne built (mem_subtree_iff.2 (.inl there)) inside' place selects
      turned
    have here := mem_subtree_trans inside' (child_mem_subtree child)
    -- what is selected has been off the chain, so it is still the same
    obtain ⟨w, inside, same⟩ := exists_of_layout_eq h.layout_eq here
    have off : w ∈ s.offChain := by
      refine (mem_subtree_iff.1 inside).resolve_left fun on => turned ?_
      have owned : w.address.owner? = some p.address := by
        rw [same, (built'.of_mem inside').address_child child, Address.owner?_inner, place]
      rw [built.activeName_of_chain there on owned]
      exact congrArg (fun place : Address => some place.name) same
    obtain rfl := built'.eq_of_address_eq
      (mem_subtree_iff_lower.2 (.inr (h.keeps built idle off))) here same
    exact .inr ⟨w, off, marked, below, fun u mem =>
      (idle.dormant_of_mem off u (mem_subtree_iff.2 (.inl mem))).2⟩

end State

/-! ## Mailboxes -/

/-- What waited was thrown away because the state is left or selected. -/
def MailStep.throwsAway : MailStep → Bool
  | .discarded _ | .selected _ => true
  | _ => false

namespace Store

variable {allowed allowed' : Address → MailStep → Prop} {σ σ' : Store H}

/-- On the way from one store to the other mailboxes have made no steps but posts and such as these. -/
def Mails (allowed : Address → MailStep → Prop) (σ σ' : Store H) : Prop :=
  ∃ events : List (Event H), σ'.journal = events.reverse ++ σ.journal ∧
    ∀ place step, .mail place step ∈ events → step.isPosted = true ∨ allowed place step

theorem Mails.mono (h : Mails allowed σ σ')
    (more : ∀ place step, allowed place step → allowed' place step) : Mails allowed' σ σ' := by
  obtain ⟨events, recorded, known⟩ := h
  exact ⟨events, recorded, fun place step mem => (known place step mem).imp_right (more place step)⟩

theorem mails_mail {place : Address} {step : MailStep}
    (journal : σ'.journal = .mail place step :: σ.journal)
    (ok : step.isPosted = true ∨ allowed place step) : Mails allowed σ σ' :=
  ⟨[.mail place step], journal, by simpa using ok⟩

theorem mails_of_records {events : List (Event H)} (recorded : Records σ σ' events)
    (hosted : ∀ event ∈ events, event.Hosted) : Mails allowed σ σ' := by
  refine ⟨events, recorded.journal, fun place step mem => .inl ?_⟩
  cases hosted _ mem
  rfl

/-- Of what a machine itself does to mailboxes nothing need be allowed for callbacks. -/
theorem steady_mails : Steady (H := H) (fun _ => False) (Mails allowed) where
  refl σ := ⟨[], rfl, by simp⟩
  trans := by
    rintro σ₁ σ₂ σ₃ ⟨earlier, first, known⟩ ⟨later, second, known'⟩
    refine ⟨earlier ++ later, by simp [first, second], fun place step mem => ?_⟩
    exact (List.mem_append.1 mem).elim (known place step) (known' place step)
  log event other σ := by
    refine ⟨[event], rfl, fun place step mem => ?_⟩
    rw [← List.mem_singleton.1 mem] at other
    contradiction
  share shared σ := ⟨[], rfl, by simp⟩
  post state command σ := by
    obtain ⟨events, recorded, hosted⟩ := records_post state command σ
    exact mails_of_records recorded hosted
  handTo _ _ none := none.elim
  drain _ _ none := none.elim
  declare owner name value σ := mails_of_records (records_declare owner name value σ) (by simp)

theorem mails_drain {step : Option Command → MailStep} {place : Address}
    (ok : ∀ old, allowed place (step old)) : Along (H := H) (Mails allowed) (drain step place) := by
  intro σ
  rw [after, run_drain]
  exact mails_mail rfl (.inr (ok _))

theorem mails_discard {step : Option Command → MailStep} {place : Address}
    (ok : ∀ old, allowed place (step old)) :
    Along (H := H) (Mails allowed) (discard step place) := by
  refine steady_mails.bind (mails_drain ok) fun command => ?_
  split
  · exact steady_mails.note _
  · exact steady_mails.refl

end Store

namespace State

open Store

variable {core core' : Core H} {routes : Routes} {before after : List (State H)}
  {active active' s s' t u v : State H} {marks : List Mark} {σ σ' : Store H}
  {allowed : Address → MailStep → Prop}

theorem mails_activate (selected : ∀ place old, allowed place (.selected old)) (name : String)
    (s : State H) : Along (Mails allowed) (s.activate name) := by
  rw [activate]
  split
  · exact steady_mails.bind (mails_discard (selected _)) fun _ => steady_mails.refl
  · exact steady_mails.refl

theorem mails_passOn (place : Address) (handed : ∀ command, allowed place (.handed command))
    (command : Option Command) : Along (H := H) (Mails allowed) (passOn place command) := by
  rcases command with _ | command
  · exact steady_mails.refl
  · intro σ
    rw [passOn, Store.after, run_handTo]
    split
    · exact steady_mails.refl σ
    · exact mails_mail rfl (.inr (handed command))

variable [Conduct H]

/-- A reset throws away what waits along the chain, and where a state is selected. -/
theorem mails_reset (s : State H)
    (discarded : ∀ u ∈ s.chain, ∀ old, allowed u.address (.discarded old))
    (selected : ∀ place old, allowed place (.selected old)) : Along (Mails allowed) s.reset := by
  have steady : Steady (fun _ => False) (Mails (H := H) allowed) := steady_mails
  induction s using chainInduction with
  | leaf core =>
    have here := discarded _ (List.mem_singleton_self _)
    refine steady.bind (mails_discard here) fun _ => steady.bind (steady.leave core) fun left => ?_
    split
    · exact steady.refl
    · exact steady.bind (steady.note _) fun _ => steady.refl
  | composite core routes before active after ih =>
    have here := discarded _ List.mem_cons_self
    have below := ih fun u mem => discarded u (List.mem_cons_of_mem _ mem)
    refine steady.bind (mails_discard here) fun _ => steady.bind (steady.leave core) fun left => ?_
    split
    · exact steady.refl
    · refine steady.bind below fun left => ?_
      split
      · exact steady.refl
      · exact steady.bind (mails_activate selected _ _) fun _ =>
          steady.bind (steady.note _) fun _ => steady.refl

theorem mails_settle (outcome : Except Fault (Option Tag))
    (discarded : ∀ u ∈ active.chain, ∀ old, allowed u.address (.discarded old))
    (selected : ∀ place old, allowed place (.selected old)) :
    Along (Mails allowed) ((composite core routes before active after).settle outcome) := by
  have steady : Steady (fun _ => False) (Mails (H := H) allowed) := steady_mails
  rcases outcome with fault | _ | request
  · exact steady.refl
  · exact steady.refl
  · rw [settle, follow]
    split
    · exact steady.refl
    · refine steady.bind (mails_reset active discarded selected) fun left => ?_
      split
      · exact steady.refl
      · exact steady.bind (steady.note _) fun _ =>
          steady.bind (mails_activate selected _ _) fun _ => steady.refl

theorem mails_announce (oldPath : String) (s : State H) :
    Along (Mails allowed) (s.announce oldPath) :=
  steady_mails.announce (fun _ _ _ σ => ⟨[], rfl, by simp⟩) oldPath s

/-- What the machine itself may do to a mailbox in a cycle in which these marks are made: anything
along the chain, and elsewhere throw away what waits where a state is selected or recalled. -/
def Touches (s : State H) (marks : List Mark) (place : Address) (step : MailStep) : Prop :=
  place ∈ s.chain.map address ∨ (∃ old, step = .selected old) ∨
    (∃ old, step = .discarded old) ∧ ∃ u, u.address = place ∧ s.Recalled marks u

omit [Conduct H] in
/-- What is done in the cycle of the active inner state is done in that of the state. -/
theorem Touches.outer {more : List Mark} {place : Address} {step : MailStep}
    (h : active.Touches marks place step) (kept : ∀ mark ∈ marks, mark ∈ more) :
    (composite core routes before active after).Touches more place step := by
  rcases h with mem | selected | ⟨discarded, u, same, v, off, marked, initial⟩
  · exact .inl (List.mem_cons_of_mem _ mem)
  · exact .inr (.inl selected)
  · exact .inr (.inr ⟨discarded, u, same, v, mem_offChain.2 (.inr off), kept _ marked, initial⟩)

omit [Conduct H] in
/-- What the machine itself may do to the mailbox of a state off the chain is to throw away what waits
there, where the state is recalled. -/
theorem Touches.recalled {step : MailStep} (h : s.Touches marks t.address step)
    (built : s.WellBuilt) (idle : s.Idle) (outside : t ∈ s.offChain) (off : t ∉ s.chain)
    (selected : ∀ old, step = .selected old → .selected t.address ∈ marks) :
    s.Recalled marks t ∧ step.throwsAway = true := by
  have inside := mem_subtree_iff.2 (.inr outside)
  rcases h with on | ⟨old, rfl⟩ | ⟨⟨old, rfl⟩, u, same, v, there, marked, below, initial⟩
  · obtain ⟨u, on, same⟩ := List.mem_map.1 on
    exact absurd (built.eq_of_address_eq (mem_subtree_iff.2 (.inl on)) inside same ▸ on) off
  · have initial : ∀ u ∈ t.chain, u.isAtInitial = true := fun u below =>
      (idle.dormant_of_mem outside u (mem_subtree_iff.2 (.inl below))).2
    exact ⟨⟨t, outside, selected old rfl, List.mem_of_getElem? (getElem?_chain_zero t), initial⟩, rfl⟩
  · obtain rfl := built.eq_of_address_eq (mem_subtree_trans (mem_subtree_iff.2 (.inr there))
      (mem_subtree_iff.2 (.inl below))) inside same
    exact ⟨⟨v, there, marked, below, initial⟩, rfl⟩

/-- A state's own cycle takes what waits for it, and its callbacks only post. -/
theorem mails_advance {core : Core H} (taken : ∀ old, allowed core.address (.taken old))
    (σ : Store H) :
    Mails allowed σ ((σ.after (takeFrom core.address)).after
      (core.advance (σ.waiting core.address))) :=
  steady_mails.trans (mails_drain taken σ) (steady_mails.advance _ core _)

/-- The marks of the active inner state's cycle are among those of the state's. -/
theorem fires_inner {requested : Option Tag} {σ₂ σ₃ : Store H}
    (advanced : (core.advance (σ.waiting core.address)).run
      (σ.after (takeFrom core.address)) = ((.ok requested, core'), σ₂))
    (passed : σ₂.after (passOn active.address (σ.waiting core.address)) = σ₃) {marks' : List Mark}
    (fired : Fires σ (σ.after (composite core routes before active after).cycle) marks)
    (inner : Fires σ₃ (σ₃.after active.cycle) marks') {mark : Mark} (mem : mark ∈ marks') :
    mark ∈ marks := by
  let σ₁ := σ.after (takeFrom core.address)
  obtain ⟨calls, -, called⟩ := core.advances_run (σ.waiting core.address) σ₁
  obtain ⟨down, -, handed⟩ := hands_run active.address (σ.waiting core.address) σ₂
  rcases innerRun : active.cycle.run σ₃ with ⟨⟨outcome, active'⟩, σ₄⟩
  obtain ⟨up, -, settled⟩ := settles_run core' routes before active' after outcome σ₄
  rcases settledRun : ((State.composite core' routes before active' after).settle outcome).run σ₄
    with ⟨⟨ended, s'⟩, σ₅⟩
  have announced := fires_announce (State.composite core routes before active after).path s' σ₅
  rw [Store.after, advanced] at called
  rw [Store.after, innerRun] at inner
  rw [settledRun] at settled
  rw [passed] at handed
  rw [Store.after, run_cycle_of_ok advanced (passed ▸ innerRun) settledRun] at fired
  have all := ((fires_takeFrom core.address σ).trans called).trans
    (handed.trans (inner.trans (settled.trans announced)))
  rw [← fired.marksIn_since, all.marksIn_since]
  simp [mem]

/-- All that happens to mailboxes in a cycle are posts, and what the machine itself may do. -/
theorem mails_cycle (s : State H) (σ : Store H) (built : s.WellBuilt) (idle : s.Idle) :
    ∃ marks, Fires σ (σ.after s.cycle) marks ∧ Mails (s.Touches marks) σ (σ.after s.cycle) := by
  induction s using chainInduction generalizing σ with
  | leaf core =>
    obtain ⟨marks, -, fired⟩ := cycles_run (.leaf core) σ
    refine ⟨marks, fired, ?_⟩
    rw [Store.after, run_cycle_leaf]
    exact mails_advance (fun old => .inl (List.mem_singleton_self _)) σ
  | composite core routes before active after ih =>
    obtain ⟨marks, -, fired⟩ := cycles_run (.composite core routes before active after) σ
    let touches := (composite core routes before active after).Touches marks
    have here (step : MailStep) : touches core.address step := .inl List.mem_cons_self
    have below (step : MailStep) : touches active.address step :=
      .inl (List.mem_cons_of_mem _ (List.mem_map_of_mem (List.mem_of_getElem?
        (getElem?_chain_zero active))))
    have own : Mails touches σ _ := mails_advance (fun old => here _) σ
    refine ⟨marks, fired, ?_⟩
    rcases advanced : (core.advance (σ.waiting core.address)).run
      (σ.after (takeFrom core.address)) with ⟨⟨fault | requested, core'⟩, σ₂⟩
    · rw [Store.after, run_cycle_of_error advanced]
      rwa [Store.after, advanced] at own
    · rw [Store.after, advanced] at own
      let σ₃ := σ₂.after (passOn active.address (σ.waiting core.address))
      have handed : Mails touches σ₂ σ₃ :=
        mails_passOn active.address (fun _ => below _) (σ.waiting core.address) σ₂
      obtain ⟨marks', inner, mails⟩ := ih σ₃ built.inner (idle_composite.1 idle).2
      have kept : ∀ mark ∈ marks', mark ∈ marks := fun _ => fires_inner advanced rfl fired inner
      replace mails : Mails touches _ _ := mails.mono fun place step touched => touched.outer kept
      obtain ⟨again, cycles, fired'⟩ := cycles_run active σ₃
      obtain rfl : again = marks' := fired'.marksIn_since.symm.trans inner.marksIn_since
      rcases innerRun : active.cycle.run σ₃ with ⟨⟨outcome, active'⟩, σ₄⟩
      rw [innerRun] at cycles
      rw [Store.after, innerRun] at mails
      -- what is left on the way up has been on the chain, or the inner cycle has recalled it
      have discarded : ∀ u ∈ active'.chain, ∀ old, touches u.address (.discarded old) := by
        intro u mem old
        have arisen : active.Touches again u.address (.discarded old) := by
          rcases cycles.recalled_of_mem_chain built.inner (idle_composite.1 idle).2 mem with
            known | recalled
          · exact .inl known
          · exact .inr (.inr ⟨⟨old, rfl⟩, u, rfl, recalled⟩)
        exact arisen.outer kept
      have settled : Mails touches σ₄
          (σ₄.after ((composite core' routes before active' after).settle outcome)) :=
        mails_settle outcome discarded (fun _ old => .inr (.inl ⟨old, rfl⟩)) σ₄
      rcases settledRun :
        ((State.composite core' routes before active' after).settle outcome).run σ₄ with
          ⟨⟨ended, s'⟩, σ₅⟩
      rw [Store.after, settledRun] at settled
      have announced : Mails touches σ₅ _ :=
        mails_announce (State.composite core routes before active after).path s' σ₅
      rw [Store.after, run_cycle_of_ok advanced innerRun settledRun]
      have steady : Steady (fun _ => False) (Mails (H := H) touches) := steady_mails
      exact steady.trans own (steady.trans handed (steady.trans mails (steady.trans settled announced)))

end State

theorem mem_mailOf {place : Address} {step : MailStep} {events : List (Event H)} :
    step ∈ mailOf place events ↔ .mail place step ∈ events := by
  rw [mailOf, List.mem_filterMap]
  constructor
  · rintro ⟨event, mem, here⟩
    cases event with
    | mail state other =>
      simp only [Option.ite_none_right_eq_some, Option.some.injEq] at here
      obtain ⟨rfl, rfl⟩ := here
      exact mem
    | _ => contradiction
  · exact fun mem => ⟨_, mem, by simp⟩

/-- What waits at a place to whose mailbox nothing has happened but posts and throwing away: what has
waited before, unless a post has been accepted, or nothing, where something was thrown away. -/
theorem waits_of_mailOf {place : Address} {events : List (Event H)} {waited waits : Option Command}
    (told : events.foldlM (Event.waits place) waited = some waits)
    (known : ∀ step ∈ mailOf place events, step.isPosted = true ∨ step.throwsAway = true) :
    waits = waited ∨ (∃ command, .mail place (.posted command true) ∈ events) ∨
      (waits = none ∧ ∃ step ∈ mailOf place events, step.throwsAway = true) := by
  induction events generalizing waited with
  | nil =>
    obtain rfl : waited = waits := by simpa using told
    exact .inl rfl
  | cons event events ih =>
    rw [List.foldlM_cons] at told
    obtain ⟨between, first, rest⟩ := Option.bind_eq_some_iff.1 told
    have split : mailOf place (event :: events) = mailOf place [event] ++ mailOf place events :=
      mailOf_append place [event] events
    rw [split] at known ⊢
    rcases ih rest fun step mem => known step (List.mem_append_right _ mem) with
      rfl | ⟨command, mem⟩ | ⟨rfl, step, mem, thrown⟩
    · cases event with
      | mail state step =>
        by_cases here : state = place
        · subst here
          rw [mailOf_own] at known ⊢
          have kind := known step (by simp)
          cases step with
          | posted command accepted =>
            cases accepted with
            | true => exact .inr (.inl ⟨command, List.mem_cons_self⟩)
            | false => exact .inl (by simpa [Event.waits, MailStep.waits] using first.symm)
          | discarded old | selected old =>
            refine .inr (.inr ⟨?_, _, List.mem_append_left _ (List.mem_singleton_self _), rfl⟩)
            simp only [Event.waits, MailStep.waits, if_true] at first
            split at first
            · exact (Option.some.inj first).symm
            · contradiction
          | handed | taken | abandoned => simp [MailStep.isPosted, MailStep.throwsAway] at kind
        · exact .inl (by simpa [Event.waits, here] using first.symm)
      | notice | remark | called => exact .inl (Option.some.inj first).symm
    · exact .inr (.inl ⟨command, List.mem_cons_of_mem _ mem⟩)
    · exact .inr (.inr ⟨rfl, step, List.mem_append_right _ mem, thrown⟩)

/-! ## What behaviours keep -/

/-- A state's place and what its behaviour keeps. -/
def Core.memory (core : Core H) : Address × H.Behavior := (core.address, core.behavior)

namespace State

variable [Conduct H] {s t : State H}

/-- No operation changes what the behaviour of a state off the chain keeps. -/
theorem memory_perform (operation : Operation H) (s : State H) (σ : Store H) (built : s.WellBuilt)
    (idle : s.Idle) (mem : t ∈ s.offChain) :
    ∃ t' ∈ ((s.perform operation).run σ).1.2.subtree, t'.core.memory = t.core.memory := by
  have inside := mem_subtree_iff.2 (.inr mem)
  have surveyed {s' : State H} (same : s'.survey Core.memory = s.survey Core.memory) :
      ∃ t' ∈ s'.subtree, t'.core.memory = t.core.memory := exists_of_survey_eq same.symm inside
  cases operation with
  | cycle =>
    obtain ⟨marks, cycles, -⟩ := cycles_run s σ
    have kept := mem_subtree_iff_lower.2 (.inr (cycles.keeps built idle mem))
    refine ⟨t, ?_, rfl⟩
    rcases cycled : s.cycle.run σ with ⟨⟨fault | request, s'⟩, σ'⟩ <;> rw [cycled] at kept <;>
      simpa only [perform, StoreM.run_bind, cycled, StoreM.run_pure] using kept
  | reset =>
    obtain ⟨marks, resets, -⟩ := resets_run s σ
    exact ⟨t, (resets.keeps built (idle.dormant_of_mem mem)).1 inside, rfl⟩
  | setPath | restore => exact surveyed (survey_path rfl (fun _ => rfl) s σ)
  | injectVariable name value =>
    exact surveyed (survey_injectVariable (fun _ _ => rfl) name value s σ)
  | observe => exact surveyed (survey_withCore rfl)

theorem memory_onActive (operation : Operation H) (depth : Nat) (s : State H) (σ : Store H)
    (built : s.WellBuilt) (idle : s.Idle) (mem : t ∈ s.offChain) :
    ∃ t' ∈ ((s.onActive (fun s => s.perform operation) depth).run σ).1.2.subtree,
      t'.core.memory = t.core.memory := by
  induction depth generalizing s with
  | zero => exact memory_perform operation s σ built idle mem
  | succ depth ih =>
    cases s with
    | leaf core => simp [offChain] at mem
    | composite core routes before active after =>
      rcases mem_offChain.1 mem with ⟨child, here, below⟩ | mem
      · exact ⟨t, mem_subtree_iff_lower.2 (.inr (lower_of_inactive here below)), rfl⟩
      · obtain ⟨t', below, same⟩ := ih active built.inner (idle_composite.1 idle).2 mem
        exact ⟨t', mem_subtree_iff_lower.2 (.inr ⟨_, active_mem_children, below⟩), same⟩

end State

namespace Machine

open State

variable [Conduct H] {machine : Machine H} {t : State H}

theorem memory_move (built : machine.root.WellBuilt) (idle : machine.root.Idle)
    (mem : t ∈ machine.root.offChain) (move : Move H) :
    ∃ t' ∈ (machine.move move).2.root.subtree, t'.core.memory = t.core.memory := by
  cases move with
  | operate depth operation => exact memory_onActive operation depth _ _ built idle mem
  | post | declare => exact ⟨t, mem_subtree_iff.2 (.inr mem), rfl⟩

/-- A state keeps its behaviour over every run in which no move finds it on the active chain. -/
theorem memory_run (built : machine.root.WellBuilt) (idle : machine.root.Idle)
    (mem : t ∈ machine.root.subtree) {moves : List (Move H)}
    (off : ∀ earlier move later, moves = earlier ++ move :: later →
      t.address ∉ (machine.run earlier).2.root.chain.map address) :
    ∃ t' ∈ (machine.run moves).2.root.subtree, t'.core.memory = t.core.memory := by
  induction moves generalizing machine t with
  | nil => exact ⟨t, mem, rfl⟩
  | cons move moves ih =>
    have outside : t ∈ machine.root.offChain := (mem_subtree_iff.1 mem).resolve_left fun on =>
      off [] move moves rfl (List.mem_map_of_mem on)
    obtain ⟨t', mem', same⟩ := memory_move built idle outside move
    have place : t'.address = t.address := congrArg Prod.fst same
    obtain ⟨t'', mem'', same'⟩ := ih (built.of_layout (layout_move machine move))
      (idle_move built idle move) mem' fun earlier next later eq =>
        place ▸ off (move :: earlier) next later (by rw [eq]; rfl)
    exact ⟨t'', mem'', same'.trans same⟩

/-- A cycle of the root, whether it completes or fails, leaves every state off the active chain as it
is, with all beneath it.  What happens to its mailbox are posts; only where the state is recalled may
what waits be thrown away as well.  And over every run in which no move finds the state on the active
chain it keeps the behaviour that it was left with. -/
theorem bystanders_unchanged (reachable : machine.Reachable) (mem : t ∈ machine.root.subtree)
    (off : t ∉ machine.root.chain) :
    let moved := (machine.move (.operate 0 .cycle)).2
    let events := Store.since machine.store moved.store
    let recalled := machine.root.Recalled (marksIn events) t
    moved.root.lookup some t.address = some t ∧
    (∀ step ∈ mailOf t.address events,
      step.isPosted = true ∨ recalled ∧ step.throwsAway = true) ∧
    (moved.store.waiting t.address = machine.store.waiting t.address ∨
      (∃ command, .mail t.address (.posted command true) ∈ events) ∨
      recalled ∧ moved.store.waiting t.address = none) ∧
    ∀ moves : List (Move H),
      (∀ earlier move later, moves = earlier ++ move :: later →
        t.address ∉ (machine.run earlier).2.root.chain.map address) →
      (machine.run moves).2.root.lookup (fun s => some s.core.behavior) t.address =
        some t.core.behavior := by
  intro moved events recalled
  obtain ⟨built, idle⟩ := reachable.spec
  have outside : t ∈ machine.root.offChain := (mem_subtree_iff.1 mem).resolve_left off
  have store_eq : moved.store = machine.store.after machine.root.cycle :=
    congrArg (fun answered => answered.2.store) machine.move_cycle_eq
  obtain ⟨marks, fired, recent, recorded, touched⟩ := mails_cycle machine.root machine.store built idle
  rw [← store_eq] at fired recorded
  obtain rfl : events = recent := Store.since_eq recorded
  obtain rfl : marksIn events = marks := fired.marksIn_since
  have mails : ∀ step ∈ mailOf t.address events,
      step.isPosted = true ∨ recalled ∧ step.throwsAway = true := by
    intro step mem
    have event := mem_mailOf.1 mem
    refine (touched _ _ event).imp_right fun touched =>
      touched.recalled built idle outside off fun old selected => ?_
    exact List.mem_filterMap.2 ⟨_, selected ▸ event, rfl⟩
  refine ⟨?_, mails, ?_, fun moves away => ?_⟩
  · obtain ⟨marks, outcome, cycles, -⟩ := machine.move_cycle
    have kept := mem_subtree_iff_lower.2 (.inr (cycles.keeps built idle outside))
    exact (built.of_layout cycles.layout_eq).shows_lookup some t kept
  · rcases waits_of_mailOf (fired.records.mailboxes t.address) fun step mem =>
      (mails step mem).imp_right And.right with same | posted | ⟨none, step, mem, thrown⟩
    · exact .inl same
    · exact .inr (.inl posted)
    · rcases mails step mem with posted | ⟨again, -⟩
      · cases step <;> simp [MailStep.isPosted, MailStep.throwsAway] at posted thrown
      · exact .inr (.inr ⟨again, none⟩)
  · obtain ⟨t', mem', same⟩ := memory_run built idle mem away
    have place : t'.address = t.address := congrArg Prod.fst same
    have built' := built.of_layout (layout_run machine moves)
    rw [← place, built'.shows_lookup (fun s => some s.core.behavior) t' mem']
    exact congrArg (fun memory => some memory.2) same

/-- The small machine with an order for the state that works. -/
def Sample.expectant : Machine Script.stage :=
  (Sample.machine.move (.post Sample.work Sample.order)).2

/-- The state that works. -/
def Sample.worker : State Script.stage :=
  .composite (Sample.fresh Sample.work Sample.mute) ⟨[(Sample.first, "Part")], "Part"⟩ []
    (.leaf (Sample.fresh Sample.part Sample.stuck)) []

/-- The first cycle turns to the state that works: the order that waits for it is thrown away, and
nothing else becomes of it. -/
theorem bystanders_unchanged_sample :
    let machine := Sample.expectant
    let t := Sample.worker
    let moved := (machine.move (.operate 0 .cycle)).2
    let events := Store.since machine.store moved.store
    let recalled := machine.root.Recalled (marksIn events) t
    machine.Reachable ∧ t ∈ machine.root.subtree ∧ t ∉ machine.root.chain ∧
    machine.store.waiting t.address = some Sample.order ∧ moved.store.waiting t.address = none ∧
    moved.root.lookup some t.address = some t ∧
    (∀ step ∈ mailOf t.address events,
      step.isPosted = true ∨ recalled ∧ step.throwsAway = true) ∧
    (moved.store.waiting t.address = machine.store.waiting t.address ∨
      (∃ command, .mail t.address (.posted command true) ∈ events) ∨
      recalled ∧ moved.store.waiting t.address = none) ∧
    ∀ moves : List (Move Script.stage),
      (∀ earlier move later, moves = earlier ++ move :: later →
        t.address ∉ (machine.run earlier).2.root.chain.map address) →
      (machine.run moves).2.root.lookup (fun s => some s.core.behavior) t.address =
        some t.core.behavior := by
  have reachable : Sample.expectant.Reachable :=
    ⟨Sample.machine, [.post Sample.work Sample.order], Sample.machine_started, rfl⟩
  have mem : Sample.worker ∈ Sample.expectant.root.subtree := by
    change Sample.worker ∈ Sample.root.subtree
    simp [Sample.root, subtree, Sample.worker]
  have off : Sample.worker ∉ Sample.expectant.root.chain := fun on =>
    absurd (List.mem_map_of_mem on : Sample.worker.address ∈ _) (by decide +kernel)
  exact ⟨reachable, mem, off, by decide +kernel, by decide +kernel,
    bystanders_unchanged reachable mem off⟩

end Machine

end Statechart
