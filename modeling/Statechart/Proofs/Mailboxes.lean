import Statechart.Proofs.Lasting

/-!
# Mailboxes of states

A mailbox, once there, stays.  Every state of a machine gets one when the machine has been built, so
every state of every machine that can be reached has a mailbox, and a command can be handed to it.
-/
namespace Statechart

variable {H : Host}

namespace Store

variable {σ σ' σ₁ σ₂ σ₃ : Store H} {s : State H}

/-- Every mailbox that was there still is. -/
def KeepsBoxes (σ σ' : Store H) : Prop :=
  ∀ place, (σ.mailboxes.get? place).isSome → (σ'.mailboxes.get? place).isSome

theorem KeepsBoxes.refl (σ : Store H) : KeepsBoxes σ σ := fun _ found => found

theorem KeepsBoxes.trans (h : KeepsBoxes σ₁ σ₂) (k : KeepsBoxes σ₂ σ₃) : KeepsBoxes σ₁ σ₃ :=
  fun place found => k place (h place found)

/-- Setting a mailbox removes none. -/
theorem keepsBoxes_set (state : Address) (box : Mailbox)
    (set : σ'.mailboxes = σ.mailboxes.set state box) : KeepsBoxes σ σ' := by
  intro place found
  rw [set, Registry.get?_set]
  split
  · rfl
  · exact found

theorem keepsBoxes_lasting : Lasting (KeepsBoxes (H := H)) where
  refl := .refl
  trans := .trans
  log _ _ := .refl
  share _ := .refl
  recordChange _ _ _ := .refl
  post state command σ := by
    rcases found : σ.mailboxes.get? state with _ | box
    · rw [after, run_post, found]
      exact .refl σ
    · apply keepsBoxes_set state (box.post command).2
      rcases refused : box.refusal? with _ | waiting
      · simp only [after, run_post, found, refused]
      · simp only [after, run_post, found, refused]
        rfl
  handTo state command _ σ := by
    rcases found : σ.mailboxes.get? state with _ | box
    · rw [after, run_handTo, found]
      exact .refl σ
    · apply keepsBoxes_set state (box.replace command)
      simp only [after, run_handTo, found]
  drain step state _ σ := by
    rcases found : σ.mailboxes.get? state with _ | box
    · simp only [after, run_drain, found]
      exact .refl σ
    · apply keepsBoxes_set state box.take.2
      simp only [after, run_drain, found]
  openScope owner σ := by
    rcases found : σ.scopes.get? owner with _ | scope <;>
      (simp only [after, openScope, found, StoreM.run_modify]; exact .refl σ)
  declare owner name value σ := by
    rcases found : σ.scopes.get? owner with _ | scope <;>
      (simp only [after, declare, found, StoreM.run_bind, StoreM.run_get, StoreM.run_modify,
        StoreM.run_pure]; exact .refl σ)

/-- Every state of the tree has a mailbox. -/
def Houses (σ : Store H) (s : State H) : Prop :=
  ∀ t ∈ s.subtree, (σ.mailboxes.get? t.address).isSome

theorem Houses.later (h : Houses σ s) (kept : KeepsBoxes σ σ') : Houses σ' s :=
  fun t mem => kept _ (h t mem)

/-- Whether all states have mailboxes shows in the layout. -/
theorem Houses.of_layout {s' : State H} (h : Houses σ s) (same : s'.layout = s.layout) :
    Houses σ s' := by
  intro t mem
  obtain ⟨u, there, address_eq⟩ := State.exists_of_layout_eq same mem
  rw [← address_eq]
  exact h u there

end Store

/-! ## What is started has mailboxes -/

namespace Blueprint

open State Store

variable {s : State H} {σ σ' : Store H}

/-- Giving states mailboxes gives just them new ones, all empty. -/
theorem get?_house (policy : MailboxPolicy) (root : State H) (σ : Store H) (place : Address) :
    (σ.after (house policy root)).mailboxes.get? place =
      if place ∈ root.subtree.map State.address then some (.empty policy)
      else σ.mailboxes.get? place := by
  rw [house]
  generalize root.subtree = states
  induction states generalizing σ with
  | nil => rfl
  | cons t rest ih =>
    have first : (σ.after (setMailbox t.address (.empty policy))).mailboxes.get? place =
        if place = t.address then some (.empty policy) else σ.mailboxes.get? place := by
      simp only [after, setMailbox, StoreM.run_modify, Registry.get?_set]
    have next : (σ.after ((t :: rest).forM fun s => setMailbox s.address (.empty policy))) =
        (σ.after (setMailbox t.address (.empty policy))).after
          (rest.forM fun s => setMailbox s.address (.empty policy)) := rfl
    rw [next, ih, first]
    by_cases here : place = t.address <;> simp [here]

/-- A machine that has been started has empty mailboxes for all its states. -/
theorem get?_start {config : Config} {name typeName : String} {blueprint : Blueprint H}
    (h : (blueprint.start config name typeName).run σ = (.ok s, σ')) {t : State H}
    (mem : t ∈ s.subtree) : σ'.mailboxes.get? t.address = some (.empty config.policy) := by
  obtain ⟨-, σ₁, -, rfl⟩ := built_of_start h
  rw [get?_house, if_pos (List.mem_map_of_mem mem)]

theorem start_houses {config : Config} {name typeName : String} {blueprint : Blueprint H}
    (h : (blueprint.start config name typeName).run σ = (.ok s, σ')) : Houses σ' s := by
  intro t mem
  rw [get?_start h mem]
  rfl

end Blueprint

/-- Every state of every machine that can be reached has a mailbox. -/
theorem Machine.Reachable.houses [Conduct H] {machine : Machine H} (h : machine.Reachable) :
    machine.store.Houses machine.root := by
  obtain ⟨first, moves, ⟨config, name, typeName, blueprint, store, started⟩, rfl⟩ := h
  have housed : first.store.Houses first.root := Blueprint.start_houses (run_of_start started)
  exact (housed.later (Store.keepsBoxes_lasting.moves first moves)).of_layout
    (layout_run first moves)

end Statechart
