import Statechart.Proofs.Moves
import Statechart.Proofs.Places

/-!
# Reaching a state by its path

Every state can be reached from the root by the names on the way down to it.  A state that its owner
selects is brought onto the active chain by setting its path, and whatever waits in its mailbox still
waits there then: only the mailboxes of what is left and of what is newly selected are emptied.
-/
namespace Statechart

variable {H : Host}

theorem Store.waiting_note (notice : Notice) (σ : Store H) (place : Address) :
    (σ.after (note notice)).waiting place = σ.waiting place := rfl

namespace State

variable {core : Core H} {routes : Routes} {before after : List (State H)}
  {active child owner s t : State H} {names : List String} {place : Address}

/-- The names lead from a state down to another. -/
inductive Beneath : State H → List String → State H → Prop
  | here (s : State H) : Beneath s [] s
  | inner {s child t : State H} {names : List String} (mem : child ∈ s.children)
    (below : Beneath child names t) : Beneath s (child.name :: names) t

theorem exists_beneath (mem : t ∈ s.subtree) : ∃ names, Beneath s names t := by
  induction s using treeInduction with
  | leaf core =>
    rw [subtree, List.mem_singleton] at mem
    subst mem
    exact ⟨[], .here _⟩
  | composite core routes before active after ih =>
    rcases mem_subtree.1 mem with rfl | ⟨child, inside, mem⟩
    · exact ⟨[], .here _⟩
    · obtain ⟨names, below⟩ := ih child inside mem
      exact ⟨child.name :: names, .inner inside below⟩

theorem Beneath.mem_subtree (h : Beneath s names t) : t ∈ s.subtree := by
  induction h with
  | here s => exact self_mem_subtree s
  | inner mem below ih => exact State.mem_subtree.2 (.inr ⟨_, mem, ih⟩)

/-- The names on the way down are those by which the places differ. -/
theorem Beneath.names_eq (h : Beneath s names t) (built : s.WellBuilt) :
    t.address.names = s.address.names ++ names := by
  induction h with
  | here s => simp
  | inner mem below ih =>
    rw [ih (built.child mem), built.address_child mem, Address.names_inner]
    simp

/-- On to an inner state. -/
theorem Beneath.snoc (h : Beneath s names owner) (mem : t ∈ owner.children) :
    Beneath s (names ++ [t.name]) t := by
  induction h with
  | here s => exact .inner mem (.here t)
  | inner here below ih => exact .inner here (ih mem)

/-- What the names lead to can be looked up. -/
theorem Beneath.resolve_eq (h : Beneath s names t) (built : s.WellBuilt) (text : String) :
    s.resolve text names = .ok () := by
  induction h with
  | here s => rw [resolve]
  | @inner s child t names mem below ih =>
    cases s with
    | leaf core => simp [children] at mem
    | composite core routes before active after =>
      rw [resolve, built.child?_eq mem]
      exact ih (built.child mem)

/-! ## Mailboxes -/

/-- Selecting empties the mailbox of the state that is active then, and no other. -/
theorem waiting_activate {name : String} (selected : (s.select name).activeChild? = some active)
    (other : place ≠ active.address) (σ : Store H) :
    (σ.after (s.activate name)).waiting place = σ.waiting place := by
  rw [Store.after, run_activate, selected, Store.waiting_discard, if_neg other]

/-- Leaving a chain without callbacks concerns no mailbox elsewhere. -/
theorem waiting_deactivate (built : s.WellBuilt) (apart : ¬ s.address.Covers place) (σ : Store H) :
    (σ.after s.deactivate).waiting place = σ.waiting place := by
  induction s using chainInduction generalizing σ with
  | leaf core =>
    have other : place ≠ core.address := Address.ne_of_not_covers apart
    have emptied := Store.waiting_discard .abandoned core.address place σ
    rwa [if_neg other] at emptied
  | composite core routes before active after ih =>
    have other : place ≠ core.address := Address.ne_of_not_covers apart
    let σ₁ := σ.after (Store.discard .abandoned core.address)
    obtain ⟨marks, quiets, -⟩ := quiets_run active σ₁
    let left := composite core.stopped routes before (active.deactivate.run σ₁).1 after
    have placed : left.WellBuilt :=
      built.of_layout (layout_composite core.kept_stopped quiets.layout_eq)
    obtain ⟨before', chosen, after', chosen_eq, same, -⟩ :=
      exists_select routes.initial core.stopped routes before (active.deactivate.run σ₁).1 after
    have beneath : chosen.address = core.address.inner chosen.name :=
      placed.address_child (t := chosen) (by rw [children, ← same]; simp)
    have away : ¬ chosen.address.Covers place := by
      rw [beneath]
      exact fun within => apart ((Address.covers_inner _ _).trans within)
    have inside : ¬ active.address.Covers place :=
      fun within => apart ((built.covers (by simp [subtree_eq, children])).trans within)
    have run : σ.after (State.composite core routes before active after).deactivate =
        (σ₁.after active.deactivate).after (left.activate routes.initial) := by
      simp only [deactivate, StoreM.run_bind, Store.after, σ₁, left]
    rw [run, waiting_activate (by rw [chosen_eq]; rfl) (Address.ne_of_not_covers away),
      ih built.inner inside, Store.waiting_discard, if_neg other]

/-- A state that its owner selects is brought onto the chain by its path, and keeps what waits for
it. -/
theorem Beneath.applyPath_reaches (h : Beneath s names owner) (built : s.WellBuilt)
    (selects : owner.activeChild? = some t) (σ : Store H) :
    t ∈ ((s.applyPath (names ++ [t.name])).run σ).1.chain ∧
      (σ.after (s.applyPath (names ++ [t.name]))).waiting t.address = σ.waiting t.address := by
  induction h generalizing σ with
  | here s =>
    cases s with
    | leaf core => simp [activeChild?] at selects
    | composite core routes before active after =>
      obtain rfl : active = t := by simpa [activeChild?] using selects
      have run : ((State.composite core routes before active after).applyPath [active.name]).run σ =
          (.composite core routes before active after, σ) := by
        simp only [applyPath, retarget, if_true, StoreM.run_bind, StoreM.run_pure]
      rw [List.nil_append, Store.after, run]
      refine ⟨?_, rfl⟩
      rw [chain]
      exact List.mem_cons_of_mem _ (List.mem_of_mem_head? (head?_chain active))
  | @inner s child owner names mem below ih =>
    cases s with
    | leaf core => simp [children] at mem
    | composite core routes before active after =>
      by_cases named : active.name = child.name
      · obtain rfl := built.eq_of_name_eq active_mem_children mem named
        obtain ⟨reached, kept⟩ := ih built.inner selects σ
        have run : ((State.composite core routes before active after).applyPath
            (active.name :: (names ++ [t.name]))).run σ =
            (.composite core routes before ((active.applyPath (names ++ [t.name])).run σ).1 after,
              σ.after (active.applyPath (names ++ [t.name]))) := by
          simp only [applyPath, retarget, if_true, StoreM.run_bind, StoreM.run_pure, Store.after]
        rw [List.cons_append, Store.after, run]
        exact ⟨List.mem_cons_of_mem _ reached, kept⟩
      · obtain ⟨left, quiets, -⟩ := quiets_run active σ
        let old := composite core routes before (active.deactivate.run σ).1 after
        have placed : old.WellBuilt := built.of_layout (layout_active quiets.layout_eq)
        have there : child ∈ before ++ after := by
          rw [children, List.mem_append, List.mem_cons] at mem
          rw [List.mem_append]
          exact mem.imp_right fun mem => mem.resolve_left fun same => named (same ▸ rfl)
        obtain ⟨before', chosen, after', chosen_eq, same, found⟩ :=
          exists_select child.name core routes before (active.deactivate.run σ).1 after
        have chosen_mem : chosen ∈ old.children := by
          rw [children, ← same]
          simp
        have child_mem : child ∈ old.children := by
          rw [children, List.mem_append, List.mem_cons]
          exact (List.mem_append.1 there).imp_right .inr
        have named' : chosen.name = child.name := found (List.mem_map_of_mem child_mem)
        obtain rfl := placed.eq_of_name_eq chosen_mem child_mem named'
        let σ₁ := (σ.after active.deactivate).after
          (Store.note (.retargeted core.name (active.deactivate.run σ).1.name chosen.name))
        let σ₂ := σ₁.after (old.activate chosen.name)
        obtain ⟨reached, kept⟩ := ih (built.child mem) selects σ₂
        have run : ((State.composite core routes before active after).applyPath
            (chosen.name :: (names ++ [t.name]))).run σ =
            (.composite core routes before' ((chosen.applyPath (names ++ [t.name])).run σ₂).1 after',
              σ₂.after (chosen.applyPath (names ++ [t.name]))) := by
          simp only [applyPath, retarget, if_neg named, StoreM.run_bind, run_activate, chosen_eq,
            StoreM.run_pure, Store.after, σ₂, σ₁, old]
        have further := below.snoc (mem_children_of_activeChild? selects)
        have other : t.address ≠ chosen.address := by
          intro eq
          have names_eq := further.names_eq (built.child mem)
          rw [eq] at names_eq
          simp at names_eq
        have emptied : σ₂.waiting t.address = σ₁.waiting t.address :=
          waiting_activate (by rw [chosen_eq]; rfl) other σ₁
        have left : (σ.after active.deactivate).waiting t.address = σ.waiting t.address :=
          waiting_deactivate built.inner (built.apart there further.mem_subtree) σ
        rw [List.cons_append, Store.after, run]
        refine ⟨List.mem_cons_of_mem _ reached, ?_⟩
        rw [kept, emptied, Store.waiting_note, left]

end State

namespace Machine

open State

variable [Conduct H] {machine : Machine H} {owner t : State H}

/-- Setting the path of a state that its owner selects brings it onto the chain, and what waits for
it still does. -/
theorem setPath_reaches (built : machine.root.WellBuilt) (top : machine.root.address.above = [])
    (mem : owner ∈ machine.root.subtree) (selects : owner.activeChild? = some t) {text : String}
    {path : StatePath} (parsed : StatePath.parse text = .ok path)
    (leads : path.segments = t.address.names) :
    (machine.move (.operate 0 (.setPath text))).1 = .outcome .done ∧
      t ∈ (machine.move (.operate 0 (.setPath text))).2.root.chain ∧
      (machine.move (.operate 0 (.setPath text))).2.store.waiting t.address =
        machine.store.waiting t.address := by
  obtain ⟨names, below⟩ := exists_beneath mem
  have further := below.snoc (mem_children_of_activeChild? selects)
  have root_names : machine.root.address.names = [machine.root.name] := by
    rw [Address.names, top]
    rfl
  rw [further.names_eq built, root_names, StatePath.segments, List.singleton_append,
    List.cons.injEq] at leads
  obtain ⟨root_eq, inner_eq⟩ := leads
  obtain ⟨reached, kept⟩ := below.applyPath_reaches built selects machine.store
  have resolved : machine.root.resolve text (names ++ [t.name]) = .ok () :=
    further.resolve_eq built text
  have run := run_setPath parsed root_eq (inner_eq ▸ resolved) machine.store
  rw [inner_eq] at run
  simp only [move, onActive, perform, StoreM.run_bind, StoreM.run_pure, run]
  exact ⟨rfl, reached, kept⟩

end Machine

end Statechart
