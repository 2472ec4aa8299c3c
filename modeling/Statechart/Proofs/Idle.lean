import Statechart.Proofs.Outline
import Statechart.Proofs.Paths

/-!
# What is off the active chain

No operation changes the layout of a tree.  A state is dormant when nothing in it runs and every
selection in it is the initial one.  What is left becomes dormant, whether it is reset or left
without callbacks, so all that is off the active chain is dormant at all times.
-/
namespace Statechart.State

variable {H : Host} {core core' : Core H} {routes : Routes} {before after : List (State H)}
  {active active' s s' t : State H} {name : String} {names : List String} {marks : List Mark}

/-! ## Layouts -/

theorem layout_composite (kept : core.Kept core') (h : active'.layout = active.layout) :
    (composite core' routes before active' after).layout =
      (composite core routes before active after).layout := by
  rw [layout_active h]
  exact layout_withCore (s := composite core routes before active after) kept.address kept.typeName

theorem Quiets.layout_eq (h : Quiets s marks s') : s'.layout = s.layout := by
  induction h with
  | leaf core => exact layout_withCore (s := .leaf core) rfl rfl
  | composite inner chosen_eq ih =>
    rw [← chosen_eq, layout_select]
    exact layout_composite ⟨rfl, rfl⟩ ih

theorem Points.layout_eq (h : Points names s marks s') : s'.layout = s.layout := by
  induction h with
  | here s => rfl
  | leaf name names core => rfl
  | along inner ih => exact layout_active ih
  | turns other quiets chosen_eq inner ih =>
    rw [layout_active ih, ← chosen_eq, layout_select, layout_active quiets.layout_eq]

/-- A selection keeps the inner states, and the tree well built. -/
theorem children_chosen {before' after' : List (State H)} {chosen : State H}
    (chosen_eq : (composite core routes before active after).select name =
      .composite core routes before' chosen after')
    (built : (composite core routes before active after).WellBuilt) :
    before' ++ chosen :: after' = before ++ active :: after ∧
      (composite core routes before' chosen after').WellBuilt := by
  have same := children_select name (composite core routes before active after)
  rw [chosen_eq] at same
  refine ⟨same, ?_⟩
  rw [← chosen_eq]
  exact built.of_layout (layout_select _ _)

/-- What is selected by the name of an inner state stands beneath the state under that name. -/
theorem address_chosen {before' after' : List (State H)} {chosen : State H}
    (chosen_eq : (composite core routes before active after).select name =
      .composite core routes before' chosen after')
    (built : (composite core routes before active after).WellBuilt)
    (mem : name ∈ (before ++ active :: after).map State.name) :
    chosen.address = core.address.inner name := by
  obtain ⟨_, _, _, eq, -, named⟩ := exists_select name core routes before active after
  rw [chosen_eq] at eq
  obtain ⟨-, -, -, rfl, -⟩ := composite.inj eq
  rw [← named mem]
  exact (children_chosen chosen_eq built).2.address_active

theorem Resets.layout_eq {result : Except Fault Unit} (h : Resets s marks result s') :
    s'.layout = s.layout := by
  induction h with
  | exitFails left => exact layout_withCore left.kept.address left.kept.typeName
  | @leaf core _ _ left =>
    exact layout_withCore (s := .leaf core) left.kept.stopped.address left.kept.stopped.typeName
  | innerFails left inner ih => exact layout_composite left.kept ih
  | composite left inner chosen_eq ih =>
    rw [← chosen_eq, layout_select]
    exact layout_composite left.kept.stopped ih

theorem Settles.layout_eq {outcome : Except Fault (Option Tag)} {settled : Except Fault Unit}
    (h : Settles core routes before active after outcome marks settled s') :
    s'.layout = (composite core routes before active after).layout := by
  cases h with
  | failed => rfl
  | stays => rfl
  | unknown => rfl
  | innerFails leads inner => exact layout_active inner.layout_eq
  | follows leads inner chosen_eq =>
    rw [← chosen_eq, layout_select, layout_active inner.layout_eq]

theorem Cycles.layout_eq {outcome : Except Fault (Option Tag)} (h : Cycles s marks outcome s') :
    s'.layout = s.layout := by
  induction h with
  | fails advanced => exact layout_withCore advanced.kept.address advanced.kept.typeName
  | @leaf core _ _ _ _ advanced =>
    exact layout_withCore (s := .leaf core) advanced.kept.address advanced.kept.typeName
  | composite advanced hands inner settles ih =>
    rw [settles.layout_eq]
    exact layout_composite advanced.kept ih

/-! ## Dormant states -/

/-- Nothing in the tree runs, and every selection in it is the initial one. -/
def Dormant (s : State H) : Prop := ∀ t ∈ s.subtree, t.isRunning = false ∧ t.isAtInitial = true

/-- Every state off the active chain is dormant. -/
def Idle (s : State H) : Prop := ∀ t ∈ s.offChain, t.isRunning = false ∧ t.isAtInitial = true

theorem dormant_leaf : (State.leaf core).Dormant ↔ core.running = false := by
  simp [Dormant, subtree, isRunning, isAtInitial]

theorem dormant_composite : (composite core routes before active after).Dormant ↔
    (core.running = false ∧ active.name = routes.initial) ∧
      ∀ child ∈ before ++ active :: after, child.Dormant := by
  rw [Dormant, subtree_eq, List.forall_mem_cons, forall_mem_forest]
  apply and_congr
  · simp [isRunning, isAtInitial]
  · rfl

theorem idle_leaf : (State.leaf core).Idle := by simp [Idle, offChain]

theorem idle_composite : (composite core routes before active after).Idle ↔
    (∀ child ∈ before ++ after, child.Dormant) ∧ active.Idle := by
  rw [Idle, offChain, List.forall_mem_append, ← forest_append, forall_mem_forest]
  rfl

theorem Dormant.idle (h : s.Dormant) : s.Idle := fun t mem => h t (mem_subtree_iff.2 (.inr mem))

/-- With a dormant active inner state, all inner states are dormant. -/
theorem Idle.dormant_children (h : (composite core routes before active after).Idle)
    (here : active'.Dormant) : ∀ child ∈ before ++ active' :: after, child.Dormant := by
  intro child mem
  rcases List.mem_append.1 mem with mem | mem
  · exact (idle_composite.1 h).1 child (List.mem_append_left _ mem)
  · rcases List.mem_cons.1 mem with rfl | mem
    · exact here
    · exact (idle_composite.1 h).1 child (List.mem_append_right _ mem)

/-- Whatever is selected among dormant inner states, the others are dormant. -/
theorem idle_of_children (h : ∀ child ∈ before ++ active :: after, child.Dormant) :
    (composite core routes before active after).Idle := by
  refine idle_composite.2 ⟨fun child mem => ?_, (h active (by simp)).idle⟩
  rcases List.mem_append.1 mem with mem | mem
  · exact h child (List.mem_append_left _ mem)
  · exact h child (List.mem_append_right _ (List.mem_cons_of_mem _ mem))

theorem idle_select (h : ∀ child ∈ before ++ active :: after, child.Dormant) (name : String) :
    ((composite core routes before active after).select name).Idle := by
  obtain ⟨before', chosen, after', eq, same, -⟩ := exists_select name core routes before active after
  rw [eq]
  exact idle_of_children (same ▸ h)

/-- A state that does not run is dormant once its initial inner state is selected among dormant
ones. -/
theorem dormant_select (built : (composite core routes before active after).WellBuilt)
    (stopped : core.running = false)
    (h : ∀ child ∈ before ++ active :: after, child.Dormant) :
    ((composite core routes before active after).select routes.initial).Dormant := by
  obtain ⟨before', chosen, after', eq, same, named⟩ :=
    exists_select routes.initial core routes before active after
  rw [eq]
  exact dormant_composite.2 ⟨⟨stopped, named built.initial_mem⟩, same ▸ h⟩

/-- What is off the chain shows in the outline. -/
theorem Idle.of_outline (h : s.Idle) (eq : t.outline = s.outline) : t.Idle := by
  intro u mem
  have inside : u.outline ∈ s.offChain.map outline := by
    rw [← offChain_outline, ← eq, offChain_outline]
    exact List.mem_map_of_mem mem
  obtain ⟨v, there, same⟩ := List.mem_map.1 inside
  rw [← isRunning_outline, ← isAtInitial_outline, ← same, isRunning_outline, isAtInitial_outline]
  exact h v there

/-! ## What is left becomes dormant -/

theorem Quiets.dormant (h : Quiets s marks s') (built : s.WellBuilt) (idle : s.Idle) :
    s'.Dormant := by
  induction h with
  | leaf core => exact dormant_leaf.2 rfl
  | composite inner chosen_eq ih =>
    have below := ih built.inner (idle_composite.1 idle).2
    rw [← chosen_eq]
    apply dormant_select
    · exact built.of_layout (layout_composite ⟨rfl, rfl⟩ inner.layout_eq)
    · rfl
    · exact idle.dormant_children below

/-- All that is off the chain is dormant after a path has been set, if it was before. -/
theorem Points.idle (h : Points names s marks s') (built : s.WellBuilt) (idle : s.Idle) :
    s'.Idle := by
  induction h with
  | here s => exact idle
  | leaf name names core => exact idle
  | along inner ih =>
    have below := idle_composite.1 idle
    exact idle_composite.2 ⟨below.1, ih built.inner below.2⟩
  | @turns core routes before after before' after' active active' chosen chosen' name names left
      marks other quiets chosen_eq inner ih =>
    have dormant := idle.dormant_children (quiets.dormant built.inner (idle_composite.1 idle).2)
    obtain ⟨same, placed⟩ := children_chosen chosen_eq
      (built.of_layout (layout_active quiets.layout_eq))
    rw [← same] at dormant
    have turned : (State.composite core routes before' chosen after').Idle :=
      idle_of_children dormant
    have below := idle_composite.1 turned
    exact idle_composite.2 ⟨below.1, ih placed.inner below.2⟩

/-- A reset that does not fail leaves nothing running and everything initial. -/
theorem Resets.dormant (h : Resets s marks (.ok ()) s') (built : s.WellBuilt) (idle : s.Idle) :
    s'.Dormant := by
  generalize eq : Except.ok () = result at h
  induction h with
  | exitFails => contradiction
  | innerFails => contradiction
  | leaf left => exact dormant_leaf.2 rfl
  | composite left inner chosen_eq ih =>
    have below := ih built.inner (idle_composite.1 idle).2 rfl
    rw [← chosen_eq]
    apply dormant_select
    · exact built.of_layout (layout_composite left.kept.stopped inner.layout_eq)
    · rfl
    · exact idle.dormant_children below

/-- All that is off the chain is dormant after a reset, whether it fails or not. -/
theorem Resets.idle {result : Except Fault Unit} (h : Resets s marks result s') (built : s.WellBuilt)
    (idle : s.Idle) : s'.Idle := by
  rcases result with fault | ⟨⟩
  · exact idle.of_outline h.outline_eq
  · exact (h.dormant built idle).idle

theorem Settles.idle {outcome : Except Fault (Option Tag)} {settled : Except Fault Unit}
    (h : Settles core routes before active after outcome marks settled s')
    (built : (composite core routes before active after).WellBuilt)
    (idle : (composite core routes before active after).Idle) : s'.Idle := by
  cases h with
  | failed => exact idle
  | stays => exact idle
  | unknown => exact idle
  | innerFails leads inner => exact idle.of_outline (outline_active inner.outline_eq)
  | follows leads inner chosen_eq =>
    rw [← chosen_eq]
    exact idle_select (idle.dormant_children (inner.dormant built.inner (idle_composite.1 idle).2)) _

/-- All that is off the chain is dormant after a cycle, whether it fails or not. -/
theorem Cycles.idle {outcome : Except Fault (Option Tag)} (h : Cycles s marks outcome s')
    (built : s.WellBuilt) (idle : s.Idle) : s'.Idle := by
  induction h with
  | @fails s _ _ _ _ advanced =>
    cases s with
    | leaf core => exact idle_leaf
    | composite => exact idle_composite.2 (idle_composite.1 idle)
  | leaf advanced => exact idle_leaf
  | composite advanced hands inner settles ih =>
    have below := idle_composite.1 idle
    apply settles.idle
    · exact built.of_layout (layout_composite advanced.kept inner.layout_eq)
    · exact idle_composite.2 ⟨below.1, ih built.inner below.2⟩

end Statechart.State
