import Statechart.Machine.Operation
import Statechart.Proofs.Layout
import Statechart.Proofs.Rules

/-!
# Outlines

The outline of a tree shows its places, where requests lead, what is selected and who runs.  What
behaviours keep, which scopes are in sight and who observes is left out.  A reset that fails, an
added variable and an added observer do not change the outline.
-/
namespace Statechart

variable {H : Host}

/-- Nothing is kept, observed, shared or said. -/
def outlineHost : Host := ⟨Unit, Unit, Unit, Unit⟩

/-- What an outline shows of a state itself. -/
def Core.outline (core : Core H) : Core outlineHost :=
  ⟨core.address, core.typeName, core.running, none, (), []⟩

theorem Core.Kept.outline_eq {core core' : Core H} (h : core.Kept core')
    (running : core'.running = core.running) : core'.outline = core.outline := by
  simp [Core.outline, h.address, h.typeName, running]

namespace State

variable {core core' : Core H} {routes : Routes} {before after : List (State H)}
  {active active' s s' t : State H}

mutual

/-- The outline of a state and all beneath it. -/
def outline : State H → State outlineHost
  | .leaf core => .leaf core.outline
  | .composite core routes before active after =>
    .composite core.outline routes (outlineAll before) (outline active) (outlineAll after)

/-- The outlines of some states and all beneath them. -/
def outlineAll : List (State H) → List (State outlineHost)
  | [] => []
  | state :: rest => outline state :: outlineAll rest

end

@[simp] theorem outlineAll_eq_map (states : List (State H)) :
    outlineAll states = states.map outline := by
  induction states with
  | nil => rfl
  | cons state rest ih => rw [outlineAll, ih, List.map_cons]

@[simp] theorem outline_leaf : (State.leaf core).outline = .leaf core.outline := by
  rw [outline]

@[simp] theorem outline_composite : (composite core routes before active after).outline =
    .composite core.outline routes (before.map outline) active.outline (after.map outline) := by
  simp [outline]

@[simp] theorem core_outline (s : State H) : s.outline.core = s.core.outline := by
  cases s <;> simp

@[simp] theorem address_outline (s : State H) : s.outline.address = s.address := by
  simp [address, Core.outline]

@[simp] theorem name_outline (s : State H) : s.outline.name = s.name := by
  simp [name, Core.outline, Core.name]

@[simp] theorem isRunning_outline (s : State H) : s.outline.isRunning = s.isRunning := by
  simp [isRunning, Core.outline]

@[simp] theorem isAtInitial_outline (s : State H) : s.outline.isAtInitial = s.isAtInitial := by
  cases s <;> simp [isAtInitial]

@[simp] theorem routes?_outline (s : State H) : s.outline.routes? = s.routes? := by
  cases s <;> simp [routes?]

theorem children_outline (s : State H) : s.outline.children = s.children.map outline := by
  cases s <;> simp [children]

theorem activeChild?_outline (s : State H) :
    s.outline.activeChild? = s.activeChild?.map outline := by
  cases s <;> simp [activeChild?]

theorem chain_outline (s : State H) : s.outline.chain = s.chain.map outline := by
  induction s using chainInduction with
  | leaf core => simp [chain]
  | composite core routes before active after ih => simp [chain, ih]

theorem subtree_outline (s : State H) : s.outline.subtree = s.subtree.map outline := by
  induction s using treeInduction with
  | leaf core => simp [subtree]
  | composite core routes before active after ih =>
    have inForest (states : List (State H)) (known : ∀ t ∈ states, t ∈ before ++ active :: after) :
        forest (states.map outline) = (forest states).map outline := by
      induction states with
      | nil => simp
      | cons state rest inRest =>
        have here := ih state (known state List.mem_cons_self)
        have there := inRest fun t mem => known t (List.mem_cons_of_mem _ mem)
        simp [here, there]
    have inner := inForest (composite core routes before active after).children fun _ mem => mem
    rw [subtree_eq, subtree_eq, children_outline, inner, List.map_cons]

theorem offChain_outline (s : State H) : s.outline.offChain = s.offChain.map outline := by
  have inForest (states : List (State H)) :
      forest (states.map outline) = (forest states).map outline := by
    induction states with
    | nil => simp
    | cons state rest ih => simp [ih, subtree_outline]
  induction s using chainInduction with
  | leaf core => simp [offChain]
  | composite core routes before active after ih => simp [offChain, ih, inForest]

theorem site_outline (s : State H) : s.outline.site = s.site := by
  simp only [site, address_outline, core_outline, routes?_outline, children_outline, List.map_map,
    Function.comp_def]
  rfl

theorem layout_outline (s : State H) : s.outline.layout = s.layout := by
  rw [layout, layout, subtree_outline, List.map_map]
  exact List.map_congr_left fun t _ => site_outline t

theorem layout_eq_of_outline_eq (h : s.outline = t.outline) : s.layout = t.layout := by
  rw [← layout_outline s, h, layout_outline]

/-- Trees of one outline have states of the same outlines. -/
theorem exists_of_outline_eq (eq : s'.outline = s.outline) (mem : t ∈ s'.subtree) :
    ∃ u ∈ s.subtree, u.outline = t.outline := by
  have inside : t.outline ∈ s.subtree.map outline := by
    rw [← subtree_outline, ← eq, subtree_outline]
    exact List.mem_map_of_mem mem
  exact List.mem_map.1 inside

theorem outline_withCore (h : core.outline = s.core.outline) :
    (s.withCore core).outline = s.outline := by
  cases s <;> simp_all [withCore]

theorem outline_active (h : active'.outline = active.outline) :
    (composite core routes before active' after).outline =
      (composite core routes before active after).outline := by
  simp [h]

/-! ## What does not change the outline -/

mutual

/-- Linking a tree to a scope does not change its outline. -/
theorem outline_inherit (scope : Address) (s : State H) (σ : Store H) :
    ((inherit scope s).run σ).1.outline = s.outline := by
  cases s with
  | leaf core =>
    rw [inherit]
    split
    · rfl
    · simp only [StoreM.run_bind, StoreM.run_pure, outline_leaf, Core.outline]
  | composite core routes before active after =>
    rw [inherit]
    split
    · rfl
    · simp only [StoreM.run_bind, StoreM.run_pure, outline_composite,
        outline_inheritAll scope before, outline_inherit scope active,
        outline_inheritAll scope after]
      simp [Core.outline]

theorem outline_inheritAll (scope : Address) (states : List (State H)) (σ : Store H) :
    ((inheritAll scope states).run σ).1.map outline = states.map outline := by
  cases states with
  | nil => rfl
  | cons state rest =>
    simp only [inheritAll, StoreM.run_bind, StoreM.run_pure, List.map_cons,
      outline_inherit scope state, outline_inheritAll scope rest]

end

theorem outline_attach (scope : Address) (s : State H) (σ : Store H) :
    ((attach scope s).run σ).1.outline = s.outline := by
  cases s with
  | leaf core => rfl
  | composite core routes before active after =>
    simp only [attach, StoreM.run_bind, StoreM.run_pure, outline_composite, outline_inheritAll,
      outline_inherit]

theorem outline_ensureScope (s : State H) (σ : Store H) :
    (s.ensureScope.run σ).1.2.outline = s.outline := by
  rcases seen : s.core.scope with _ | scope
  · simp only [ensureScope, seen, StoreM.run_bind, StoreM.run_pure]
    exact outline_withCore rfl
  · simp only [ensureScope, seen, StoreM.run_pure]

/-- Adding a variable does not change the outline. -/
theorem outline_injectVariable (name : String) (value : Value) (s : State H) (σ : Store H) :
    ((s.injectVariable name value).run σ).1.2.outline = s.outline := by
  simp only [injectVariable, StoreM.run_bind]
  split
  · simp only [StoreM.run_bind, StoreM.run_pure, outline_attach, outline_ensureScope]
  · simp only [StoreM.run_pure, outline_ensureScope]

/-- Adding an observer does not change the outline. -/
theorem outline_observe (observer : Observer H) (s : State H) :
    (s.observe observer).outline = s.outline := outline_withCore rfl

/-- A reset that fails has changed what behaviours keep at most. -/
theorem Resets.outline_eq {marks : List Mark} {fault : Fault}
    (h : Resets s marks (.error fault) s') : s'.outline = s.outline := by
  generalize eq : Except.error fault = result at h
  induction h with
  | exitFails left => exact outline_withCore (left.kept.outline_eq left.running_eq)
  | leaf => contradiction
  | composite => contradiction
  | innerFails left inner ih =>
    have same := left.kept.outline_eq left.running_eq
    simp [same, ih eq]

end State

end Statechart
