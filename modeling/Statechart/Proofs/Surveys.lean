import Statechart.Proofs.Moves

/-!
# Surveys

A survey lists a feature of the states of a tree, in the order of the tables.  It does not show what is
selected, and if the feature shows neither what behaviours keep nor who runs, then nothing that runs,
leaves or selects states changes its survey.  What is fitted to states from outside is such a feature:
the scopes that they see, and their observers.
-/
namespace Statechart

variable {H : Host} {α : Type} {feature : Core H → α}

namespace Core

variable {core core' : Core H} {marks : List Mark}

/-- The feature shows neither what behaviours keep nor who runs. -/
structure Fitted (feature : Core H → α) : Prop where
  behaves : ∀ core behavior, feature (core.withBehavior behavior) = feature core
  starts : ∀ core, feature core.started = feature core
  stops : ∀ core, feature core.stopped = feature core

/-- The feature does not show which scope is in sight. -/
def Blind (feature : Core H → α) : Prop :=
  ∀ (core : Core H) (scope : Option Address), feature { core with scope := scope } = feature core

/-- Observers are fitted. -/
theorem fitted_observers : Fitted (observers (H := H)) :=
  ⟨fun _ _ => rfl, fun _ => rfl, fun _ => rfl⟩

/-- A state's place and the scope that it sees. -/
def link (core : Core H) : Address × Option Address := (core.address, core.scope)

/-- Links are fitted. -/
theorem fitted_link : Fitted (link (H := H)) := ⟨fun _ _ => rfl, fun _ => rfl, fun _ => rfl⟩

theorem Advances.fitted {command : Option Command} {result : Except Fault (Option Tag)}
    (h : core.Advances command marks result core') (fitted : Fitted feature) :
    feature core' = feature core := by
  cases h with
  | refused idle behavior fault => exact fitted.behaves _ _
  | entered idle behavior result => rw [fitted.starts, fitted.behaves]
  | resumed running behavior result => exact fitted.behaves _ _

theorem Leaves.fitted {result : Except Fault Unit} (h : core.Leaves marks result core')
    (fitted : Fitted feature) : feature core' = feature core := by
  cases h with
  | idle idle => rfl
  | left running behavior result => exact fitted.behaves _ _

end Core

namespace State

variable {core core' : Core H} {routes : Routes} {before after : List (State H)}
  {active active' s s' t : State H} {names : List String} {marks : List Mark}

/-- The feature of the state and of all beneath it, in the order of the tables. -/
def survey (feature : Core H → α) (s : State H) : List α := s.subtree.map fun t => feature t.core

theorem survey_eq (feature : Core H → α) (s : State H) :
    s.survey feature = feature s.core :: s.children.flatMap (survey feature) := by
  have flat (states : List (State H)) :
      (forest states).map (fun t => feature t.core) = states.flatMap (survey feature) := by
    induction states with
    | nil => simp
    | cons state rest ih => simp [ih, survey]
  simp [survey, subtree_eq, flat]

/-- The states of trees of one survey have the same features. -/
theorem exists_of_survey_eq (same : s'.survey feature = s.survey feature) (mem : t ∈ s'.subtree) :
    ∃ u ∈ s.subtree, feature u.core = feature t.core := by
  have inside : feature t.core ∈ s.survey feature := same ▸ List.mem_map_of_mem mem
  exact List.mem_map.1 inside

/-- Trees of one survey have the same feature at their tops. -/
theorem feature_eq_of_survey_eq (same : s'.survey feature = s.survey feature) :
    feature s'.core = feature s.core := by
  rw [survey_eq, survey_eq] at same
  exact (List.cons.inj same).1

theorem survey_withCore (own : feature core = feature s.core) :
    (s.withCore core).survey feature = s.survey feature := by
  have children_eq : (s.withCore core).children = s.children := by cases s <;> rfl
  rw [survey_eq, survey_eq, children_eq, core_withCore, own]

theorem survey_select (name : String) (s : State H) :
    (s.select name).survey feature = s.survey feature := by
  rw [survey_eq, survey_eq, core_select, children_select]

/-- The survey depends on the active inner state only by that state's survey. -/
theorem survey_composite (own : feature core' = feature core)
    (inner : active'.survey feature = active.survey feature) :
    (composite core' routes before active' after).survey feature =
      (composite core routes before active after).survey feature := by
  rw [survey_eq, survey_eq]
  simp only [core_composite, children, List.flatMap_append, List.flatMap_cons, own, inner]

/-! ## What keeps surveys -/

theorem Quiets.survey_eq (h : Quiets s marks s')
    (stops : ∀ core : Core H, feature core.stopped = feature core) :
    s'.survey feature = s.survey feature := by
  induction h with
  | leaf core => exact survey_withCore (s := .leaf core) (stops core)
  | composite inner chosen_eq ih =>
    rw [← chosen_eq, survey_select]
    exact survey_composite (stops _) ih

/-- Setting a path only stops states. -/
theorem Points.survey_eq (h : Points names s marks s')
    (stops : ∀ core : Core H, feature core.stopped = feature core) :
    s'.survey feature = s.survey feature := by
  induction h with
  | here s => rfl
  | leaf name names core => rfl
  | along inner ih => exact survey_composite rfl ih
  | turns other quiets chosen_eq inner ih =>
    rw [survey_composite rfl ih, ← chosen_eq, survey_select,
      survey_composite rfl (quiets.survey_eq stops)]

theorem Resets.survey_eq {result : Except Fault Unit} (h : Resets s marks result s')
    (fitted : Core.Fitted feature) : s'.survey feature = s.survey feature := by
  induction h with
  | exitFails left => exact survey_withCore (left.fitted fitted)
  | @leaf core _ _ left =>
    exact survey_withCore (s := .leaf core) ((fitted.stops _).trans (left.fitted fitted))
  | innerFails left inner ih => exact survey_composite (left.fitted fitted) ih
  | composite left inner chosen_eq ih =>
    rw [← chosen_eq, survey_select]
    exact survey_composite ((fitted.stops _).trans (left.fitted fitted)) ih

theorem Settles.survey_eq {outcome : Except Fault (Option Tag)} {settled : Except Fault Unit}
    (h : Settles core routes before active after outcome marks settled s')
    (fitted : Core.Fitted feature) :
    s'.survey feature = (composite core routes before active after).survey feature := by
  cases h with
  | failed => rfl
  | stays => rfl
  | unknown => rfl
  | innerFails leads inner => exact survey_composite rfl (inner.survey_eq fitted)
  | follows leads inner chosen_eq =>
    rw [← chosen_eq, survey_select, survey_composite rfl (inner.survey_eq fitted)]

theorem Cycles.survey_eq {outcome : Except Fault (Option Tag)} (h : Cycles s marks outcome s')
    (fitted : Core.Fitted feature) : s'.survey feature = s.survey feature := by
  induction h with
  | fails advanced => exact survey_withCore (advanced.fitted fitted)
  | @leaf core _ _ _ _ advanced => exact survey_withCore (s := .leaf core) (advanced.fitted fitted)
  | composite advanced hands inner settles ih =>
    rw [settles.survey_eq fitted]
    exact survey_composite (advanced.fitted fitted) ih

/-! ## Linking -/

mutual

/-- Linking a tree to a scope shows in no survey of other features. -/
theorem survey_inherit (blind : Core.Blind feature) (scope : Address) (s : State H) (σ : Store H) :
    ((inherit scope s).run σ).1.survey feature = s.survey feature := by
  cases s with
  | leaf core =>
    rw [inherit]
    split
    · rfl
    · exact survey_withCore (s := .leaf core) (blind core _)
  | composite core routes before active after =>
    rw [inherit]
    split
    · rfl
    · simp only [StoreM.run_bind, StoreM.run_pure]
      rw [survey_eq, survey_eq]
      simp only [core_composite, children, List.flatMap_append, List.flatMap_cons, blind core _,
        survey_inherit blind scope active, survey_inheritAll blind scope before,
        survey_inheritAll blind scope after]

theorem survey_inheritAll (blind : Core.Blind feature) (scope : Address) (states : List (State H))
    (σ : Store H) :
    ((inheritAll scope states).run σ).1.flatMap (survey feature) =
      states.flatMap (survey feature) := by
  cases states with
  | nil => rfl
  | cons state rest =>
    simp only [inheritAll, StoreM.run_bind, StoreM.run_pure, List.flatMap_cons,
      survey_inherit blind scope state, survey_inheritAll blind scope rest]

end

theorem survey_attach (blind : Core.Blind feature) (scope : Address) (s : State H) (σ : Store H) :
    ((attach scope s).run σ).1.survey feature = s.survey feature := by
  cases s with
  | leaf core => rfl
  | composite core routes before active after =>
    simp only [attach, StoreM.run_bind, StoreM.run_pure]
    rw [survey_eq, survey_eq]
    simp only [core_composite, children, List.flatMap_append, List.flatMap_cons,
      survey_inherit blind scope active, survey_inheritAll blind scope before,
      survey_inheritAll blind scope after]

theorem survey_injectVariable (blind : Core.Blind feature) (name : String) (value : Value)
    (s : State H) (σ : Store H) :
    ((s.injectVariable name value).run σ).1.2.survey feature = s.survey feature := by
  have seen : (s.ensureScope.run σ).1.2.survey feature = s.survey feature := by
    rcases found : s.core.scope with _ | scope
    · simp only [ensureScope, found, StoreM.run_bind, StoreM.run_pure]
      exact survey_withCore (blind s.core _)
    · simp only [ensureScope, found, StoreM.run_pure]
  simp only [injectVariable, StoreM.run_bind]
  split
  · simp only [StoreM.run_bind, StoreM.run_pure, survey_attach blind, seen]
  · simp only [StoreM.run_pure, seen]

/-- Setting the path shows in no survey that does not show who runs. -/
theorem survey_path [Conduct H] {operation : Operation H} (sets : operation.setsPath)
    (stops : ∀ core : Core H, feature core.stopped = feature core) (s : State H) (σ : Store H) :
    ((s.perform operation).run σ).1.2.survey feature = s.survey feature := by
  cases operation with
  | setPath text =>
    rcases setPath_run text s σ with ⟨same, -⟩ | ⟨names, marks, -, points, -⟩
    · exact congrArg (survey feature) same
    · exact points.survey_eq stops
  | restore checkpoint =>
    have kept : ((s.restore checkpoint).run σ).1.2.survey feature = s.survey feature := by
      rcases restore_run checkpoint s σ with ⟨same, -⟩ | ⟨names, marks, -, points, -⟩
      · exact congrArg (survey feature) same
      · exact points.survey_eq stops
    rcases restored : (s.restore checkpoint).run σ with ⟨⟨fault | ⟨⟩, s'⟩, σ'⟩ <;>
      rw [restored] at kept <;>
      simp only [perform, StoreM.run_bind, restored, StoreM.run_pure] <;> exact kept
  | cycle | reset | injectVariable | observe => contradiction

/-! ## What is done to a state of the chain -/

/-- What leaves the survey of a state as it is does so for the survey of all that is above it. -/
theorem survey_onActive {β : Type} {act : State H → StoreM H (β × State H)}
    (here : ∀ (s : State H) (σ : Store H),
      ((act s).run σ).1.2.survey feature = s.survey feature)
    (depth : Nat) (s : State H) (σ : Store H) :
    ((s.onActive act depth).run σ).1.2.survey feature = s.survey feature := by
  induction depth generalizing s with
  | zero => exact here s σ
  | succ depth ih =>
    cases s with
    | leaf core => rfl
    | composite core routes before active after => exact survey_composite rfl (ih active)

end State

end Statechart
