import Statechart.Machine.Retarget
import Statechart.Proofs.Rules

/-!
# The rules of setting a path

A state that is left without callbacks leaves its marks from the top down, and the selections of the
initial inner states follow from the bottom up.  A path goes along what is selected as far as it
can; where it turns off, the old inner state is left first.
-/
namespace Statechart.State

variable {H : Host} {core : Core H} {routes : Routes} {before after : List (State H)}
  {active s s' : State H}

/-- How leaving a chain without callbacks goes, with the marks that it makes. -/
inductive Quiets : State H → List Mark → State H → Prop
  | leaf (core : Core H) : Quiets (.leaf core) [.quieted core.address] (.leaf core.stopped)
  /-- A state with inner states: the active one is left, and the initial one is selected. -/
  | composite {core : Core H} {routes : Routes} {before after before' after' : List (State H)}
    {active active' chosen : State H} {marks : List Mark} (inner : Quiets active marks active')
    (chosen_eq : (composite core.stopped routes before active' after).select routes.initial =
      .composite core.stopped routes before' chosen after') :
    Quiets (.composite core routes before active after)
      (.quieted core.address :: (marks ++ [.selected chosen.address]))
      (.composite core.stopped routes before' chosen after')

/-- How the segments of a path are selected below a state, with the marks that this makes. -/
inductive Points : List String → State H → List Mark → State H → Prop
  /-- The path ends: what is below stays. -/
  | here (s : State H) : Points [] s [] s
  /-- There is nothing below to select. -/
  | leaf (name : String) (names : List String) (core : Core H) :
    Points (name :: names) (.leaf core) [] (.leaf core)
  /-- The inner state is selected already. -/
  | along {core : Core H} {routes : Routes} {before after : List (State H)}
    {active active' : State H} {names : List String} {marks : List Mark}
    (inner : Points names active marks active') :
    Points (active.name :: names) (.composite core routes before active after) marks
      (.composite core routes before active' after)
  /-- Another inner state is selected: it is left, and the one of the name is selected. -/
  | turns {core : Core H} {routes : Routes} {before after before' after' : List (State H)}
    {active active' chosen chosen' : State H} {name : String} {names : List String}
    {left marks : List Mark} (other : active.name ≠ name) (quiets : Quiets active left active')
    (chosen_eq : (composite core routes before active' after).select name =
      .composite core routes before' chosen after')
    (inner : Points names chosen marks chosen') :
    Points (name :: names) (.composite core routes before active after)
      (left ++ .selected chosen.address :: marks) (.composite core routes before' chosen' after')

/-- Leaving a chain without callbacks goes by the rules. -/
theorem quiets_run (s : State H) (σ : Store H) :
    ∃ marks, Quiets s marks (s.deactivate.run σ).1 ∧
      Store.Fires σ (σ.after s.deactivate) marks := by
  induction s using chainInduction generalizing σ with
  | leaf core => exact ⟨_, .leaf core, Store.fires_abandoned core.address σ⟩
  | composite core routes before active after ih =>
    let σ₁ := σ.after (Store.discard .abandoned core.address)
    obtain ⟨marks, inner, fired⟩ := ih σ₁
    let left := (composite core.stopped routes before (active.deactivate.run σ₁).1 after)
    obtain ⟨before', chosen, after', chosen_eq, -, -⟩ :=
      exists_select routes.initial core.stopped routes before (active.deactivate.run σ₁).1 after
    have run : (State.composite core routes before active after).deactivate.run σ =
        (composite core.stopped routes before' chosen after',
          (σ₁.after active.deactivate).after (left.activate routes.initial)) := by
      rw [← chosen_eq]
      simp only [deactivate, StoreM.run_bind, run_activate, Store.after, σ₁, left]
    have selected : Store.Fires (σ₁.after active.deactivate)
        ((σ₁.after active.deactivate).after (left.activate routes.initial))
        [.selected chosen.address] := fires_activate (by rw [chosen_eq]; rfl) _
    rw [Store.after, run]
    exact ⟨_, .composite inner chosen_eq,
      ((Store.fires_abandoned core.address σ).trans (fired.trans selected))⟩

/-- Selecting the segments of a path goes by the rules. -/
theorem points_run (names : List String) (s : State H) (σ : Store H) :
    ∃ marks, Points names s marks ((s.applyPath names).run σ).1 ∧
      Store.Fires σ (σ.after (s.applyPath names)) marks := by
  induction names generalizing s σ with
  | nil => exact ⟨_, .here s, .refl σ⟩
  | cons name names ih =>
    rcases s with core | ⟨core, routes, before, active, after⟩
    · exact ⟨_, .leaf name names core, .refl σ⟩
    · by_cases named : active.name = name
      · subst named
        obtain ⟨marks, inner, fired⟩ := ih active σ
        have run : ((State.composite core routes before active after).applyPath
            (active.name :: names)).run σ =
            (composite core routes before ((active.applyPath names).run σ).1 after,
              σ.after (active.applyPath names)) := by
          simp only [applyPath, retarget, if_true, StoreM.run_bind, StoreM.run_pure, Store.after]
        rw [Store.after, run]
        exact ⟨marks, .along inner, fired⟩
      · obtain ⟨left, quiets, quieted⟩ := quiets_run active σ
        let σ₁ := (σ.after active.deactivate).after
          (Store.note (.retargeted core.name (active.deactivate.run σ).1.name name))
        let old := composite core routes before (active.deactivate.run σ).1 after
        obtain ⟨before', chosen, after', chosen_eq, -, -⟩ :=
          exists_select name core routes before (active.deactivate.run σ).1 after
        let σ₂ := σ₁.after (old.activate name)
        obtain ⟨marks, inner, fired⟩ := ih chosen σ₂
        have run : ((State.composite core routes before active after).applyPath
            (name :: names)).run σ =
            (composite core routes before' ((chosen.applyPath names).run σ₂).1 after',
              σ₂.after (chosen.applyPath names)) := by
          simp only [applyPath, retarget, if_neg named, StoreM.run_bind, run_activate, chosen_eq,
            StoreM.run_pure, Store.after, σ₂, σ₁, old]
        have selected : Store.Fires σ₁ σ₂ [.selected chosen.address] :=
          fires_activate (by rw [chosen_eq]; rfl) _
        have noted := quieted.trans (Store.fires_note
          (.retargeted core.name (active.deactivate.run σ).1.name name) (σ.after active.deactivate))
        rw [List.append_nil] at noted
        rw [Store.after, run]
        exact ⟨_, .turns named quiets chosen_eq inner, noted.trans (selected.trans fired)⟩

/-- A path that leads somewhere is followed, and that is put on record. -/
theorem run_setPath {text : String} {path : StatePath} (parsed : StatePath.parse text = .ok path)
    (root : path.root = s.name) (resolved : s.resolve text path.inner = .ok ()) (σ : Store H) :
    (s.setPath text).run σ = ((.ok (), ((s.applyPath path.inner).run σ).1),
      (σ.after (s.applyPath path.inner)).after (Store.note
        (.pathRestored ((s.applyPath path.inner).run σ).1.name text))) := by
  simp only [setPath, parsed, root, resolved, ne_eq, not_true_eq_false, if_false,
    StoreM.run_bind, StoreM.run_pure, Store.after]

/-- Setting a path changes nothing, or it selects segments that all lead somewhere. -/
theorem setPath_run (text : String) (s : State H) (σ : Store H) :
    (((s.setPath text).run σ).1.2 = s ∧ Store.Fires σ (σ.after (s.setPath text)) []) ∨
    ∃ names marks, s.resolve text names = .ok () ∧ Points names s marks ((s.setPath text).run σ).1.2 ∧
      Store.Fires σ (σ.after (s.setPath text)) marks := by
  rcases parsed : StatePath.parse text with cause | path
  · simp only [setPath, parsed, Store.after, StoreM.run_pure]
    exact .inl ⟨trivial, .refl σ⟩
  · by_cases root : path.root = s.name
    · rcases resolved : s.resolve text path.inner with fault | ⟨⟩
      · simp only [setPath, parsed, root, resolved, Store.after, ne_eq, not_true_eq_false, if_false,
          StoreM.run_pure]
        exact .inl ⟨trivial, .refl σ⟩
      · obtain ⟨marks, points, fired⟩ := points_run path.inner s σ
        have noted := fired.trans (Store.fires_note (.pathRestored
          ((s.applyPath path.inner).run σ).1.name text) (σ.after (s.applyPath path.inner)))
        rw [List.append_nil] at noted
        rw [Store.after, run_setPath parsed root resolved]
        exact .inr ⟨path.inner, marks, resolved, points, noted⟩
    · simp only [setPath, parsed, ne_eq, root, not_false_eq_true, if_true, Store.after,
        StoreM.run_pure]
      exact .inl ⟨trivial, .refl σ⟩

/-- Restoring a checkpoint changes nothing, or it does what setting the path does. -/
theorem restore_run (checkpoint : Checkpoint) (s : State H) (σ : Store H) :
    (((s.restore checkpoint).run σ).1.2 = s ∧ Store.Fires σ (σ.after (s.restore checkpoint)) []) ∨
    ∃ names marks, s.resolve checkpoint.statePath names = .ok () ∧
      Points names s marks ((s.restore checkpoint).run σ).1.2 ∧
      Store.Fires σ (σ.after (s.restore checkpoint)) marks := by
  have set := setPath_run checkpoint.statePath s σ
  rcases valid : checkpoint.validate with fault | ⟨⟩
  · simp only [restore, valid, Store.after, StoreM.run_pure]
    exact .inl ⟨trivial, .refl σ⟩
  · by_cases root : s.name = checkpoint.root
    · rcases path : (s.setPath checkpoint.statePath).run σ with ⟨⟨fault | ⟨⟩, s'⟩, σ'⟩
      · have run : (s.restore checkpoint).run σ = ((.error (.restore fault), s'), σ') := by
          simp only [restore, valid, root, ne_eq, not_true_eq_false, if_false, StoreM.run_bind, path,
            StoreM.run_pure]
        rw [Store.after, path] at set
        rwa [Store.after, run]
      · let σ₁ := σ'.after (Store.note (.checkpointRestored checkpoint.id checkpoint.statePath))
        have run : (s.restore checkpoint).run σ = ((.ok (), s'), σ₁) := by
          simp only [restore, valid, root, ne_eq, not_true_eq_false, if_false, StoreM.run_bind, path,
            StoreM.run_pure, Store.after, σ₁]
        have noted {marks : List Mark} (fired : Store.Fires σ σ' marks) : Store.Fires σ σ₁ marks := by
          rw [← List.append_nil marks]
          exact fired.trans (Store.fires_note _ _)
        rw [Store.after, path] at set
        rw [Store.after, run]
        rcases set with ⟨same, fired⟩ | ⟨names, marks, resolved, points, fired⟩
        · exact .inl ⟨same, noted fired⟩
        · exact .inr ⟨names, marks, resolved, points, noted fired⟩
    · simp only [restore, valid, ne_eq, root, not_false_eq_true, if_true, Store.after,
        StoreM.run_pure]
      exact .inl ⟨trivial, .refl σ⟩

end Statechart.State
