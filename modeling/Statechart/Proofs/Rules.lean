import Statechart.Machine.Cycle
import Statechart.Proofs.Callbacks
import Statechart.Proofs.Tree

/-!
# The rules of resets and cycles

All that a reset or a cycle can do to a tree, one rule for each way it can go, with the marks that it
makes.  A rule leaves open what the host does, so callbacks may end as they like.  `resets_run` and
`cycles_run` say that what runs follows the rules: what holds by induction on the rules holds of
every reset and every cycle.
-/
namespace Statechart.State

variable {H : Host} {σ : Store H}

/-- How a reset can go. -/
inductive Resets : State H → List Mark → Except Fault Unit → State H → Prop
  /-- The exit of the state itself fails. -/
  | exitFails {s : State H} {core' : Core H} {exit : List Mark} {fault : Fault}
    (left : s.core.Leaves exit (.error fault) core') :
    Resets s exit (.error fault) (s.withCore core')
  | leaf {core core' : Core H} {exit : List Mark} (left : core.Leaves exit (.ok ()) core') :
    Resets (.leaf core) exit (.ok ()) (.leaf core'.stopped)
  /-- The state has been left, but leaving its active inner state fails. -/
  | innerFails {core core' : Core H} {routes : Routes} {before after : List (State H)}
    {active active' : State H} {exit marks : List Mark} {fault : Fault}
    (left : core.Leaves exit (.ok ()) core') (inner : Resets active marks (.error fault) active') :
    Resets (.composite core routes before active after) (exit ++ marks) (.error fault)
      (.composite core' routes before active' after)
  /-- The state and its active inner state have been left; the initial one is selected. -/
  | composite {core core' : Core H} {routes : Routes} {before after before' after' : List (State H)}
    {active active' chosen : State H} {exit marks : List Mark}
    (left : core.Leaves exit (.ok ()) core') (inner : Resets active marks (.ok ()) active')
    (chosen_eq : (composite core'.stopped routes before active' after).select routes.initial =
      .composite core'.stopped routes before' chosen after') :
    Resets (.composite core routes before active after)
      (exit ++ (marks ++ [.selected chosen.address])) (.ok ())
      (.composite core'.stopped routes before' chosen after')

/-- What a state with inner states does about the outcome of its active one's cycle: nothing, or it
follows the request. -/
inductive Settles (core : Core H) (routes : Routes) (before : List (State H)) (active : State H)
    (after : List (State H)) :
    Except Fault (Option Tag) → List Mark → Except Fault Unit → State H → Prop
  | failed {fault : Fault} :
    Settles core routes before active after (.error fault) [] (.error fault)
      (.composite core routes before active after)
  | stays :
    Settles core routes before active after (.ok none) [] (.ok ())
      (.composite core routes before active after)
  | unknown {request : Tag} (nowhere : routes.target? request = none) :
    Settles core routes before active after (.ok (some request)) []
      (.error (.unknownTransition core.name active.name request.label))
      (.composite core routes before active after)
  /-- Leaving the inner state fails. -/
  | innerFails {request : Tag} {target : String} {fault : Fault} {active' : State H}
    {marks : List Mark} (leads : routes.target? request = some target)
    (inner : Resets active marks (.error fault) active') :
    Settles core routes before active after (.ok (some request)) marks (.error fault)
      (.composite core routes before active' after)
  /-- The inner state has been left; the one that the request leads to is selected. -/
  | follows {request : Tag} {target : String} {before' after' : List (State H)}
    {active' chosen : State H} {marks : List Mark} (leads : routes.target? request = some target)
    (inner : Resets active marks (.ok ()) active')
    (chosen_eq : (composite core routes before active' after).select target =
      .composite core routes before' chosen after') :
    Settles core routes before active after (.ok (some request))
      (marks ++ [.selected chosen.address]) (.ok ()) (.composite core routes before' chosen after')

/-- How a command is handed down: there is none, or there is no mailbox for it, or it is marked. -/
inductive Hands (place : Address) : Option Command → List Mark → Prop
  | nothing (command : Option Command) : Hands place command []
  | handed (command : Command) : Hands place (some command) [.handed place command]

/-- Hand a command down, if there is one. -/
def passOn (place : Address) : Option Command → StoreM H Unit
  | none => pure ()
  | some command => Store.handTo place command

/-- How a cycle can go. -/
inductive Cycles : State H → List Mark → Except Fault (Option Tag) → State H → Prop
  /-- A callback of the state itself fails. -/
  | fails {s : State H} {core' : Core H} {command : Option Command} {calls : List Mark}
    {fault : Fault} (advanced : s.core.Advances command calls (.error fault) core') :
    Cycles s (.taken s.address command :: calls) (.error fault) (s.withCore core')
  | leaf {core core' : Core H} {command : Option Command} {calls : List Mark}
    {requested : Option Tag} (advanced : core.Advances command calls (.ok requested) core') :
    Cycles (.leaf core) (.taken core.address command :: calls) (.ok requested) (.leaf core')
  /-- The state has been run, and its active inner state's cycle is settled. -/
  | composite {core core' : Core H} {routes : Routes} {before after : List (State H)}
    {active active' s' : State H} {command : Option Command} {calls down marks marks' : List Mark}
    {requested : Option Tag} {outcome : Except Fault (Option Tag)} {settled : Except Fault Unit}
    (advanced : core.Advances command calls (.ok requested) core')
    (hands : Hands active.address command down) (inner : Cycles active marks outcome active')
    (settles : Settles core' routes before active' after outcome marks' settled s') :
    Cycles (.composite core routes before active after)
      (.taken core.address command :: (calls ++ (down ++ (marks ++ marks'))))
      (settled.map fun _ => requested) s'

/-! ## Selecting -/

/-- Selecting an inner state is a selection, and the emptying of the mailbox of the state that is
active then. -/
theorem run_activate (name : String) (s : State H) (σ : Store H) :
    (s.activate name).run σ = (s.select name, match (s.select name).activeChild? with
      | none => σ
      | some active => σ.after (Store.discard .selected active.address)) := by
  rcases child : (s.select name).activeChild? with _ | active <;>
    simp only [activate, child, StoreM.run_bind, StoreM.run_pure, Store.after]

/-- Selecting leaves a mark, where there is something to select. -/
theorem fires_activate {name : String} {s active : State H}
    (h : (s.select name).activeChild? = some active) (σ : Store H) :
    Store.Fires σ (σ.after (s.activate name)) [.selected active.address] := by
  rw [Store.after, run_activate, h]
  exact Store.fires_selected active.address σ

/-! ## What runs follows the rules -/

variable [Conduct H]

/-- Every reset goes by the rules. -/
theorem resets_run (s : State H) (σ : Store H) :
    ∃ marks, Resets s marks (s.reset.run σ).1.1 (s.reset.run σ).1.2 ∧
      Store.Fires σ (σ.after s.reset) marks := by
  induction s using chainInduction generalizing σ with
  | leaf core =>
    let σ₁ := σ.after (Store.discard .discarded core.address)
    obtain ⟨exit, leaves, fired⟩ := core.leaves_run σ₁
    replace fired := (Store.fires_discarded core.address σ).trans fired
    rcases left : core.leave.run σ₁ with ⟨⟨fault | ⟨⟩, core'⟩, σ₂⟩
    · have run : (State.leaf core).reset.run σ = ((.error fault, .leaf core'), σ₂) := by
        simp only [σ₁, Store.after] at left
        simp only [reset, StoreM.run_bind, left, StoreM.run_pure]
      rw [Store.after, left] at fired
      rw [left] at leaves
      rw [Store.after, run]
      exact ⟨exit, .exitFails leaves, fired⟩
    · have run : (State.leaf core).reset.run σ =
          ((.ok (), .leaf core'.stopped), σ₂.after (Store.note (.reset core'.name))) := by
        simp only [σ₁, Store.after] at left
        simp only [reset, StoreM.run_bind, left, StoreM.run_pure, Store.after]
      rw [Store.after, left] at fired
      rw [left] at leaves
      rw [Store.after, run]
      exact ⟨exit, .leaf leaves, fired.noted _⟩
  | composite core routes before active after ih =>
    let σ₁ := σ.after (Store.discard .discarded core.address)
    obtain ⟨exit, leaves, fired⟩ := core.leaves_run σ₁
    replace fired := (Store.fires_discarded core.address σ).trans fired
    rcases left : core.leave.run σ₁ with ⟨⟨fault | ⟨⟩, core'⟩, σ₂⟩
    · have run : (State.composite core routes before active after).reset.run σ =
          ((.error fault, .composite core' routes before active after), σ₂) := by
        simp only [σ₁, Store.after] at left
        simp only [reset, StoreM.run_bind, left, StoreM.run_pure]
      rw [Store.after, left] at fired
      rw [left] at leaves
      rw [Store.after, run]
      exact ⟨exit, .exitFails leaves, fired⟩
    · rw [Store.after, left] at fired
      rw [left] at leaves
      obtain ⟨marks, inner, fired'⟩ := ih σ₂
      rcases innerRun : active.reset.run σ₂ with ⟨⟨fault | ⟨⟩, active'⟩, σ₃⟩
      · have run : (State.composite core routes before active after).reset.run σ =
            ((.error fault, .composite core' routes before active' after), σ₃) := by
          simp only [σ₁, Store.after] at left
          simp only [reset, StoreM.run_bind, left, innerRun, StoreM.run_pure]
        rw [Store.after, innerRun] at fired'
        rw [innerRun] at inner
        rw [Store.after, run]
        exact ⟨_, .innerFails leaves inner, fired.trans fired'⟩
      · rw [Store.after, innerRun] at fired'
        rw [innerRun] at inner
        obtain ⟨before', chosen, after', chosen_eq, -, -⟩ :=
          exists_select routes.initial core'.stopped routes before active' after
        have selected := fires_activate (by rw [chosen_eq]; rfl) σ₃
        have run : (State.composite core routes before active after).reset.run σ =
            ((.ok (), .composite core'.stopped routes before' chosen after'),
              (σ₃.after ((composite core'.stopped routes before active' after).activate
                routes.initial)).after (Store.note (.reset core'.name))) := by
          simp only [σ₁, Store.after] at left
          simp only [reset, StoreM.run_bind, left, innerRun, run_activate, chosen_eq,
            StoreM.run_pure, Store.after]
        rw [Store.after, run]
        exact ⟨_, .composite leaves inner chosen_eq,
          fired.trans (fired'.trans (selected.noted _))⟩

/-- Every outcome is settled by the rules. -/
theorem settles_run (core : Core H) (routes : Routes) (before : List (State H)) (active : State H)
    (after : List (State H)) (outcome : Except Fault (Option Tag)) (σ : Store H) :
    let settled := ((composite core routes before active after).settle outcome).run σ
    ∃ marks, Settles core routes before active after outcome marks settled.1.1 settled.1.2 ∧
      Store.Fires σ settled.2 marks := by
  rcases outcome with fault | _ | request
  · exact ⟨[], .failed, .refl σ⟩
  · exact ⟨[], .stays, .refl σ⟩
  · rcases leads : routes.target? request with _ | target
    · simp only [settle, follow, leads, StoreM.run_pure]
      exact ⟨[], .unknown leads, .refl σ⟩
    · obtain ⟨marks, inner, fired⟩ := resets_run active σ
      rcases innerRun : active.reset.run σ with ⟨⟨fault | ⟨⟩, active'⟩, σ₁⟩
      · rw [Store.after, innerRun] at fired
        rw [innerRun] at inner
        simp only [settle, follow, leads, StoreM.run_bind, innerRun, StoreM.run_pure]
        exact ⟨marks, .innerFails leads inner, fired⟩
      · rw [Store.after, innerRun] at fired
        rw [innerRun] at inner
        let σ₂ := σ₁.after (Store.note (.transition core.name active'.name target request))
        obtain ⟨before', chosen, after', chosen_eq, -, -⟩ :=
          exists_select target core routes before active' after
        have selected := fires_activate (by rw [chosen_eq]; rfl) σ₂
        have run : ((composite core routes before active after).follow request).run σ =
            ((.ok (), .composite core routes before' chosen after'),
              σ₂.after ((composite core routes before active' after).activate target)) := by
          simp only [follow, leads, StoreM.run_bind, innerRun, run_activate, chosen_eq,
            StoreM.run_pure, Store.after, σ₂]
        simp only [settle, run]
        exact ⟨_, .follows leads inner chosen_eq, (fired.noted _).trans selected⟩

/-- Telling observers makes no mark. -/
theorem fires_tell (change : PathChange) (observer : Observer H) (σ : Store H) :
    Store.Fires σ (σ.after (tell change observer)) [] := by
  cases observer with
  | host observer => exact (Conduct.notify change observer).fires_run σ
  | recorder history limit => exact ⟨[], ⟨rfl, fun _ => rfl⟩, rfl⟩

theorem fires_announce (oldPath : String) (s : State H) (σ : Store H) :
    Store.Fires σ (σ.after (s.announce oldPath)) [] := by
  have all (change : PathChange) (observers : List (Observer H)) (σ : Store H) :
      Store.Fires σ (σ.after (observers.forM (tell change))) [] := by
    induction observers generalizing σ with
    | nil => exact .refl σ
    | cons observer rest ih => exact (fires_tell change observer σ).trans (ih _)
  rw [announce]
  split
  · exact all _ _ σ
  · exact .refl σ

omit [Conduct H] in
/-- Handing a command down goes by the rules. -/
theorem hands_run (place : Address) (command : Option Command) (σ : Store H) :
    ∃ marks, Hands place command marks ∧ Store.Fires σ (σ.after (passOn place command)) marks := by
  rcases command with _ | command
  · exact ⟨[], .nothing none, .refl σ⟩
  · obtain ⟨marks, fired, rfl | rfl⟩ := Store.fires_handTo place command σ
    · exact ⟨[], .nothing _, fired⟩
    · exact ⟨_, .handed command, fired⟩

/-- A cycle of a state without inner states is its own callbacks. -/
theorem run_cycle_leaf (core : Core H) (σ : Store H) :
    (State.leaf core).cycle.run σ =
      let advanced := (core.advance (σ.waiting core.address)).run
        (σ.after (Store.takeFrom core.address))
      ((advanced.1.1, .leaf advanced.1.2), advanced.2) := by
  simp only [cycle, StoreM.run_bind, Store.fst_takeFrom, StoreM.run_pure, Store.after]

/-- A cycle ends where a callback of the state itself fails. -/
theorem run_cycle_of_error {core core' : Core H} {routes : Routes} {before after : List (State H)}
    {active : State H} {fault : Fault} {σ σ₁ : Store H}
    (advanced : (core.advance (σ.waiting core.address)).run
      (σ.after (Store.takeFrom core.address)) = ((.error fault, core'), σ₁)) :
    (State.composite core routes before active after).cycle.run σ =
      ((.error fault, .composite core' routes before active after), σ₁) := by
  simp only [Store.after] at advanced
  simp only [cycle, StoreM.run_bind, Store.fst_takeFrom, advanced, StoreM.run_pure]

/-- Once its own callbacks have completed, the state hands the command down, has its active inner
state run, settles the outcome, and tells its observers. -/
theorem run_cycle_of_ok {core core' : Core H} {routes : Routes} {before after : List (State H)}
    {active active' s' : State H} {requested : Option Tag} {outcome : Except Fault (Option Tag)}
    {settled : Except Fault Unit} {σ σ₁ σ₂ σ₃ : Store H}
    (advanced : (core.advance (σ.waiting core.address)).run
      (σ.after (Store.takeFrom core.address)) = ((.ok requested, core'), σ₁))
    (inner : active.cycle.run (σ₁.after (passOn active.address (σ.waiting core.address))) =
      ((outcome, active'), σ₂))
    (settles : ((State.composite core' routes before active' after).settle outcome).run σ₂ =
      ((settled, s'), σ₃)) :
    (State.composite core routes before active after).cycle.run σ =
      ((settled.map fun _ => requested, s'),
        σ₃.after (s'.announce (State.composite core routes before active after).path)) := by
  simp only [Store.after] at advanced inner
  rcases waits : σ.waiting core.address with _ | command <;>
    simp only [waits, passOn, StoreM.run_pure] at advanced inner <;>
    simp only [cycle, StoreM.run_bind, Store.fst_takeFrom, waits, advanced, inner, settles,
      StoreM.run_pure, Store.after]

/-- Every cycle goes by the rules. -/
theorem cycles_run (s : State H) (σ : Store H) :
    ∃ marks, Cycles s marks (s.cycle.run σ).1.1 (s.cycle.run σ).1.2 ∧
      Store.Fires σ (σ.after s.cycle) marks := by
  induction s using chainInduction generalizing σ with
  | leaf core =>
    let σ₁ := σ.after (Store.takeFrom core.address)
    obtain ⟨calls, advances, fired⟩ := core.advances_run (σ.waiting core.address) σ₁
    replace fired := (Store.fires_takeFrom core.address σ).trans fired
    rw [Store.after, run_cycle_leaf]
    rcases advanced : (core.advance (σ.waiting core.address)).run σ₁ with
      ⟨⟨fault | requested, core'⟩, σ₂⟩
    · rw [Store.after, advanced] at fired
      rw [advanced] at advances
      exact ⟨_, .fails advances, fired⟩
    · rw [Store.after, advanced] at fired
      rw [advanced] at advances
      exact ⟨_, .leaf advances, fired⟩
  | composite core routes before active after ih =>
    let σ₁ := σ.after (Store.takeFrom core.address)
    obtain ⟨calls, advances, fired⟩ := core.advances_run (σ.waiting core.address) σ₁
    replace fired := (Store.fires_takeFrom core.address σ).trans fired
    rcases advanced : (core.advance (σ.waiting core.address)).run σ₁ with
      ⟨⟨fault | requested, core'⟩, σ₂⟩
    · rw [Store.after, advanced] at fired
      rw [advanced] at advances
      rw [Store.after, run_cycle_of_error advanced]
      exact ⟨_, .fails advances, fired⟩
    · rw [Store.after, advanced] at fired
      rw [advanced] at advances
      obtain ⟨down, hands, handed⟩ := hands_run active.address (σ.waiting core.address) σ₂
      let σ₃ := σ₂.after (passOn active.address (σ.waiting core.address))
      obtain ⟨marks, inner, innerFired⟩ := ih σ₃
      rcases innerRun : active.cycle.run σ₃ with ⟨⟨outcome, active'⟩, σ₄⟩
      rw [Store.after, innerRun] at innerFired
      rw [innerRun] at inner
      obtain ⟨marks', settles, settledFired⟩ :=
        settles_run core' routes before active' after outcome σ₄
      rcases settledRun : ((State.composite core' routes before active' after).settle outcome).run σ₄
        with ⟨⟨settled, s'⟩, σ₅⟩
      rw [settledRun] at settles settledFired
      have announced := fires_announce (State.composite core routes before active after).path s' σ₅
      have settledAnnounced := settledFired.trans announced
      rw [List.append_nil] at settledAnnounced
      rw [Store.after, run_cycle_of_ok advanced innerRun settledRun]
      exact ⟨_, .composite advances hands inner settles,
        fired.trans (handed.trans (innerFired.trans settledAnnounced))⟩

end Statechart.State
