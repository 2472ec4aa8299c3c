import Statechart.Proofs.Departures
import Statechart.Proofs.Extent

/-!
# Cycles that fail

A cycle fails on the way down, where the entry or the step of a state fails: then no state has been
left and nothing has been selected.  Or it fails on the way up, where a state is to be left: the table
above knows nothing of its request, or an exit fails.  Then that state and all above it are where they
were, and what has changed lies beneath.  Main statement: these are all ways to fail, and the machine
itself finds fault just with the innermost request that its table does not know.
-/
namespace Statechart

variable {H : Host}

/-- A table does not know a request if no row agrees with it. -/
theorem Routes.target?_eq_none {routes : Routes} {request : Tag} : routes.target? request = none ↔
    ∀ row ∈ routes.rows, row.1.agrees request = false := by
  simp [target?]

namespace State

variable {core core' : Core H} {routes : Routes} {before after : List (State H)}
  {active active' s s' t u owner : State H} {marks : List Mark} {fault : Fault} {depth : Nat}
  {request : Tag}

/-- The state `t` so many levels below the owner's has requested a transition that the owner's table
does not know. -/
structure Strays (s : State H) (marks : List Mark) (depth : Nat) (owner t : State H)
    (request : Tag) : Prop where
  above : s.chain[depth]? = some owner
  here : s.chain[depth + 1]? = some t
  asked : (t.address, some request) ∈ marks.filterMap Mark.step?
  nowhere : ∀ routes, owner.routes? = some routes → ∀ row ∈ routes.rows, row.1.agrees request = false

/-- The way down fails at the state `t`, so many levels down: its entry or its step fails. -/
structure FailsDown (s s' : State H) (marks : List Mark) (fault : Fault) (depth : Nat)
    (t : State H) : Prop where
  here : s.chain[depth]? = some t
  /-- Its callback is the last one, and the only one that fails. -/
  last : ∃ earlier call, marks.filterMap Mark.call? = earlier ++ [call] ∧ call.state = t.address ∧
    call.fault = some fault ∧ ∀ other ∈ earlier, other.completed = true
  /-- No exit is fired, and nothing below the state. -/
  arrives : ∀ call ∈ marks.filterMap Mark.call?,
    call.phase ≠ .exit ∧ call.state ∈ (s.chain.take (depth + 1)).map address
  unselected : ∀ place, .selected place ∉ marks
  stays : s'.chain.map address = s.chain.map address
  above : ∀ u ∈ s'.chain.take depth, u.isRunning = true
  /-- The state itself runs if its entry has completed, in this cycle or before. -/
  runs : ∀ t', s'.chain[depth]? = some t' → (t'.isRunning = true ↔ t.isRunning = true ∨
    ∃ call ∈ marks.filterMap Mark.call?,
      call.state = t.address ∧ call.phase = .entry ∧ call.completed = true)

/-- The way up fails at the state `t`, which is to be left on its request by the owner right above
it, so many levels down. -/
structure FailsUp (s s' : State H) (marks : List Mark) (fault : Fault) (depth : Nat)
    (owner t : State H) (request : Tag) : Prop where
  above : s.chain[depth]? = some owner
  here : s.chain[depth + 1]? = some t
  /-- All states of the chain have taken their steps. -/
  steps : (marks.filterMap Mark.step?).map Prod.fst = s.chain.map address
  asked : (t.address, some request) ∈ marks.filterMap Mark.step?
  /-- No entry and no step has failed. -/
  arrived : ∀ call ∈ marks.filterMap Mark.call?, call.phase ≠ .exit → call.completed = true
  /-- The owner's table does not know the request, or it does and an exit fails at the state or
  below it. -/
  cause : (Strays s marks depth owner t request ∧
      fault = .unknownTransition owner.name t.name request.label ∧
      ∀ call ∈ marks.filterMap Mark.call?, call.completed = true) ∨
    (¬ Strays s marks depth owner t request ∧
      ∃ earlier call, marks.filterMap Mark.call? = earlier ++ [call] ∧ call.phase = .exit ∧
        call.fault = some fault ∧ call.state ∈ (s.chain.drop (depth + 1)).map address)
  /-- All requests from below have been followed. -/
  deepest : ∀ lower > depth, ∀ owner' t' request', ¬ Strays s marks lower owner' t' request'
  stays : (s'.chain.map address).take (depth + 2) = (s.chain.map address).take (depth + 2)
  running : ∀ u ∈ s'.chain.take (depth + 2), u.isRunning = true
  /-- Exits are fired at the state and below it only. -/
  exits : ∀ call ∈ marks.filterMap Mark.call?, call.phase = .exit → t.address.Covers call.state
  /-- What has been selected is below the state. -/
  beneath : ∀ place, .selected place ∈ marks → t.address.Covers place ∧ place ≠ t.address

/-! ## A state and what is below it -/

variable {command : Option Command} {requested : Option Tag} {calls down marks' : List Mark}

/-- The callbacks of a cycle are the state's own, those from below, and those on the way up. -/
theorem calls_composite {place : Address} (hands : Hands place command down) :
    (Mark.taken core.address command :: (calls ++ (down ++ (marks ++ marks')))).filterMap
        Mark.call? =
      calls.filterMap Mark.call? ++ (marks.filterMap Mark.call? ++ marks'.filterMap Mark.call?) := by
  have quiet : down.filterMap Mark.call? = [] := by cases hands <;> rfl
  rw [List.filterMap_cons_none rfl, List.filterMap_append, List.filterMap_append,
    List.filterMap_append, quiet, List.nil_append]

/-- The selections of a cycle are those from below and those on the way up. -/
theorem selected_composite {place other : Address}
    (advanced : core.Advances command calls (.ok requested) core') (hands : Hands other command down)
    (mem : .selected place ∈ Mark.taken core.address command :: (calls ++ (down ++ (marks ++ marks')))) :
    .selected place ∈ marks ∨ .selected place ∈ marks' := by
  simp only [List.mem_cons, List.mem_append, reduceCtorEq, false_or] at mem
  rcases mem with mem | mem | mem
  · exact absurd (advanced.inward _ mem) (by simp [Mark.isInward])
  · exact absurd (hands.inward _ mem) (by simp [Mark.isInward])
  · exact mem

/-- A request strays below a state if it strays below the active inner state. -/
theorem strays_composite (built : (composite core routes before active after).WellBuilt)
    (advanced : core.Advances command calls (.ok requested) core')
    (hands : Hands active.address command down) (settled : ∀ mark ∈ marks', mark.step? = none) :
    Strays (.composite core routes before active after)
        (.taken core.address command :: (calls ++ (down ++ (marks ++ marks')))) (depth + 1) owner t
        request ↔
      Strays active marks depth owner t request := by
  constructor
  · intro h
    have here : active.chain[depth + 1]? = some t := by simpa [chain] using h.here
    have apart := built.ne_of_mem_chain (List.mem_of_getElem? here)
    have asked := h.asked
    rw [steps_composite advanced hands settled, List.mem_cons] at asked
    exact ⟨by simpa [chain] using h.above, here,
      asked.resolve_left fun same => apart (Prod.mk.inj same).1, h.nowhere⟩
  · intro h
    refine ⟨by simpa [chain] using h.above, by simpa [chain] using h.here, ?_, h.nowhere⟩
    rw [steps_composite advanced hands settled]
    exact List.mem_cons_of_mem _ h.asked

/-! ## What completes -/

/-- The callbacks of a state's own cycle that completes are its entry and its step. -/
theorem calls_of_advances (h : core.Advances command marks (.ok requested) core') :
    ∀ call ∈ marks.filterMap Mark.call?,
      call.state = core.address ∧ call.phase ≠ .exit ∧ call.completed = true := by
  cases h <;> simp [Mark.call?, Core.record, Call.completed]

/-- A state whose cycle has completed runs. -/
theorem Cycles.running_of_ok {requested : Option Tag} (h : Cycles s marks (.ok requested) s') :
    s'.isRunning = true := by
  generalize eq : Except.ok requested = outcome at h
  cases h with
  | fails => contradiction
  | leaf advanced => exact advanced.running_of_ok
  | @composite _ _ _ _ _ _ _ _ _ _ _ _ _ _ _ settled advanced hands inner settles =>
    rcases settled with fault | ⟨⟩
    · contradiction
    cases settles with
    | stays => exact advanced.running_of_ok
    | follows => exact advanced.running_of_ok

/-- The request of a state's own step is what its cycle results in. -/
theorem Cycles.eq_of_asked {requested asked : Option Tag} (h : Cycles s marks (.ok requested) s')
    (built : s.WellBuilt) (idle : s.Idle)
    (mem : (s.address, asked) ∈ marks.filterMap Mark.step?) : asked = requested := by
  have distinct := built.nodup_chain
  rw [← h.places_eq built idle] at distinct
  obtain ⟨deeper, steps⟩ := h.steps_eq_cons
  have own : (s.address, requested) ∈ marks.filterMap Mark.step? := by simp [steps]
  exact (Prod.mk.inj (List.inj_on_of_nodup_map distinct mem own rfl)).2

/-- A cycle that completes has followed all requests. -/
theorem Cycles.not_strays {requested : Option Tag} (h : Cycles s marks (.ok requested) s')
    (built : s.WellBuilt) (idle : s.Idle) : ¬ Strays s marks depth owner t request := by
  generalize eq : Except.ok requested = outcome at h
  induction h generalizing requested depth with
  | fails => contradiction
  | leaf => exact fun strays => by simpa [chain] using strays.here
  | @composite core core' routes before after active active' s' command calls down marks marks'
      requested' outcome settled advanced hands inner settles ih =>
    rcases settled with fault | ⟨⟩
    · contradiction
    intro strays
    have idleInner := (idle_composite.1 idle).2
    have asked := strays.asked
    rw [steps_composite advanced hands fun mark mem => (settles.of_mem mem).1, List.mem_cons]
      at asked
    -- the request is not the state's own
    have below : t ∈ active.chain := List.mem_of_getElem? (by simpa [chain] using strays.here)
    replace asked := asked.resolve_left fun same => built.ne_of_mem_chain below (Prod.mk.inj same).1
    rcases depth with _ | depth
    · obtain rfl : State.composite core routes before active after = owner := by
        simpa [chain] using strays.above
      obtain ⟨deeper, chain_eq⟩ := chain_eq_cons active
      obtain rfl : active = t := by simpa [chain, chain_eq] using strays.here
      cases settles with
      | stays => exact absurd (inner.eq_of_asked built.inner idleInner asked) (by simp)
      | follows leads =>
        obtain rfl := Option.some.inj (inner.eq_of_asked built.inner idleInner asked)
        obtain ⟨earlier, row, later, rows_eq, agrees, -⟩ := Routes.target?_eq_some.1 leads
        have differs := strays.nowhere routes rfl row (by simp [rows_eq])
        rw [agrees] at differs
        contradiction
    · have further := (strays_composite built advanced hands
        fun mark mem => (settles.of_mem mem).1).1 strays
      cases settles with
      | stays => exact ih built.inner idleInner rfl further
      | follows => exact ih built.inner idleInner rfl further

/-! ## Failing on the way down -/

/-- A callback of the state's own fails. -/
theorem failsDown_here (advanced : s.core.Advances command calls (.error fault) core') :
    FailsDown s (s.withCore core') (.taken s.address command :: calls) fault 0 s where
  here := getElem?_chain_zero s
  last := by
    cases advanced with
    | refused => exact ⟨[], _, rfl, rfl, rfl, by simp⟩
    | entered => exact ⟨[_], _, rfl, rfl, rfl, by simp [Core.record, Call.completed]⟩
    | resumed => exact ⟨[], _, rfl, rfl, rfl, by simp⟩
  arrives := by
    obtain ⟨deeper, chain_eq⟩ := chain_eq_cons s
    rw [chain_eq]
    cases advanced with
    | refused => simp [Mark.call?, Core.record, address]
    | entered =>
      simp only [Mark.call?, Core.record, List.filterMap_cons, List.filterMap_nil]
      simp [address]
    | resumed => simp [Mark.call?, Core.record, address]
  unselected place mem := by
    rcases List.mem_cons.1 mem with mem | mem
    · contradiction
    · exact absurd (advanced.inward _ mem) (by simp [Mark.isInward])
  stays := by
    have kept := advanced.kept.address
    cases s with
    | leaf core => simpa [chain, withCore, address] using kept
    | composite core routes before active after => simpa [chain, withCore, address] using kept
  above := by simp
  runs t' here := by
    have same : s.withCore core' = t' := by
      rw [getElem?_chain_zero] at here
      exact Option.some.inj here
    subst same
    simp only [isRunning, core_withCore]
    cases advanced with
    | refused idle behavior => simp [Mark.call?, Core.record, Call.completed, Core.withBehavior]
    | entered => simp [Mark.call?, Core.record, Call.completed, Core.started, address]
    | resumed running => simp [Mark.call?, Core.withBehavior, running]

/-- The way down fails one level further down. -/
theorem FailsDown.outer (h : FailsDown active active' marks fault depth t)
    (built : (composite core routes before active after).WellBuilt)
    (advanced : core.Advances command calls (.ok requested) core')
    (hands : Hands active.address command down) :
    FailsDown (.composite core routes before active after)
      (.composite core' routes before active' after)
      (.taken core.address command :: (calls ++ (down ++ (marks ++ [])))) fault (depth + 1) t where
  here := by simpa [chain] using h.here
  last := by
    obtain ⟨earlier, call, calls_eq, state_eq, fault_eq, completed⟩ := h.last
    refine ⟨calls.filterMap Mark.call? ++ earlier, call, ?_, state_eq, fault_eq, ?_⟩
    · rw [calls_composite hands, calls_eq]
      simp
    · exact List.forall_mem_append.2
        ⟨fun other mem => (calls_of_advances advanced other mem).2.2, completed⟩
  arrives := by
    rw [calls_composite hands, List.filterMap_nil, List.append_nil]
    refine List.forall_mem_append.2 ⟨fun call mem => ?_, fun call mem => ?_⟩
    · obtain ⟨state_eq, phase, -⟩ := calls_of_advances advanced call mem
      refine ⟨phase, ?_⟩
      rw [state_eq, chain, List.take_succ_cons, List.map_cons]
      exact List.mem_cons_self
    · obtain ⟨phase, inside⟩ := h.arrives call mem
      refine ⟨phase, ?_⟩
      rw [chain, List.take_succ_cons, List.map_cons]
      exact List.mem_cons_of_mem _ inside
  unselected place mem := by
    rcases selected_composite advanced hands mem with mem | mem
    · exact h.unselected place mem
    · contradiction
  stays := by
    have kept := advanced.kept.address
    simp [chain, h.stays, address, kept]
  above := by
    rw [chain, List.take_succ_cons]
    exact List.forall_mem_cons.2 ⟨advanced.running_of_ok, h.above⟩
  runs t' here := by
    have apart := built.ne_of_mem_chain (List.mem_of_getElem? h.here)
    rw [calls_composite hands, List.filterMap_nil, List.append_nil,
      h.runs t' (by simpa [chain] using here)]
    -- the state's own callbacks are not those of the one below
    refine or_congr_right ⟨?_, ?_⟩
    · rintro ⟨call, mem, found⟩
      exact ⟨call, List.mem_append_right _ mem, found⟩
    · rintro ⟨call, mem, state_eq, found⟩
      rcases List.mem_append.1 mem with mem | mem
      · have own := (calls_of_advances advanced call mem).1
        exact absurd (state_eq.symm.trans own) apart
      · exact ⟨call, mem, state_eq, found⟩

/-! ## Failing on the way up -/

/-- A reset that fails ends with the exit of a state of the chain that runs. -/
theorem Resets.last_call (h : Resets s marks (.error fault) s') :
    ∃ earlier call, marks.filterMap Mark.call? = earlier ++ [call] ∧ call.phase = .exit ∧
      call.fault = some fault ∧ call.state ∈ (s.chain.filter isRunning).map address := by
  generalize eq : Except.error fault = result at h
  induction h with
  | leaf => contradiction
  | composite => contradiction
  | @exitFails s _ _ _ left =>
    obtain rfl := Except.error.inj eq
    obtain ⟨deeper, chain_eq⟩ := chain_eq_cons s
    cases left with
    | left running =>
      have runs : s.isRunning = true := running
      exact ⟨[], _, rfl, rfl, rfl, by simp [chain_eq, runs, Core.record, address]⟩
  | innerFails left inner ih =>
    obtain ⟨earlier, call, calls_eq, phase, fault_eq, mem⟩ := ih eq
    rw [List.filterMap_append, calls_eq, ← List.append_assoc]
    refine ⟨_, call, rfl, phase, fault_eq, ?_⟩
    · rw [chain, List.filter_cons]
      split
      · exact List.mem_cons_of_mem _ mem
      · exact mem

/-- Following a request fails where the table does not know it, or with an exit of what still runs
below.  What happens is within the inner state, and the outline is as before. -/
theorem Settles.fails
    (h : Settles core routes before active after (.ok (some request)) marks (.error fault) s')
    (built : (composite core routes before active after).WellBuilt) :
    (∃ active', s' = .composite core routes before active' after ∧
      active'.outline = active.outline) ∧
    (∀ mark ∈ marks, mark.Within active.address) ∧
    ((routes.target? request = none ∧ marks = [] ∧
        fault = .unknownTransition core.name active.name request.label) ∨
      ((routes.target? request).isSome ∧ ∃ earlier call,
        marks.filterMap Mark.call? = earlier ++ [call] ∧ call.phase = .exit ∧
          call.fault = some fault ∧ call.state ∈ (active.chain.filter isRunning).map address)) := by
  cases h with
  | unknown nowhere => exact ⟨⟨active, rfl, rfl⟩, by simp, .inl ⟨nowhere, rfl, rfl⟩⟩
  | innerFails leads inner =>
    exact ⟨⟨_, rfl, inner.outline_eq⟩, inner.within built.inner,
      .inr ⟨by simp [leads], inner.last_call⟩⟩

/-- The request of the active inner state strays, or an exit fails at that state or below it. -/
theorem cause_here (built : (composite core routes before active after).WellBuilt)
    (idle : (composite core routes before active after).Idle)
    (advanced : core.Advances command calls (.ok requested) core')
    (hands : Hands active.address command down)
    (inner : Cycles active marks (.ok (some request)) active')
    (settles : Settles core' routes before active' after (.ok (some request)) marks'
      (.error fault) s') :
    let s := composite core routes before active after
    let all := Mark.taken core.address command :: (calls ++ (down ++ (marks ++ marks')))
    (Strays s all 0 s active request ∧
      fault = .unknownTransition s.name active.name request.label ∧
      ∀ call ∈ all.filterMap Mark.call?, call.completed = true) ∨
    (¬ Strays s all 0 s active request ∧
      ∃ earlier call, all.filterMap Mark.call? = earlier ++ [call] ∧ call.phase = .exit ∧
        call.fault = some fault ∧ call.state ∈ (s.chain.drop 1).map address) := by
  intro s all
  have idleInner := (idle_composite.1 idle).2
  have placed := built.of_layout (layout_composite advanced.kept inner.layout_eq)
  have quiet : ∀ mark ∈ marks', mark.step? = none := fun mark mem => (settles.of_mem mem).1
  have calls_eq : all.filterMap Mark.call? = _ := calls_composite hands
  rw [calls_eq]
  obtain ⟨-, -, ⟨nowhere, rfl, rfl⟩ | ⟨leads, earlier, call, last, phase, fault_eq, mem⟩⟩ :=
    settles.fails placed
  · refine .inl ⟨⟨rfl, ?_, ?_, ?_⟩, ?_, ?_⟩
    · obtain ⟨deeper, chain_eq⟩ := chain_eq_cons active
      simp [s, chain, chain_eq]
    · obtain ⟨lower, steps_eq⟩ := inner.steps_eq_cons
      rw [steps_composite advanced hands quiet, steps_eq]
      simp
    · rintro _ ⟨⟩
      exact Routes.target?_eq_none.1 nowhere
    · have named : core'.name = core.name := congrArg Address.name advanced.kept.address
      have named' : active'.name = active.name :=
        congrArg Address.name (address_eq_of_layout_eq inner.layout_eq)
      rw [named, named']
      rfl
    · obtain ⟨requests, -, -, -, completed⟩ := inner.obeys built.inner idleInner
      rw [List.filterMap_nil, List.append_nil]
      exact List.forall_mem_append.2 ⟨fun call mem => (calls_of_advances advanced call mem).2.2,
        fun call mem => completed _ (mem_calls.1 mem)⟩
  · refine .inr ⟨fun strays => ?_, ?_⟩
    · rw [Routes.target?_eq_none.2 (strays.nowhere routes rfl)] at leads
      contradiction
    · rw [last, ← List.append_assoc, ← List.append_assoc]
      exact ⟨_, call, rfl, phase, fault_eq, inner.running_subset built.inner idleInner mem⟩

/-- The active inner state is to be left, and that fails. -/
theorem failsUp_here (built : (composite core routes before active after).WellBuilt)
    (idle : (composite core routes before active after).Idle)
    (advanced : core.Advances command calls (.ok requested) core')
    (hands : Hands active.address command down)
    (inner : Cycles active marks (.ok (some request)) active')
    (settles : Settles core' routes before active' after (.ok (some request)) marks'
      (.error fault) s') :
    FailsUp (.composite core routes before active after) s'
      (.taken core.address command :: (calls ++ (down ++ (marks ++ marks')))) fault 0
      (.composite core routes before active after) active request := by
  have cause := cause_here built idle advanced hands inner settles
  have idleInner := (idle_composite.1 idle).2
  have placed := built.of_layout (layout_composite advanced.kept inner.layout_eq)
  have same : active'.address = active.address := address_eq_of_layout_eq inner.layout_eq
  have quiet : ∀ mark ∈ marks', mark.step? = none := fun mark mem => (settles.of_mem mem).1
  have exits : ∀ call ∈ marks'.filterMap Mark.call?, call.phase = .exit :=
    fun call mem => (Mark.isOutward_called.1 (settles.outward _ (mem_calls.1 mem))).1
  have within := inner.within built.inner
  obtain ⟨⟨active'', rfl, outline_eq⟩, within', -⟩ := settles.fails placed
  rw [same] at within'
  have own := calls_of_advances advanced
  obtain ⟨requests, -, -, -, completed⟩ := inner.obeys built.inner idleInner
  obtain ⟨deeper, chain_eq⟩ := chain_eq_cons active
  obtain ⟨deeper', chain_eq'⟩ := chain_eq_cons active''
  constructor
  case above => rfl
  case here => simp [chain, chain_eq]
  case steps =>
    rw [steps_composite advanced hands quiet, List.map_cons, inner.places_eq built.inner idleInner]
    rfl
  case asked =>
    obtain ⟨lower, steps_eq⟩ := inner.steps_eq_cons
    rw [steps_composite advanced hands quiet, steps_eq]
    simp
  case arrived =>
    rw [calls_composite hands]
    refine List.forall_mem_append.2 ⟨fun call mem _ => (own call mem).2.2, List.forall_mem_append.2
      ⟨fun call mem _ => completed _ (mem_calls.1 mem), fun call mem phase => ?_⟩⟩
    exact absurd (exits call mem) phase
  case cause => exact cause
  case deepest =>
    intro lower gt owner' t' request' strays
    obtain ⟨lower, rfl⟩ : ∃ below, lower = below + 1 := ⟨lower - 1, by omega⟩
    exact inner.not_strays built.inner idleInner
      ((strays_composite built advanced hands quiet).1 strays)
  case stays =>
    have there : active''.address = active.address := by
      rw [← address_outline, outline_eq, address_outline, same]
    have here : (composite core' routes before active'' after).address =
        (composite core routes before active after).address := advanced.kept.address
    simp [chain, chain_eq, chain_eq', there, here]
  case running =>
    have there : active''.isRunning = true := by
      rw [← isRunning_outline, outline_eq, isRunning_outline, inner.running_of_ok]
    have here : (composite core' routes before active'' after).isRunning = true :=
      advanced.running_of_ok
    simp [chain, chain_eq', there, here]
  case exits =>
    rw [calls_composite hands]
    exact List.forall_mem_append.2 ⟨fun call mem phase => absurd phase (own call mem).2.1,
      List.forall_mem_append.2 ⟨fun call mem _ => (within _ (mem_calls.1 mem)).covers,
        fun call mem _ => (within' _ (mem_calls.1 mem)).covers⟩⟩
  case beneath =>
    intro place mem
    rcases selected_composite advanced hands mem with mem | mem
    · exact (within _ mem).of_selected
    · exact (within' _ mem).of_selected

/-- The way up fails one level further down. -/
theorem FailsUp.outer (h : FailsUp active active' marks fault depth owner t request)
    (built : (composite core routes before active after).WellBuilt)
    (advanced : core.Advances command calls (.ok requested) core')
    (hands : Hands active.address command down) :
    FailsUp (.composite core routes before active after)
      (.composite core' routes before active' after)
      (.taken core.address command :: (calls ++ (down ++ (marks ++ [])))) fault (depth + 1) owner t
      request := by
  have quiet : ∀ mark ∈ ([] : List Mark), mark.step? = none := by simp
  have calls_eq : (Mark.taken core.address command ::
      (calls ++ (down ++ (marks ++ [])))).filterMap Mark.call? =
      calls.filterMap Mark.call? ++ marks.filterMap Mark.call? := by
    rw [calls_composite hands, List.filterMap_nil, List.append_nil]
  have own := calls_of_advances advanced
  constructor
  case above => simpa [chain] using h.above
  case here => simpa [chain] using h.here
  case steps =>
    rw [steps_composite advanced hands quiet, List.map_cons, h.steps]
    rfl
  case asked =>
    rw [steps_composite advanced hands quiet]
    exact List.mem_cons_of_mem _ h.asked
  case arrived =>
    rw [calls_eq]
    exact List.forall_mem_append.2 ⟨fun call mem _ => (own call mem).2.2, h.arrived⟩
  case cause =>
    rw [calls_eq, strays_composite built advanced hands quiet]
    rcases h.cause with ⟨strays, fault_eq, completed⟩ | ⟨known, earlier, call, inner_eq, rest⟩
    · exact .inl ⟨strays, fault_eq,
        List.forall_mem_append.2 ⟨fun call mem => (own call mem).2.2, completed⟩⟩
    · refine .inr ⟨known, calls.filterMap Mark.call? ++ earlier, call, ?_, rest⟩
      rw [inner_eq, List.append_assoc]
  case deepest =>
    intro lower gt owner' t' request' strays
    obtain ⟨lower, rfl⟩ : ∃ below, lower = below + 1 := ⟨lower - 1, by omega⟩
    exact h.deepest lower (by omega) owner' t' request'
      ((strays_composite built advanced hands quiet).1 strays)
  case stays =>
    have same : (composite core' routes before active' after).address =
        (composite core routes before active after).address := advanced.kept.address
    simp [chain, h.stays, same]
  case running =>
    rw [chain, List.take_succ_cons]
    exact List.forall_mem_cons.2 ⟨advanced.running_of_ok, h.running⟩
  case exits =>
    rw [calls_eq]
    exact List.forall_mem_append.2
      ⟨fun call mem phase => absurd phase (own call mem).2.1, h.exits⟩
  case beneath =>
    intro place mem
    rcases selected_composite advanced hands mem with mem | mem
    · exact h.beneath place mem
    · contradiction

/-- A cycle that fails does so on the way down or on the way up. -/
theorem Cycles.fails_or (h : Cycles s marks (.error fault) s') (built : s.WellBuilt)
    (idle : s.Idle) :
    (∃ depth t, FailsDown s s' marks fault depth t) ∨
      ∃ depth owner t request, FailsUp s s' marks fault depth owner t request := by
  generalize eq : Except.error fault = outcome at h
  induction h with
  | leaf => contradiction
  | @fails s core' command calls fault' advanced =>
    obtain rfl := Except.error.inj eq
    exact .inl ⟨0, s, failsDown_here advanced⟩
  | @composite core core' routes before after active active' s' command calls down marks marks'
      requested outcome settled advanced hands inner settles ih =>
    rcases settled with fault' | ⟨⟩
    · obtain rfl := Except.error.inj eq
      have idleInner := (idle_composite.1 idle).2
      cases settles with
      | failed =>
        rcases ih built.inner idleInner rfl with ⟨depth, t, fails⟩ | ⟨depth, owner, t, request, fails⟩
        · exact .inl ⟨depth + 1, t, fails.outer built advanced hands⟩
        · exact .inr ⟨depth + 1, owner, t, request, fails.outer built advanced hands⟩
      | unknown nowhere =>
        exact .inr ⟨0, _, active, _, failsUp_here built idle advanced hands inner (.unknown nowhere)⟩
      | innerFails leads reset =>
        exact .inr ⟨0, _, active, _,
          failsUp_here built idle advanced hands inner (.innerFails leads reset)⟩
    · contradiction

/-! ## Where the machine itself finds fault -/

/-- On a chain, what stands higher covers what stands lower. -/
theorem WellBuilt.covers_of_chain (built : s.WellBuilt) {upper lower : Nat} (le : upper ≤ lower)
    (above : s.chain[upper]? = some t) (below : s.chain[lower]? = some u) :
    t.address.Covers u.address := by
  induction s using chainInduction generalizing upper lower with
  | leaf core =>
    obtain rfl : lower = 0 := by
      by_contra deeper
      simp [chain, deeper] at below
    obtain rfl : upper = 0 := by omega
    obtain rfl := Option.some.inj (above.symm.trans below)
    exact Address.covers_refl _
  | composite core routes before active after ih =>
    rcases upper with _ | upper
    · obtain rfl : composite core routes before active after = t := by simpa [chain] using above
      exact built.covers (mem_subtree_of_getElem? below)
    · obtain ⟨lower, rfl⟩ : ∃ next, lower = next + 1 := ⟨lower - 1, by omega⟩
      exact ih built.inner (Nat.le_of_succ_le_succ le) (by simpa [chain] using above)
        (by simpa [chain] using below)

/-- A state of the chain that is found among the first so many stands among them. -/
theorem WellBuilt.lt_of_mem_take (built : s.WellBuilt) {count : Nat}
    (here : s.chain[depth]? = some t) (mem : t.address ∈ (s.chain.take count).map address) :
    depth < count := by
  obtain ⟨u, inside, same⟩ := List.mem_map.1 mem
  obtain ⟨other, lt, eq⟩ := List.mem_take_iff_getElem.1 inside
  have there : s.chain[other]? = some u := by rw [← eq]; exact List.getElem?_eq_getElem _
  obtain rfl := List.inj_on_of_nodup_map built.nodup_chain (List.mem_of_getElem? there)
    (List.mem_of_getElem? here) same
  have unique := (List.getElem?_inj (List.getElem?_eq_some_iff.1 there).1
    (List.Nodup.of_map _ built.nodup_chain)).1 (there.trans here.symm)
  omega

/-- What strays has been called. -/
theorem Strays.called (h : Strays s marks depth owner t request) :
    ∃ call ∈ marks.filterMap Mark.call?, call.state = t.address := by
  obtain ⟨mark, mem, here⟩ := List.mem_filterMap.1 h.asked
  cases mark with
  | called call =>
    simp only [Mark.step?, Option.ite_none_right_eq_some, Option.some.injEq] at here
    exact ⟨call, mem_calls.2 mem, (Prod.mk.inj here.2).1⟩
  | _ => contradiction

/-- Without a callback that fails, a cycle fails just where a request strays after all requests from
below have been followed. -/
theorem Cycles.error_iff_strays {outcome : Except Fault (Option Tag)} (h : Cycles s marks outcome s')
    (built : s.WellBuilt) (idle : s.Idle) :
    (outcome = .error fault ∧ ∀ call ∈ marks.filterMap Mark.call?, call.completed = true) ↔
      ∃ depth owner t request, Strays s marks depth owner t request ∧
        (∀ call ∈ marks.filterMap Mark.call?,
          t.address.Covers call.state → call.completed = true) ∧
        (∀ lower > depth, ∀ owner' t' request', ¬ Strays s marks lower owner' t' request') ∧
        fault = .unknownTransition owner.name t.name request.label := by
  constructor
  · rintro ⟨rfl, completed⟩
    rcases h.fails_or built idle with ⟨depth, t, fails⟩ | ⟨depth, owner, t, request, fails⟩
    · obtain ⟨earlier, call, calls_eq, -, fault_eq, -⟩ := fails.last
      have contra := completed call (by simp [calls_eq])
      simp [Call.completed, fault_eq] at contra
    · rcases fails.cause with ⟨strays, fault_eq, -⟩ | ⟨-, earlier, call, calls_eq, -, fault_eq, -⟩
      · exact ⟨depth, owner, t, request, strays, fun call mem _ => completed call mem,
          fails.deepest, fault_eq⟩
      · have contra := completed call (by simp [calls_eq])
        simp [Call.completed, fault_eq] at contra
  · rintro ⟨depth, owner, t, request, strays, completed, deepest, rfl⟩
    rcases outcome with fault | requested
    · have failed {earlier : List Call} {call : Call}
          (calls_eq : marks.filterMap Mark.call? = earlier ++ [call])
          (fault_eq : call.fault = some fault) : ¬ t.address.Covers call.state := by
        intro covers
        have contra := completed call (by simp [calls_eq]) covers
        simp [Call.completed, fault_eq] at contra
      rcases h.fails_or built idle with ⟨low, u, fails⟩ | ⟨low, owner', u, request', fails⟩
      · -- the state that fails is not above the one that has asked
        obtain ⟨call, mem, state_eq⟩ := strays.called
        have le := built.lt_of_mem_take strays.here (state_eq ▸ (fails.arrives call mem).2)
        obtain ⟨earlier, last, calls_eq, last_eq, fault_eq, -⟩ := fails.last
        exact absurd (last_eq ▸ built.covers_of_chain (by omega) strays.here fails.here)
          (failed calls_eq fault_eq)
      · rcases Nat.lt_trichotomy low depth with lt | rfl | gt
        · exact absurd strays (fails.deepest depth lt owner t request)
        · obtain rfl := Option.some.inj (strays.above.symm.trans fails.above)
          obtain rfl := Option.some.inj (strays.here.symm.trans fails.here)
          have distinct := built.nodup_chain
          rw [← fails.steps] at distinct
          have same := List.inj_on_of_nodup_map distinct fails.asked strays.asked rfl
          obtain rfl : request' = request := by simpa using same
          rcases fails.cause with ⟨-, rfl, all⟩ | ⟨known, -⟩
          · exact ⟨rfl, all⟩
          · exact absurd strays known
        · rcases fails.cause with ⟨other, -⟩ | ⟨-, earlier, call, calls_eq, -, fault_eq, mem⟩
          · exact absurd other (deepest low gt owner' u request')
          · obtain ⟨v, inside, state_eq⟩ := List.mem_map.1 mem
            obtain ⟨offset, there⟩ := List.getElem?_of_mem inside
            rw [List.getElem?_drop] at there
            exact absurd (state_eq ▸ built.covers_of_chain (by omega) strays.here there)
              (failed calls_eq fault_eq)
    · exact absurd strays (h.not_strays built idle)

/-! ## Selections -/

/-- No state of the tree stands at the place. -/
theorem lookup_eq_none {β : Type} {feature : State H → Option β} {place : Address}
    (h : ∀ t ∈ s.subtree, t.address ≠ place) : s.lookup feature place = none := by
  rw [lookup, List.find?_eq_none.2 fun t mem => by simpa using h t mem]
  rfl

/-- Where a table that shows the selections of a tree has what another tree of the layout selects,
the two trees select the same. -/
theorem lookup_eq {table : Address → Option String} {place : Address} (built : s'.WellBuilt)
    (same : s'.layout = s.layout) (shown : Shows activeName table s')
    (eq : table place = s.lookup activeName place) :
    s'.lookup activeName place = s.lookup activeName place := by
  by_cases there : ∃ t ∈ s'.subtree, t.address = place
  · obtain ⟨t, mem, rfl⟩ := there
    rw [built.shows_lookup activeName t mem, ← shown t mem, eq]
  · rw [lookup_eq_none fun t mem here => there ⟨t, mem, here⟩, lookup_eq_none fun t mem here => ?_]
    obtain ⟨u, inside, address_eq⟩ := exists_of_layout_eq same.symm mem
    exact there ⟨u, inside, address_eq.trans here⟩

/-- Where all that a cycle of a root selects is below a place, selections have changed at most at the
place and below it. -/
theorem Cycles.agreeOff {outcome : Except Fault (Option Tag)} {place : Address}
    (h : Cycles s marks outcome s') (built : s.WellBuilt) (top : s.address.above = [])
    (beneath : ∀ other, .selected other ∈ marks → place.Covers other ∧ other ≠ place) :
    AgreeOff place (s.lookup activeName) (s'.lookup activeName) := by
  obtain ⟨ledger, fold, -, shown⟩ := h.booked built ⟨s.lookup activeName, fun _ => none⟩
    (built.shows_lookup activeName) (isSelected_root top _)
  have agree := Ledger.agreeOff_of_next fold beneath
  exact fun other apart =>
    lookup_eq (built.of_layout h.layout_eq) h.layout_eq shown (agree other apart)

/-- Where a cycle of a root selects nothing, no selection has changed. -/
theorem Cycles.lookup_eq_of_unselected {outcome : Except Fault (Option Tag)}
    (h : Cycles s marks outcome s') (built : s.WellBuilt) (top : s.address.above = [])
    (unselected : ∀ place, .selected place ∉ marks) :
    s'.lookup activeName = s.lookup activeName := by
  funext place
  -- the place does not lie beneath any of its own inner places
  exact h.agreeOff built top (fun other mem => absurd mem (unselected other)) place
    (Address.not_inner_covers place "")

end State

namespace Machine

open State

variable [Conduct H] {machine : Machine H}

/-- A cycle of the root fails in one of two ways.  On the way down the entry or the step of a state
fails: no exit has been fired and no selection has changed, the states above run, and that state runs
if its entry has completed.  On the way up a state cannot be left: all down to that state is selected
and runs as before, and selections have changed at most below it.  The machine itself finds fault
just where the innermost request that is not followed has no row in the table above. -/
theorem cycle_fails (reachable : machine.Reachable) :
    let moved := machine.move (.operate 0 .cycle)
    let marks := marksIn (Store.since machine.store moved.2.store)
    let calls := marks.filterMap Mark.call?
    (∀ fault, moved.1 = .outcome (.failed fault) →
      (∃ depth s, FailsDown machine.root moved.2.root marks fault depth s ∧
        moved.2.root.lookup activeName = machine.root.lookup activeName) ∨
      ∃ depth owner s request,
        FailsUp machine.root moved.2.root marks fault depth owner s request ∧
        AgreeOff s.address (machine.root.lookup activeName) (moved.2.root.lookup activeName)) ∧
    ∀ fault, (moved.1 = .outcome (.failed fault) ∧ ∀ call ∈ calls, call.completed = true) ↔
      ∃ depth owner s request, Strays machine.root marks depth owner s request ∧
        (∀ call ∈ calls, s.address.Covers call.state → call.completed = true) ∧
        (∀ lower > depth, ∀ owner' s' request',
          ¬ Strays machine.root marks lower owner' s' request') ∧
        fault = .unknownTransition owner.name s.name request.label := by
  obtain ⟨built, idle⟩ := reachable.spec
  obtain ⟨marks, outcome, cycles, fired, answer⟩ := machine.move_cycle
  have failed (fault : Fault) :
      (machine.move (.operate 0 .cycle)).1 = .outcome (.failed fault) ↔ outcome = .error fault := by
    rw [answer]
    cases outcome <;> simp [Outcome.ofCycle]
  simp only [fired.marksIn_since, failed]
  refine ⟨?_, fun fault => cycles.error_iff_strays built idle⟩
  rintro fault rfl
  rcases cycles.fails_or built idle with ⟨depth, s, fails⟩ | ⟨depth, owner, s, request, fails⟩
  · exact .inl ⟨depth, s, fails,
      cycles.lookup_eq_of_unselected built reachable.top fails.unselected⟩
  · exact .inr ⟨depth, owner, s, request, fails,
      cycles.agreeOff built reachable.top fails.beneath⟩

/-- The inner of two requests is followed, and the root knows nothing of the outer one. -/
theorem cycle_fails_relay :
    let machine := Sample.relay Sample.lost
    let moved := machine.move (.operate 0 .cycle)
    let marks := marksIn (Store.since machine.store moved.2.store)
    let calls := marks.filterMap Mark.call?
    machine.Reachable ∧
    moved.1 = .outcome (.failed (.unknownTransition "R" "Outer" Sample.next.label)) ∧
    moved.2.root.path = "R->Outer->Spare" ∧
    (∀ fault, moved.1 = .outcome (.failed fault) →
      (∃ depth s, FailsDown machine.root moved.2.root marks fault depth s ∧
        moved.2.root.lookup activeName = machine.root.lookup activeName) ∨
      ∃ depth owner s request,
        FailsUp machine.root moved.2.root marks fault depth owner s request ∧
        AgreeOff s.address (machine.root.lookup activeName) (moved.2.root.lookup activeName)) ∧
    ∀ fault, (moved.1 = .outcome (.failed fault) ∧ ∀ call ∈ calls, call.completed = true) ↔
      ∃ depth owner s request, Strays machine.root marks depth owner s request ∧
        (∀ call ∈ calls, s.address.Covers call.state → call.completed = true) ∧
        (∀ lower > depth, ∀ owner' s' request',
          ¬ Strays machine.root marks lower owner' s' request') ∧
        fault = .unknownTransition owner.name s.name request.label := by
  have reachable : (Sample.relay Sample.lost).Reachable :=
    ⟨_, [], ⟨.default, "R", "Node", Sample.towerCast Sample.lost, .initial .empty Sample.clock, rfl⟩,
      rfl⟩
  exact ⟨reachable, by decide +kernel, by decide +kernel, cycle_fails reachable⟩

end Machine

end Statechart
