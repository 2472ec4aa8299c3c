import Statechart.Proofs.Extent
import Statechart.Proofs.Mailboxes

/-!
# Commands on the way down

The state at the top of a chain takes what waits for it.  Every other state that a cycle reaches
takes what the state above it has taken, or, where that is nothing, what waits in its own mailbox at
the end of that state's step.  `HandsDown` says so of the events of a cycle, and `handsDown_run` that
it holds of every cycle, whether it completes or fails.
-/
namespace Statechart

variable {H : Host} {σ σ₁ : Store H}

/-- Where something is in the middle of a list only, cutting the list there cuts the middle. -/
theorem cut_middle {α : Type} {x : α} {earlier later before middle after : List α}
    (cut : before ++ (middle ++ after) = earlier ++ x :: later) (outside : x ∉ before)
    (outside' : x ∉ after) :
    ∃ earlier' later', middle = earlier' ++ x :: later' ∧ earlier = before ++ earlier' ∧
      later = later' ++ after := by
  obtain ⟨earlier', rfl, rest⟩ : ∃ earlier', earlier = before ++ earlier' ∧
      middle ++ after = earlier' ++ x :: later := by
    rcases List.append_eq_append_iff.1 cut with ⟨between, split, rest⟩ | ⟨between, split, rest⟩
    · exact ⟨between, split, rest⟩
    · rcases between with _ | ⟨y, between⟩
      · exact ⟨[], by simpa using split.symm, rest.symm⟩
      · obtain ⟨rfl, -⟩ := List.cons.inj rest
        simp [split] at outside
  rcases List.append_eq_append_iff.1 rest with ⟨between, split, rest⟩ | ⟨between, split, rest⟩
  · simp [rest] at outside'
  · rcases between with _ | ⟨y, between⟩
    · simp [← (show x :: later = after from rest)] at outside'
    · obtain ⟨rfl, rfl⟩ := List.cons.inj rest
      exact ⟨earlier', between, split, rfl, rfl⟩

/-- On the way down a chain the states that are reached have taken these commands. -/
structure HandsDown (σ : Store H) (places : List Address) (events : List (Event H))
    (commands : List (Option Command)) : Prop where
  /-- The first state takes what waits for it. -/
  first : commands.head? = places.head?.map σ.waiting
  /-- A state below is reached where the step of the state above completes.  It takes what that one
  has taken, or else what waits for it once the step has ended. -/
  next : ∀ depth lower command, places[depth + 1]? = some lower →
    (commands[depth + 1]? = some command ↔ ∃ upper above earlier step later,
      places[depth]? = some upper ∧ commands[depth]? = some above ∧
      events = earlier ++ .called step :: later ∧ step.phase = .step ∧ step.state = upper ∧
      step.completed = true ∧
      command = above.or (σ.waitingAfter (earlier ++ [.called step]) lower))
  /-- Every entry and every step is of a state that is reached, and sees what that one has taken. -/
  sees : ∀ call ∈ callsIn events, call.phase ≠ .exit →
    ∃ depth : Nat, places[depth]? = some call.state ∧ commands[depth]? = some call.view.command
  /-- Of every state that is reached a callback is fired. -/
  fired : ∀ depth < commands.length,
    ∃ call ∈ callsIn events, call.phase ≠ .exit ∧ places[depth]? = some call.state

/-- The callbacks with which a cycle arrives at a state: they see what the state has taken, and none
but the last one is a step. -/
structure Arrives (place : Address) (command : Option Command) (earlier : List (Event H))
    (last : Call) : Prop where
  own : ∀ call ∈ callsIn (earlier ++ [.called last]),
    call.state = place ∧ call.view.command = command ∧ call.phase ≠ .exit
  entries : ∀ call ∈ callsIn earlier, call.phase = .entry

namespace Core

variable {core core' : Core H} {command : Option Command} {result : Except Fault (Option Tag)}

/-- The callbacks of a state's own cycle see the command. -/
theorem Advances.sees {marks : List Mark} (h : core.Advances command marks result core') :
    ∀ call, .called call ∈ marks →
      call.state = core.address ∧ call.view.command = command ∧ call.phase ≠ .exit := by
  cases h with
  | refused => simp [record, view]
  | entered _ _ result => cases result <;> simp [record, view]
  | resumed _ _ result => cases result <;> simp [record, view]

/-- A cycle arrives at a state by the callbacks of the state's own cycle.  The last of them is a step
that completes where the state's own cycle does. -/
theorem Advances.arrives {earlier : List (Event H)} {last : Call}
    (h : core.Advances command (marksIn earlier ++ [.called last]) result core') :
    Arrives core.address command earlier last ∧
      (last.phase = .step ∧ last.completed = true ↔ ∃ requested, result = .ok requested) := by
  have own : ∀ call ∈ callsIn (earlier ++ [.called last]),
      call.state = core.address ∧ call.view.command = command ∧ call.phase ≠ .exit := by
    intro call mem
    rw [callsIn, marksIn_append, mem_calls] at mem
    exact h.sees call mem
  have ends (first : List Mark) {mark : Mark}
      (eq : marksIn earlier ++ [.called last] = first ++ [mark]) :
      callsIn earlier = first.filterMap Mark.call? ∧ Mark.called last = mark := by
    obtain ⟨same, same'⟩ := List.append_inj' eq rfl
    exact ⟨congrArg (List.filterMap Mark.call?) same, (List.cons.inj same').1⟩
  generalize eq : marksIn earlier ++ [Mark.called last] = marks at h
  cases h with
  | refused idle behavior fault =>
    obtain ⟨calls, ⟨⟩⟩ := ends [] eq
    exact ⟨⟨own, by simp [calls]⟩, by simp [record]⟩
  | entered idle behavior result =>
    obtain ⟨calls, ⟨⟩⟩ := ends [_] eq
    exact ⟨⟨own, by simp [calls, Mark.call?, record]⟩,
      by cases result <;> simp [record, Call.completed]⟩
  | resumed running behavior result =>
    obtain ⟨calls, ⟨⟩⟩ := ends [] eq
    exact ⟨⟨own, by simp [calls]⟩, by cases result <;> simp [record, Call.completed]⟩

end Core

/-- The last callback is the only step. -/
theorem Arrives.eq_last {place : Address} {command : Option Command} {earlier : List (Event H)}
    {last step : Call} (h : Arrives place command earlier last)
    (mem : step ∈ callsIn (earlier ++ [.called last])) (phase : step.phase = .step) : step = last := by
  rw [callsIn_append, List.mem_append] at mem
  rcases mem with mem | mem
  · rw [h.entries step mem] at phase
    contradiction
  · exact List.mem_singleton.1 mem

/-- The events of a cycle that goes on below a state: those of the state's own cycle, which completes,
those with which the command is handed down, those from below, and those on the way up. -/
structure GoesOn (σ σ₁ : Store H) (place : Address) (earlier : List (Event H)) (last : Call)
    (between inner after : List (Event H)) : Prop where
  arrives : Arrives place (σ.waiting place) earlier last
  phase : last.phase = .step
  completed : last.completed = true
  recorded : Store.Records σ σ₁ (earlier ++ [.called last] ++ between)
  quiet : callsIn between = []
  elsewhere : ∀ call ∈ callsIn inner, call.state ≠ place
  leaves : ∀ call ∈ callsIn after, call.phase = .exit

namespace GoesOn

variable {place : Address} {earlier earlier' later between inner after : List (Event H)}
  {last step : Call}

/-- Events that are cut at a step of the state are cut at its own step. -/
theorem cut_here (h : GoesOn σ σ₁ place earlier last between inner after)
    (cut : earlier ++ [.called last] ++ between ++ (inner ++ after) = earlier' ++ .called step :: later)
    (phase : step.phase = .step) (same : step.state = place) : earlier = earlier' ∧ last = step := by
  have unentered : .called step ∉ earlier := by
    intro mem
    rw [h.arrives.entries step (mem_callsIn.2 mem)] at phase
    contradiction
  have unfollowed : .called step ∉ between ++ (inner ++ after) := by
    intro mem
    rw [← mem_callsIn, callsIn_append, h.quiet, List.nil_append, callsIn_append,
      List.mem_append] at mem
    rcases mem with mem | mem
    · exact h.elsewhere step mem same
    · rw [h.leaves step mem] at phase
      contradiction
  simp only [List.append_assoc, List.singleton_append] at cut
  obtain ⟨eq, ⟨⟩, -⟩ := (List.append_cons_inj_of_notMem unentered unfollowed).1 cut
  exact ⟨eq, rfl⟩

/-- Events that are cut at a step of another state are cut below. -/
theorem cut_below (h : GoesOn σ σ₁ place earlier last between inner after)
    (cut : earlier ++ [.called last] ++ between ++ (inner ++ after) = earlier' ++ .called step :: later)
    (phase : step.phase = .step) (apart : step.state ≠ place) :
    ∃ below later', inner = below ++ .called step :: later' ∧
      earlier' = earlier ++ [.called last] ++ between ++ below := by
  have unarrived : .called step ∉ earlier ++ [.called last] ++ between := by
    intro mem
    rw [← mem_callsIn, callsIn_append, h.quiet, List.append_nil] at mem
    exact apart (h.arrives.own step mem).1
  have unleft : .called step ∉ after := by
    intro mem
    rw [h.leaves step (mem_callsIn.2 mem)] at phase
    contradiction
  obtain ⟨below, later', inner_eq, earlier_eq, -⟩ := cut_middle cut unarrived unleft
  exact ⟨below, later', inner_eq, earlier_eq⟩

end GoesOn

namespace HandsDown

variable {place : Address} {places : List Address} {earlier between inner after : List (Event H)}
  {last : Call} {commands : List (Option Command)}

/-- Nothing is reached below a state if nothing is there, or the state's own cycle fails. -/
theorem here (arrives : Arrives place (σ.waiting place) earlier last)
    (ends : last.phase = .step → last.completed = true → places = []) :
    HandsDown σ (place :: places) (earlier ++ [.called last]) [σ.waiting place] where
  first := rfl
  next depth lower command below := by
    constructor
    · intro reached
      simp at reached
    · rintro ⟨upper, above, earlier', step, later, -, -, cut, phase, -, completed, -⟩
      have mem : step ∈ callsIn (earlier ++ [.called last]) := mem_callsIn.2 (by simp [cut])
      obtain rfl := arrives.eq_last mem phase
      simp [ends phase completed] at below
  sees call mem _ := by
    obtain ⟨same, command, -⟩ := arrives.own call mem
    exact ⟨0, by simp [same], by simp [command]⟩
  fired depth lt := by
    have mem : last ∈ callsIn (earlier ++ [.called last]) := mem_callsIn.2 (by simp)
    obtain ⟨same, -, phase⟩ := arrives.own last mem
    obtain rfl : depth = 0 := by simpa using lt
    exact ⟨last, mem, phase, by simp [same]⟩

/-- One more state above, whose own cycle completes and which hands its command down. -/
theorem outer (h : HandsDown σ₁ places inner commands)
    (goes : GoesOn σ σ₁ place earlier last between inner after) (apart : place ∉ places)
    (handed : ∀ lower ∈ places.head?, σ₁.waiting lower =
      (σ.waiting place).or (σ.waitingAfter (earlier ++ [.called last]) lower)) :
    HandsDown σ (place :: places) (earlier ++ [.called last] ++ between ++ (inner ++ after))
      (σ.waiting place :: commands) where
  first := rfl
  next depth lower command there := by
    rw [List.getElem?_cons_succ] at there ⊢
    -- the next state is reached by the state's own step, and those below it by steps further down
    rcases depth with _ | depth
    · have first : places.head? = some lower := by rwa [List.head?_eq_getElem?]
      have taken : commands[0]? = some (σ₁.waiting lower) := by
        rw [← List.head?_eq_getElem?, h.first, first]
        rfl
      rw [taken, handed lower first]
      constructor
      · intro same
        have own : last ∈ callsIn (earlier ++ [.called last]) := mem_callsIn.2 (by simp)
        exact ⟨place, _, earlier, last, between ++ (inner ++ after), rfl, rfl, by simp, goes.phase,
          (goes.arrives.own last own).1, goes.completed, (Option.some.inj same).symm⟩
      · rintro ⟨upper, above, earlier', step, later, upper_eq, above_eq, cut, stepped, same, -, rfl⟩
        obtain rfl : place = upper := Option.some.inj upper_eq
        obtain rfl : σ.waiting place = above := Option.some.inj above_eq
        obtain ⟨rfl, rfl⟩ := goes.cut_here cut stepped same
        rfl
    · rw [h.next depth lower command there]
      constructor
      · rintro ⟨upper, above, below, step, later, upper_eq, above_eq, rfl, stepped, same, done, rfl⟩
        refine ⟨upper, above, earlier ++ [.called last] ++ between ++ below, step, later ++ after,
          upper_eq, above_eq, by simp, stepped, same, done, ?_⟩
        rw [List.append_assoc _ below, goes.recorded.waitingAfter_append]
      · rintro ⟨upper, above, earlier', step, later, upper_eq, above_eq, cut, stepped, rfl, done, rfl⟩
        rw [List.getElem?_cons_succ] at upper_eq above_eq
        have other : step.state ≠ place := fun same =>
          apart (List.mem_of_getElem? (same ▸ upper_eq))
        obtain ⟨below, later', rfl, rfl⟩ := goes.cut_below cut stepped other
        refine ⟨_, above, below, step, later', upper_eq, above_eq, rfl, stepped, rfl, done, ?_⟩
        rw [List.append_assoc _ below, goes.recorded.waitingAfter_append]
  sees call mem phase := by
    rw [callsIn_append, List.mem_append, callsIn_append _ between, goes.quiet, List.append_nil,
      callsIn_append inner, List.mem_append] at mem
    rcases mem with mem | mem | mem
    · obtain ⟨same, command, -⟩ := goes.arrives.own call mem
      exact ⟨0, by simp [same], by simp [command]⟩
    · obtain ⟨depth, here, command⟩ := h.sees call mem phase
      exact ⟨depth + 1, here, command⟩
    · exact absurd (goes.leaves call mem) phase
  fired depth lt := by
    rcases depth with _ | depth
    · have own : last ∈ callsIn (earlier ++ [.called last]) := mem_callsIn.2 (by simp)
      obtain ⟨same, -, phase⟩ := goes.arrives.own last own
      exact ⟨last, mem_callsIn.2 (by simp), phase, by simp [same]⟩
    · obtain ⟨call, mem, phase, there⟩ := h.fired depth (by simpa using lt)
      refine ⟨call, ?_, phase, there⟩
      rw [callsIn_append, callsIn_append inner]
      exact List.mem_append_right _ (List.mem_append_left _ mem)

end HandsDown

/-! ## Every cycle hands down -/

namespace Store

theorem Houses.active {core : Core H} {routes : Routes} {before after : List (State H)}
    {active : State H} (h : Houses σ (.composite core routes before active after)) :
    Houses σ active :=
  fun t mem => h t (State.mem_subtree.2 (.inr ⟨active, by simp [State.children], mem⟩))

/-- A command that is handed down takes the place of what waits. -/
theorem waiting_passOn {place : Address} (housed : (σ.mailboxes.get? place).isSome)
    (command : Option Command) :
    (σ.after (State.passOn place command)).waiting place = command.or (σ.waiting place) := by
  rcases command with _ | command
  · rfl
  · obtain ⟨box, found⟩ := Option.isSome_iff_exists.1 housed
    simp [State.passOn, after, run_handTo, found, waiting]

/-- Handing a command down is no callback. -/
theorem records_passOn (place : Address) (command : Option Command) (σ : Store H) :
    ∃ events, Records σ (σ.after (State.passOn place command)) events ∧ callsIn events = [] := by
  obtain ⟨marks, hands, events, recorded, rfl⟩ := State.hands_run place command σ
  refine ⟨events, recorded, ?_⟩
  rw [callsIn]
  generalize marksIn events = marks at hands
  cases hands <;> rfl

theorem keepsBoxes_passOn (place : Address) (command : Option Command) (σ : Store H) :
    KeepsBoxes σ (σ.after (State.passOn place command)) := by
  rcases command with _ | command
  · exact .refl σ
  · exact keepsBoxes_lasting.handTo place command trivial σ

end Store

/-- The callbacks of the active inner state's cycle are not the state's own. -/
theorem State.Cycles.elsewhere {core : Core H} {routes : Routes} {before after : List (State H)}
    {active active' : State H} {marks : List Mark} {outcome : Except Fault (Option Tag)}
    (h : Cycles active marks outcome active')
    (built : (State.composite core routes before active after).WellBuilt) {call : Call}
    (mem : .called call ∈ marks) : call.state ≠ core.address := by
  intro same
  have covers : active.address.Covers call.state := (h.within built.inner _ mem).covers
  rw [same] at covers
  exact built.not_covers_owner active_mem_children covers

variable [Conduct H]

/-- A state's own cycle takes what waits, and arrives with it. -/
theorem Core.arrives_run (core : Core H) (σ : Store H) :
    let advanced := (core.advance (σ.waiting core.address)).run
      (σ.after (Store.takeFrom core.address))
    Store.KeepsBoxes σ advanced.2 ∧
    ∃ earlier last, Store.Records σ advanced.2 (earlier ++ [.called last]) ∧
      Arrives core.address (σ.waiting core.address) earlier last ∧
      (last.phase = .step ∧ last.completed = true ↔ ∃ requested, advanced.1.1 = .ok requested) := by
  have taken : Store.Records σ (σ.after (Store.takeFrom core.address)) _ :=
    Store.records_drain (by simp [MailStep.waits]) core.address σ
  obtain ⟨earlier, last, advances, recorded⟩ := core.advances_records (σ.waiting core.address)
    (σ.after (Store.takeFrom core.address))
  obtain ⟨⟨own, entries⟩, ends⟩ := advances.arrives
  have kept := (Store.keepsBoxes_lasting.drain .taken core.address trivial σ).trans
    (Store.keepsBoxes_lasting.advance (σ.waiting core.address) core _)
  exact ⟨kept, _ :: earlier, last, taken.trans recorded, ⟨own, entries⟩, ends⟩

namespace State

/-- The events of a cycle make the marks of a cycle. -/
theorem cycles_of_records {s : State H} {events : List (Event H)}
    (recorded : Store.Records σ (σ.after s.cycle) events) :
    Cycles s (marksIn events) (s.cycle.run σ).1.1 (s.cycle.run σ).1.2 := by
  obtain ⟨marks, cycles, fired⟩ := cycles_run s σ
  rwa [← recorded.since_eq, fired.marksIn_since]

/-- Only exits are fired from where the active inner state's cycle has ended. -/
theorem exits_on_way_up (core : Core H) (routes : Routes) (before : List (State H))
    (active : State H) (after : List (State H)) (outcome : Except Fault (Option Tag))
    (oldPath : String) (σ : Store H) :
    let settled := ((composite core routes before active after).settle outcome).run σ
    ∃ events, Store.Records σ (settled.2.after (settled.1.2.announce oldPath)) events ∧
      ∀ call ∈ callsIn events, call.phase = .exit := by
  obtain ⟨marks, settles, fired⟩ := settles_run core routes before active after outcome σ
  obtain ⟨events, recorded, marked⟩ := fired.trans (fires_announce oldPath _ _)
  refine ⟨events, recorded, fun call mem => ?_⟩
  rw [callsIn, marked, List.append_nil, mem_calls] at mem
  exact (Mark.isOutward_called.1 (settles.outward _ mem)).1

/-- On its way down, every cycle of a state of which all states have mailboxes hands its command
down. -/
theorem handsDown_run (s : State H) (σ : Store H) (built : s.WellBuilt) (housed : σ.Houses s) :
    ∃ events commands, Store.Records σ (σ.after s.cycle) events ∧
      HandsDown σ (s.chain.map address) events commands := by
  induction s using chainInduction generalizing σ with
  | leaf core =>
    obtain ⟨-, earlier, last, recorded, arrives, -⟩ := core.arrives_run σ
    rw [Store.after, run_cycle_leaf]
    exact ⟨_, _, recorded, .here arrives fun _ _ => rfl⟩
  | composite core routes before active after ih =>
    obtain ⟨kept, earlier, last, recorded, arrives, ends⟩ := core.arrives_run σ
    rcases advanced : (core.advance (σ.waiting core.address)).run
      (σ.after (Store.takeFrom core.address)) with ⟨⟨fault | requested, core'⟩, σ₁⟩
    all_goals rw [advanced] at kept recorded ends
    · rw [Store.after, run_cycle_of_error advanced]
      refine ⟨_, _, recorded, .here arrives fun phase completed => ?_⟩
      obtain ⟨requested, contra⟩ := ends.1 ⟨phase, completed⟩
      contradiction
    · obtain ⟨between, handed, quiet⟩ :=
        Store.records_passOn active.address (σ.waiting core.address) σ₁
      let σ₂ := σ₁.after (passOn active.address (σ.waiting core.address))
      have housed₁ : σ₁.Houses active := housed.active.later kept
      obtain ⟨inner, commands, below, hands⟩ := ih σ₂ built.inner
        (housed₁.later (Store.keepsBoxes_passOn _ _ σ₁))
      have elsewhere : ∀ call ∈ callsIn inner, call.state ≠ core.address :=
        fun call mem => (cycles_of_records below).elsewhere built (mem_calls.1 mem)
      rcases innerRun : active.cycle.run σ₂ with ⟨⟨outcome, active'⟩, σ₃⟩
      rw [Store.after, innerRun] at below
      obtain ⟨up, ascent, leaves⟩ := exits_on_way_up core' routes before active' after outcome
        (State.composite core routes before active after).path σ₃
      rcases settledRun : ((State.composite core' routes before active' after).settle outcome).run σ₃
        with ⟨⟨settled, s'⟩, σ₄⟩
      rw [settledRun] at ascent
      have apart : core.address ∉ active.chain.map address := (List.nodup_cons.1 built.nodup_chain).1
      -- what waits for the inner state is read after the step and before the handing down
      have first : ∀ lower ∈ (active.chain.map address).head?, σ₂.waiting lower =
          (σ.waiting core.address).or (σ.waitingAfter (earlier ++ [.called last]) lower) := by
        intro lower mem
        rw [List.head?_map, head?_chain] at mem
        obtain rfl := Option.some.inj mem
        rw [Store.waiting_passOn (housed₁ active (self_mem_subtree active)), recorded.waitingAfter_eq]
      obtain ⟨phase, completed⟩ := ends.2 ⟨_, rfl⟩
      have goes : GoesOn σ σ₂ core.address earlier last between inner up :=
        ⟨arrives, phase, completed, recorded.trans handed, quiet, elsewhere, leaves⟩
      rw [Store.after, run_cycle_of_ok advanced innerRun settledRun]
      exact ⟨_, _, goes.recorded.trans (below.trans ascent), hands.outer goes apart first⟩

end State

end Statechart
