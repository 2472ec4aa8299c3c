import Statechart.Proofs.Moves

/-!
# Where a cycle leads

In a cycle that completes, every state of the active chain takes its step once, from the top down,
and each step may request a transition of the state above.  Main statement: of all the requests that
have somebody above to follow them, the outermost one decides.  Its follower keeps its place with
all above it, the last row that agrees with the request names the inner state selected next, and
below that one everything is initial, whatever was requested or selected deeper down.
-/
namespace Statechart

variable {H : Host}

/-- The name that a request leads to is that of the last row that agrees with it. -/
theorem Routes.target?_eq_some {routes : Routes} {request : Tag} {target : String} :
    routes.target? request = some target ↔ ∃ earlier row later,
      routes.rows = earlier ++ row :: later ∧ row.1.agrees request = true ∧ row.2 = target ∧
        ∀ other ∈ later, other.1.agrees request = false := by
  rw [target?, Option.map_eq_some_iff]
  constructor
  · rintro ⟨row, found, rfl⟩
    obtain ⟨agrees, later, earlier, rows_eq, none⟩ := List.find?_eq_some_iff_append.1 found
    refine ⟨earlier.reverse, row, later.reverse, ?_, agrees, rfl, fun other mem => ?_⟩
    · simpa using congrArg List.reverse rows_eq
    · simpa using none other (List.mem_reverse.1 mem)
  · rintro ⟨earlier, row, later, rows_eq, agrees, rfl, none⟩
    refine ⟨row, List.find?_eq_some_iff_append.2 ⟨agrees, later.reverse, earlier.reverse, ?_, ?_⟩, rfl⟩
    · simp [rows_eq]
    · intro other mem
      simp [none other (List.mem_reverse.1 mem)]

/-- The step that a mark is the end of: whose it was, and what it requests. -/
def Mark.step? : Mark → Option (Address × Option Tag)
  | .called call => if call.phase = .step then some (call.state, call.request) else none
  | _ => none

/-- The mark is not of a callback that failed. -/
def Mark.completed : Mark → Bool
  | .called call => call.completed
  | _ => true

/-- The steps that end in some events, in order: whose they were, and what they request. -/
def stepsIn (events : List (Event H)) : List (Address × Option Tag) :=
  (marksIn events).filterMap Mark.step?

theorem filterMap_step?_eq_nil {marks : List Mark} (h : ∀ mark ∈ marks, mark.step? = none) :
    marks.filterMap Mark.step? = [] := List.filterMap_eq_nil_iff.2 h

namespace Core

variable {core core' : Core H} {marks : List Mark}

/-- The callbacks of a cycle that complete end with the one step. -/
theorem Advances.step_eq {command : Option Command} {requested : Option Tag}
    (h : core.Advances command marks (.ok requested) core') :
    marks.filterMap Mark.step? = [(core.address, requested)] ∧
      ∀ mark ∈ marks, mark.completed = true := by
  cases h <;> simp [Mark.step?, Mark.completed, Call.completed, Core.record]

/-- Leaving a state is no step, and if it does not fail, its exit completes. -/
theorem Leaves.of_mem {result : Except Fault Unit} (h : core.Leaves marks result core')
    {mark : Mark} (mem : mark ∈ marks) :
    mark.step? = none ∧ (result = .ok () → mark.completed = true) := by
  cases h with
  | idle => contradiction
  | left running behavior result =>
    rw [List.mem_singleton] at mem
    subst mem
    rcases result with fault | ⟨⟩ <;> simp [Mark.step?, Mark.completed, Call.completed, Core.record]

end Core

namespace State

variable {core core' : Core H} {routes : Routes} {before after : List (State H)}
  {active active' s s' : State H} {marks : List Mark}

/-- The state so many levels down follows a request: down to it the chain is as before, the last row
that agrees names the inner state selected below it, and from there on all is initial. -/
def Follows (s s' : State H) (depth : Nat) (request : Tag) : Prop :=
  ∃ owner routes earlier row later, s.chain[depth]? = some owner ∧ owner.routes? = some routes ∧
    routes.rows = earlier ++ row :: later ∧ row.1.agrees request = true ∧
    (∀ other ∈ later, other.1.agrees request = false) ∧
    (s'.chain.map address).take (depth + 1) = (s.chain.map address).take (depth + 1) ∧
    s'.chain[depth + 1]?.map address = some (owner.address.inner row.2) ∧
    ∀ t ∈ s'.chain.drop (depth + 1), t.isAtInitial = true

/-- What the requests of a chain, one for each of its states, make of it. -/
structure Obeys (s s' : State H) (requests : List (Option Tag)) : Prop where
  length_eq : requests.length = s.chain.length
  stays : (∀ depth request, requests[depth + 1]? ≠ some (some request)) →
    s'.chain.map address = s.chain.map address
  follows : ∀ depth request, requests[depth + 1]? = some (some request) →
    (∀ upper < depth, requests[upper + 1]? = some none) → Follows s s' depth request

/-! ## The steps of a cycle -/

/-- A reset takes no step, and if it does not fail, all exits complete. -/
theorem Resets.of_mem {result : Except Fault Unit} (h : Resets s marks result s') {mark : Mark}
    (mem : mark ∈ marks) : mark.step? = none ∧ (result = .ok () → mark.completed = true) := by
  induction h with
  | exitFails left => exact left.of_mem mem
  | leaf left => exact left.of_mem mem
  | innerFails left inner ih =>
    rcases List.mem_append.1 mem with mem | mem
    · exact ⟨(left.of_mem mem).1, by simp⟩
    · exact ih mem
  | composite left inner chosen_eq ih =>
    simp only [List.mem_append, List.mem_singleton] at mem
    rcases mem with mem | mem | rfl
    · exact left.of_mem mem
    · exact ih mem
    · exact ⟨rfl, fun _ => rfl⟩

/-- Settling an outcome takes no step, and if it does not fail, all exits complete. -/
theorem Settles.of_mem {outcome : Except Fault (Option Tag)} {settled : Except Fault Unit}
    (h : Settles core routes before active after outcome marks settled s') {mark : Mark}
    (mem : mark ∈ marks) : mark.step? = none ∧ (settled = .ok () → mark.completed = true) := by
  cases h with
  | failed => contradiction
  | stays => contradiction
  | unknown => contradiction
  | innerFails leads inner => exact inner.of_mem mem
  | follows leads inner chosen_eq =>
    rcases List.mem_append.1 mem with mem | mem
    · exact inner.of_mem mem
    · rw [List.mem_singleton.1 mem]
      exact ⟨rfl, fun _ => rfl⟩

/-- Handing a command down is no callback. -/
theorem Hands.of_mem {place : Address} {command : Option Command} (h : Hands place command marks)
    {mark : Mark} (mem : mark ∈ marks) : mark.step? = none ∧ mark.completed = true := by
  cases h with
  | nothing => contradiction
  | handed command =>
    rw [List.mem_singleton.1 mem]
    exact ⟨rfl, rfl⟩

/-! ## The chain after a cycle -/

/-- Where the inner state requests nothing, the chain is obeyed below and stays above. -/
theorem Obeys.along {requests : List (Option Tag)} (h : Obeys active active' requests)
    (silent : requests.head? = some none) (kept : core.Kept core') (requested : Option Tag) :
    Obeys (composite core routes before active after) (.composite core' routes before active' after)
      (requested :: requests) := by
  rcases requests with _ | ⟨first, requests⟩
  · contradiction
  obtain rfl : first = none := by simpa using silent
  have here : (composite core' routes before active' after).address =
      (composite core routes before active after).address := kept.address
  constructor
  · simp [chain, h.length_eq]
  · intro none
    have below := h.stays fun depth request => by simpa using none (depth + 1) request
    simp only [chain, List.map_cons, below, here]
  · intro depth request asked quiet
    rcases depth with _ | depth
    · simp at asked
    · obtain ⟨owner, routes', earlier, row, later, owner_eq, routes_eq, rows_eq, agrees, last, up,
        entered, initial⟩ := h.follows depth request (by simpa using asked) fun upper lt => by
          simpa using quiet (upper + 1) (by omega)
      refine ⟨owner, routes', earlier, row, later, ?_, routes_eq, rows_eq, agrees, last, ?_, ?_, ?_⟩
      · simpa [chain] using owner_eq
      · simp only [chain, List.map_cons, List.take_succ_cons, here, up]
      · simpa [chain] using entered
      · simpa [chain] using initial

/-- Where the inner state requests a transition, the state itself follows. -/
theorem Obeys.turned {before' after' : List (State H)} {chosen : State H}
    {requests : List (Option Tag)} {request : Tag} {target : String}
    (length_eq : requests.length = active.chain.length) (asked : requests.head? = some (some request))
    (kept : core.Kept core') (leads : routes.target? request = some target)
    (entered : chosen.address = core'.address.inner target) (dormant : chosen.Dormant)
    (requested : Option Tag) :
    Obeys (composite core routes before active after) (.composite core' routes before' chosen after')
      (requested :: requests) := by
  rcases requests with _ | ⟨first, requests⟩
  · contradiction
  obtain rfl : first = some request := by simpa using asked
  obtain ⟨earlier, row, later, rows_eq, agrees, rfl, last⟩ := Routes.target?_eq_some.1 leads
  constructor
  · simp only [List.length_cons] at length_eq
    simp [chain, length_eq]
  · intro none
    exact absurd rfl (none 0 request)
  · intro depth other asked quiet
    rcases depth with _ | depth
    · obtain rfl : request = other := by simpa using asked
      refine ⟨_, routes, earlier, row, later, rfl, rfl, rows_eq, agrees, last, ?_, ?_, ?_⟩
      · simp [chain, address, kept.address]
      · have top : chosen.chain[0]? = some chosen := getElem?_chain_zero chosen
        simp only [chain, List.getElem?_cons_succ, top, Option.map_some, entered, kept.address]
        rfl
      · intro t mem
        rw [chain, List.drop_succ_cons, List.drop_zero] at mem
        exact (dormant t (mem_subtree_iff.2 (.inl mem))).2
    · have contra := quiet 0 (by omega)
      simp at contra

/-- The steps of a cycle in which the state's own step completes are that one and those below. -/
theorem steps_composite {place : Address} {command : Option Command}
    {calls down marks marks' : List Mark} {requested : Option Tag}
    (advanced : core.Advances command calls (.ok requested) core') (hands : Hands place command down)
    (settled : ∀ mark ∈ marks', mark.step? = none) :
    (Mark.taken core.address command :: (calls ++ (down ++ (marks ++ marks')))).filterMap
        Mark.step? = (core.address, requested) :: marks.filterMap Mark.step? := by
  have quiet := filterMap_step?_eq_nil fun mark mem => (hands.of_mem mem).1
  have quiet' := filterMap_step?_eq_nil settled
  simp only [List.filterMap_cons, Mark.step?, List.filterMap_append, advanced.step_eq.1, quiet,
    quiet', List.nil_append, List.append_nil]
  rfl

/-- The steps of a cycle that completes are one for each state, and nothing fails. -/
theorem step_eq_composite {command : Option Command} {calls down marks marks' : List Mark}
    {requested : Option Tag} {requests : List (Option Tag)}
    (advanced : core.Advances command calls (.ok requested) core')
    (hands : Hands active.address command down)
    (settled : ∀ mark ∈ marks', mark.step? = none ∧ mark.completed = true)
    (below : marks.filterMap Mark.step? = (active.chain.map address).zip requests)
    (completed : ∀ mark ∈ marks, mark.completed = true) :
    (Mark.taken core.address command :: (calls ++ (down ++ (marks ++ marks')))).filterMap
        Mark.step? = ((composite core routes before active after).chain.map address).zip
          (requested :: requests) ∧
      ∀ mark ∈ Mark.taken core.address command :: (calls ++ (down ++ (marks ++ marks'))),
        mark.completed = true := by
  constructor
  · rw [steps_composite advanced hands fun mark mem => (settled mark mem).1, below]
    rfl
  · simp only [List.mem_cons, List.mem_append]
    rintro mark (rfl | mem | mem | mem | mem)
    · rfl
    · exact advanced.step_eq.2 mark mem
    · exact (hands.of_mem mem).2
    · exact completed mark mem
    · exact (settled mark mem).2

/-- In a cycle that completes, every state of the chain takes one step, in order, and the chain obeys
what they request. -/
theorem Cycles.obeys {request : Option Tag} (h : Cycles s marks (.ok request) s')
    (built : s.WellBuilt) (idle : s.Idle) :
    ∃ requests, Obeys s s' requests ∧ requests.head? = some request ∧
      marks.filterMap Mark.step? = (s.chain.map address).zip requests ∧
      ∀ mark ∈ marks, mark.completed = true := by
  generalize eq : Except.ok request = outcome at h
  induction h generalizing request with
  | fails => contradiction
  | leaf advanced =>
    obtain rfl := Except.ok.inj eq
    obtain ⟨steps, completed⟩ := advanced.step_eq
    refine ⟨[request], ⟨by simp [chain], ?_, by simp⟩, rfl, ?_, ?_⟩
    · intro _
      simp [chain, address, advanced.kept.address]
    · simp only [List.filterMap_cons, Mark.step?, steps]
      rfl
    · simpa [Mark.completed] using completed
  | composite advanced hands inner settles ih =>
    rename_i settled
    rcases settled with fault | ⟨⟩
    · contradiction
    obtain rfl := Except.ok.inj eq
    have idleInner := (idle_composite.1 idle).2
    have calm (mark : Mark) (mem : mark ∈ _) : mark.step? = none ∧ mark.completed = true :=
      ⟨(settles.of_mem mem).1, (settles.of_mem mem).2 rfl⟩
    cases settles with
    | stays =>
      obtain ⟨requests, obeys, head, below, completed⟩ := ih built.inner idleInner rfl
      exact ⟨request :: requests, obeys.along head advanced.kept request, rfl,
        step_eq_composite advanced hands calm below completed⟩
    | follows leads reset chosen_eq =>
      obtain ⟨requests, obeys, head, below, completed⟩ := ih built.inner idleInner rfl
      have placed := built.of_layout (layout_composite advanced.kept inner.layout_eq)
      have resetPlaced := placed.of_layout (layout_active reset.layout_eq)
      have entered := address_chosen chosen_eq resetPlaced (resetPlaced.target_mem leads)
      have dormant := idle.dormant_children
        (reset.dormant placed.inner (inner.idle built.inner idleInner))
      rw [← (children_chosen chosen_eq resetPlaced).1] at dormant
      exact ⟨request :: requests,
        .turned obeys.length_eq head advanced.kept leads entered (dormant _ (by simp)) request, rfl,
        step_eq_composite advanced hands calm below completed⟩

end State

/-- The outcome of a cycle as that of an operation. -/
def Outcome.ofCycle : Except Fault (Option Tag) → Outcome
  | .ok request => .requested request
  | .error fault => .failed fault

namespace Machine

open State

variable [Conduct H] {machine machine' : Machine H}

/-- The move that runs a cycle of the root is that cycle. -/
theorem move_cycle_eq (machine : Machine H) :
    machine.move (.operate 0 .cycle) =
      let cycled := machine.root.cycle.run machine.store
      (.outcome (.ofCycle cycled.1.1), ⟨cycled.1.2, cycled.2⟩) := by
  rcases run : machine.root.cycle.run machine.store with ⟨⟨fault | requested, s'⟩, σ'⟩ <;>
    simp only [move, onActive, perform, StoreM.run_bind, run, StoreM.run_pure, Outcome.ofCycle,
      Option.map_some, Option.getD_some]

/-- A cycle of the root goes by the rules, and its outcome is the answer. -/
theorem move_cycle (machine : Machine H) :
    ∃ marks outcome, Cycles machine.root marks outcome (machine.move (.operate 0 .cycle)).2.root ∧
      Store.Fires machine.store (machine.move (.operate 0 .cycle)).2.store marks ∧
      (machine.move (.operate 0 .cycle)).1 = .outcome (.ofCycle outcome) := by
  obtain ⟨marks, cycles, fired⟩ := cycles_run machine.root machine.store
  rw [move_cycle_eq]
  exact ⟨marks, _, cycles, fired, rfl⟩

/-- A cycle of the root that completes goes by the rules. -/
theorem cycles_of_move {request : Option Tag}
    (cycled : machine.move (.operate 0 .cycle) = (.outcome (.requested request), machine')) :
    ∃ marks, Cycles machine.root marks (.ok request) machine'.root ∧
      Store.Fires machine.store machine'.store marks := by
  obtain ⟨marks, outcome, cycles, fired, answer⟩ := machine.move_cycle
  rw [cycled] at cycles fired answer
  rcases outcome with fault | requested
  · simp [Outcome.ofCycle] at answer
  · obtain rfl : request = requested := by simpa [Outcome.ofCycle] using answer
    exact ⟨marks, cycles, fired⟩

/-- In a cycle of the root that completes, no callback fails and every state of the active chain
takes one step, in order; the chain obeys what they request.  So of all that is requested below the
root the outermost request decides, and what the root requests is the result, and leads nowhere. -/
theorem outermost_request_decides (reachable : machine.Reachable) {request : Option Tag}
    (cycled : machine.move (.operate 0 .cycle) = (.outcome (.requested request), machine')) :
    ∃ requests : List (Option Tag),
      stepsIn (Store.since machine.store machine'.store) =
        (machine.root.chain.map address).zip requests ∧
      (∀ call ∈ callsIn (Store.since machine.store machine'.store), call.completed = true) ∧
      requests.head? = some request ∧ Obeys machine.root machine'.root requests := by
  obtain ⟨built, idle⟩ := reachable.spec
  obtain ⟨marks, cycles, fired⟩ := cycles_of_move cycled
  obtain ⟨requests, obeys, head, steps, completed⟩ := cycles.obeys built idle
  refine ⟨requests, ?_, ?_, head, obeys⟩
  · rw [stepsIn, fired.marksIn_since]
    exact steps
  · intro call mem
    rw [callsIn, fired.marksIn_since, List.mem_filterMap] at mem
    obtain ⟨mark, inside, here⟩ := mem
    cases mark <;> simp only [Mark.call?, Option.some.injEq, reduceCtorEq] at here
    subst here
    exact completed _ inside

/-- The first cycle of the small machine: the state below the root asks for work, and the root turns
to the state that works. -/
theorem outermost_request_decides_sample :
    let turned := Sample.machine.move (.operate 0 .cycle)
    Sample.machine.Reachable ∧ turned = (.outcome (.requested none), turned.2) ∧
    ∃ requests : List (Option Tag),
      stepsIn (Store.since Sample.machine.store turned.2.store) =
        (Sample.machine.root.chain.map address).zip requests ∧
      (∀ call ∈ callsIn (Store.since Sample.machine.store turned.2.store), call.completed = true) ∧
      requests.head? = some none ∧ Obeys Sample.machine.root turned.2.root requests := by
  have reachable : Sample.machine.Reachable := ⟨Sample.machine, [], Sample.machine_started, rfl⟩
  have cycled : Sample.machine.move (.operate 0 .cycle) =
      (.outcome (.requested none), (Sample.machine.move (.operate 0 .cycle)).2) := rfl
  exact ⟨reachable, cycled, outermost_request_decides reachable cycled⟩

end Machine

end Statechart
