import Statechart.Proofs.Activity
import Statechart.Proofs.Places
import Statechart.Proofs.Transitions
import Mathlib.Data.List.Count

/-!
# Who is called in a cycle

A cycle that completes calls every state of the active chain on the way down: its entry, unless it
runs, and then its step.  On the way up every level that has requested a transition is left, with
what still runs below it, which are the levels down to the next one that has requested: from there on
all was left before.  Main statement: these are all callbacks of the cycle, in this order, so of the
states of the chain just those from the outermost request on are left, each once.
-/
namespace Statechart

variable {H : Host}

/-- Which callback it was, and of which state. -/
def Call.calling (call : Call) : Phase × Address := (call.phase, call.state)

/-- The callbacks that some marks are the ends of. -/
def callings (marks : List Mark) : List (Phase × Address) :=
  (marks.filterMap Mark.call?).map Call.calling

@[simp] theorem callings_nil : callings [] = [] := rfl

@[simp] theorem callings_append (xs ys : List Mark) :
    callings (xs ++ ys) = callings xs ++ callings ys := by
  simp [callings]

@[simp] theorem callings_selected (place : Address) : callings [.selected place] = [] := rfl

@[simp] theorem callings_taken (place : Address) (command : Option Command) (marks : List Mark) :
    callings (.taken place command :: marks) = callings marks := rfl

theorem callings_marksIn (events : List (Event H)) :
    callings (marksIn events) = (callsIn events).map Call.calling := rfl

/-- The callbacks with which a cycle arrives at a state. -/
def Core.arrival (core : Core H) : List (Phase × Address) :=
  if core.running then [(.step, core.address)] else [(.entry, core.address), (.step, core.address)]

/-- The levels that are left with the first of some levels, if that one requests a transition: they
end where the next one that requests begins. -/
def leaving : List (Address × Option Tag) → List Address
  | (place, some _) :: deeper => place :: (deeper.takeWhile (·.2.isNone)).map Prod.fst
  | _ => []

/-- The states that are left on the way up through some levels, in order. -/
def departures : List (Address × Option Tag) → List Address
  | [] => []
  | level :: deeper => departures deeper ++ leaving (level :: deeper)

/-- On the way up just the levels from the outermost request on are left. -/
theorem perm_departures (levels : List (Address × Option Tag)) :
    (departures levels).Perm ((levels.dropWhile (·.2.isNone)).map Prod.fst) := by
  induction levels with
  | nil => exact .nil
  | cons level deeper ih =>
    obtain ⟨place, _ | request⟩ := level
    · simpa [departures, leaving] using ih
    · have split := congrArg (List.map Prod.fst)
        (List.takeWhile_append_dropWhile (p := fun level => level.2.isNone) (l := deeper))
      rw [List.map_append] at split
      rw [List.dropWhile_cons_of_neg (by simp), List.map_cons, ← split, departures, leaving]
      exact (List.perm_append_comm.trans (.cons place (ih.append_left _)))

/-- A level is among those from the outermost request on if it or one above it requests. -/
theorem count_dropWhile {levels : List (Address × Option Tag)} {level : Address × Option Tag}
    {depth : Nat} (distinct : (levels.map Prod.fst).Nodup) (here : levels[depth]? = some level) :
    ((levels.dropWhile (·.2.isNone)).map Prod.fst).count level.1 =
      ((levels.take (depth + 1)).any (·.2.isSome)).toNat := by
  induction levels generalizing depth with
  | nil => simp at here
  | cons first deeper ih =>
    have fresh := (List.nodup_cons.1 distinct).1
    rcases asks : first.2 with _ | request
    · rw [List.dropWhile_cons_of_pos (by simp [asks])]
      rcases depth with _ | depth
      · obtain rfl : first = level := by simpa using here
        have absent : first.1 ∉ (deeper.dropWhile (·.2.isNone)).map Prod.fst := fun mem =>
          fresh (((List.dropWhile_suffix _).map Prod.fst).subset mem)
        simp [List.count_eq_zero_of_not_mem absent, asks]
      · simpa [asks] using ih (List.nodup_cons.1 distinct).2 (by simpa using here)
    · rw [List.dropWhile_cons_of_neg (by simp [asks])]
      have mem : level.1 ∈ (first :: deeper).map Prod.fst :=
        List.mem_map_of_mem (List.mem_of_getElem? here)
      rw [List.count_eq_one_of_mem distinct mem]
      simp [asks]

/-- A state is left once if its level or one above it, but beneath the first, requests. -/
theorem count_departures {first level : Address × Option Tag}
    {deeper : List (Address × Option Tag)} {depth : Nat}
    (distinct : ((first :: deeper).map Prod.fst).Nodup)
    (here : (first :: deeper)[depth]? = some level) :
    (departures deeper).count level.1 =
      (((first :: deeper).take (depth + 1)).tail.any (·.2.isSome)).toNat := by
  have fresh := (List.nodup_cons.1 distinct).1
  rw [(perm_departures deeper).count_eq]
  rcases depth with _ | depth
  · obtain rfl : first = level := by simpa using here
    have absent : first.1 ∉ (deeper.dropWhile (·.2.isNone)).map Prod.fst := fun mem =>
      fresh (((List.dropWhile_suffix _).map Prod.fst).subset mem)
    simp [List.count_eq_zero_of_not_mem absent]
  · simpa using count_dropWhile (List.nodup_cons.1 distinct).2 (by simpa using here)

/-- Only states of the levels are left. -/
theorem mem_of_mem_departures {levels : List (Address × Option Tag)} {place : Address}
    (mem : place ∈ departures levels) : place ∈ levels.map Prod.fst :=
  ((List.dropWhile_suffix _).map Prod.fst).subset ((perm_departures levels).mem_iff.1 mem)

namespace Core

variable {core core' : Core H} {marks : List Mark}

/-- The callbacks of a state's own cycle, if they complete. -/
theorem Advances.callings_eq {command : Option Command} {requested : Option Tag}
    (h : core.Advances command marks (.ok requested) core') : callings marks = core.arrival := by
  cases h with
  | entered idle => simp [callings, Mark.call?, Call.calling, record, arrival, idle]
  | resumed running => simp [callings, Mark.call?, Call.calling, record, arrival, running]

/-- The arrival at a state calls no other. -/
theorem of_mem_arrival {calling : Phase × Address} (mem : calling ∈ core.arrival) :
    calling.2 = core.address := by
  rw [arrival] at mem
  split at mem <;> simp_all
  rcases mem with rfl | rfl <;> rfl

/-- The exit is fired just where the state runs. -/
theorem Leaves.callings_eq {result : Except Fault Unit} (h : core.Leaves marks result core') :
    callings marks = if core.running then [(.exit, core.address)] else [] := by
  cases h with
  | idle idle => simp [idle]
  | left running behavior result =>
    cases result <;> simp [callings, Mark.call?, Call.calling, record, running]

end Core

namespace State

variable {core core' : Core H} {routes : Routes} {before after : List (State H)}
  {active active' s s' : State H} {marks : List Mark}

/-- How often the callbacks of each kind occur on the way down a chain. -/
theorem count_arrivals (states : List (State H)) (place : Address) :
    let arrivals := states.flatMap fun t => t.core.arrival
    arrivals.count (.step, place) = (states.map address).count place ∧
      arrivals.count (.entry, place) =
        ((states.filter fun t => !t.isRunning).map address).count place ∧
      arrivals.count (.exit, place) = 0 := by
  induction states with
  | nil => simp
  | cons s rest ih =>
    obtain ⟨steps, entries, exits⟩ := ih
    simp only [List.flatMap_cons, List.count_append, steps, entries, exits, List.map_cons,
      List.filter_cons, List.count_cons]
    rcases running : s.core.running <;>
      simp [Core.arrival, running, List.count_cons, isRunning, address, Nat.add_comm]

/-- Among states at different places, a state that passes is found once at its place. -/
theorem count_filter {states : List (State H)} (distinct : (states.map address).Nodup)
    (mem : s ∈ states) (p : State H → Bool) :
    ((states.filter p).map address).count s.address = (p s).toNat := by
  rcases passes : p s
  · apply List.count_eq_zero_of_not_mem
    intro inside
    obtain ⟨t, there, same⟩ := List.mem_map.1 inside
    obtain ⟨there, also⟩ := List.mem_filter.1 there
    obtain rfl := List.inj_on_of_nodup_map distinct there mem same
    rw [passes] at also
    contradiction
  · have inside : s.address ∈ (states.filter p).map address :=
      List.mem_map_of_mem (List.mem_filter.2 ⟨mem, passes⟩)
    exact List.count_eq_one_of_mem (distinct.sublist (List.filter_sublist.map _)) inside

/-- The callbacks of the states below go on from a state's own. -/
theorem callings_composite {place : Address} {command : Option Command}
    {calls down marks marks' : List Mark} {requested : Option Tag}
    (advanced : core.Advances command calls (.ok requested) core')
    (hands : Hands place command down) :
    callings (.taken core.address command :: (calls ++ (down ++ (marks ++ marks')))) =
      core.arrival ++ (callings marks ++ callings marks') := by
  have quiet : callings down = [] := by cases hands <;> rfl
  simp [advanced.callings_eq, quiet]

/-- A reset that completes fires the exits of the states that run, from the top down. -/
theorem Resets.callings_eq (h : Resets s marks (.ok ()) s') :
    callings marks = (s.chain.filter isRunning).map fun t => (.exit, t.address) := by
  generalize eq : Except.ok () = result at h
  induction h with
  | exitFails => contradiction
  | innerFails => contradiction
  | @leaf core _ _ left =>
    rw [left.callings_eq]
    rcases running : core.running <;> simp [chain, isRunning, address, running]
  | @composite core _ _ _ _ _ _ _ _ _ _ _ left inner chosen_eq ih =>
    rw [callings_append, callings_append, callings_selected, List.append_nil, left.callings_eq,
      ih eq]
    rcases running : core.running <;> simp [chain, isRunning, address, running]

/-- The first step of a cycle that completes is the state's own. -/
theorem Cycles.steps_eq_cons {request : Option Tag} (h : Cycles s marks (.ok request) s') :
    ∃ deeper, marks.filterMap Mark.step? = (s.address, request) :: deeper := by
  generalize eq : Except.ok request = outcome at h
  cases h with
  | fails => contradiction
  | leaf advanced =>
    obtain rfl := Except.ok.inj eq
    exact ⟨[], advanced.step_eq.1⟩
  | @composite _ _ _ _ _ _ _ _ _ _ _ _ _ _ _ settled advanced hands inner settles =>
    rcases settled with fault | ⟨⟩
    · contradiction
    obtain rfl := Except.ok.inj eq
    exact ⟨_, steps_composite advanced hands fun mark mem => (settles.of_mem mem).1⟩

/-- In a cycle that completes, the states of the chain take their steps in order. -/
theorem Cycles.places_eq {request : Option Tag} (h : Cycles s marks (.ok request) s')
    (built : s.WellBuilt) (idle : s.Idle) :
    (marks.filterMap Mark.step?).map Prod.fst = s.chain.map address := by
  obtain ⟨requests, obeys, -, steps, -⟩ := h.obeys built idle
  rw [steps, List.map_fst_zip (by simp [obeys.length_eq])]

/-- The callbacks of a cycle that completes, and what of the chain runs then: the levels above the
outermost request. -/
theorem Cycles.callings_eq {request : Option Tag} (h : Cycles s marks (.ok request) s')
    (built : s.WellBuilt) (idle : s.Idle) :
    let deeper := (marks.filterMap Mark.step?).tail
    callings marks =
        s.chain.flatMap (fun t => t.core.arrival) ++ (departures deeper).map (Prod.mk .exit) ∧
      (s'.chain.filter isRunning).map address =
        s.address :: (deeper.takeWhile (·.2.isNone)).map Prod.fst := by
  generalize eq : Except.ok request = outcome at h
  induction h generalizing request with
  | fails => contradiction
  | @leaf core core' command calls requested advanced =>
    have steps : (Mark.taken core.address command :: calls).filterMap Mark.step? =
        [(core.address, requested)] := advanced.step_eq.1
    rw [steps]
    refine ⟨?_, ?_⟩
    · simp [advanced.callings_eq, chain, departures]
    · simp [chain, isRunning, address, advanced.running_of_ok, advanced.kept.address]
  | @composite core core' routes before after active active' s' command calls down marks marks'
      requested outcome settled advanced hands inner settles ih =>
    rcases settled with fault | ⟨⟩
    · contradiction
    have idleInner := (idle_composite.1 idle).2
    rw [steps_composite advanced hands fun mark mem => (settles.of_mem mem).1, List.tail_cons,
      callings_composite advanced hands]
    have above : (core'.running, core'.address) = (true, core.address) := by
      rw [advanced.running_of_ok, advanced.kept.address]
    obtain ⟨running, placed⟩ := Prod.mk.inj above
    cases settles with
    | stays =>
      obtain ⟨below, runs⟩ := ih built.inner idleInner rfl
      obtain ⟨deeper, steps⟩ := inner.steps_eq_cons
      rw [steps, List.tail_cons] at below runs
      rw [steps]
      refine ⟨?_, ?_⟩
      · simp [below, chain, departures, leaving]
      · simp [chain, isRunning, running, runs, address, placed]
    | @follows request target before' after' active'' chosen marks' leads reset chosen_eq =>
      obtain ⟨below, runs⟩ := ih built.inner idleInner rfl
      obtain ⟨deeper, steps⟩ := inner.steps_eq_cons
      rw [steps, List.tail_cons] at below runs
      rw [steps]
      -- the inner state is left with what still runs below it
      have left : callings marks' = (leaving ((active.address, some request) :: deeper)).map
          (Prod.mk .exit) := by
        rw [reset.callings_eq, leaving, ← runs, List.map_map]
        rfl
      -- the state that is selected has not been run
      have still : chosen.Still := by
        have dormant := idle.dormant_children (reset.dormant
          (built.inner.of_layout inner.layout_eq) (inner.idle built.inner idleInner))
        have resetPlaced := (built.of_layout
          (layout_composite advanced.kept inner.layout_eq)).of_layout (layout_active reset.layout_eq)
        rw [← (children_chosen chosen_eq resetPlaced).1] at dormant
        exact (dormant chosen (by simp)).still
      have none : chosen.chain.filter isRunning = [] :=
        List.filter_eq_nil_iff.2 fun t mem => by simp [still.chain t mem]
      refine ⟨?_, ?_⟩
      · simp [below, left, chain, departures]
      · simp [chain, isRunning, running, none, address, placed]

/-- What runs after a cycle that completes has been on the chain before. -/
theorem Cycles.running_subset {request : Option Tag} (h : Cycles s marks (.ok request) s')
    (built : s.WellBuilt) (idle : s.Idle) :
    (s'.chain.filter isRunning).map address ⊆ s.chain.map address := by
  obtain ⟨deeper, steps⟩ := h.steps_eq_cons
  rw [(h.callings_eq built idle).2, ← h.places_eq built idle, steps, List.tail_cons, List.map_cons]
  exact List.cons_subset_cons _ ((List.takeWhile_sublist _).map _).subset

end State

/-! ## A machine that turns on two levels at once -/

namespace Sample

open Script State

/-- The tag of a transition that no table declares. -/
def lost : Tag := ⟨"Turn", .symbol "Lost"⟩

/-- The place of the state that asks for a transition above one that does so too. -/
def outer : Address := top.inner "Outer"

/-- The root selects two states one beneath the other which both ask for a transition, each beside a
state that does nothing.  The root declares its transition by a tag. -/
def tower (tag : Tag) : State stage :=
  .composite (fresh top mute) ⟨[(first, "Outer"), (tag, "Rest")], "Outer"⟩ []
    (.composite (fresh outer eager) ⟨[(first, "Inner"), (next, "Spare")], "Inner"⟩ []
      (.leaf (fresh (outer.inner "Inner") eager)) [.leaf (fresh (outer.inner "Spare") mute)])
    [.leaf (fresh (top.inner "Rest") mute)]

/-- How such a root is built. -/
def towerCast (tag : Tag) : Cast :=
  .ofPart .node mute [⟨first, "Outer", "Node", true,
      .ofPart .node eager [⟨first, "Inner", "Node", true, .ofPart .node eager []⟩,
        ⟨next, "Spare", "Node", false, .ofPart .node mute []⟩]⟩,
    ⟨tag, "Rest", "Node", false, .ofPart .node mute []⟩]

/-- The machine of such a root, as it is built on an empty store. -/
def relay (tag : Tag) : Machine stage :=
  ⟨tower tag, (((towerCast tag).start .default "R" "Node").run (.initial .empty clock)).2⟩

theorem relay_reachable : (relay next).Reachable :=
  ⟨relay next, [], ⟨.default, "R", "Node", towerCast next, .initial .empty clock, rfl⟩, rfl⟩

end Sample

namespace Machine

open State

variable [Conduct H] {machine machine' : Machine H}

/-- In a cycle of the root that completes, the states of the chain are called from the top down, each
with its entry unless it runs and then with its step.  After that, from the bottom up, every level
below the root that has requested a transition is left, together with the levels below it down to the
next one that has requested.  Nothing else is called: a state of the chain is left once if it or a
state between it and the root has requested a transition, and not at all otherwise. -/
theorem callbacks_in_order (reachable : machine.Reachable) {request : Option Tag}
    (cycled : machine.move (.operate 0 .cycle) = (.outcome (.requested request), machine')) :
    let events := Store.since machine.store machine'.store
    let called := (callsIn events).map Call.calling
    let levels := stepsIn events
    levels.map Prod.fst = machine.root.chain.map address ∧
    called = machine.root.chain.flatMap (fun s => s.core.arrival) ++
      (departures levels.tail).map (Prod.mk .exit) ∧
    (∀ calling ∈ called, calling.2 ∈ machine.root.chain.map address) ∧
    ∀ depth s, machine.root.chain[depth]? = some s →
      called.count (.entry, s.address) = (!s.isRunning).toNat ∧
      called.count (.step, s.address) = 1 ∧
      called.count (.exit, s.address) =
        ((levels.take (depth + 1)).tail.any (·.2.isSome)).toNat := by
  obtain ⟨built, idle⟩ := reachable.spec
  obtain ⟨marks, cycles, fired⟩ := cycles_of_move cycled
  have places := cycles.places_eq built idle
  obtain ⟨called, -⟩ := cycles.callings_eq built idle
  obtain ⟨deeper, split⟩ := cycles.steps_eq_cons
  simp only [stepsIn, ← callings_marksIn, fired.marksIn_since]
  refine ⟨places, called, fun calling mem => ?_, fun depth s here => ?_⟩
  · rw [called, List.mem_append] at mem
    rcases mem with mem | mem
    · obtain ⟨t, inside, mem⟩ := List.mem_flatMap.1 mem
      rw [Core.of_mem_arrival mem]
      exact List.mem_map_of_mem inside
    · obtain ⟨place, left, rfl⟩ := List.mem_map.1 mem
      rw [← places]
      exact ((List.tail_suffix _).map Prod.fst).subset (mem_of_mem_departures left)
  · have mem : s ∈ machine.root.chain := List.mem_of_getElem? here
    have distinct := built.nodup_chain
    obtain ⟨stepped, entered, unleft⟩ := count_arrivals machine.root.chain s.address
    have once : (machine.root.chain.map address).count s.address = 1 :=
      List.count_eq_one_of_mem distinct (List.mem_map_of_mem mem)
    have exits (phase : Phase) (states : List Address) :
        (states.map (Prod.mk Phase.exit)).count (phase, s.address) =
          if phase = .exit then states.count s.address else 0 := by
      split
      · next same =>
        rw [same]
        exact List.count_map_of_injective _ _ (fun _ _ eq => (Prod.mk.inj eq).2) _
      · next other =>
        apply List.count_eq_zero_of_not_mem
        simp [Ne.symm other]
    have left : (departures (marks.filterMap Mark.step?).tail).count s.address =
        (((marks.filterMap Mark.step?).take (depth + 1)).tail.any (·.2.isSome)).toNat := by
      obtain ⟨level, level_here, same⟩ : ∃ level,
          (marks.filterMap Mark.step?)[depth]? = some level ∧ level.1 = s.address := by
        have there := congrArg (fun list => list[depth]?) places
        simp only [List.getElem?_map, here, Option.map_some] at there
        exact Option.map_eq_some_iff.1 there
      rw [← places, split] at distinct
      rw [split] at level_here ⊢
      rw [← same]
      exact count_departures distinct level_here
    rw [called]
    simp [List.count_append, exits, stepped, entered, unleft, once, left,
      count_filter distinct mem]

/-- The first cycle of the machine that turns on two levels: both states below the root are entered,
ask for their transitions and are left, the inner one first. -/
theorem callbacks_in_order_relay :
    let machine := Sample.relay Sample.next
    let turned := machine.move (.operate 0 .cycle)
    let events := Store.since machine.store turned.2.store
    let called := (callsIn events).map Call.calling
    let levels := stepsIn events
    machine.Reachable ∧ turned = (.outcome (.requested none), turned.2) ∧
    called.filter (·.1 = .exit) = [(.exit, Sample.outer.inner "Inner"), (.exit, Sample.outer)] ∧
    levels.map Prod.fst = machine.root.chain.map address ∧
    called = machine.root.chain.flatMap (fun s => s.core.arrival) ++
      (departures levels.tail).map (Prod.mk .exit) ∧
    (∀ calling ∈ called, calling.2 ∈ machine.root.chain.map address) ∧
    ∀ depth s, machine.root.chain[depth]? = some s →
      called.count (.entry, s.address) = (!s.isRunning).toNat ∧
      called.count (.step, s.address) = 1 ∧
      called.count (.exit, s.address) =
        ((levels.take (depth + 1)).tail.any (·.2.isSome)).toNat := by
  have cycled : (Sample.relay Sample.next).move (.operate 0 .cycle) =
      (.outcome (.requested none), ((Sample.relay Sample.next).move (.operate 0 .cycle)).2) := rfl
  exact ⟨Sample.relay_reachable, cycled, by decide +kernel,
    callbacks_in_order Sample.relay_reachable cycled⟩

end Machine

end Statechart
