import Statechart.Proofs.Descent
import Statechart.Proofs.Receipts
import Statechart.Proofs.Transitions

/-!
# Commands last for one cycle

A state that is reached by a cycle takes what is handed to it, and is not handed anything after that.
So what waits for it after the cycle has been posted to it, and what the reached states see later has
been posted to one of them.  Main statement: commands go down the chain by `HandsDown`, exits and
states that are selected see nothing of them, and none of them is left over.
-/
namespace Statechart

variable {H : Host}

/-! ## What is left over -/

/-- Marks are cut where their events are. -/
theorem cut_of_marksIn {events : List (Event H)} {earlier later : List Mark} {mark : Mark}
    (cut : marksIn events = earlier ++ mark :: later) :
    ∃ earlier' event later', events = earlier' ++ event :: later' ∧ event.mark? = some mark ∧
      marksIn earlier' = earlier ∧ marksIn later' = later := by
  obtain ⟨earlier', rest, rfl, same, cut⟩ := List.filterMap_eq_append_iff.1 cut
  obtain ⟨quiet, event, later', rfl, none, here, same'⟩ := List.filterMap_eq_cons_iff.1 cut
  refine ⟨earlier' ++ quiet, event, later', by simp, here, ?_, same'⟩
  rw [marksIn_append, ← same]
  simp [marksIn, List.filterMap_eq_nil_iff.2 none]

/-- What waits at a place after an event has waited before, or is posted or handed to it. -/
theorem Event.of_waits {event : Event H} {place : Address} {before : Option Command}
    {command : Command} (told : event.waits place before = some (some command)) :
    before = some command ∨ event = .mail place (.posted command true) ∨
      event = .mail place (.handed command) := by
  cases event with
  | mail state step =>
    rw [waits] at told
    split at told
    · next here =>
      subst here
      cases step with
      | posted other accepted =>
        cases accepted with
        | false => exact .inl (Option.some.inj told)
        | true =>
          obtain rfl := Option.some.inj (Option.some.inj told)
          exact .inr (.inl rfl)
      | handed other =>
        obtain rfl := Option.some.inj (Option.some.inj told)
        exact .inr (.inr rfl)
      | taken old | discarded old | abandoned old | selected old => simp [MailStep.waits] at told
    · exact .inl (Option.some.inj told)
  | notice notice | remark said | called call => exact .inl (Option.some.inj told)

/-- What waits at a place to which nothing is handed has waited before, or is posted. -/
theorem posted_of_waits {events : List (Event H)} {place : Address} {before : Option Command}
    {command : Command} (told : events.foldlM (Event.waits place) before = some (some command))
    (unhanded : ∀ other, .mail place (.handed other) ∉ events) :
    before = some command ∨ .mail place (.posted command true) ∈ events := by
  induction events generalizing before with
  | nil => exact .inl (by simpa using told)
  | cons event events ih =>
    rw [List.foldlM_cons] at told
    obtain ⟨between, first, rest⟩ := Option.bind_eq_some_iff.1 told
    rcases ih rest fun other mem => unhanded other (List.mem_cons_of_mem _ mem) with rfl | posted
    · rcases Event.of_waits first with same | rfl | rfl
      · exact .inl same
      · exact .inr List.mem_cons_self
      · exact absurd List.mem_cons_self (unhanded command)
    · exact .inr (List.mem_cons_of_mem _ posted)

namespace State

variable {s s' : State H} {marks : List Mark} {outcome : Except Fault (Option Tag)}

/-- A state that is reached by a cycle takes what waits for it, and is not handed anything after
that. -/
theorem Cycles.taken_last (h : Cycles s marks outcome s') (built : s.WellBuilt) {call : Call}
    (mem : .called call ∈ marks) (phase : call.phase ≠ .exit) :
    ∃ earlier command later, marks = earlier ++ .taken call.state command :: later ∧
      ∀ other, .handed call.state other ∉ later := by
  have own {core core' : Core H} {command : Option Command} {calls rest : List Mark}
      {result : Except Fault (Option Tag)} (advanced : core.Advances command calls result core')
      (mem : .called call ∈ calls) (within : ∀ mark ∈ rest, mark.Within core.address) :
      ∃ earlier taken later, Mark.taken core.address command :: (calls ++ rest) =
        earlier ++ .taken call.state taken :: later ∧ ∀ other, .handed call.state other ∉ later := by
    obtain ⟨same, -⟩ := advanced.sees call mem
    rw [same]
    refine ⟨[], command, calls ++ rest, rfl, fun other handed => ?_⟩
    have concerns := List.forall_mem_append.2 ⟨advanced.within, within⟩ _ handed
    exact concerns.unhanded other rfl
  induction h with
  | fails advanced =>
    rw [← List.append_nil (_ :: _)]
    exact own advanced (by simpa using mem) (by simp)
  | leaf advanced =>
    rw [← List.append_nil (_ :: _)]
    exact own advanced (by simpa using mem) (by simp)
  | @composite core core' routes before after active active' s' command calls handed marks marks'
      requested outcome settled advanced hands inner settles ih =>
    have whole := (Cycles.composite advanced hands inner settles).within built
    simp only [List.mem_cons, List.mem_append, reduceCtorEq, false_or] at mem
    rcases mem with mem | mem | mem | mem
    · exact own advanced mem fun mark mem => whole mark (by simp [mem])
    · cases hands <;> simp at mem
    · -- after the inner cycle comes the way up, on which nothing is handed
      obtain ⟨earlier, taken, later, rfl, unhanded⟩ := ih built.inner mem
      refine ⟨.taken core.address command :: (calls ++ (handed ++ earlier)), taken, later ++ marks',
        by simp, fun other down => ?_⟩
      rcases List.mem_append.1 down with down | down
      · exact unhanded other down
      · exact absurd (settles.outward _ down) (by simp [Mark.isOutward])
    · exact absurd (Mark.isOutward_called.1 (settles.outward _ mem)).1 phase

/-- What waits for a state that a cycle has reached has been posted to it in the cycle. -/
theorem Cycles.posted_of_waiting {events : List (Event H)} {σ σ' : Store H}
    (h : Cycles s (marksIn events) outcome s') (built : s.WellBuilt)
    (recorded : Store.Records σ σ' events) {call : Call} (mem : call ∈ callsIn events)
    (phase : call.phase ≠ .exit) {command : Command}
    (waits : σ'.waiting call.state = some command) :
    .mail call.state (.posted command true) ∈ events := by
  obtain ⟨earlier, taken, later, cut, unhanded⟩ := h.taken_last built (mem_calls.1 mem) phase
  obtain ⟨earlier', event, later', rfl, here, rfl, rfl⟩ := cut_of_marksIn cut
  have same : event = .mail call.state (.taken taken) := Event.of_mark? here
  subst same
  have told := recorded.mailboxes call.state
  rw [waits] at told
  obtain ⟨between, -, told⟩ := foldlM_split told
  rw [List.foldlM_cons] at told
  obtain ⟨emptied, first, rest⟩ := Option.bind_eq_some_iff.1 told
  have nothing : emptied = none := by
    simp only [Event.waits, if_true, MailStep.waits] at first
    split at first
    · exact (Option.some.inj first).symm
    · contradiction
  have unhanded' : ∀ other, .mail call.state (.handed other) ∉ later' :=
    fun other mem => unhanded other (List.mem_filterMap.2 ⟨_, mem, rfl⟩)
  rcases posted_of_waits rest unhanded' with waited | posted
  · rw [nothing] at waited
    contradiction
  · exact List.mem_append_right _ (List.mem_cons_of_mem _ posted)

/-- An exit sees no command. -/
theorem Cycles.blind_exit (h : Cycles s marks outcome s') {call : Call} (mem : .called call ∈ marks)
    (phase : call.phase = .exit) : call.view.command = none := by
  obtain ⟨down, up, rfl, inward, outward⟩ := h.split
  rcases List.mem_append.1 mem with mem | mem
  · exact absurd phase (Mark.isInward_called.1 (inward _ mem))
  · exact (Mark.isOutward_called.1 (outward _ mem)).2

/-- Nothing but exits is fired once a state has been selected. -/
theorem Cycles.exits_after (h : Cycles s marks outcome s') {earlier later : List Mark}
    {place : Address} (cut : marks = earlier ++ .selected place :: later) {call : Call}
    (mem : .called call ∈ later) : call.phase = .exit := by
  obtain ⟨down, up, rfl, inward, outward⟩ := h.split
  have unselected : .selected place ∉ down := fun mem => nomatch inward _ mem
  rw [← List.append_nil up] at cut
  obtain ⟨earlier', later', rfl, -, rfl⟩ := cut_middle cut unselected List.not_mem_nil
  rw [List.append_nil] at mem
  exact (Mark.isOutward_called.1 (outward _ (by simp [mem]))).1

/-- The state next to another on a chain lies right beneath it. -/
theorem WellBuilt.owner?_of_chain (built : s.WellBuilt) {depth : Nat} {t : State H}
    (here : s.chain[depth + 1]? = some t) :
    ∃ u, s.chain[depth]? = some u ∧ t.address.owner? = some u.address := by
  induction s using chainInduction generalizing depth with
  | leaf core => simp [chain] at here
  | composite core routes before active after ih =>
    rw [chain, List.getElem?_cons_succ] at here
    rcases depth with _ | depth
    · rw [getElem?_chain_zero] at here
      obtain rfl := Option.some.inj here
      exact ⟨_, rfl, by rw [built.address_active, Address.owner?_inner]; rfl⟩
    · exact ih built.inner here

/-- One of the first entries of a list. -/
theorem mem_take_iff {α : Type} {list : List α} {count : Nat} {x : α} :
    x ∈ list.take count ↔ ∃ depth < count, list[depth]? = some x := by
  simp [List.mem_iff_getElem?, List.getElem?_take]

/-- Whatever lies right above one of the first places of the chain of a root is one of them. -/
theorem WellBuilt.owner_mem_take (built : s.WellBuilt) (top : s.address.above = []) {count : Nat}
    {place owner : Address} (mem : place ∈ (s.chain.map address).take count)
    (owned : place.owner? = some owner) : owner ∈ (s.chain.map address).take count := by
  obtain ⟨depth, lt, here⟩ := mem_take_iff.1 mem
  rw [List.getElem?_map] at here
  obtain ⟨t, there, rfl⟩ := Option.map_eq_some_iff.1 here
  rcases depth with _ | depth
  · rw [getElem?_chain_zero] at there
    obtain rfl := Option.some.inj there
    rw [Address.owner?_root top] at owned
    contradiction
  · obtain ⟨u, above, owned'⟩ := built.owner?_of_chain there
    obtain rfl := Option.some.inj (owned'.symm.trans owned)
    refine mem_take_iff.2 ⟨depth, Nat.lt_of_succ_lt lt, ?_⟩
    rw [List.getElem?_map, above]
    rfl

end State

/-! ## What is seen later -/

namespace Custody

variable {custody : Custody} {known : Command → Prop} {part : Address → Prop}

/-- All that waits for some places and all that their cycles have taken is known. -/
structure Knows (known : Command → Prop) (part : Address → Prop) (custody : Custody) : Prop where
  waits : ∀ place, part place → ∀ receipt, custody.waits place = some receipt →
    known receipt.command
  hand : ∀ place, part place → ∀ receipt, custody.hand place = some receipt →
    known receipt.command

/-- Something known is put into a mailbox. -/
theorem Knows.put (h : Knows known part custody) {place : Address} {receipt : Option Receipt}
    (fits : part place → ∀ r, receipt = some r → known r.command) :
    Knows known part (custody.put place receipt) := by
  refine ⟨fun other inside r held => ?_, h.hand⟩
  by_cases here : other = place
  · subst here
    exact fits inside r (by simpa [Custody.put] using held)
  · exact h.waits other inside r (by simpa [Custody.put, Function.update_of_ne here] using held)

theorem Knows.empty (h : Knows known part custody) (place : Address) :
    Knows known part (custody.put place none) :=
  h.put fun _ _ none => nomatch none

/-- Where all places above are of the part, and what is posted to the part is known, all that is in
the part stays known. -/
theorem Knows.next (h : Knows known part custody)
    (upward : ∀ place owner, part place → place.owner? = some owner → part owner) {event : Event H}
    (posted : ∀ place command, part place → event = .mail place (.posted command true) →
      known command) : Knows known part (custody.next event) := by
  cases event with
  | mail place step =>
    cases step with
    | posted command accepted =>
      cases accepted with
      | false => exact h
      | true =>
        refine h.put fun inside r given => ?_
        obtain rfl := Option.some.inj given
        exact posted place command inside rfl
    | handed command =>
      refine h.put fun inside r given => ?_
      obtain ⟨owner, owned, held⟩ := Option.bind_eq_some_iff.1 given
      exact h.hand owner (upward place owner inside owned) r held
    | taken command =>
      refine ⟨(h.empty place).waits, fun other inside r held => ?_⟩
      by_cases here : other = place
      · subst here
        exact h.waits other inside r (by simpa [Custody.next, Custody.take] using held)
      · refine h.hand other inside r ?_
        simpa [Custody.next, Custody.take, Custody.put, Function.update_of_ne here] using held
    | discarded old | abandoned old => exact h.empty place
    | selected old => exact ⟨(h.empty place).waits, (h.empty place).hand⟩
  | notice notice | remark said | called call => exact h

theorem Knows.after (h : Knows known part custody)
    (upward : ∀ place owner, part place → place.owner? = some owner → part owner)
    {events : List (Event H)}
    (posted : ∀ place command, part place → .mail place (.posted command true) ∈ events →
      known command) : Knows known part (custody.after events) := by
  induction events generalizing custody with
  | nil => exact h
  | cons event events ih =>
    refine ih (h.next upward fun place command inside eq => ?_) fun place command inside mem => ?_
    · exact posted place command inside (eq ▸ List.mem_cons_self)
    · exact posted place command inside (List.mem_cons_of_mem _ mem)

end Custody

namespace Machine

open State

variable [Conduct H] {machine : Machine H}

/-- What callbacks of a part of the tree see in a run, where all places above are of the part, has
been posted to the part or waited for it at the start. -/
theorem seen_in_run (built : machine.root.WellBuilt) (top : machine.root.address.above = [])
    (moves : List (Move H)) {known : Command → Prop} {part : Address → Prop}
    (upward : ∀ place owner, part place → place.owner? = some owner → part owner)
    (waited : ∀ place command, part place → machine.store.waiting place = some command →
      known command)
    (posted : ∀ place command, part place → .mail place (.posted command true) ∈
      Store.since machine.store (machine.run moves).2.store → known command)
    {call : Call} (mem : call ∈ callsIn (Store.since machine.store (machine.run moves).2.store))
    (inside : part call.state) {command : Command} (sees : call.view.command = some command) :
    known command := by
  obtain ⟨recorded, good, -, -⟩ := good_run_of_built built top moves
  have told := recorded.mailboxes
  obtain ⟨earlier, later, cut⟩ := List.append_of_mem (mem_callsIn.1 mem)
  rw [cut] at good told posted
  obtain ⟨between, fair, good'⟩ :=
    (Custody.fair_first machine.root machine.store).cut good told
  obtain ⟨receipt, held, rfl, -⟩ := fair.seen good' sees
  -- no cycle has taken anything yet, so only what waits has to be known
  have start : (Custody.first machine.root machine.store).Knows known part := by
    refine ⟨fun place inside r held => ?_, fun place inside r none => nomatch none⟩
    obtain ⟨waiting, waits, rfl⟩ := Option.map_eq_some_iff.1 held
    exact waited place waiting inside waits
  have knows := start.after upward fun place command inside mem =>
    posted place command inside (List.mem_append_left _ mem)
  exact knows.hand call.state inside receipt held

/-- In a cycle of the root commands go down the chain by `HandsDown`, and the entries and steps of the
states that are reached see them.  Exits see no command.  Once a state is selected nothing but exits
is fired, and one that is selected from off the chain has no entry and no step in the cycle at all.
Whether the cycle completes or fails, whatever waits for a reached state afterwards has been posted to
it in the cycle, and whatever the reached states see later has been posted to one of them since the
cycle began. -/
theorem commands_go_down (reachable : machine.Reachable) :
    let moved := (machine.move (.operate 0 .cycle)).2
    let events := Store.since machine.store moved.store
    let places := machine.root.chain.map address
    ∃ commands, HandsDown machine.store places events commands ∧
      (∀ call ∈ callsIn events, call.phase = .exit → call.view.command = none) ∧
      (∀ earlier place old later, events = earlier ++ .mail place (.selected old) :: later →
        (∀ call ∈ callsIn later, call.phase = .exit) ∧
        (place ∉ places → ∀ call ∈ callsIn events, call.phase ≠ .exit → call.state ≠ place)) ∧
      let reached := places.take commands.length
      (∀ place ∈ reached, ∀ command, moved.store.waiting place = some command →
        .mail place (.posted command true) ∈ events) ∧
      ∀ moves, let later := Store.since moved.store (moved.run moves).2.store
        ∀ call ∈ callsIn later, call.state ∈ reached →
          ∀ command, call.view.command = some command →
            ∃ place ∈ reached, .mail place (.posted command true) ∈ events ++ later := by
  intro moved events places
  obtain ⟨built, -⟩ := reachable.spec
  have store_eq : moved.store = machine.store.after machine.root.cycle :=
    congrArg (fun answered => answered.2.store) machine.move_cycle_eq
  obtain ⟨recent, commands, recorded, hands⟩ :=
    handsDown_run machine.root machine.store built reachable.houses
  have cycles := cycles_of_records recorded
  rw [← store_eq] at recorded
  obtain rfl : events = recent := recorded.since_eq
  let reached := places.take commands.length
  have left : ∀ place ∈ reached, ∀ command, moved.store.waiting place = some command →
      .mail place (.posted command true) ∈ events := by
    intro place mem command waits
    obtain ⟨depth, lt, here⟩ := mem_take_iff.1 mem
    obtain ⟨call, called, phase, there⟩ := hands.fired depth lt
    obtain rfl := Option.some.inj (here.symm.trans there)
    exact cycles.posted_of_waiting built recorded called phase waits
  refine ⟨commands, hands, fun call mem => cycles.blind_exit (mem_calls.1 mem), ?_, left, ?_⟩
  · intro earlier place old later cut
    refine ⟨fun call mem => ?_, fun apart call mem phase same => ?_⟩
    · have marked : marksIn events = marksIn earlier ++ .selected place :: marksIn later := by
        rw [cut, marksIn_append]
        rfl
      exact cycles.exits_after marked (mem_calls.1 mem)
    · obtain ⟨depth, here, -⟩ := hands.sees call mem phase
      exact apart (List.mem_of_getElem? (same ▸ here))
  · intro moves later call mem inside command sees
    have layout : moved.root.layout = machine.root.layout := layout_move machine (.operate 0 .cycle)
    have top : moved.root.address.above = [] := by
      rw [address_eq_of_layout_eq layout, reachable.top]
    let known (command : Command) : Prop :=
      ∃ place ∈ reached, .mail place (.posted command true) ∈ events ++ later
    have upward : ∀ place owner, place ∈ reached → place.owner? = some owner → owner ∈ reached :=
      fun place owner mem owned => built.owner_mem_take reachable.top mem owned
    have waited : ∀ place command, place ∈ reached →
        moved.store.waiting place = some command → known command :=
      fun place command mem waits =>
        ⟨place, mem, List.mem_append_left _ (left place mem command waits)⟩
    have posted : ∀ place command, place ∈ reached →
        .mail place (.posted command true) ∈ later → known command :=
      fun place command mem posted => ⟨place, mem, List.mem_append_right _ posted⟩
    exact seen_in_run (built.of_layout layout) top moves upward waited posted mem inside sees

/-- A command for the state that asks for work. -/
def Sample.hint : Command := ⟨⟨"Order", .text "wait"⟩, none⟩

/-- The small machine with a hint for the state that asks for work and an order for the root. -/
def Sample.ordered : Machine Script.stage :=
  (Sample.machine.run [.post (Sample.top.inner "Idle") Sample.hint, .post Sample.top Sample.order]).2

/-- The order goes down the chain over the hint, and the exit on the way up does not see it. -/
theorem commands_go_down_sample :
    let machine := Sample.ordered
    let moved := (machine.move (.operate 0 .cycle)).2
    let events := Store.since machine.store moved.store
    let places := machine.root.chain.map address
    let idle := Sample.top.inner "Idle"
    machine.Reachable ∧ machine.store.waiting idle = some Sample.hint ∧
    (callsIn events).map (fun call => (call.phase, call.state, call.view.command)) =
      [(.entry, Sample.top, some Sample.order), (.step, Sample.top, some Sample.order),
        (.entry, idle, some Sample.order), (.step, idle, some Sample.order), (.exit, idle, none)] ∧
    ∃ commands, HandsDown machine.store places events commands ∧
      (∀ call ∈ callsIn events, call.phase = .exit → call.view.command = none) ∧
      (∀ earlier place old later, events = earlier ++ .mail place (.selected old) :: later →
        (∀ call ∈ callsIn later, call.phase = .exit) ∧
        (place ∉ places → ∀ call ∈ callsIn events, call.phase ≠ .exit → call.state ≠ place)) ∧
      let reached := places.take commands.length
      (∀ place ∈ reached, ∀ command, moved.store.waiting place = some command →
        .mail place (.posted command true) ∈ events) ∧
      ∀ moves, let later := Store.since moved.store (moved.run moves).2.store
        ∀ call ∈ callsIn later, call.state ∈ reached →
          ∀ command, call.view.command = some command →
            ∃ place ∈ reached, .mail place (.posted command true) ∈ events ++ later := by
  have reachable : Sample.ordered.Reachable := ⟨Sample.machine, _, Sample.machine_started, rfl⟩
  exact ⟨reachable, by decide +kernel, by decide +kernel, commands_go_down reachable⟩

end Machine

end Statechart
