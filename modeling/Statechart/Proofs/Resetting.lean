import Statechart.Proofs.Bystanders
import Statechart.Proofs.Departures

/-!
# What a reset of the root leaves behind

A reset walks down the active chain only, and yet all of the tree is dormant afterwards: what is off
the chain was so before.  The chain of a dormant tree shows in its layout, which no run changes, so
it is the chain that the tree was built with.  Main statement: a reset of the root leaves every
running state once, from the root down, and all is initial then; or it fails, and everything is
selected as it was.
-/
namespace Statechart

variable {H : Host}

namespace State

variable {r r' s s' : State H} {marks : List Mark}

/-- Two dormant trees of one layout go on by the same names from states of one site. -/
theorem chain_names_eq (built : r.WellBuilt) (dormant : r.Dormant) (dormant' : r'.Dormant)
    (layout : r'.layout = r.layout) (mem : s ∈ r.subtree) (mem' : s' ∈ r'.subtree)
    (site : s'.site = s.site) : s'.chain.map name = s.chain.map name := by
  have built' := built.of_layout layout
  have named {t t' : State H} (same : t'.site = t.site) : t'.name = t.name :=
    congrArg (fun site : Site => site.address.name) same
  induction s using chainInduction generalizing s' with
  | leaf core =>
    cases s' with
    | leaf core' => simpa [chain] using named site
    | composite => simp [State.site, children] at site
  | composite core routes before active after ih =>
    cases s' with
    | leaf => simp [State.site, children] at site
    | composite core' routes' before' active' after' =>
      obtain rfl : routes' = routes := by
        simpa [State.site, routes?] using congrArg Site.routes site
      have initial : active.name = routes'.initial := by simpa [isAtInitial] using (dormant _ mem).2
      have initial' : active'.name = routes'.initial := by
        simpa [isAtInitial] using (dormant' _ mem').2
      have inside : active ∈ r.subtree :=
        mem_subtree_trans mem (child_mem_subtree active_mem_children)
      have inside' : active' ∈ r'.subtree :=
        mem_subtree_trans mem' (child_mem_subtree active_mem_children)
      have owned := (built.of_mem mem).address_active
      have owned' := (built'.of_mem mem').address_active
      have place : core'.address = core.address := congrArg Site.address site
      -- the inner state that the layout gives this place is the one that is selected there
      have placed : active.site ∈ r'.layout := layout ▸ List.mem_map_of_mem inside
      obtain ⟨t, there, same⟩ := List.mem_map.1 placed
      have addressed : t.address = active.address := congrArg Site.address same
      rw [owned, ← place, initial, ← initial', ← owned'] at addressed
      obtain rfl := built'.eq_of_address_eq there inside' addressed
      rw [chain, chain, List.map_cons, List.map_cons, ih inside inside' same, named site]

/-- Dormant trees of one layout have the same path. -/
theorem Dormant.path_eq (dormant : s.Dormant) (dormant' : s'.Dormant) (built : s.WellBuilt)
    (layout : s'.layout = s.layout) : s'.path = s.path := by
  have site : s'.site = s.site := by
    rw [layout_eq, layout_eq] at layout
    exact (List.cons.inj layout).1
  rw [path, path, chain_names_eq built dormant dormant' layout (self_mem_subtree s)
    (self_mem_subtree s') site]

/-- A reset that completes fires the exits of the states that run, from the top down and without a
command. -/
theorem Resets.exits_eq (h : Resets s marks (.ok ()) s') :
    (marks.filterMap Mark.call?).map (fun call => (call.phase, call.state, call.view.command)) =
      (s.chain.filter isRunning).map fun t => (.exit, t.address, none) := by
  have blind : ∀ call ∈ marks.filterMap Mark.call?,
      (call.phase, call.state, call.view.command) = (call.calling.1, call.calling.2, none) := by
    intro call mem
    have blind := (Mark.isOutward_called.1 (h.outward _ (mem_calls.1 mem))).2
    rw [Call.calling, blind]
  have called := congrArg (List.map fun calling => (calling.1, calling.2, (none : Option Command)))
    h.callings_eq
  rw [callings, List.map_map, List.map_map] at called
  rw [List.map_congr_left blind]
  exact called

end State

namespace Machine

open State

variable [Conduct H] {first : Machine H}

/-- A reset of the root goes by the rules, and its result is the answer. -/
theorem move_reset (machine : Machine H) :
    ∃ marks result, Resets machine.root marks result (machine.move (.operate 0 .reset)).2.root ∧
      Store.Fires machine.store (machine.move (.operate 0 .reset)).2.store marks ∧
      (machine.move (.operate 0 .reset)).1 = .outcome (.ofExcept result) := by
  obtain ⟨marks, resets, fired⟩ := resets_run machine.root machine.store
  exact ⟨marks, _, resets, fired, rfl⟩

/-- Of a machine that can be reached, a reset of the root is done or fails.  If it is done, no state
of the tree runs and each has its initial state selected, so the path is that of the machine as it
was built; called were the exits of the states that ran, all of which are on the chain, each once,
from the root down and without a command; and another reset is done, calls nothing and changes
nothing.  If it fails, all that is selected and all that runs is as before. -/
theorem reset_done_or_failed (started : first.Started) (moves : List (Move H)) :
    let machine := (first.run moves).2
    let moved := machine.move (.operate 0 .reset)
    let called := callsIn (Store.since machine.store moved.2.store)
    let again := moved.2.move (.operate 0 .reset)
    (moved.1 = .outcome .done ∧
      (∀ s ∈ moved.2.root.subtree, s.isRunning = false ∧ s.isAtInitial = true) ∧
      moved.2.root.path = first.root.path ∧
      called.map (fun call => (call.phase, call.state, call.view.command)) =
        (machine.root.chain.filter isRunning).map (fun s => (.exit, s.address, none)) ∧
      machine.root.subtree.filter isRunning = machine.root.chain.filter isRunning ∧
      (called.map (·.state)).Nodup ∧
      again.1 = .outcome .done ∧ callsIn (Store.since moved.2.store again.2.store) = [] ∧
        again.2.root = moved.2.root) ∨
    ∃ fault, moved.1 = .outcome (.failed fault) ∧ moved.2.root.outline = machine.root.outline := by
  intro machine moved called again
  obtain ⟨built, idle⟩ := (started.reachable moves).spec
  obtain ⟨marks, result, resets, fired, answer⟩ := machine.move_reset
  have callbacks : called = marks.filterMap Mark.call? := by
    rw [← fired.marksIn_since]
    rfl
  rcases result with fault | ⟨⟩
  · exact .inr ⟨fault, answer, resets.outline_eq⟩
  · have dormant := resets.dormant built idle
    have built' := built.of_layout resets.layout_eq
    have exits := resets.exits_eq
    rw [← callbacks] at exits
    obtain ⟨marks', result', resets', fired', answer'⟩ := moved.2.move_reset
    obtain ⟨rfl, same⟩ := resets'.of_dormant built' dormant
    refine .inl ⟨answer, dormant, ?_, exits, idle.filter_subtree, ?_, answer', ?_, same⟩
    · exact started.spec.2.path_eq dormant started.spec.1
        (resets.layout_eq.trans (layout_run first moves))
    · have states := congrArg (List.map fun entry => entry.2.1) exits
      rw [List.map_map, List.map_map] at states
      have some_of : ((machine.root.chain.filter isRunning).map address).Sublist
          (machine.root.chain.map address) := List.filter_sublist.map address
      exact states ▸ built.nodup_chain.sublist some_of
    · have quiet := resets'.exits_eq
      have none_runs : moved.2.root.chain.filter isRunning = [] := by
        rw [← dormant.idle.filter_subtree, List.filter_eq_nil_iff]
        exact fun s mem => by simp [(dormant s mem).1]
      rw [none_runs, List.map_nil, List.map_eq_nil_iff] at quiet
      rw [callsIn, fired'.marksIn_since, quiet]

/-- After one cycle of the small machine a reset leaves the root, which is all that runs.  After
another one the state that cannot be left runs as well, and a reset fails. -/
theorem reset_done_or_failed_sample :
    let machine := (Sample.machine.run [.operate 0 .cycle]).2
    let moved := machine.move (.operate 0 .reset)
    let called := callsIn (Store.since machine.store moved.2.store)
    let later := (Sample.machine.run [.operate 0 .cycle, .operate 0 .cycle]).2
    Sample.machine.Started ∧ machine.root.path ≠ Sample.machine.root.path ∧
    moved.2.root.path = Sample.machine.root.path ∧
    called.map (fun call => (call.phase, call.state, call.view.command)) =
      [(.exit, Sample.top, none)] ∧
    (later.root.chain.filter isRunning).map address = [Sample.top, Sample.work, Sample.part] ∧
    ∃ fault, (later.move (.operate 0 .reset)).1 = .outcome (.failed fault) ∧
      (later.move (.operate 0 .reset)).2.root.outline = later.root.outline := by
  have done := (reset_done_or_failed Sample.machine_started [.operate 0 .cycle]).resolve_right
    fun ⟨_, failed, _⟩ => nomatch failed
  have undone := (reset_done_or_failed Sample.machine_started
    [.operate 0 .cycle, .operate 0 .cycle]).resolve_left fun ⟨done, _⟩ => nomatch done
  exact ⟨Sample.machine_started, by decide +kernel, done.2.2.1, done.2.2.2.1, by decide +kernel,
    undone⟩

end Machine

end Statechart
