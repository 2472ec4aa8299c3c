import Statechart.Proofs.Activity
import Statechart.Proofs.Transitions

/-!
# Steering by paths

A path that leads nowhere is refused before anything happens, and one that leads somewhere is always
followed to its end.  Where it turns off the active chain, what was selected there is left first, so
all that it brings onto the chain is at rest; below its end the chain is as it was, or initial.
-/
namespace Statechart

variable {H : Host}

namespace State

variable {core : Core H} {routes : Routes} {before after before' after' : List (State H)}
  {active active' chosen chosen' s s' t : State H} {name : String} {names segments : List String}
  {marks : List Mark} {text : String} {fault : Fault} {level : Nat}

/-! ## Looking a path up -/

/-- Why setting the path of a state by a text is refused. -/
inductive Refuses (s : State H) (text : String) : Fault → Prop
  | empty (nothing : text = "") : Refuses s text (.invalidPath text .empty)
  /-- A segment is empty, the first such one at this position. -/
  | emptySegment {position : Nat} (gap : (pieces text.toList)[position]? = some [])
    (first : ∀ earlier < position, (pieces text.toList)[earlier]? ≠ some []) :
    Refuses s text (.invalidPath text (.emptySegment position))
  /-- The first segment does not name the state. -/
  | foreignRoot {path : StatePath} (parsed : StatePath.parse text = .ok path)
    (foreign : path.root ≠ s.name) :
    Refuses s text (.invalidPath text (.foreignRoot path.root s.name))
  /-- The path goes on below a state without inner states. -/
  | belowLeaf {path : StatePath} {front rest : List String} {name : String} {t : State H}
    (parsed : StatePath.parse text = .ok path) (root : path.root = s.name)
    (split : path.inner = front ++ name :: rest) (leads : s.descend? front = some t)
    (isLeaf : t.isLeaf = true) : Refuses s text (.invalidPath text (.noInnerState t.name name))
  /-- A segment names none of the inner states. -/
  | unknownName {path : StatePath} {front rest : List String} {name : String} {t : State H}
    (parsed : StatePath.parse text = .ok path) (root : path.root = s.name)
    (split : path.inner = front ++ name :: rest) (leads : s.descend? front = some t)
    (composite : t.isLeaf = false) (unknown : t.child? name = none) :
    Refuses s text (.stateNotFound t.name name)

/-- A text that is no path is empty or has an empty segment. -/
theorem refuses_of_parse {cause : PathFault} (parsed : StatePath.parse text = .error cause)
    (s : State H) : Refuses s text (.invalidPath text cause) := by
  rw [StatePath.parse] at parsed
  split at parsed
  · next nothing =>
    obtain rfl := Except.error.inj parsed
    exact .empty (String.isEmpty_iff.1 nothing)
  · split at parsed
    · next none => simp [pieces_ne_nil] at none
    · next root inner cut =>
      split at parsed
      · next position found =>
        obtain rfl := Except.error.inj parsed
        rw [← cut, StatePath.firstEmpty?, List.findIdx?_map,
          List.findIdx?_eq_some_iff_getElem] at found
        obtain ⟨lt, gap, first⟩ := found
        refine .emptySegment ?_ fun earlier before => ?_
        · rw [List.getElem?_eq_getElem lt]
          simpa using gap
        · rw [List.getElem?_eq_getElem (Nat.lt_trans before lt)]
          simpa using first earlier before
      · contradiction

/-- The segments of a path can be looked up just if they lead somewhere. -/
theorem resolve_eq_ok_iff (text : String) :
    s.resolve text names = .ok () ↔ (s.descend? names).isSome := by
  induction names generalizing s with
  | nil => simp [resolve, descend?]
  | cons name names ih =>
    cases s with
    | leaf core => simp [resolve, descend?, child?, children]
    | composite core routes before active after =>
      rcases found : (composite core routes before active after).child? name with _ | child
      · simp [resolve, descend?, found]
      · simp [resolve, descend?, found, ih]

/-- Looking segments up fails at the first one that does not name an inner state of the state that
the segments before it lead to. -/
theorem resolve_eq_error (h : s.resolve text names = .error fault) :
    ∃ front name rest t, names = front ++ name :: rest ∧ s.descend? front = some t ∧
      ((t.isLeaf = true ∧ fault = .invalidPath text (.noInnerState t.name name)) ∨
        (t.isLeaf = false ∧ t.child? name = none ∧ fault = .stateNotFound t.name name)) := by
  induction names generalizing s with
  | nil => simp [resolve] at h
  | cons name names ih =>
    cases s with
    | leaf core =>
      obtain rfl := Except.error.inj h
      exact ⟨[], name, names, .leaf core, rfl, rfl, .inl ⟨rfl, rfl⟩⟩
    | composite core routes before active after =>
      rw [resolve] at h
      rcases found : (composite core routes before active after).child? name with _ | child
      · rw [found] at h
        obtain rfl := Except.error.inj h
        exact ⟨[], name, names, _, rfl, rfl, .inr ⟨rfl, found, rfl⟩⟩
      · rw [found] at h
        obtain ⟨front, other, rest, t, rfl, leads, cause⟩ := ih h
        exact ⟨name :: front, other, rest, t, rfl, by simp [descend?, found, leads], cause⟩

/-- Setting the path is refused and changes nothing, or it leads somewhere and is followed. -/
theorem setPath_cases (text : String) (s : State H) (σ : Store H) :
    (∃ fault, Refuses s text fault ∧ (s.setPath text).run σ = ((.error fault, s), σ)) ∨
    ∃ path marks s' σ', StatePath.parse text = .ok path ∧ path.root = s.name ∧
      (s.descend? path.inner).isSome ∧ (s.setPath text).run σ = ((.ok (), s'), σ') ∧
      Points path.inner s marks s' ∧ Store.Fires σ σ' marks := by
  rcases parsed : StatePath.parse text with cause | path
  · refine .inl ⟨_, refuses_of_parse parsed s, ?_⟩
    simp only [setPath, parsed, StoreM.run_pure]
  · by_cases root : path.root = s.name
    · rcases resolved : s.resolve text path.inner with fault | ⟨⟩
      · refine .inl ⟨fault, ?_, ?_⟩
        · obtain ⟨front, name, rest, t, split, leads, ⟨isLeaf, rfl⟩ | ⟨composite, unknown, rfl⟩⟩ :=
            resolve_eq_error resolved
          · exact .belowLeaf parsed root split leads isLeaf
          · exact .unknownName parsed root split leads composite unknown
        · simp only [setPath, parsed, root, resolved, ne_eq, not_true_eq_false, if_false,
            StoreM.run_pure]
      · obtain ⟨marks, points, fired⟩ := points_run path.inner s σ
        exact .inr ⟨path, marks, _, _, rfl, root, (resolve_eq_ok_iff text).1 resolved,
          run_setPath parsed root resolved σ, points, fired.noted _⟩
    · refine .inl ⟨_, .foreignRoot parsed root, ?_⟩
      simp only [setPath, parsed, ne_eq, root, not_false_eq_true, if_true, StoreM.run_pure]

/-! ## Following a path -/

/-- Leaving a chain without callbacks calls nothing. -/
theorem Quiets.silent (h : Quiets s marks s') : ∀ mark ∈ marks, mark.call? = none := by
  induction h with
  | leaf core => simp [Mark.call?]
  | composite inner chosen_eq ih =>
    refine List.forall_mem_cons.2 ⟨rfl, List.forall_mem_append.2 ⟨ih, ?_⟩⟩
    simp [Mark.call?]

/-- Setting a path calls nothing. -/
theorem Points.silent (h : Points names s marks s') : ∀ mark ∈ marks, mark.call? = none := by
  induction h with
  | here s => simp
  | leaf name names core => simp
  | along inner ih => exact ih
  | turns other quiets chosen_eq inner ih =>
    exact List.forall_mem_append.2 ⟨quiets.silent, List.forall_mem_cons.2 ⟨rfl, ih⟩⟩

/-- From a dormant state a path leads to what is initial below its end. -/
theorem Points.initial_below (h : Points names s marks s') (built : s.WellBuilt)
    (dormant : s.Dormant) : ∀ t ∈ s'.chain.drop names.length, t.isAtInitial = true := by
  induction h with
  | here s => exact fun t mem => (dormant t (mem_subtree_iff.2 (.inl mem))).2
  | leaf name names core => simp [chain]
  | along inner ih => exact ih built.inner ((dormant_composite.1 dormant).2 _ (by simp))
  | @turns core routes before after before' after' active active' chosen chosen' name names left
      marks other quiets chosen_eq inner ih =>
    have all := dormant.idle.dormant_children
      (quiets.dormant built.inner (idle_composite.1 dormant.idle).2)
    obtain ⟨same, placed⟩ := children_chosen chosen_eq
      (built.of_layout (layout_active quiets.layout_eq))
    rw [← same] at all
    exact ih placed.inner (all chosen (by simp))

/-- The segments name what is selected down to a level, and there another state, to which the chain
turns. -/
structure TurnsAt (s s' : State H) (segments : List String) (level : Nat) : Prop where
  /-- Above the level the chain is as named. -/
  agree : segments.take level = (s.chain.map State.name).take level
  /-- At the level it is not. -/
  differ : level < segments.length ∧ segments[level]? ≠ (s.chain.map State.name)[level]?
  /-- The states above the level stay, and run if they ran. -/
  above : (s'.chain.take level).map (fun t => (t.address, t.isRunning)) =
    (s.chain.take level).map fun t => (t.address, t.isRunning)
  /-- No state of the new chain from the level on runs. -/
  still : ∀ t ∈ s'.chain.drop level, t.isRunning = false
  /-- From the last segment on everything is initial. -/
  initial : ∀ t ∈ s'.chain.drop (segments.length - 1), t.isAtInitial = true

/-- The turn is one level further down. -/
theorem TurnsAt.outer (h : TurnsAt active active' segments level) :
    TurnsAt (composite core routes before active after) (.composite core routes before active' after)
      (core.name :: segments) (level + 1) where
  agree := by
    rw [chain, List.map_cons, List.take_succ_cons, List.take_succ_cons, h.agree]
    rfl
  differ := ⟨Nat.succ_lt_succ h.differ.1, by simpa [chain] using h.differ.2⟩
  above := by
    rw [chain, chain, List.take_succ_cons, List.take_succ_cons, List.map_cons, List.map_cons,
      h.above]
    rfl
  still := h.still
  initial := by
    have some_left : segments.length - 1 + 1 = segments.length := by
      have := h.differ.1
      omega
    intro t mem
    rw [List.length_cons, Nat.add_sub_cancel, ← some_left] at mem
    exact h.initial t mem

/-- A path that leads somewhere is followed to its end.  Either that is what was selected before, and
nothing changes, or the chain turns at one of its segments. -/
theorem Points.steers (h : Points names s marks s') (built : s.WellBuilt) (idle : s.Idle)
    (leads : (s.descend? names).isSome) :
    (s.name :: names) <+: s'.chain.map State.name ∧
      (((s.name :: names) <+: s.chain.map State.name ∧ s' = s) ∨
        ∃ level, TurnsAt s s' (s.name :: names) level) := by
  induction h with
  | here s =>
    have starts : [s.name] <+: s.chain.map State.name := by
      obtain ⟨deeper, chain_eq⟩ := chain_eq_cons s
      exact ⟨deeper.map State.name, by simp [chain_eq]⟩
    exact ⟨starts, .inl ⟨starts, rfl⟩⟩
  | leaf name names core => simp [descend?, child?, children] at leads
  | @along core routes before after active active' names marks inner ih =>
    have below : (active.descend? names).isSome := by
      rwa [descend?, built.child?_eq (by simp [children])] at leads
    obtain ⟨named, cases⟩ := ih built.inner (idle_composite.1 idle).2 below
    refine ⟨(List.prefix_cons_inj _).2 named, ?_⟩
    rcases cases with ⟨same, rfl⟩ | ⟨level, turns⟩
    · exact .inl ⟨(List.prefix_cons_inj _).2 same, rfl⟩
    · exact .inr ⟨level + 1, turns.outer⟩
  | @turns core routes before after before' after' active active' chosen chosen' name names left
      marks other quiets chosen_eq inner ih =>
    have dormant := idle.dormant_children (quiets.dormant built.inner (idle_composite.1 idle).2)
    have left := built.of_layout (layout_active quiets.layout_eq)
    obtain ⟨same, placed⟩ := children_chosen chosen_eq left
    obtain ⟨child, found, below⟩ : ∃ child,
        (State.composite core routes before active after).child? name = some child ∧
          (child.descend? names).isSome := by
      rw [descend?] at leads
      rcases found : (State.composite core routes before active after).child? name with _ | child
      · simp [found] at leads
      · exact ⟨child, rfl, by simpa [found] using leads⟩
    have child_mem : child ∈ before ++ active :: after := List.mem_of_find?_eq_some found
    have child_name : child.name = name := by simpa using List.find?_some found
    -- it is another one than the active one, so it has not been touched when that one was left
    have there : child ∈ before ++ active' :: after := by
      rw [List.mem_append, List.mem_cons] at child_mem ⊢
      exact child_mem.imp_right fun mem => .inr (mem.resolve_left fun eq => other (eq ▸ child_name))
    have chosen_name : chosen.name = name :=
      congrArg Address.name (address_chosen chosen_eq left (child_name ▸ List.mem_map_of_mem there))
    have chosen_mem : chosen ∈ before ++ active' :: after := same ▸ by simp
    obtain rfl := left.eq_of_name_eq chosen_mem there (chosen_name.trans child_name.symm)
    have awake := dormant chosen there
    obtain ⟨named, -⟩ := ih placed.inner awake.idle below
    rw [chosen_name] at named
    refine ⟨(List.prefix_cons_inj _).2 named, .inr ⟨1, rfl, ⟨by simp, ?_⟩, rfl, ?_, ?_⟩⟩
    · obtain ⟨deeper, chain_eq⟩ := chain_eq_cons active
      simpa [chain, chain_eq] using Ne.symm other
    · exact (inner.still placed.inner awake.idle awake.still).chain
    · exact inner.initial_below placed.inner awake

end State

namespace Machine

open State

variable [Conduct H] {machine : Machine H}

theorem move_setPath {text : String} {result : Except Fault Unit} {root : State H} {σ : Store H}
    (run : (machine.root.setPath text).run machine.store = ((result, root), σ)) :
    machine.move (.operate 0 (.setPath text)) = (.outcome (.ofExcept result), ⟨root, σ⟩) := by
  simp only [move, onActive, perform, StoreM.run_bind, run, StoreM.run_pure]
  rfl

/-- Setting the path of the root is done just if the text is a path that starts at the root and leads
from inner state to inner state.  Otherwise it is refused, and the machine is as before, with its
store.  If it is done, nothing has been called and the chain is as named.  Then either it has been so
before, and no state has changed, or the chain has turned at one of the segments: all above that
level is as before, all from there on is at rest, and below the last segment all is initial. -/
theorem setPath_done_or_refused (reachable : machine.Reachable) (text : String) :
    let moved := machine.move (.operate 0 (.setPath text))
    (moved.1 = .outcome .done ↔ ∃ path, StatePath.parse text = .ok path ∧
      path.root = machine.root.name ∧ (machine.root.descend? path.inner).isSome) ∧
    (moved.1 ≠ .outcome .done → moved.2 = machine ∧
      ∃ fault, moved.1 = .outcome (.failed fault) ∧ Refuses machine.root text fault) ∧
    ∀ path, StatePath.parse text = .ok path → moved.1 = .outcome .done →
      callsIn (Store.since machine.store moved.2.store) = [] ∧
      path.segments <+: moved.2.root.chain.map State.name ∧
      ((path.segments <+: machine.root.chain.map State.name ∧ moved.2.root = machine.root) ∨
        ∃ level, TurnsAt machine.root moved.2.root path.segments level) := by
  obtain ⟨built, idle⟩ := reachable.spec
  rcases setPath_cases text machine.root machine.store with
    ⟨fault, refuses, run⟩ | ⟨path, marks, root, σ, parsed, rooted, leads, run, points, fired⟩
  · have failed : Outcome.ofExcept (.error fault) ≠ .done := by simp [Outcome.ofExcept]
    simp only [move_setPath run, Answer.outcome.injEq]
    refine ⟨⟨fun done => absurd done failed, ?_⟩, fun _ => ⟨trivial, fault, rfl, refuses⟩,
      fun _ _ done => absurd done failed⟩
    rintro ⟨path, parsed, rooted, leads⟩
    -- what leads somewhere has not been refused
    rw [run_setPath parsed rooted ((resolve_eq_ok_iff text).2 leads)] at run
    nomatch (Prod.mk.inj (Prod.mk.inj run).1).1
  · simp only [move_setPath run, fired.marksIn_since, callsIn]
    refine ⟨⟨fun _ => ⟨path, parsed, rooted, leads⟩, fun _ => rfl⟩,
      fun undone => absurd rfl undone, ?_⟩
    rintro other parsed' -
    obtain rfl := Except.ok.inj (parsed.symm.trans parsed')
    refine ⟨List.filterMap_eq_nil_iff.2 points.silent, ?_⟩
    rw [StatePath.segments, rooted]
    exact points.steers built idle leads

/-- A machine at work is called back to the state where it was idle, which has been left before. -/
theorem setPath_done_or_refused_sample :
    let machine := (Sample.machine.run [.operate 0 .cycle, .operate 0 .cycle]).2
    let moved := machine.move (.operate 0 (.setPath "R->Idle"))
    let lost := machine.move (.operate 0 (.setPath "R->Work->Nowhere"))
    machine.Reachable ∧ machine.root.path = "R->Work->Part" ∧ moved.1 = .outcome .done ∧
    (callsIn (Store.since machine.store moved.2.store) = [] ∧
      ["R", "Idle"] <+: moved.2.root.chain.map State.name ∧
      ((["R", "Idle"] <+: machine.root.chain.map State.name ∧ moved.2.root = machine.root) ∨
        ∃ level, TurnsAt machine.root moved.2.root ["R", "Idle"] level)) ∧
    lost.1 = .outcome (.failed (.stateNotFound "Work" "Nowhere")) ∧ lost.2 = machine := by
  have reachable : (Sample.machine.run [.operate 0 .cycle, .operate 0 .cycle]).2.Reachable :=
    ⟨_, _, Sample.machine_started, rfl⟩
  have done : ((Sample.machine.run [.operate 0 .cycle, .operate 0 .cycle]).2.move
      (.operate 0 (.setPath "R->Idle"))).1 = .outcome .done := by decide +kernel
  have refused : ((Sample.machine.run [.operate 0 .cycle, .operate 0 .cycle]).2.move
      (.operate 0 (.setPath "R->Work->Nowhere"))).1 =
      .outcome (.failed (.stateNotFound "Work" "Nowhere")) := by decide +kernel
  refine ⟨reachable, by decide +kernel, done, ?_, refused, ?_⟩
  · exact (setPath_done_or_refused reachable "R->Idle").2.2 ⟨"R", ["Idle"]⟩ (by decide +kernel) done
  · exact ((setPath_done_or_refused reachable "R->Work->Nowhere").2.1 (by simp [refused])).1

end Machine

end Statechart
