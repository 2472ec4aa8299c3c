import Statechart.Proofs.Activity
import Statechart.Proofs.Places
import Statechart.Proofs.Ways

/-!
# Spans of activity

Entries, steps, exits and quiet departures of one state follow each other in spans: a completed
entry opens a span, an exit or a departure without callbacks closes it, and steps are within.  Main
statement: as long as no exit fails, the marks of every state keep to this order over whole runs,
whatever entries and steps do, and a state runs just while its span is open.
-/
namespace Statechart

variable {H : Host}

namespace Mark

/-- The state that the mark is about. -/
def place : Mark → Address
  | .called call => call.state
  | .taken state _ | .handed state _ | .selected state | .quieted state => state

/-- Whether a state's span is open after a mark about it.  A mark out of order has no answer: an
entry within a span, a step or an exit outside.  Leaving a state without callbacks closes its span,
if one is open. -/
def span (isOpen : Bool) : Mark → Option Bool
  | .called call =>
    match call.phase with
    | .entry => if isOpen then none else some call.completed
    | .step => if isOpen then some true else none
    | .exit => if isOpen then some false else none
  | .quieted _ => some false
  | .taken .. | .handed .. | .selected _ => some isOpen

/-- Which spans are open after a mark. -/
def spans (flags : Address → Bool) (mark : Mark) : Option (Address → Bool) :=
  (mark.span (flags mark.place)).map (Function.update flags mark.place)

/-- The mark tells of a completed entry. -/
def isEntry : Mark → Bool
  | .called call => call.phase = .entry && call.completed
  | _ => false

/-- The mark tells of an exit. -/
def isExit : Mark → Bool
  | .called call => call.phase = .exit
  | _ => false

/-- The mark tells of a departure without callbacks. -/
def isQuieted : Mark → Bool
  | .quieted _ => true
  | _ => false

/-- The mark does not tell of an exit that failed. -/
def exitsWell : Mark → Bool
  | .called call => call.phase ≠ .exit || call.completed
  | _ => true

/-- The marks about one state are in order by themselves. -/
theorem span_of_spans {flags flags' : Address → Bool} {marks : List Mark} (place : Address)
    (h : marks.foldlM spans flags = some flags') :
    (marks.filter (·.place = place)).foldlM span (flags place) = some (flags' place) := by
  induction marks generalizing flags with
  | nil =>
    obtain rfl : flags = flags' := by simpa using h
    rfl
  | cons mark marks ih =>
    rw [List.foldlM_cons] at h
    obtain ⟨between, first, rest⟩ := Option.bind_eq_some_iff.1 h
    obtain ⟨now, spanned, rfl⟩ := Option.map_eq_some_iff.1 first
    have later := ih rest
    by_cases here : mark.place = place
    · subst here
      rw [Function.update_self] at later
      rw [List.filter_cons_of_pos (by simp), List.foldlM_cons, spanned]
      exact later
    · rw [Function.update_of_ne (Ne.symm here)] at later
      rwa [List.filter_cons_of_neg (by simpa using here)]

/-- Without quiet departures, a state has been entered as often as left, and once more if its span is
open. -/
theorem countP_of_span {isOpen isOpen' : Bool} {marks : List Mark}
    (loud : ∀ mark ∈ marks, mark.isQuieted = false) (h : marks.foldlM span isOpen = some isOpen') :
    marks.countP isEntry + isOpen.toNat = marks.countP isExit + isOpen'.toNat := by
  induction marks generalizing isOpen with
  | nil =>
    obtain rfl : isOpen = isOpen' := by simpa using h
    rfl
  | cons mark marks ih =>
    rw [List.foldlM_cons] at h
    obtain ⟨between, first, rest⟩ := Option.bind_eq_some_iff.1 h
    have later := ih (fun other mem => loud other (List.mem_cons_of_mem _ mem)) rest
    have here := loud mark List.mem_cons_self
    rw [List.countP_cons, List.countP_cons]
    cases mark with
    | called call =>
      rcases phase : call.phase <;> rcases isOpen <;>
        simp only [span, phase, isEntry, isExit, reduceCtorEq, if_true, if_false,
          Bool.false_eq_true, Option.some.injEq] at first ⊢
      · subst first
        rcases completed : call.completed <;> simp [completed] at later ⊢ <;> omega
      · subst first
        simp at later ⊢
        omega
      · subst first
        simp at later ⊢
        omega
    | quieted state => simp [isQuieted] at here
    | taken state command =>
      obtain rfl : isOpen = between := by simpa [span] using first
      simpa [isEntry, isExit] using later
    | handed state command =>
      obtain rfl : isOpen = between := by simpa [span] using first
      simpa [isEntry, isExit] using later
    | selected state =>
      obtain rfl : isOpen = between := by simpa [span] using first
      simpa [isEntry, isExit] using later

end Mark

namespace Core

variable {core core' : Core H} {marks : List Mark} {flags : Address → Bool}

/-- The callbacks of a cycle are in order, and tell whether the state runs then. -/
theorem Advances.spans {command : Option Command} {result : Except Fault (Option Tag)}
    (h : core.Advances command marks result core') (shown : flags core.address = core.running) :
    marks.foldlM Mark.spans flags = some (Function.update flags core.address core'.running) := by
  cases h with
  | refused idle behavior fault =>
    simp [Mark.spans, Mark.span, Mark.place, record, Call.completed, shown, idle, withBehavior]
  | entered idle behavior result =>
    rcases result with fault | requested <;>
      simp [Mark.spans, Mark.span, Mark.place, record, Call.completed, shown, idle, started]
  | resumed running behavior result =>
    rcases result with fault | requested <;>
      simp [Mark.spans, Mark.span, Mark.place, record, shown, running, withBehavior]

/-- Leaving a state that fails tells of an exit that failed. -/
theorem Leaves.ok_of_exitsWell {result : Except Fault Unit} (h : core.Leaves marks result core')
    (well : ∀ mark ∈ marks, mark.exitsWell = true) : result = .ok () := by
  cases h with
  | idle => rfl
  | left running behavior result =>
    rcases result with fault | ⟨⟩
    · simp [Mark.exitsWell, record, Call.completed] at well
    · rfl

/-- Leaving a state closes its span. -/
theorem Leaves.spans (h : core.Leaves marks (.ok ()) core')
    (shown : flags core.address = core.running) :
    marks.foldlM Mark.spans flags = some (Function.update flags core.address false) := by
  cases h with
  | idle idle =>
    rw [idle] at shown
    rw [← shown, Function.update_eq_self]
    rfl
  | left running =>
    simp [Mark.spans, Mark.span, Mark.place, record, shown, running]

end Core

namespace State

variable {core core' : Core H} {routes : Routes} {before after : List (State H)}
  {active active' s s' : State H} {marks : List Mark} {flags : Address → Bool}

/-- From one tree to the other the marks are in order: with the open spans that the first shows they
lead to those that the second shows, and no other place is touched. -/
def Spanned (s s' : State H) (marks : List Mark) : Prop :=
  ∀ flags, Shows isRunning flags s → ∃ flags', marks.foldlM Mark.spans flags = some flags' ∧
    AgreeOff s.address flags flags' ∧ Shows isRunning flags' s'

theorem Hands.spans {place : Address} {command : Option Command} (h : Hands place command marks) :
    marks.foldlM Mark.spans flags = some flags := by
  cases h with
  | nothing => rfl
  | handed command => simp [Mark.spans, Mark.span, Mark.place]

/-- A selection neither opens nor closes a span. -/
theorem selected_spans (place : Address) :
    [Mark.selected place].foldlM Mark.spans flags = some flags := by
  simp [Mark.spans, Mark.span, Mark.place]

/-- Flags that change beneath the active inner state, and show what becomes of that one, show the
whole state if they showed the rest of it. -/
theorem shows_around {flags' : Address → Bool}
    (built : (composite core routes before active after).WellBuilt) (kept : core.Kept core')
    (others : ∀ child ∈ before ++ active :: after, Shows isRunning flags child)
    (here : flags core.address = core'.running) (agree : AgreeOff active.address flags flags')
    (inside : Shows isRunning flags' active') :
    Shows isRunning flags' (composite core' routes before active' after) := by
  refine shows_composite.2 ⟨?_, shows_replace built others agree inside⟩
  rw [kept.address, AgreeOff.owner agree built, here]
  rfl

/-- What is in order beneath the active inner state is in order beneath the state, whose own span has
been accounted for. -/
theorem Spanned.inner (h : Spanned active active' marks)
    (built : (composite core routes before active after).WellBuilt) (kept : core.Kept core')
    (others : ∀ child ∈ before ++ active :: after, Shows isRunning flags child)
    (here : flags core.address = core'.running) :
    ∃ flags', marks.foldlM Mark.spans flags = some flags' ∧ AgreeOff core.address flags flags' ∧
      Shows isRunning flags' (composite core' routes before active' after) := by
  obtain ⟨flags', fold, agree, inside⟩ := h flags (others active (by simp))
  exact ⟨flags', fold, AgreeOff.outer agree built,
    shows_around built kept others here agree inside⟩

/-- A selection does not change which spans are shown. -/
theorem shows_chosen {before' after' : List (State H)} {chosen : State H} {target : String}
    (chosen_eq : (composite core routes before active after).select target =
      .composite core routes before' chosen after')
    (h : Shows isRunning flags (composite core routes before active after)) :
    Shows isRunning flags (composite core routes before' chosen after') := by
  have same := children_select target (composite core routes before active after)
  rw [chosen_eq] at same
  obtain ⟨here, others⟩ := shows_composite.1 h
  refine shows_composite.2 ⟨here, fun child mem => others child ?_⟩
  have mem' : child ∈ (composite core routes before' chosen after').children := mem
  rwa [same] at mem'

/-- A reset in which no exit fails does not fail, and its marks are in order. -/
theorem Resets.spanned {result : Except Fault Unit} (h : Resets s marks result s')
    (built : s.WellBuilt) (well : ∀ mark ∈ marks, mark.exitsWell = true) :
    result = .ok () ∧ Spanned s s' marks := by
  induction h with
  | exitFails left => exact absurd (left.ok_of_exitsWell well) (by simp)
  | leaf left =>
    refine ⟨rfl, fun flags shown => ?_⟩
    have here := left.spans (shows_leaf.1 shown)
    refine ⟨_, here, agreeOff_update _ _ _, shows_leaf.2 ?_⟩
    simp [Core.stopped, left.kept.address, isRunning]
  | innerFails left inner ih =>
    have inside := ih built.inner fun mark mem => well mark (List.mem_append_right _ mem)
    exact absurd inside.1 (by simp)
  | @composite core core' routes before after before' after' active active' chosen exit marks left
      inner chosen_eq ih =>
    refine ⟨rfl, fun flags shown => ?_⟩
    obtain ⟨-, below⟩ := ih built.inner fun mark mem =>
      well mark (List.mem_append_right _ (List.mem_append_left _ mem))
    have here := left.spans (shows_composite.1 shown).1
    obtain ⟨flags', fold, agree, shown'⟩ := below.inner built left.kept.stopped
      (shows_inner built shown false) (Function.update_self _ _ _)
    exact ⟨flags', foldlM_trans here (foldlM_trans fold (selected_spans _)),
      (agreeOff_update _ _ _).trans agree, shows_chosen chosen_eq shown'⟩

/-- Settling an outcome keeps the marks in order as long as no exit fails. -/
theorem Settles.spanned {outcome : Except Fault (Option Tag)} {settled : Except Fault Unit}
    (h : Settles core routes before active after outcome marks settled s')
    (built : (composite core routes before active after).WellBuilt)
    (well : ∀ mark ∈ marks, mark.exitsWell = true) :
    Spanned (composite core routes before active after) s' marks := by
  intro flags shown
  cases h with
  | failed => exact ⟨flags, rfl, .refl _ _, shown⟩
  | stays => exact ⟨flags, rfl, .refl _ _, shown⟩
  | unknown => exact ⟨flags, rfl, .refl _ _, shown⟩
  | innerFails leads inner => exact absurd (inner.spanned built.inner well).1 (by simp)
  | follows leads inner chosen_eq =>
    obtain ⟨-, below⟩ := inner.spanned built.inner fun mark mem =>
      well mark (List.mem_append_left _ mem)
    obtain ⟨here, others⟩ := shows_composite.1 shown
    obtain ⟨flags', fold, agree, shown'⟩ := below.inner built ⟨rfl, rfl⟩ others here
    exact ⟨flags', foldlM_trans fold (selected_spans _), agree, shows_chosen chosen_eq shown'⟩

/-- The callbacks that a state's own cycle fires are in order. -/
theorem advances_spanned {command : Option Command} {calls : List Mark}
    {result : Except Fault (Option Tag)} (h : s.core.Advances command calls result core')
    (built : s.WellBuilt) : Spanned s (s.withCore core') (.taken s.address command :: calls) := by
  intro flags shown
  have here := h.spans (shown s (self_mem_subtree s))
  have taken : (Mark.taken s.address command).spans flags = some flags := by
    simp [Mark.spans, Mark.span, Mark.place]
  refine ⟨Function.update flags s.address core'.running, ?_, agreeOff_update _ _ _, ?_⟩
  · rw [List.foldlM_cons, taken]
    exact here
  · cases s with
    | leaf core =>
      refine shows_leaf.2 ?_
      rw [h.kept.address]
      exact Function.update_self _ _ _
    | composite core routes before active after =>
      refine shows_composite.2 ⟨?_, shows_inner built shown _⟩
      rw [h.kept.address]
      exact Function.update_self _ _ _

/-- The marks of a cycle are in order as long as no exit fails. -/
theorem Cycles.spanned {outcome : Except Fault (Option Tag)} (h : Cycles s marks outcome s')
    (built : s.WellBuilt) (well : ∀ mark ∈ marks, mark.exitsWell = true) : Spanned s s' marks := by
  induction h with
  | fails advanced => exact advances_spanned advanced built
  | @leaf core _ _ _ _ advanced => exact advances_spanned (s := .leaf core) advanced built
  | @composite core core' routes before after active active' s' command calls down marks marks'
      requested outcome settled advanced hands inner settles ih =>
    intro flags shown
    obtain ⟨flags₁, fold₁, agree₁, shown₁⟩ :=
      advances_spanned (s := .composite core routes before active after) advanced built flags shown
    obtain ⟨here, others⟩ := shows_composite.1 shown₁
    have started := built.of_layout (layout_composite advanced.kept rfl)
    have below := ih built.inner fun mark mem => well mark (by simp [mem])
    obtain ⟨flags₂, fold₂, agree₂, shown₂⟩ := below.inner started ⟨rfl, rfl⟩ others here
    obtain ⟨flags₃, fold₃, agree₃, shown₃⟩ :=
      settles.spanned (started.of_layout (layout_active inner.layout_eq))
        (fun mark mem => well mark (by simp [mem])) flags₂ shown₂
    have same : (State.composite core' routes before active' after).address = core.address :=
      advanced.kept.address
    rw [same] at agree₃
    rw [advanced.kept.address] at agree₂
    exact ⟨flags₃, foldlM_trans fold₁ (foldlM_trans hands.spans (foldlM_trans fold₂ fold₃)),
      agree₁.trans (agree₂.trans agree₃), shown₃⟩

/-- Leaving a chain without callbacks closes its spans. -/
theorem Quiets.spanned (h : Quiets s marks s') (built : s.WellBuilt) : Spanned s s' marks := by
  have quieted (flags : Address → Bool) (place : Address) :
      [Mark.quieted place].foldlM Mark.spans flags = some (Function.update flags place false) := rfl
  induction h with
  | leaf core =>
    intro flags shown
    exact ⟨_, quieted _ _, agreeOff_update _ _ _, shows_leaf.2 (Function.update_self _ _ _)⟩
  | composite inner chosen_eq ih =>
    intro flags shown
    obtain ⟨flags', fold, agree, shown'⟩ := (ih built.inner).inner built (Core.kept_stopped _)
      (shows_inner built shown false) (Function.update_self _ _ _)
    exact ⟨flags', foldlM_trans (foldlM_trans (quieted _ _) fold) (selected_spans _),
      (agreeOff_update _ _ _).trans agree, shows_chosen chosen_eq shown'⟩

/-- Setting a path closes the spans of what it leaves. -/
theorem Points.spanned {names : List String} (h : Points names s marks s') (built : s.WellBuilt) :
    Spanned s s' marks := by
  induction h with
  | here s => exact fun flags shown => ⟨flags, rfl, .refl _ _, shown⟩
  | leaf name names core => exact fun flags shown => ⟨flags, rfl, .refl _ _, shown⟩
  | along inner ih =>
    intro flags shown
    obtain ⟨here, others⟩ := shows_composite.1 shown
    exact (ih built.inner).inner built ⟨rfl, rfl⟩ others here
  | turns other quiets chosen_eq inner ih =>
    intro flags shown
    obtain ⟨here, others⟩ := shows_composite.1 shown
    obtain ⟨flags', fold, agree, left⟩ :=
      (quiets.spanned built.inner).inner built ⟨rfl, rfl⟩ others here
    obtain ⟨-, placed⟩ := children_chosen chosen_eq
      (built.of_layout (layout_active quiets.layout_eq))
    obtain ⟨here', others'⟩ := shows_composite.1 (shows_chosen chosen_eq left)
    obtain ⟨flags'', fold', agree', shown'⟩ :=
      (ih placed.inner).inner placed ⟨rfl, rfl⟩ others' here'
    exact ⟨flags'', foldlM_trans fold (foldlM_trans (selected_spans _) fold'),
      agree.trans agree', shown'⟩

/-- Which spans are shown depends on the outline only. -/
theorem shows_of_outline (h : Shows isRunning flags s) (eq : s'.outline = s.outline) :
    Shows isRunning flags s' := by
  intro t mem
  obtain ⟨u, there, same⟩ := exists_of_outline_eq eq mem
  rw [← address_outline, ← isRunning_outline, ← same, address_outline, isRunning_outline]
  exact h u there

/-! ## Where quiet departures come from -/

/-- No mark of either way of a cycle is a quiet departure. -/
theorem isQuieted_of_way {mark : Mark} (way : mark.isInward = true ∨ mark.isOutward = true) :
    mark.isQuieted = false := by
  cases mark <;> simp_all [Mark.isInward, Mark.isOutward, Mark.isQuieted]

theorem Resets.loud {result : Except Fault Unit} (h : Resets s marks result s') :
    ∀ mark ∈ marks, mark.isQuieted = false :=
  fun mark mem => isQuieted_of_way (.inr (h.outward mark mem))

theorem Cycles.loud {outcome : Except Fault (Option Tag)} (h : Cycles s marks outcome s') :
    ∀ mark ∈ marks, mark.isQuieted = false := by
  obtain ⟨down, up, rfl, inward, outward⟩ := h.split
  exact List.forall_mem_append.2 ⟨fun mark mem => isQuieted_of_way (.inl (inward mark mem)),
    fun mark mem => isQuieted_of_way (.inr (outward mark mem))⟩

/-- The marks of an operation are in order as long as no exit fails, and only setting the path makes
quiet departures. -/
theorem Performs.spanned {operation : Operation H} {σ σ' : Store H}
    (h : Performs s σ operation s' σ') (built : s.WellBuilt) :
    ∃ marks, Store.Fires σ σ' marks ∧
      ((∀ mark ∈ marks, mark.exitsWell = true) → Spanned s s' marks) ∧
      (operation.setsPath = false → ∀ mark ∈ marks, mark.isQuieted = false) := by
  cases h with
  | cycle cycles fired => exact ⟨_, fired, cycles.spanned built, fun _ => cycles.loud⟩
  | reset resets fired =>
    exact ⟨_, fired, fun well => (resets.spanned built well).2, fun _ => resets.loud⟩
  | path sets points fired =>
    exact ⟨_, fired, fun _ => points.spanned built, fun other => by simp [other] at sets⟩
  | outline same fired =>
    exact ⟨[], fired,
      fun _ flags shown => ⟨flags, rfl, .refl _ _, shows_of_outline shown same⟩, by simp⟩

end State

/-- The move sets the path of a state. -/
def Move.setsPath : Move H → Bool
  | .operate _ operation => operation.setsPath
  | .post .. | .declare .. => false

/-- The marks about one state in some events, in order. -/
def marksOf (place : Address) (events : List (Event H)) : List Mark :=
  (marksIn events).filter (·.place = place)

namespace Machine

open State

variable [Conduct H] {machine : Machine H}

/-- The marks of a rooted move are in order as long as no exit fails. -/
theorem spanned_move (built : machine.root.WellBuilt) {move : Move H} (rooted : move.isRooted) :
    ∃ marks, Store.Fires machine.store (machine.move move).2.store marks ∧
      ((∀ mark ∈ marks, mark.exitsWell = true) →
        Spanned machine.root (machine.move move).2.root marks) ∧
      (move.setsPath = false → ∀ mark ∈ marks, mark.isQuieted = false) := by
  rcases machine.move_rooted rooted with ⟨operation, rfl, performs⟩ | ⟨same, fired⟩
  · exact performs.spanned built
  · exact ⟨[], fired,
      fun _ flags shown => ⟨flags, rfl, .refl _ _, shows_of_outline shown same⟩, by simp⟩

/-- The marks of a run of rooted moves are in order as long as no exit fails. -/
theorem spanned_run (built : machine.root.WellBuilt) {moves : List (Move H)}
    (rooted : ∀ move ∈ moves, move.isRooted) :
    ∃ marks, Store.Fires machine.store (machine.run moves).2.store marks ∧
      ((∀ mark ∈ marks, mark.exitsWell = true) →
        Spanned machine.root (machine.run moves).2.root marks) ∧
      ((∀ move ∈ moves, move.setsPath = false) → ∀ mark ∈ marks, mark.isQuieted = false) := by
  induction moves generalizing machine with
  | nil => exact ⟨[], .refl _, fun _ flags shown => ⟨flags, rfl, .refl _ _, shown⟩, by simp⟩
  | cons move moves ih =>
    obtain ⟨marks, fired, spanned, loud⟩ := spanned_move built (rooted move List.mem_cons_self)
    have same := layout_move machine move
    obtain ⟨marks', fired', spanned', loud'⟩ := ih (built.of_layout same)
      fun other mem => rooted other (List.mem_cons_of_mem _ mem)
    refine ⟨marks ++ marks', fired.trans fired', fun well flags shown => ?_, fun quiet mark mem => ?_⟩
    · obtain ⟨flags₁, fold, agree, shown₁⟩ :=
        spanned (fun mark mem => well mark (List.mem_append_left _ mem)) flags shown
      obtain ⟨flags₂, fold', agree', shown₂⟩ :=
        spanned' (fun mark mem => well mark (List.mem_append_right _ mem)) flags₁ shown₁
      rw [address_eq_of_layout_eq same] at agree'
      exact ⟨flags₂, foldlM_trans fold fold', agree.trans agree', shown₂⟩
    · rcases List.mem_append.1 mem with mem | mem
      · exact loud (quiet move List.mem_cons_self) mark mem
      · exact loud' (fun other mem => quiet other (List.mem_cons_of_mem _ mem)) mark mem

/-- In every run of rooted moves in which no exit fails, the marks about each state keep to the order
of spans, and the state runs just while its span is open.  In a run that sets no path, each state has
been entered as often as left, and once more if it runs. -/
theorem marks_keep_to_spans (started : machine.Started) {moves : List (Move H)}
    (rooted : ∀ move ∈ moves, move.isRooted)
    (exits : ∀ call ∈ callsIn (Store.since machine.store (machine.run moves).2.store),
      call.phase = .exit → call.completed = true)
    {s : State H} (mem : s ∈ (machine.run moves).2.root.subtree) :
    let marks := marksOf s.address (Store.since machine.store (machine.run moves).2.store)
    marks.foldlM Mark.span false = some s.isRunning ∧
      ((∀ move ∈ moves, move.setsPath = false) →
        marks.countP Mark.isEntry = marks.countP Mark.isExit + s.isRunning.toNat) := by
  obtain ⟨built, dormant⟩ := started.spec
  obtain ⟨marks, fired, spanned, loud⟩ := spanned_run built rooted
  have well : ∀ mark ∈ marks, mark.exitsWell = true := by
    intro mark inside
    cases mark with
    | called call =>
      have known := exits call (by
        rw [callsIn, fired.marksIn_since]
        exact List.mem_filterMap.2 ⟨_, inside, rfl⟩)
      by_cases phase : call.phase = .exit <;> simp [Mark.exitsWell, phase, known]
    | _ => rfl
  have closed : Shows isRunning (fun _ => false) machine.root :=
    fun t inside => ((dormant t inside).1).symm
  obtain ⟨flags, fold, -, shown⟩ := spanned well _ closed
  have spans := Mark.span_of_spans s.address fold
  rw [shown s mem] at spans
  simp only [marksOf, fired.marksIn_since]
  refine ⟨spans, fun quiet => ?_⟩
  simpa using Mark.countP_of_span
    (fun mark inside => loud quiet mark (List.mem_of_mem_filter inside)) spans

/-- Moves that turn the small machine to work, call it back without callbacks, and turn it again. -/
def Sample.detour : List (Move Script.stage) :=
  [.operate 0 .cycle, .operate 0 .cycle, .operate 0 (.setPath "R->Idle"), .operate 0 .cycle,
    .operate 0 .cycle]

/-- The innermost state is entered, left without callbacks and entered again. -/
theorem marks_keep_to_spans_sample :
    let final := (Sample.machine.run Sample.detour).2
    let s := final.root.chain.getLast (chain_ne_nil _)
    let marks := marksOf s.address (Store.since Sample.machine.store final.store)
    Sample.machine.Started ∧ (∀ move ∈ Sample.detour, move.isRooted) ∧
    (∀ call ∈ callsIn (Store.since Sample.machine.store final.store),
      call.phase = .exit → call.completed = true) ∧
    s ∈ final.root.subtree ∧ marks.foldlM Mark.span false = some s.isRunning ∧
    ((∀ move ∈ Sample.detour, move.setsPath = false) →
      marks.countP Mark.isEntry = marks.countP Mark.isExit + s.isRunning.toNat) := by
  have rooted : ∀ move ∈ Sample.detour, move.isRooted := by simp [Sample.detour, Move.isRooted]
  have exits : ∀ call ∈ callsIn (Store.since Sample.machine.store
      (Sample.machine.run Sample.detour).2.store),
      call.phase = .exit → call.completed = true := by decide +kernel
  have mem := mem_subtree_iff.2 (.inl (List.getLast_mem
    (chain_ne_nil (Sample.machine.run Sample.detour).2.root)))
  exact ⟨Sample.machine_started, rooted, exits, mem,
    marks_keep_to_spans Sample.machine_started rooted exits mem⟩

end Machine

end Statechart
