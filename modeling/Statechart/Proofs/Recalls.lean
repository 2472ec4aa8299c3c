import Statechart.Proofs.Spans

/-!
# Exits that are taken back

That its exit has completed does not stop a state: the reset that fires the exit stops it once all
beneath has been left as well.  Where an exit further down fails, nothing is stopped, so the states
whose exits have completed on the way there are taken back: they run on, without an entry.

`Roll` reads from the marks which states run, and which are on their way out.  Main statements: over
every run the roll shows what runs, and a state whose exit has completed is not stepped or left again
before it has been entered again, unless an exit beneath it fails within the same reset.
-/
namespace Statechart

variable {H : Host}

/-- What the marks so far tell of who runs. -/
structure Roll where
  running : Address → Bool
  /-- The places of the states whose exits have completed one after another, with nothing since. -/
  leaving : List Address

namespace Roll

variable {roll roll' : Roll} {place : Address} {mark : Mark} {marks : List Mark}

/-- Nothing runs. -/
def idle : Roll := ⟨fun _ => false, []⟩

/-- Nobody is on the way out any more. -/
def settled (roll : Roll) : Roll := ⟨roll.running, []⟩

/-- The state at a place runs now, or does not, and nobody is on the way out. -/
def set (roll : Roll) (place : Address) (running : Bool) : Roll :=
  ⟨Function.update roll.running place running, []⟩

/-- The exit of the state at a place has completed. -/
def leave (roll : Roll) (place : Address) : Roll :=
  ⟨Function.update roll.running place false, place :: roll.leaving⟩

/-- The exit of the state at a place has failed: all above it that are on the way out run on. -/
def reinstate (roll : Roll) (place : Address) : Roll :=
  ⟨fun other => roll.running other || (other ∈ roll.leaving && other.Covers place), []⟩

/-- The roll after a mark.  A mark out of order has no answer: the entry of a state that runs, the step
or the exit of one that does not. -/
def next (roll : Roll) : Mark → Option Roll
  | .called call =>
    match call.phase, roll.running call.state with
    | .entry, false => some (roll.set call.state call.completed)
    | .step, true => some roll.settled
    | .exit, true => some (if call.completed then roll.leave call.state else roll.reinstate call.state)
    | _, _ => none
  | .quieted place => some (roll.set place false)
  | .taken .. | .handed .. | .selected _ => some roll.settled

/-- No state of the tree runs beneath one that is on the way out. -/
def Clear (roll : Roll) (s : State H) : Prop :=
  ∀ place ∈ roll.leaving, ∀ t ∈ s.subtree, place.Covers t.address → t.isRunning = false

theorem clear_of_leaving {s : State H} (none : roll.leaving = []) : roll.Clear s := by
  intro place mem
  rw [none] at mem
  contradiction

/-- An exit that fails takes nobody back if nobody above it is on the way out. -/
theorem reinstate_eq_settled (none : ∀ other ∈ roll.leaving, ¬ other.Covers place) :
    roll.reinstate place = roll.settled := by
  refine congrArg (Roll.mk · []) (funext fun other => ?_)
  by_cases mem : other ∈ roll.leaving
  · simp [none other mem]
  · simp [mem]

/-- What a roll shows of a tree, it still shows where the exit of a state that runs has failed without
anybody on the way out above it. -/
theorem Clear.reinstate_eq {s t : State H} (clear : roll.Clear s) (mem : t ∈ s.subtree)
    (running : t.isRunning = true) : roll.reinstate t.address = roll.settled := by
  refine reinstate_eq_settled fun other leaving covers => ?_
  rw [clear other leaving t mem covers] at running
  contradiction

end Roll

/-! ## The callbacks of one state -/

namespace Core

variable {core core' : Core H} {marks : List Mark} {roll : Roll}

/-- After the callbacks of a cycle the state runs as the roll says, and nobody is on the way out. -/
theorem Advances.rolls {command : Option Command} {result : Except Fault (Option Tag)}
    (h : core.Advances command marks result core')
    (shown : roll.running core.address = core.running) :
    marks.foldlM Roll.next roll = some (roll.set core.address core'.running) := by
  cases h with
  | refused idle behavior fault =>
    simp [Roll.next, Roll.set, record, Call.completed, shown, idle, withBehavior]
  | entered idle behavior result =>
    rcases result with fault | requested <;>
      simp [Roll.next, Roll.set, Roll.settled, record, Call.completed, shown, idle, started]
  | resumed running behavior result =>
    rw [running] at shown
    rcases result with fault | requested <;>
      simp [Roll.next, Roll.set, Roll.settled, record, shown, running, withBehavior]

/-- A state that does not run is left without a mark; one that runs is on its way out then. -/
theorem Leaves.rolls (h : core.Leaves marks (.ok ()) core')
    (shown : roll.running core.address = core.running) :
    marks.foldlM Roll.next roll =
      some (if core.running then roll.leave core.address else roll) := by
  cases h with
  | idle idle => simp [idle]
  | left running => simp [Roll.next, record, Call.completed, shown, running]

/-- Where leaving a state fails, its exit is the mark of it. -/
theorem Leaves.recalls {fault : Fault} (h : core.Leaves marks (.error fault) core')
    (shown : roll.running core.address = core.running) :
    core.running = true ∧ marks.foldlM Roll.next roll = some (roll.reinstate core.address) := by
  cases h with
  | left running =>
    exact ⟨running, by simp [Roll.next, record, Call.completed, shown, running]⟩

end Core

namespace State

variable {core core' : Core H} {routes : Routes} {before after : List (State H)}
  {active active' s s' s'' : State H} {marks : List Mark} {roll roll' roll'' : Roll}

/-! ## Resets -/

/-- A reset that fails ends with the exit of a state that runs, and takes back all above it that were
on the way out. -/
theorem Resets.recalls {fault : Fault} (h : Resets s marks (.error fault) s') (built : s.WellBuilt)
    (shown : Shows isRunning roll.running s) :
    ∃ t ∈ s.subtree, t.isRunning = true ∧
      marks.foldlM Roll.next roll = some (roll.reinstate t.address) := by
  generalize eq : Except.error fault = result at h
  induction h generalizing roll with
  | @exitFails s core' exit fault left =>
    obtain ⟨running, fold⟩ := left.recalls (shown s (self_mem_subtree s))
    exact ⟨s, self_mem_subtree s, running, fold⟩
  | leaf => contradiction
  | composite => contradiction
  | @innerFails core core' routes before after active active' exit marks fault left inner ih =>
    have here : roll.running core.address = core.running := (shows_composite.1 shown).1
    have first := left.rolls here
    have inside {t : State H} (mem : t ∈ active.subtree) :
        t ∈ (State.composite core routes before active after).subtree :=
      mem_subtree.2 (.inr ⟨active, active_mem_children, mem⟩)
    rcases running : core.running <;> rw [running] at first
    · have below := (shows_composite.1 shown).2 active (by simp)
      obtain ⟨t, mem, runs, fold⟩ := ih built.inner below eq
      exact ⟨t, inside mem, runs, foldlM_trans first fold⟩
    · have below : Shows isRunning (roll.leave core.address).running active :=
        shows_inner built shown false active (by simp)
      obtain ⟨t, mem, runs, fold⟩ := ih built.inner below eq
      have covers : core.address.Covers t.address := built.covers (inside mem)
      -- the state itself is taken back, and so are those above it that were on the way out
      have same : (roll.leave core.address).reinstate t.address = roll.reinstate t.address := by
        refine congrArg (Roll.mk · []) (funext fun other => ?_)
        by_cases own : other = core.address
        · simp [own, Roll.leave, here, running, covers]
        · simp [own, Roll.leave]
      rw [same] at fold
      exact ⟨t, inside mem, runs, foldlM_trans first fold⟩

/-- How a roll of one tree goes over into a roll of another. -/
structure Leads (s s' : State H) (roll roll' : Roll) : Prop where
  /-- No other place is touched. -/
  agree : AgreeOff s.address roll.running roll'.running
  /-- The roll shows who runs. -/
  shown : Shows isRunning roll'.running s'
  /-- Nobody runs beneath a state that is on the way out. -/
  clear : roll'.Clear s'
  /-- Whoever is on the way out has been so before, or is within the tree. -/
  leaving : ∀ place ∈ roll'.leaving, place ∈ roll.leaving ∨ s.address.Covers place

theorem Leads.refl (shown : Shows isRunning roll.running s) (clear : roll.Clear s) :
    Leads s s roll roll := ⟨.refl _ _, shown, clear, fun _ => .inl⟩

theorem Leads.trans (h : Leads s s' roll roll') (k : Leads s' s'' roll' roll'')
    (placed : s'.address = s.address) : Leads s s'' roll roll'' where
  agree := h.agree.trans (placed ▸ k.agree)
  shown := k.shown
  clear := k.clear
  leaving place mem := by
    rcases k.leaving place mem with mem | covers
    · exact h.leaving place mem
    · exact .inr (placed ▸ covers)

/-- That nobody is on the way out any more does no harm. -/
theorem Leads.settled (h : Leads s s' roll roll') : Leads s s' roll roll'.settled where
  agree := h.agree
  shown := h.shown
  clear := Roll.clear_of_leaving rfl
  leaving := by simp [Roll.settled]

/-- A leaf that is left well stops, and is on its way out if it ran. -/
theorem leads_leaf {core core' : Core H} {exit : List Mark} (left : core.Leaves exit (.ok ()) core')
    (shown : Shows isRunning roll.running (.leaf core)) :
    ∃ roll', exit.foldlM Roll.next roll = some roll' ∧
      Leads (.leaf core) (.leaf core'.stopped) roll roll' := by
  have here := shows_leaf.1 shown
  refine ⟨_, left.rolls here, ?_⟩
  have stopped {flags : Address → Bool} (off : flags core.address = false) :
      Shows isRunning flags (.leaf core'.stopped) := by
    refine shows_leaf.2 ?_
    rw [Core.stopped, left.kept.address, off]
    rfl
  have clear (roll' : Roll) : roll'.Clear (.leaf core'.stopped) := by
    intro place _ t mem _
    rw [subtree, List.mem_singleton] at mem
    rw [mem]
    rfl
  rcases running : core.running
  · rw [isRunning, State.core, running] at here
    exact ⟨.refl _ _, stopped here, clear _, fun _ => .inl⟩
  · refine ⟨agreeOff_update _ _ _, stopped (Function.update_self _ _ _), clear _, ?_⟩
    intro place mem
    rcases List.mem_cons.1 mem with rfl | mem
    · exact .inr (Address.covers_refl _)
    · exact .inl mem

/-- A reset that succeeds leads from what runs before to what runs then. -/
theorem Resets.leaves (h : Resets s marks (.ok ()) s') (built : s.WellBuilt)
    (shown : Shows isRunning roll.running s) :
    ∃ roll', marks.foldlM Roll.next roll = some roll' ∧ Leads s s' roll roll' := by
  generalize eq : Except.ok () = result at h
  induction h generalizing roll with
  | exitFails => contradiction
  | innerFails => contradiction
  | leaf left => exact leads_leaf left shown
  | @composite core core' routes before after before' after' active active' chosen exit marks left
      inner chosen_eq ih =>
    have here : roll.running core.address = core.running := (shows_composite.1 shown).1
    -- the roll shows all but the state itself, which has completed its exit
    have first : ∃ roll₁, exit.foldlM Roll.next roll = some roll₁ ∧
        roll₁.running = Function.update roll.running core.address false := by
      refine ⟨_, left.rolls here, ?_⟩
      rcases running : core.running
      · rw [running] at here
        rw [← here, Function.update_eq_self, here]
        rfl
      · rfl
    obtain ⟨roll₁, fold₁, flags⟩ := first
    have others := shows_inner built shown false
    rw [← flags] at others
    obtain ⟨roll₂, fold₂, below⟩ := ih built.inner (others active (by simp)) eq
    have off : roll₁.running core.address = false := by rw [flags, Function.update_self]
    have agree : AgreeOff core.address roll.running roll₂.running :=
      (flags ▸ agreeOff_update _ _ _).trans (AgreeOff.outer below.agree built)
    have around := shows_around built left.kept.stopped others off below.agree below.shown
    refine ⟨roll₂.settled, foldlM_trans fold₁ (foldlM_trans fold₂ rfl), ?_⟩
    exact ⟨agree, shows_chosen chosen_eq around, Roll.clear_of_leaving rfl, by simp [Roll.settled]⟩

/-! ## Whole operations -/

/-- From one tree to the other the marks go over a roll that shows the first into one that shows the
second. -/
def Rolled (s s' : State H) (marks : List Mark) : Prop :=
  ∀ roll : Roll, Shows isRunning roll.running s → roll.Clear s →
    ∃ roll', marks.foldlM Roll.next roll = some roll' ∧ Leads s s' roll roll'

theorem Rolled.refl (s : State H) : Rolled s s [] :=
  fun roll shown clear => ⟨roll, rfl, .refl shown clear⟩

theorem Rolled.trans {marks' : List Mark} (h : Rolled s s' marks) (k : Rolled s' s'' marks')
    (placed : s'.address = s.address) : Rolled s s'' (marks ++ marks') := by
  intro roll shown clear
  obtain ⟨roll₁, fold₁, first⟩ := h roll shown clear
  obtain ⟨roll₂, fold₂, second⟩ := k roll₁ first.shown first.clear
  exact ⟨roll₂, foldlM_trans fold₁ fold₂, first.trans second placed⟩

/-- What is beneath a state on the way out after a change within the active inner state does not run:
it is within that one, or it has been beneath a state on the way out before. -/
theorem Leads.clear_around (h : Leads active active' roll roll')
    (built : (composite core routes before active after).WellBuilt)
    (clear : roll.Clear (composite core routes before active after)) :
    roll'.Clear (composite core routes before active' after) := by
  intro place mem t there covers
  have outside {u : State H} (inside : u ∈ (composite core routes before active after).subtree)
      (apart : ¬ active.address.Covers u.address) (covers : place.Covers u.address) :
      u.isRunning = false := by
    rcases h.leaving place mem with mem | beneath
    · exact clear place mem u inside covers
    · exact absurd (beneath.trans covers) apart
  rcases mem_subtree.1 there with rfl | ⟨child, below, within⟩
  · exact outside (u := composite core routes before active after) (self_mem_subtree _)
      (WellBuilt.not_covers_owner built active_mem_children) covers
  · have other (off : child ∈ before ++ after) : t.isRunning = false := by
      refine outside (mem_subtree.2 (.inr ⟨child, ?_, within⟩)) (WellBuilt.apart built off within)
        covers
      rw [children]
      rcases List.mem_append.1 off with off | off <;> simp [off]
    rw [children] at below
    rcases List.mem_append.1 below with below | below
    · exact other (List.mem_append_left _ below)
    · rcases List.mem_cons.1 below with rfl | below
      · exact h.clear place mem t within covers
      · exact other (List.mem_append_right _ below)

/-- What happens to the active inner state goes on beneath the state. -/
theorem Rolled.inner (h : Rolled active active' marks)
    (built : (composite core routes before active after).WellBuilt) :
    Rolled (composite core routes before active after) (composite core routes before active' after)
      marks := by
  intro roll shown clear
  obtain ⟨here, others⟩ := shows_composite.1 shown
  have inside {t : State H} (mem : t ∈ active.subtree) :
      t ∈ (composite core routes before active after).subtree :=
    mem_subtree.2 (.inr ⟨active, active_mem_children, mem⟩)
  obtain ⟨roll', fold, leads⟩ := h roll (others active (by simp))
    fun place mem t there covers => clear place mem t (inside there) covers
  refine ⟨roll', fold, AgreeOff.outer leads.agree built,
    shows_around built ⟨rfl, rfl⟩ others here leads.agree leads.shown,
    leads.clear_around built clear, fun place mem => ?_⟩
  rcases leads.leaving place mem with mem | covers
  · exact .inl mem
  · exact .inr ((built.covers (inside (self_mem_subtree active))).trans covers)

/-- A selection changes nothing about who runs, and ends the way out. -/
theorem rolled_chosen {before' after' : List (State H)} {chosen : State H} {target : String}
    (chosen_eq : (composite core routes before active after).select target =
      .composite core routes before' chosen after') :
    Rolled (composite core routes before active after) (composite core routes before' chosen after')
      [.selected chosen.address] :=
  fun roll shown _ => ⟨roll.settled, rfl, .refl _ _, shows_chosen chosen_eq shown,
    Roll.clear_of_leaving rfl, by simp [Roll.settled]⟩

/-- Every reset takes a roll along. -/
theorem Resets.rolled {result : Except Fault Unit} (h : Resets s marks result s')
    (built : s.WellBuilt) : Rolled s s' marks := by
  intro roll shown clear
  rcases result with fault | ⟨⟩
  · obtain ⟨t, mem, running, fold⟩ := h.recalls built shown
    rw [clear.reinstate_eq mem running] at fold
    have kept := shows_of_outline shown h.outline_eq
    exact ⟨roll.settled, fold, .refl _ _, kept, Roll.clear_of_leaving rfl, by simp [Roll.settled]⟩
  · exact h.leaves built shown

/-- Settling an outcome takes a roll along. -/
theorem Settles.rolled {outcome : Except Fault (Option Tag)} {settled : Except Fault Unit}
    (h : Settles core routes before active after outcome marks settled s')
    (built : (composite core routes before active after).WellBuilt) :
    Rolled (composite core routes before active after) s' marks := by
  cases h with
  | failed => exact .refl _
  | stays => exact .refl _
  | unknown => exact .refl _
  | innerFails leads inner => exact (inner.rolled built.inner).inner built
  | follows leads inner chosen_eq =>
    exact ((inner.rolled built.inner).inner built).trans (rolled_chosen chosen_eq) rfl

/-- What a state's own core becomes changes the state's own entry. -/
theorem leads_withCore (built : s.WellBuilt) (kept : s.core.Kept core')
    (shown : Shows isRunning roll.running s) :
    Leads s (s.withCore core') roll (roll.set s.address core'.running) := by
  refine ⟨agreeOff_update _ _ _, ?_, Roll.clear_of_leaving rfl, by simp [Roll.set]⟩
  cases s with
  | leaf core =>
    refine shows_leaf.2 ?_
    rw [kept.address]
    exact Function.update_self _ _ _
  | composite core routes before active after =>
    refine shows_composite.2 ⟨?_, shows_inner built shown _⟩
    rw [kept.address]
    exact Function.update_self _ _ _

/-- The callbacks of a state's own cycle take a roll along. -/
theorem advances_rolled {command : Option Command} {calls : List Mark}
    {result : Except Fault (Option Tag)} (h : s.core.Advances command calls result core')
    (built : s.WellBuilt) : Rolled s (s.withCore core') (.taken s.address command :: calls) := by
  intro roll shown _
  have fold : calls.foldlM Roll.next roll.settled =
      some (roll.settled.set s.address core'.running) := h.rolls (shown s (self_mem_subtree s))
  have leads : Leads s (s.withCore core') roll.settled (roll.settled.set s.address core'.running) :=
    leads_withCore built h.kept shown
  exact ⟨_, fold, leads.agree, leads.shown, leads.clear, by simp [Roll.set]⟩

theorem Hands.rolled {place : Address} {command : Option Command} (h : Hands place command marks)
    (s : State H) : Rolled s s marks := by
  cases h with
  | nothing => exact .refl s
  | handed command =>
    exact fun roll shown clear => ⟨roll.settled, rfl, (Leads.refl shown clear).settled⟩

/-- Every cycle takes a roll along. -/
theorem Cycles.rolled {outcome : Except Fault (Option Tag)} (h : Cycles s marks outcome s')
    (built : s.WellBuilt) : Rolled s s' marks := by
  induction h with
  | fails advanced => exact advances_rolled advanced built
  | @leaf core _ _ _ _ advanced => exact advances_rolled (s := .leaf core) advanced built
  | @composite core core' routes before after active active' s' command calls down marks marks'
      requested outcome settled advanced hands inner settles ih =>
    have own := advances_rolled (s := .composite core routes before active after) advanced built
    have started : (State.composite core' routes before active after).WellBuilt :=
      built.of_layout (layout_composite advanced.kept rfl)
    have below := (ih built.inner).inner started
    have last := settles.rolled (started.of_layout (layout_active inner.layout_eq))
    exact own.trans ((hands.rolled _).trans (below.trans last rfl) rfl) advanced.kept.address

/-- Leaving a chain without callbacks takes a roll along. -/
theorem Quiets.rolled (h : Quiets s marks s') (built : s.WellBuilt) : Rolled s s' marks := by
  have own (t : State H) (built : t.WellBuilt) :
      Rolled t (t.withCore t.core.stopped) [.quieted t.address] :=
    fun roll shown _ => ⟨_, rfl, leads_withCore built (Core.kept_stopped _) shown⟩
  induction h with
  | leaf core => exact own (.leaf core) built
  | @composite core routes before after before' after' active active' chosen marks inner chosen_eq ih =>
    have stopped : (State.composite core.stopped routes before active after).WellBuilt :=
      built.of_layout (layout_composite (Core.kept_stopped _) rfl)
    have below := (ih built.inner).inner stopped
    exact (own (.composite core routes before active after) built).trans
      (below.trans (rolled_chosen chosen_eq) rfl) rfl

/-- Setting a path takes a roll along. -/
theorem Points.rolled {names : List String} (h : Points names s marks s') (built : s.WellBuilt) :
    Rolled s s' marks := by
  induction h with
  | here s => exact .refl s
  | leaf name names core => exact .refl _
  | along inner ih => exact (ih built.inner).inner built
  | turns other quiets chosen_eq inner ih =>
    have left := (quiets.rolled built.inner).inner built
    have gone := built.of_layout (layout_active quiets.layout_eq)
    obtain ⟨-, placed⟩ := children_chosen chosen_eq gone
    exact left.trans ((rolled_chosen chosen_eq).trans ((ih placed.inner).inner placed) rfl) rfl

/-- The outline tells who runs. -/
theorem rolled_of_outline (eq : s'.outline = s.outline) : Rolled s s' [] := by
  intro roll shown clear
  refine ⟨roll, rfl, .refl _ _, shows_of_outline shown eq, ?_, fun _ => .inl⟩
  intro place mem t there covers
  obtain ⟨u, inside, same⟩ := exists_of_outline_eq eq there
  rw [← isRunning_outline, ← same, isRunning_outline]
  refine clear place mem u inside ?_
  rwa [← address_outline, same, address_outline]

/-- Every operation takes a roll along. -/
theorem Performs.rolled {operation : Operation H} {σ σ' : Store H}
    (h : Performs s σ operation s' σ') (built : s.WellBuilt) :
    ∃ marks, Store.Fires σ σ' marks ∧ Rolled s s' marks := by
  cases h with
  | cycle cycles fired => exact ⟨_, fired, cycles.rolled built⟩
  | reset resets fired => exact ⟨_, fired, resets.rolled built⟩
  | path sets points fired => exact ⟨_, fired, points.rolled built⟩
  | outline same fired => exact ⟨[], fired, rolled_of_outline same⟩

end State

/-! ## After an exit -/

namespace Mark

/-- The mark tells of a completed entry of the state at the place. -/
def enters (place : Address) : Mark → Bool
  | .called call => call.state = place && call.phase = .entry && call.completed
  | _ => false

/-- An exit of the state at the place or of one beneath it fails, with nothing before it but exits that
complete. -/
def recalls (place : Address) : List Mark → Bool
  | .called call :: rest =>
    call.phase = .exit && (if call.completed then recalls place rest else place.Covers call.state)
  | _ => false

/-- What takes a state back does so whatever follows. -/
theorem recalls_append {place : Address} {marks : List Mark} (more : List Mark)
    (h : recalls place marks = true) : recalls place (marks ++ more) = true := by
  induction marks with
  | nil => simp [recalls] at h
  | cons mark marks ih =>
    cases mark with
    | called call =>
      simp only [List.cons_append, recalls, Bool.and_eq_true] at h ⊢
      refine ⟨h.1, ?_⟩
      rcases completed : call.completed
      · simpa [completed] using h.2
      · exact ih (by simpa [completed] using h.2)
    | taken | handed | selected | quieted => simp [recalls] at h

end Mark

namespace Roll

variable {roll roll' : Roll} {place : Address} {mark : Mark} {marks : List Mark}

/-- A state that does not run, does not after a mark either, unless the mark tells of its entry or
takes it back. -/
theorem stopped_next (h : roll.next mark = some roll') (stopped : roll.running place = false)
    (outside : mark.enters place = false)
    (unfailing : place ∈ roll.leaving → Mark.recalls place (mark :: marks) = false) :
    roll'.running place = false ∧ (place ∈ roll'.leaving → Mark.recalls place marks = false) := by
  -- whatever neither is an exit nor touches the place
  have settled {flag : Bool} {other : Address} (off : other = place → flag = false) :
      (roll.set other flag).running place = false ∧
        (place ∈ (roll.set other flag).leaving → Mark.recalls place marks = false) := by
    refine ⟨?_, by simp [set]⟩
    by_cases here : place = other
    · simp [set, here, off here.symm]
    · simp [set, here, stopped]
  cases mark with
  | called call =>
    rcases phase : call.phase <;> rcases running : roll.running call.state <;>
      simp only [next, phase, running, reduceCtorEq, Option.some.injEq] at h
    · subst h
      refine settled fun here => ?_
      simpa [Mark.enters, here, phase] using outside
    · subst h
      exact ⟨stopped, by simp [Roll.settled]⟩
    · have apart : place ≠ call.state := by
        rintro rfl
        rw [stopped] at running
        contradiction
      rcases completed : call.completed <;>
        simp only [completed, if_true, if_false, Bool.false_eq_true] at h <;> subst h
      · refine ⟨?_, by simp [reinstate]⟩
        simp only [reinstate, stopped, Bool.false_or, Bool.and_eq_false_imp, decide_eq_true_eq]
        intro leaving
        simpa [Mark.recalls, phase, completed] using unfailing leaving
      · refine ⟨by simp [leave, apart, stopped], fun leaving => ?_⟩
        have before : place ∈ roll.leaving := by simpa [leave, apart] using leaving
        simpa [Mark.recalls, phase, completed] using unfailing before
  | quieted other =>
    obtain rfl := Option.some.inj h
    exact settled fun _ => rfl
  | taken | handed | selected =>
    obtain rfl := Option.some.inj h
    exact ⟨stopped, by simp [Roll.settled]⟩

/-- A state that does not run, does not after some marks either, unless one tells of its entry or
takes it back. -/
theorem stopped_fold (h : marks.foldlM next roll = some roll') (stopped : roll.running place = false)
    (outside : ∀ mark ∈ marks, mark.enters place = false)
    (unfailing : place ∈ roll.leaving → Mark.recalls place marks = false) :
    roll'.running place = false := by
  induction marks generalizing roll with
  | nil =>
    obtain rfl : roll = roll' := by simpa using h
    exact stopped
  | cons mark marks ih =>
    rw [List.foldlM_cons] at h
    obtain ⟨between, first, rest⟩ := Option.bind_eq_some_iff.1 h
    obtain ⟨stopped', unfailing'⟩ :=
      stopped_next first stopped (outside mark List.mem_cons_self) unfailing
    exact ih rest stopped' (fun other mem => outside other (List.mem_cons_of_mem _ mem)) unfailing'

end Roll

/-! ## Moves and runs -/

namespace Machine

open State

variable [Conduct H] {machine : Machine H}

/-- Every move takes a roll along. -/
theorem rolled_move (built : machine.root.WellBuilt) (move : Move H) :
    ∃ marks, Store.Fires machine.store (machine.move move).2.store marks ∧
      Rolled machine.root (machine.move move).2.root marks := by
  revert built
  refine move_induction (motive := fun s σ s' σ' => s.WellBuilt →
    ∃ marks, Store.Fires σ σ' marks ∧ Rolled s s' marks) move ?_
    fun _ fired _ => ⟨[], fired, .refl _⟩
  intro depth operation _
  refine onActive_induction (motive := fun s σ s' σ' => s.WellBuilt →
    ∃ marks, Store.Fires σ σ' marks ∧ Rolled s s' marks)
    (fun _ _ _ _ performs => performs.rolled) (fun _ σ _ => ⟨[], .refl σ, .refl _⟩) ?_ depth _ _
  intro core routes before active after active' σ σ' below built
  obtain ⟨marks, fired, rolled⟩ := below built.inner
  exact ⟨marks, fired, rolled.inner built⟩

/-- Every run takes a roll along. -/
theorem rolled_run (built : machine.root.WellBuilt) (moves : List (Move H)) :
    ∃ marks, Store.Fires machine.store (machine.run moves).2.store marks ∧
      Rolled machine.root (machine.run moves).2.root marks := by
  induction moves generalizing machine with
  | nil => exact ⟨[], .refl _, .refl _⟩
  | cons move moves ih =>
    obtain ⟨marks, fired, rolled⟩ := rolled_move built move
    have same := layout_move machine move
    obtain ⟨marks', fired', rolled'⟩ := ih (built.of_layout same)
    exact ⟨marks ++ marks', fired.trans fired', rolled.trans rolled' (address_eq_of_layout_eq same)⟩

/-- The marks of a run tell at its end who runs. -/
theorem roll_of_run (started : machine.Started) (moves : List (Move H)) :
    ∃ roll, (marksIn (Store.since machine.store (machine.run moves).2.store)).foldlM
        Roll.next .idle = some roll ∧
      Shows isRunning roll.running (machine.run moves).2.root := by
  obtain ⟨built, dormant⟩ := started.spec
  obtain ⟨marks, fired, rolled⟩ := rolled_run built moves
  obtain ⟨roll, fold, leads⟩ := rolled .idle (fun t inside => ((dormant t inside).1).symm)
    (Roll.clear_of_leaving rfl)
  rw [fired.marksIn_since]
  exact ⟨roll, fold, leads.shown⟩

/-- A state whose exit has completed is neither stepped nor left again before its entry has completed
again, and does not run until then, unless an exit beneath it fails with nothing in between but
further exits that complete. -/
theorem exited_until_entered (started : machine.Started) (moves : List (Move H))
    {earlier later : List Mark} {exit : Call}
    (cut : marksIn (Store.since machine.store (machine.run moves).2.store) =
      earlier ++ .called exit :: later)
    (phase : exit.phase = .exit) (completed : exit.completed = true)
    (unfailing : Mark.recalls exit.state later = false) :
    (∀ between call rest, later = between ++ .called call :: rest → call.state = exit.state →
      call.phase ≠ .entry → ∃ mark ∈ between, mark.enters exit.state = true) ∧
    ((∀ mark ∈ later, mark.enters exit.state = false) →
      ∀ s ∈ (machine.run moves).2.root.subtree, s.address = exit.state → s.isRunning = false) := by
  obtain ⟨roll, fold, shown⟩ := roll_of_run started moves
  rw [cut] at fold
  obtain ⟨roll₁, -, fold⟩ := foldlM_split fold
  rw [List.foldlM_cons] at fold
  obtain ⟨roll₂, left, fold⟩ := Option.bind_eq_some_iff.1 fold
  have stopped : roll₂.running exit.state = false := by
    rcases running : roll₁.running exit.state <;>
      simp only [Roll.next, phase, running, completed, if_true, reduceCtorEq,
        Option.some.injEq] at left
    rw [← left]
    simp [Roll.leave]
  refine ⟨fun between call rest split here ran => ?_, fun outside s mem here => ?_⟩
  · by_contra! outside
    rw [split] at fold unfailing
    obtain ⟨roll₃, before, fold⟩ := foldlM_split fold
    rw [List.foldlM_cons] at fold
    obtain ⟨roll₄, called, -⟩ := Option.bind_eq_some_iff.1 fold
    have still : roll₃.running exit.state = false := by
      refine Roll.stopped_fold before stopped (fun mark mem => ?_) fun _ => ?_
      · simpa using outside mark mem
      by_contra recalled
      rw [Mark.recalls_append _ (by simpa using recalled)] at unfailing
      contradiction
    rcases callPhase : call.phase <;> simp_all [Roll.next]
  · rw [← shown s mem, here]
    exact Roll.stopped_fold fold stopped outside fun _ => unfailing

/-- Moves that turn the small machine to work and then reset it, twice. -/
def Sample.retry : List (Move Script.stage) :=
  [.operate 0 .cycle, .operate 0 .cycle, .operate 0 .reset, .operate 0 .reset]

/-- The state that asks for work is left, and entered again before it is stepped and left again. -/
theorem exited_until_entered_sample :
    let final := (Sample.machine.run Sample.detour).2
    let marks := marksIn (Store.since Sample.machine.store final.store)
    let exit : Call := ⟨.exit, Sample.top.inner "Idle", ⟨"Idle", none, none⟩, none, none⟩
    Sample.machine.Started ∧ marks = marks.take 6 ++ .called exit :: marks.drop 7 ∧
    exit.phase = .exit ∧ exit.completed = true ∧ Mark.recalls exit.state (marks.drop 7) = false ∧
    (∀ between call rest, marks.drop 7 = between ++ .called call :: rest → call.state = exit.state →
      call.phase ≠ .entry → ∃ mark ∈ between, mark.enters exit.state = true) ∧
    ((∀ mark ∈ marks.drop 7, mark.enters exit.state = false) →
      ∀ s ∈ final.root.subtree, s.address = exit.state → s.isRunning = false) := by
  intro final marks exit
  have cut : marks = marks.take 6 ++ .called exit :: marks.drop 7 := by decide +kernel
  have unfailing : Mark.recalls exit.state (marks.drop 7) = false := by decide +kernel
  exact ⟨Sample.machine_started, cut, rfl, rfl, unfailing,
    exited_until_entered Sample.machine_started Sample.detour cut rfl rfl unfailing⟩

/-- The exit of the root completes, and that of the innermost state fails: the root runs on without
an entry, and the next reset leaves it once more. -/
theorem exited_left_again :
    let resets := (Sample.machine.run (Sample.retry.take 3)).2
    let final := (Sample.machine.run Sample.retry).2
    let marks := marksIn (Store.since Sample.machine.store final.store)
    let exit : Call := ⟨.exit, Sample.top, ⟨"R", none, none⟩, none, none⟩
    let between := (marks.drop 17).take 2
    Sample.machine.Started ∧ exit.completed = true ∧ exit.state = resets.root.address ∧
    marks = marks.take 16 ++ .called exit :: (between ++ .called exit :: marks.drop 20) ∧
    (∀ mark ∈ between, mark.enters exit.state = false) ∧ resets.root.isRunning = true := by
  intro resets final marks exit between
  exact ⟨Sample.machine_started, rfl, rfl, by decide +kernel, by decide +kernel, by decide +kernel⟩

end Machine

end Statechart
