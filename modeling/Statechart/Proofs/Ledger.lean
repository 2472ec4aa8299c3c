import Statechart.Proofs.Moves
import Statechart.Proofs.Places

/-!
# The ledger of a run

From the marks alone one can tell which inner state every state selects, and what its last cycle has
taken out of its mailbox.  A mark is good by the ledger if a state whose mailbox is emptied by its
cycle is selected, if a command that is handed down is what the state above has taken, and if a
callback sees what its state has taken or nothing.  All marks of all operations are good.
-/
namespace Statechart

variable {H : Host}

/-- The place that an inner place lies directly beneath. -/
def Address.owner? : Address → Option Address
  | ⟨_, [], _⟩ => none
  | ⟨machine, owner :: above, _⟩ => some ⟨machine, above, owner⟩

@[simp] theorem Address.owner?_inner (place : Address) (name : String) :
    (place.inner name).owner? = some place := rfl

theorem Address.eq_inner_of_owner? {place owner : Address} (h : place.owner? = some owner) :
    place = owner.inner place.name := by
  obtain ⟨machine, above, name⟩ := place
  rcases above with _ | ⟨outer, above⟩
  · nomatch h
  · obtain rfl := Option.some.inj h
    rfl

theorem Address.owner?_root {place : Address} (top : place.above = []) : place.owner? = none := by
  obtain ⟨machine, above, name⟩ := place
  obtain rfl : above = [] := top
  rfl

/-- No place covers the one that it lies beneath. -/
theorem Address.not_covers_owner {place owner : Address} (h : place.owner? = some owner) :
    ¬ place.Covers owner := by
  obtain ⟨machine, above, name⟩ := place
  rcases above with _ | ⟨outer, above⟩
  · nomatch h
  · obtain rfl := Option.some.inj h
    exact Address.not_inner_covers ⟨machine, above, outer⟩ name

namespace Address

variable {place other owner : Address}

/-- Places of one machine with the same names are one place. -/
theorem eq_of_names_eq (machine : place.machine = other.machine) (names : place.names = other.names) :
    place = other := by
  obtain ⟨_, above, name⟩ := place
  obtain ⟨_, above', name'⟩ := other
  obtain rfl := machine
  obtain ⟨rfl, rfl⟩ := List.cons.inj (List.reverse_injective names)
  rfl

/-- What lies beneath a place lies directly beneath one that does so too, or is the place itself. -/
theorem Covers.of_owner? (h : place.Covers other) (apart : other ≠ place)
    (owned : other.owner? = some owner) : place.Covers owner := by
  have beneath := eq_inner_of_owner? owned
  obtain ⟨machine, names⟩ := h
  rw [beneath] at machine
  refine ⟨machine, ?_⟩
  rcases List.prefix_concat_iff.1 (names_inner owner other.name ▸ beneath ▸ names) with same | within
  · rw [← names_inner, ← beneath] at same
    exact absurd (eq_of_names_eq (machine.trans (by rw [beneath]; rfl)) same).symm apart
  · exact within

end Address

/-- The state at the place is the one that its owner selects.  So is a root. -/
def isSelected (selection : Address → Option String) (place : Address) : Bool :=
  place.owner?.all fun owner => selection owner = some place.name

/-- A place with nothing above is selected. -/
theorem isSelected_root {place : Address} (top : place.above = [])
    (selection : Address → Option String) : isSelected selection place = true := by
  rw [isSelected, Address.owner?_root top]
  rfl

/-- Where a selection changes beneath the place only, whether the place is selected does not. -/
theorem AgreeOff.isSelected_eq {place : Address} {selection selection' : Address → Option String}
    (h : AgreeOff place selection selection') :
    isSelected selection' place = isSelected selection place := by
  rcases owned : place.owner? with _ | owner
  · simp [isSelected, owned]
  · simp [isSelected, owned, h owner (Address.not_covers_owner owned)]

/-- What the marks so far tell. -/
structure Ledger where
  /-- Name of the inner state that the state at a place selects. -/
  selection : Address → Option String
  /-- What the last cycle of the state at a place has taken out of its mailbox. -/
  hand : Address → Option Command

namespace Ledger

variable {ledger ledger' : Ledger} {mark : Mark} {marks : List Mark} {place : Address}

/-- A state has been selected. -/
def select (place : Address) (selection : Address → Option String) : Address → Option String :=
  match place.owner? with
  | none => selection
  | some owner => Function.update selection owner (some place.name)

/-- The ledger after a mark.  A mark that is not good by the ledger has no answer. -/
def next (ledger : Ledger) : Mark → Option Ledger
  | .called call =>
    if call.view.command = none ∨ call.view.command = ledger.hand call.state then some ledger
    else none
  | .taken place command =>
    if isSelected ledger.selection place then
      some { ledger with hand := Function.update ledger.hand place command }
    else none
  | .handed place command =>
    if place.owner?.bind ledger.hand = some command then some ledger else none
  | .selected place => some { ledger with selection := select place ledger.selection }
  | .quieted _ => some ledger

/-- Only a selection changes what is selected. -/
theorem selection_of_next (h : ledger.next mark = some ledger') :
    ledger'.selection = ledger.selection ∨
      ∃ other, mark = .selected other ∧ ledger'.selection = select other ledger.selection := by
  cases mark with
  | called call =>
    simp only [next, Option.ite_none_right_eq_some, Option.some.injEq] at h
    exact .inl (h.2 ▸ rfl)
  | taken other command =>
    simp only [next, Option.ite_none_right_eq_some, Option.some.injEq] at h
    exact .inl (h.2 ▸ rfl)
  | handed other command =>
    simp only [next, Option.ite_none_right_eq_some, Option.some.injEq] at h
    exact .inl (h.2 ▸ rfl)
  | selected other => exact .inr ⟨other, rfl, congrArg Ledger.selection (Option.some.inj h).symm⟩
  | quieted other => exact .inl (congrArg Ledger.selection (Option.some.inj h).symm)

/-- Selecting a state below a place changes selections at the place and below it only. -/
theorem agreeOff_select {other : Address} (selection : Address → Option String)
    (covers : place.Covers other) (apart : other ≠ place) :
    AgreeOff place selection (select other selection) := by
  rcases owned : other.owner? with _ | owner
  · rw [select, owned]
    exact .refl _ _
  · rw [select, owned]
    exact (agreeOff_update _ _ _).mono (Address.Covers.of_owner? covers apart owned)

/-- Where all that is selected is below a place, selections change at the place and below it only. -/
theorem agreeOff_of_next (h : marks.foldlM next ledger = some ledger')
    (beneath : ∀ other, .selected other ∈ marks → place.Covers other ∧ other ≠ place) :
    AgreeOff place ledger.selection ledger'.selection := by
  induction marks generalizing ledger with
  | nil =>
    obtain rfl : ledger = ledger' := by simpa using h
    exact .refl _ _
  | cons mark marks ih =>
    rw [List.foldlM_cons] at h
    obtain ⟨between, first, rest⟩ := Option.bind_eq_some_iff.1 h
    have later := ih rest fun other mem => beneath other (List.mem_cons_of_mem _ mem)
    rcases selection_of_next first with same | ⟨other, rfl, same⟩
    · rwa [same] at later
    · obtain ⟨covers, apart⟩ := beneath other List.mem_cons_self
      rw [same] at later
      exact (agreeOff_select ledger.selection covers apart).trans later

end Ledger

namespace Core

variable {core core' : Core H} {marks : List Mark} {ledger : Ledger}

/-- The callbacks of a cycle are good by the ledger once the command has been taken. -/
theorem Advances.next {command : Option Command} {result : Except Fault (Option Tag)}
    (h : core.Advances command marks result core') (taken : ledger.hand core.address = command) :
    marks.foldlM Ledger.next ledger = some ledger := by
  cases h with
  | refused => simp [Ledger.next, record, view, taken]
  | entered _ _ result => rcases result <;> simp [Ledger.next, record, view, taken]
  | resumed _ _ result => rcases result <;> simp [Ledger.next, record, view, taken]

/-- An exit sees no command. -/
theorem Leaves.next {result : Except Fault Unit} (h : core.Leaves marks result core') :
    marks.foldlM Ledger.next ledger = some ledger := by
  cases h with
  | idle => rfl
  | left _ _ result => rcases result <;> simp [Ledger.next, record, view]

end Core

namespace State

variable {core core' : Core H} {routes : Routes} {before after before' after' : List (State H)}
  {active active' chosen s s' : State H} {marks : List Mark} {ledger ledger' : Ledger}

/-- Name of the active inner state. -/
def activeName (s : State H) : Option String := s.activeChild?.map name

/-- The active inner state is the one that its owner selects. -/
theorem isSelected_active (built : (composite core routes before active after).WellBuilt)
    (shown : Shows activeName ledger.selection (composite core routes before active after)) :
    isSelected ledger.selection active.address = true := by
  have beneath : active.address = core.address.inner active.name := built.address_active
  have here : ledger.selection core.address = some active.name := (shows_composite.1 shown).1
  rw [beneath]
  simp [isSelected, here]

/-- What the active inner state becomes shows in the ledger, if its own selections do. -/
theorem shows_activeName (built : (composite core routes before active after).WellBuilt)
    (kept : core.Kept core') (same : active'.layout = active.layout)
    (shown : Shows activeName ledger.selection (composite core routes before active after))
    (agree : AgreeOff active.address ledger.selection ledger'.selection)
    (inner : Shows activeName ledger'.selection active') :
    Shows activeName ledger'.selection (composite core' routes before active' after) := by
  obtain ⟨here, others⟩ := shows_composite.1 shown
  refine shows_composite.2 ⟨?_, shows_replace built others agree inner⟩
  rw [kept.address, AgreeOff.owner agree built, here]
  have named : active'.name = active.name := congrArg Address.name (address_eq_of_layout_eq same)
  simp [activeName, activeChild?, named]

/-- A selection shows in the ledger. -/
theorem shows_select {target : String}
    (chosen_eq : (composite core routes before active after).select target =
      .composite core routes before' chosen after')
    (built : (composite core routes before active after).WellBuilt)
    (shown : Shows activeName ledger.selection (composite core routes before active after)) :
    ∃ ledger', [Mark.selected chosen.address].foldlM Ledger.next ledger = some ledger' ∧
      AgreeOff core.address ledger.selection ledger'.selection ∧
      Shows activeName ledger'.selection (composite core routes before' chosen after') := by
  obtain ⟨same, placed⟩ := children_chosen chosen_eq built
  have beneath : chosen.address = core.address.inner chosen.name := placed.address_active
  refine ⟨_, rfl, ?_, ?_⟩
  · simp only [Ledger.select, beneath, Address.owner?_inner]
    exact agreeOff_update _ _ _
  · simp only [Ledger.select, beneath, Address.owner?_inner]
    refine shows_composite.2 ⟨?_, fun child mem => ?_⟩
    · rw [Function.update_self]
      rfl
    · exact shows_inner built shown _ child (same ▸ mem)

/-- From one tree to the other the marks are good: by a ledger that shows the selections of the
first, in which the tree itself is selected, they lead to one that shows the selections of the
second, and no other selection changes. -/
def Booked (s s' : State H) (marks : List Mark) : Prop :=
  ∀ ledger : Ledger, Shows activeName ledger.selection s → isSelected ledger.selection s.address →
    ∃ ledger', marks.foldlM Ledger.next ledger = some ledger' ∧
      AgreeOff s.address ledger.selection ledger'.selection ∧
      Shows activeName ledger'.selection s'

/-- No selection changes where only the core does. -/
theorem shows_withCore (kept : s.core.Kept core') (shown : Shows activeName ledger.selection s) :
    Shows activeName ledger.selection (s.withCore core') := by
  cases s with
  | leaf core =>
    refine shows_leaf.2 ?_
    rw [kept.address]
    exact shows_leaf.1 shown
  | composite core routes before active after =>
    obtain ⟨here, others⟩ := shows_composite.1 shown
    refine shows_composite.2 ⟨?_, others⟩
    rw [kept.address]
    exact here

/-- What is good of the active inner state is good of the state. -/
theorem Booked.inner (h : Booked active active' marks)
    (built : (composite core routes before active after).WellBuilt) (kept : core.Kept core')
    (same : active'.layout = active.layout)
    (shown : Shows activeName ledger.selection (composite core routes before active after)) :
    ∃ ledger', marks.foldlM Ledger.next ledger = some ledger' ∧
      AgreeOff core.address ledger.selection ledger'.selection ∧
      Shows activeName ledger'.selection (composite core' routes before active' after) := by
  obtain ⟨ledger', fold, agree, inside⟩ :=
    h ledger ((shows_composite.1 shown).2 active (by simp)) (isSelected_active built shown)
  exact ⟨ledger', fold, AgreeOff.outer agree built,
    shows_activeName built kept same shown agree inside⟩

/-- Marks of the active inner state, and then a selection. -/
theorem Booked.turn {target : String} (h : Booked active active' marks)
    (built : (composite core routes before active after).WellBuilt) (kept : core.Kept core')
    (same : active'.layout = active.layout)
    (chosen_eq : (composite core' routes before active' after).select target =
      .composite core' routes before' chosen after')
    (shown : Shows activeName ledger.selection (composite core routes before active after)) :
    ∃ ledger', (marks ++ [Mark.selected chosen.address]).foldlM Ledger.next ledger = some ledger' ∧
      AgreeOff core.address ledger.selection ledger'.selection ∧
      Shows activeName ledger'.selection (composite core' routes before' chosen after') := by
  obtain ⟨ledger₁, fold₁, agree₁, shown₁⟩ := h.inner built kept same shown
  obtain ⟨ledger₂, fold₂, agree₂, shown₂⟩ :=
    shows_select chosen_eq (built.of_layout (layout_composite kept same)) shown₁
  rw [kept.address] at agree₂
  exact ⟨ledger₂, foldlM_trans fold₁ fold₂, agree₁.trans agree₂, shown₂⟩

/-! ## All marks are good -/

theorem Resets.booked {result : Except Fault Unit} (h : Resets s marks result s')
    (built : s.WellBuilt) : Booked s s' marks := by
  induction h with
  | exitFails left =>
    exact fun ledger shown _ => ⟨ledger, left.next, .refl _ _, shows_withCore left.kept shown⟩
  | @leaf core core' exit left =>
    exact fun ledger shown _ => ⟨ledger, left.next, .refl _ _,
      shows_withCore (s := .leaf core) left.kept.stopped shown⟩
  | innerFails left inner ih =>
    intro ledger shown _
    obtain ⟨ledger', fold, agree, shown'⟩ :=
      (ih built.inner).inner built left.kept inner.layout_eq shown
    exact ⟨ledger', foldlM_trans left.next fold, agree, shown'⟩
  | composite left inner chosen_eq ih =>
    intro ledger shown _
    obtain ⟨ledger', fold, agree, shown'⟩ :=
      (ih built.inner).turn built left.kept.stopped inner.layout_eq chosen_eq shown
    exact ⟨ledger', foldlM_trans left.next fold, agree, shown'⟩

theorem Settles.booked {outcome : Except Fault (Option Tag)} {settled : Except Fault Unit}
    (h : Settles core routes before active after outcome marks settled s')
    (built : (composite core routes before active after).WellBuilt) :
    Booked (composite core routes before active after) s' marks := by
  intro ledger shown _
  cases h with
  | failed => exact ⟨ledger, rfl, .refl _ _, shown⟩
  | stays => exact ⟨ledger, rfl, .refl _ _, shown⟩
  | unknown => exact ⟨ledger, rfl, .refl _ _, shown⟩
  | innerFails leads inner =>
    exact (inner.booked built.inner).inner built ⟨rfl, rfl⟩ inner.layout_eq shown
  | follows leads inner chosen_eq =>
    exact (inner.booked built.inner).turn built ⟨rfl, rfl⟩ inner.layout_eq chosen_eq shown

/-- A command that is handed down is what the state above has taken. -/
theorem Hands.next {command : Option Command} (h : Hands active.address command marks)
    (built : (composite core routes before active after).WellBuilt)
    (taken : ledger.hand core.address = command) :
    marks.foldlM Ledger.next ledger = some ledger := by
  have beneath : active.address = core.address.inner active.name := built.address_active
  cases h with
  | nothing => rfl
  | handed command => simp [Ledger.next, beneath, taken]

/-- What a state's own cycle takes and shows to its callbacks is good by the ledger. -/
theorem advances_next {command : Option Command} {calls : List Mark}
    {result : Except Fault (Option Tag)} (h : core.Advances command calls result core')
    (selected : isSelected ledger.selection core.address) :
    (Mark.taken core.address command :: calls).foldlM Ledger.next ledger =
      some { ledger with hand := Function.update ledger.hand core.address command } := by
  rw [List.foldlM_cons, Ledger.next, if_pos selected]
  exact h.next (Function.update_self _ _ _)

theorem Cycles.booked {outcome : Except Fault (Option Tag)} (h : Cycles s marks outcome s')
    (built : s.WellBuilt) : Booked s s' marks := by
  induction h with
  | fails advanced =>
    exact fun ledger shown selected => ⟨_, advances_next advanced selected, .refl _ _,
      shows_withCore advanced.kept shown⟩
  | @leaf core core' command calls requested advanced =>
    exact fun ledger shown selected => ⟨_, advances_next advanced selected, .refl _ _,
      shows_withCore (s := .leaf core) advanced.kept shown⟩
  | @composite core core' routes before after active active' s' command calls down marks marks'
      requested outcome settled advanced hands inner settles ih =>
    intro ledger shown selected
    let taken : Ledger := { ledger with hand := Function.update ledger.hand core.address command }
    have handed : down.foldlM Ledger.next taken = some taken :=
      hands.next built (Function.update_self _ _ _)
    have shown' : Shows activeName taken.selection _ := shown
    obtain ⟨ledger₁, fold₁, agree₁, shown₁⟩ :=
      (ih built.inner).inner built advanced.kept inner.layout_eq shown'
    have placed := built.of_layout (layout_composite advanced.kept inner.layout_eq)
    have same : (State.composite core' routes before active' after).address = core.address :=
      advanced.kept.address
    have still : isSelected ledger₁.selection core.address := by
      rw [agree₁.isSelected_eq]
      exact selected
    obtain ⟨ledger₂, fold₂, agree₂, shown₂⟩ :=
      settles.booked placed ledger₁ shown₁ (same ▸ still)
    rw [same] at agree₂
    exact ⟨ledger₂, foldlM_trans (advances_next advanced selected)
      (foldlM_trans handed (foldlM_trans fold₁ fold₂)), agree₁.trans agree₂, shown₂⟩

theorem Quiets.booked (h : Quiets s marks s') (built : s.WellBuilt) : Booked s s' marks := by
  have quieted (ledger : Ledger) (place : Address) :
      [Mark.quieted place].foldlM Ledger.next ledger = some ledger := rfl
  induction h with
  | leaf core =>
    exact fun ledger shown _ => ⟨ledger, quieted _ _, .refl _ _,
      shows_withCore (s := .leaf core) ⟨rfl, rfl⟩ shown⟩
  | composite inner chosen_eq ih =>
    intro ledger shown _
    obtain ⟨ledger', fold, agree, shown'⟩ :=
      (ih built.inner).turn built (Core.kept_stopped _) inner.layout_eq chosen_eq shown
    refine ⟨ledger', ?_, agree, shown'⟩
    rw [← List.singleton_append]
    exact foldlM_trans (quieted _ _) fold

theorem Points.booked {names : List String} (h : Points names s marks s') (built : s.WellBuilt) :
    Booked s s' marks := by
  induction h with
  | here s => exact fun ledger shown _ => ⟨ledger, rfl, .refl _ _, shown⟩
  | leaf name names core => exact fun ledger shown _ => ⟨ledger, rfl, .refl _ _, shown⟩
  | along inner ih =>
    exact fun ledger shown _ => (ih built.inner).inner built ⟨rfl, rfl⟩ inner.layout_eq shown
  | turns other quiets chosen_eq inner ih =>
    intro ledger shown _
    obtain ⟨ledger₁, fold₁, agree₁, shown₁⟩ := (quiets.booked built.inner).turn built ⟨rfl, rfl⟩
      quiets.layout_eq chosen_eq shown
    obtain ⟨-, placed⟩ := children_chosen chosen_eq
      (built.of_layout (layout_active quiets.layout_eq))
    obtain ⟨ledger₂, fold₂, agree₂, shown₂⟩ :=
      (ih placed.inner).inner placed ⟨rfl, rfl⟩ inner.layout_eq shown₁
    rw [List.append_cons]
    exact ⟨ledger₂, foldlM_trans fold₁ fold₂, agree₁.trans agree₂, shown₂⟩

/-- The outline shows all selections. -/
theorem shows_activeName_of_outline (shown : Shows activeName ledger.selection s)
    (eq : s'.outline = s.outline) : Shows activeName ledger.selection s' := by
  have named (t : State H) : t.outline.activeName = t.activeName := by
    rw [activeName, activeChild?_outline, Option.map_map]
    exact congrFun (congrArg Option.map (funext name_outline)) t.activeChild?
  intro t mem
  obtain ⟨u, there, same⟩ := exists_of_outline_eq eq mem
  rw [← address_outline, ← named, ← same, address_outline, named]
  exact shown u there

theorem Performs.booked {operation : Operation H} {σ σ' : Store H}
    (h : Performs s σ operation s' σ') (built : s.WellBuilt) :
    ∃ marks, Store.Fires σ σ' marks ∧ Booked s s' marks := by
  cases h with
  | cycle cycles fired => exact ⟨_, fired, cycles.booked built⟩
  | reset resets fired => exact ⟨_, fired, resets.booked built⟩
  | path sets points fired => exact ⟨_, fired, points.booked built⟩
  | outline same fired =>
    exact ⟨[], fired, fun ledger shown _ =>
      ⟨ledger, rfl, .refl _ _, shows_activeName_of_outline shown same⟩⟩

end State

namespace Machine

open State

variable [Conduct H] {machine : Machine H}

/-- All marks of a move are good. -/
theorem booked_move (built : machine.root.WellBuilt) (move : Move H) :
    ∃ marks, Store.Fires machine.store (machine.move move).2.store marks ∧
      Booked machine.root (machine.move move).2.root marks := by
  revert built
  refine move_induction (motive := fun s σ s' σ' => s.WellBuilt →
    ∃ marks, Store.Fires σ σ' marks ∧ Booked s s' marks) move ?_ ?_
  · intro depth operation _ built
    have kept := onActive_induction
      (motive := fun s σ s' σ' => s.WellBuilt →
        s'.layout = s.layout ∧ ∃ marks, Store.Fires σ σ' marks ∧ Booked s s' marks)
      (fun _ _ _ _ (performs : Performs _ _ operation _ _) built =>
        ⟨performs.layout_eq, performs.booked built⟩)
      (fun core σ _ => ⟨rfl, [], .refl σ, fun ledger shown _ => ⟨ledger, rfl, .refl _ _, shown⟩⟩)
      (fun core routes before active after active' σ σ' kept built => by
        obtain ⟨same, marks, fired, booked⟩ := kept built.inner
        exact ⟨layout_active same, marks, fired,
          fun ledger shown _ => booked.inner built ⟨rfl, rfl⟩ same shown⟩)
      depth machine.root machine.store built
    exact kept.2
  · exact fun σ fired _ => ⟨[], fired, fun ledger shown _ => ⟨ledger, rfl, .refl _ _, shown⟩⟩

/-- All marks of a run are good. -/
theorem booked_run (built : machine.root.WellBuilt) (moves : List (Move H)) :
    ∃ marks, Store.Fires machine.store (machine.run moves).2.store marks ∧
      Booked machine.root (machine.run moves).2.root marks := by
  induction moves generalizing machine with
  | nil => exact ⟨[], .refl _, fun ledger shown _ => ⟨ledger, rfl, .refl _ _, shown⟩⟩
  | cons move moves ih =>
    obtain ⟨marks, fired, booked⟩ := booked_move built move
    have same := layout_move machine move
    obtain ⟨marks', fired', booked'⟩ := ih (built.of_layout same)
    refine ⟨marks ++ marks', fired.trans fired', fun ledger shown selected => ?_⟩
    obtain ⟨ledger₁, fold₁, agree₁, shown₁⟩ := booked ledger shown selected
    rw [Booked, address_eq_of_layout_eq same] at booked'
    obtain ⟨ledger₂, fold₂, agree₂, shown₂⟩ := booked' ledger₁ shown₁ (by
      rw [agree₁.isSelected_eq]
      exact selected)
    exact ⟨ledger₂, foldlM_trans fold₁ fold₂, agree₁.trans agree₂, shown₂⟩

end Machine

end Statechart
