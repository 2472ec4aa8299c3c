import Statechart.Proofs.Ledger
import Statechart.Proofs.Reaching

/-!
# Receipts for commands

A mailbox that accepts a command gives a receipt for it, which says whether the state was then the
one that its owner selects.  Receipts go where the commands go: from a mailbox to the hand of the
state whose cycle takes it out, and from there down to the mailbox of an inner state.  A command
that was accepted for a state that was not selected stays in the one mailbox, and is thrown away
when the state is selected, so callbacks only see commands of states that were selected.
-/
namespace Statechart

variable {H : Host}

/-- Selecting another state does not make a state selected. -/
theorem isSelected_of_select {place other : Address} {selection : Address → Option String}
    (apart : other ≠ place) (h : isSelected (Ledger.select other selection) place) :
    isSelected selection place := by
  rcases owned : other.owner? with _ | owner
  · rwa [Ledger.select, owned] at h
  · rcases owned' : place.owner? with _ | owner'
    · simp [isSelected, owned']
    · by_cases same : owner' = owner
      · subst same
        have named : other.name = place.name := by
          simpa [isSelected, owned', Ledger.select, owned] using h
        have eq := Address.eq_inner_of_owner? owned
        rw [named, ← Address.eq_inner_of_owner? owned'] at eq
        contradiction
      · simpa [isSelected, owned', Ledger.select, owned, same] using h

/-- What a mailbox says about a command that it accepts. -/
structure Receipt where
  command : Command
  /-- The state whose mailbox it is. -/
  place : Address
  /-- The state was then the one that its owner selects. -/
  selected : Bool
  deriving DecidableEq

/-- Where the commands of a run are. -/
structure Custody where
  /-- Name of the inner state that the state at a place selects. -/
  selection : Address → Option String
  /-- The receipt for what waits in a mailbox. -/
  waits : Address → Option Receipt
  /-- The receipt for what the last cycle of a state has taken out. -/
  hand : Address → Option Receipt

namespace Custody

variable {custody : Custody} {waiting waiting' : Address → Option Command} {book : Ledger}
  {place : Address} {receipt : Option Receipt}

/-- What now waits in a mailbox is this. -/
def put (custody : Custody) (place : Address) (receipt : Option Receipt) : Custody :=
  { custody with waits := Function.update custody.waits place receipt }

/-- The receipt for a command that is accepted. -/
def accept (custody : Custody) (place : Address) (command : Command) : Receipt :=
  ⟨command, place, isSelected custody.selection place⟩

/-- A cycle takes out what waits. -/
def take (custody : Custody) (place : Address) : Custody :=
  { custody.put place none with hand := Function.update custody.hand place (custody.waits place) }

/-- A state is selected, and its mailbox is emptied. -/
def select (custody : Custody) (place : Address) : Custody :=
  { custody.put place none with selection := Ledger.select place custody.selection }

/-- Where the commands are after an event. -/
def next (custody : Custody) : Event H → Custody
  | .mail place (.posted command true) => custody.put place (some (custody.accept place command))
  | .mail place (.handed _) => custody.put place (place.owner?.bind custody.hand)
  | .mail place (.taken _) => custody.take place
  | .mail place (.discarded _) | .mail place (.abandoned _) => custody.put place none
  | .mail place (.selected _) => custody.select place
  | _ => custody

/-- What the marks tell of it. -/
def ledger (custody : Custody) : Ledger :=
  ⟨custody.selection, fun place => (custody.hand place).map Receipt.command⟩

/-- What a state takes is in its hand. -/
theorem ledger_take (custody : Custody) (place : Address) :
    (custody.take place).ledger = { custody.ledger with
      hand := Function.update custody.ledger.hand place
        ((custody.waits place).map Receipt.command) } :=
  congrArg (Ledger.mk custody.selection)
    (Function.comp_update (Option.map Receipt.command) custody.hand place (custody.waits place))

/-- The receipts are for what waits.  One of a state that was not selected is still in the state's
mailbox, and the state is still not selected. -/
structure Fair (custody : Custody) (waiting : Address → Option Command) : Prop where
  waits_eq : ∀ place, (custody.waits place).map Receipt.command = waiting place
  stale : ∀ place receipt, custody.waits place = some receipt →
    receipt.selected ∨ isSelected custody.selection place = false
  fresh : ∀ place receipt, custody.hand place = some receipt → receipt.selected

theorem Fair.put (fair : custody.Fair waiting) (told : receipt.map Receipt.command = waiting' place)
    (others : ∀ other, place ≠ other → waiting' other = waiting other)
    (stale : ∀ r, receipt = some r → r.selected ∨ isSelected custody.selection place = false) :
    (custody.put place receipt).Fair waiting' := by
  refine ⟨fun other => ?_, fun other r held => ?_, fair.fresh⟩
  · by_cases here : place = other
    · subst here
      simpa [Custody.put] using told
    · simpa [Custody.put, Function.update_of_ne (Ne.symm here), others other here]
        using fair.waits_eq other
  · by_cases here : place = other
    · subst here
      exact stale r (by simpa [Custody.put] using held)
    · exact fair.stale other r (by simpa [Custody.put, Function.update_of_ne (Ne.symm here)] using held)

/-- A mailbox is emptied. -/
theorem Fair.empty (fair : custody.Fair waiting) (told : waiting' place = none)
    (others : ∀ other, place ≠ other → waiting' other = waiting other) :
    (custody.put place none).Fair waiting' :=
  fair.put (by rw [told]; rfl) others (by simp)

/-- What a selected state takes was accepted for a selected state. -/
theorem Fair.take (fair : custody.Fair waiting) (selected : isSelected custody.selection place)
    (told : waiting' place = none)
    (others : ∀ other, place ≠ other → waiting' other = waiting other) :
    (custody.take place).Fair waiting' := by
  have left := fair.empty told others
  refine ⟨left.waits_eq, left.stale, fun other r held => ?_⟩
  by_cases here : other = place
  · subst here
    have waits : custody.waits other = some r := by simpa [Custody.take] using held
    rcases fair.stale other r waits with fresh | unselected
    · exact fresh
    · rw [unselected] at selected
      contradiction
  · exact fair.fresh other r (by simpa [Custody.take, Function.update_of_ne here] using held)

/-- Selecting a state leaves nothing waiting for it, and leaves the others as they are. -/
theorem Fair.select (fair : custody.Fair waiting) (told : waiting' place = none)
    (others : ∀ other, place ≠ other → waiting' other = waiting other) :
    (custody.select place).Fair waiting' := by
  have left := fair.empty told others
  refine ⟨left.waits_eq, fun other r held => ?_, left.fresh⟩
  by_cases here : place = other
  · subst here
    simp [Custody.select, Custody.put] at held
  · refine (left.stale other r held).imp_right fun unselected => ?_
    by_contra selected
    rw [Bool.not_eq_false] at selected
    exact Bool.false_ne_true (unselected.symm.trans (isSelected_of_select here selected))

/-- Where the commands are after an event that is good by the ledger and leaves waiting what then
waits. -/
theorem Fair.next {event : Event H} (fair : custody.Fair waiting)
    (good : (marksIn [event]).foldlM Ledger.next custody.ledger = some book)
    (told : ∀ place, event.waits place (waiting place) = some (waiting' place)) :
    book = (custody.next event).ledger ∧ (custody.next event).Fair waiting' := by
  have still (same : ∀ place, some (waiting place) = some (waiting' place)) : custody.Fair waiting' := by
    rwa [show waiting' = waiting from funext fun place => (Option.some.inj (same place)).symm]
  cases event with
  | called call =>
    simp only [marksIn, List.filterMap, Event.mark?, List.foldlM_cons, List.foldlM_nil, bind_pure,
      Ledger.next] at good
    split at good
    · exact ⟨(Option.some.inj good).symm, still told⟩
    · contradiction
  | mail place step =>
    have others (other : Address) (apart : place ≠ other) : waiting' other = waiting other := by
      have kept := told other
      rw [Event.waits, if_neg apart] at kept
      exact (Option.some.inj kept).symm
    have here : step.waits (waiting place) = some (waiting' place) := by
      simpa [Event.waits] using told place
    have gone {command : Option Command}
        (emptied : (if command = waiting place then some none else none) = some (waiting' place)) :
        command = waiting place ∧ waiting' place = none := by
      split at emptied
      · exact ⟨‹_›, (Option.some.inj emptied).symm⟩
      · contradiction
    cases step with
    | posted command accepted =>
      obtain rfl := Option.some.inj good
      cases accepted with
      | false =>
        refine ⟨rfl, still fun other => ?_⟩
        by_cases apart : place = other
        · subst apart
          exact here
        · rw [others other apart]
      | true =>
        refine ⟨rfl, fair.put (Option.some.inj here) others fun receipt given => ?_⟩
        obtain rfl := Option.some.inj given
        simp only [accept]
        cases isSelected custody.selection place <;> simp
    | handed command =>
      simp only [marksIn, List.filterMap, Event.mark?, List.foldlM_cons, List.foldlM_nil, bind_pure,
        Ledger.next] at good
      split at good
      · next known =>
        refine ⟨(Option.some.inj good).symm, fair.put ?_ others fun receipt given => ?_⟩
        · rw [← Option.some.inj here, ← known]
          cases place.owner? <;> rfl
        · obtain ⟨owner, -, held⟩ := Option.bind_eq_some_iff.1 given
          exact .inl (fair.fresh owner receipt held)
      · contradiction
    | taken command =>
      simp only [marksIn, List.filterMap, Event.mark?, List.foldlM_cons, List.foldlM_nil, bind_pure,
        Ledger.next] at good
      split at good
      · next selected =>
        obtain ⟨rfl, emptied⟩ := gone here
        refine ⟨?_, fair.take selected emptied others⟩
        rw [← Option.some.inj good, ← fair.waits_eq place, Custody.next, ledger_take]
      · contradiction
    | discarded command => exact ⟨(Option.some.inj good).symm, fair.empty (gone here).2 others⟩
    | abandoned command => exact ⟨(Option.some.inj good).symm, fair.empty (gone here).2 others⟩
    | selected command =>
      exact ⟨(Option.some.inj good).symm, fair.select (gone here).2 others⟩
  | _ => exact ⟨(Option.some.inj good).symm, still told⟩

/-- Where the commands are after some events. -/
def after (custody : Custody) (events : List (Event H)) : Custody := events.foldl next custody

theorem Fair.after {events : List (Event H)} (fair : custody.Fair waiting)
    (good : (marksIn events).foldlM Ledger.next custody.ledger = some book)
    (told : ∀ place, events.foldlM (Event.waits place) (waiting place) = some (waiting' place)) :
    book = (custody.after events).ledger ∧ (custody.after events).Fair waiting' := by
  induction events generalizing custody waiting with
  | nil =>
    obtain rfl := funext fun place => Option.some.inj (told place)
    exact ⟨(Option.some.inj good).symm, fair⟩
  | cons event events ih =>
    rw [← List.singleton_append, marksIn_append] at good
    obtain ⟨book₁, good₁, good₂⟩ := foldlM_split good
    have told' (place : Address) : ∃ between, event.waits place (waiting place) = some between ∧
        events.foldlM (Event.waits place) between = some (waiting' place) := by
      simpa [Option.bind_eq_some_iff] using told place
    choose waiting₁ told₁ told₂ using told'
    obtain ⟨rfl, fair₁⟩ := fair.next good₁ told₁
    exact ih fair₁ good₂ told₂

/-- A selection changes where a state is selected, and nowhere else. -/
theorem selection_next (custody : Custody) (event : Event H) :
    (custody.next event).selection = custody.selection ∨
    ∃ place command, event = .mail place (.selected command) ∧
      (custody.next event).selection = Ledger.select place custody.selection := by
  cases event with
  | mail place step =>
    cases step with
    | posted command accepted => cases accepted <;> exact .inl rfl
    | selected command => exact .inr ⟨place, command, rfl, rfl⟩
    | _ => exact .inl rfl
  | _ => exact .inl rfl

/-- A state that becomes selected on the way has been selected there. -/
theorem exists_selected {events : List (Event H)}
    (before : isSelected custody.selection place = false)
    (after : isSelected (custody.after events).selection place) :
    ∃ command, .mail place (.selected command) ∈ events := by
  induction events generalizing custody with
  | nil => exact absurd (before.symm.trans after) Bool.false_ne_true
  | cons event events ih =>
    by_cases here : isSelected (custody.next event).selection place
    · rcases custody.selection_next event with same | ⟨other, command, rfl, same⟩
      · rw [same] at here
        exact absurd (before.symm.trans here) Bool.false_ne_true
      · rw [same] at here
        by_cases apart : other = place
        · exact ⟨command, apart ▸ List.mem_cons_self⟩
        · exact absurd (before.symm.trans (isSelected_of_select apart here)) Bool.false_ne_true
    · obtain ⟨command, mem⟩ := ih (by simpa using here) after
      exact ⟨command, List.mem_cons_of_mem _ mem⟩

/-- At any moment on the way the receipts are in order, and what follows is good from there. -/
theorem Fair.cut {earlier later : List (Event H)} (fair : custody.Fair waiting)
    (good : (marksIn (earlier ++ later)).foldlM Ledger.next custody.ledger = some book)
    (told : ∀ place,
      (earlier ++ later).foldlM (Event.waits place) (waiting place) = some (waiting' place)) :
    ∃ between, (custody.after earlier).Fair between ∧
      (marksIn later).foldlM Ledger.next (custody.after earlier).ledger = some book := by
  rw [marksIn_append] at good
  obtain ⟨book₁, good₁, good₂⟩ := foldlM_split good
  choose between told₁ _ using fun place => foldlM_split (told place)
  obtain ⟨rfl, fair₁⟩ := fair.after good₁ told₁
  exact ⟨between, fair₁, good₂⟩

/-- A callback sees what its state has in its hand. -/
theorem Fair.seen {call : Call} {later : List (Event H)} {command : Command}
    (fair : custody.Fair waiting)
    (good : (marksIn (.called call :: later)).foldlM Ledger.next custody.ledger = some book)
    (sees : call.view.command = some command) :
    ∃ receipt, custody.hand call.state = some receipt ∧ receipt.command = command ∧
      receipt.selected := by
  simp only [marksIn, List.filterMap_cons, Event.mark?, List.foldlM_cons, Ledger.next, sees] at good
  split at good
  · next known =>
    have held : (custody.hand call.state).map Receipt.command = some command := by
      simpa [ledger, eq_comm] using known
    obtain ⟨receipt, taken, rfl⟩ := Option.map_eq_some_iff.1 held
    exact ⟨receipt, taken, rfl, fair.fresh _ _ taken⟩
  · contradiction

/-- Only a selected state takes. -/
theorem isSelected_of_taken {command : Option Command} {later : List (Event H)}
    (good : (marksIn (.mail place (.taken command) :: later)).foldlM Ledger.next custody.ledger =
      some book) : isSelected custody.selection place := by
  simp only [marksIn, List.filterMap_cons, Event.mark?, List.foldlM_cons, Ledger.next] at good
  split at good
  · next selected => exact selected
  · contradiction

/-- The receipts at the start.  What waits then counts as accepted just then. -/
def first (s : State H) (σ : Store H) : Custody :=
  ⟨s.lookup State.activeName, fun place => (σ.waiting place).map fun command =>
    ⟨command, place, isSelected (s.lookup State.activeName) place⟩, fun _ => none⟩

theorem fair_first (s : State H) (σ : Store H) : (first s σ).Fair σ.waiting := by
  refine ⟨fun place => ?_, fun place receipt held => ?_, fun place receipt held => ?_⟩
  · simp [first, Function.comp_def]
  · obtain ⟨command, -, rfl⟩ := Option.map_eq_some_iff.1 held
    simp only [first]
    cases isSelected (s.lookup State.activeName) place <;> simp
  · nomatch held

end Custody

namespace Machine

open State

/-- Where the commands are after some events of a run that starts with the machine. -/
def custody (machine : Machine H) (events : List (Event H)) : Custody :=
  (Custody.first machine.root machine.store).after events

variable [Conduct H] {machine : Machine H}

/-- All that a run records is good by what was known at the start, and leads to what is the case at
the end. -/
theorem good_run_of_built (built : machine.root.WellBuilt) (top : machine.root.address.above = [])
    (moves : List (Move H)) :
    let final := (machine.run moves).2
    let events := Store.since machine.store final.store
    Store.Records machine.store final.store events ∧
    (marksIn events).foldlM Ledger.next (Custody.first machine.root machine.store).ledger =
      some (machine.custody events).ledger ∧
    Shows activeName (machine.custody events).selection final.root ∧
    (machine.custody events).Fair final.store.waiting := by
  obtain ⟨marks, fired, booked⟩ := booked_run built moves
  let start := Custody.first machine.root machine.store
  obtain ⟨book, fold, -, shown⟩ :=
    booked start.ledger (built.shows_lookup activeName) (isSelected_root top _)
  rw [← fired.marksIn_since] at fold
  obtain ⟨rfl, fair⟩ :=
    (Custody.fair_first machine.root machine.store).after fold fired.records.mailboxes
  exact ⟨fired.records, fold, shown, fair⟩

theorem good_run (started : machine.Started) (moves : List (Move H)) :
    let final := (machine.run moves).2
    let events := Store.since machine.store final.store
    Store.Records machine.store final.store events ∧
    (marksIn events).foldlM Ledger.next (Custody.first machine.root machine.store).ledger =
      some (machine.custody events).ledger ∧
    Shows activeName (machine.custody events).selection final.root ∧
    (machine.custody events).Fair final.store.waiting :=
  good_run_of_built started.built.1 started.built.2.2 moves

/-- Callbacks only see commands that were accepted for states that were selected.  A command that was
accepted for a state that was not is not taken before the state is selected, and then its mailbox is
emptied.  Nothing more is promised of states that are off the chain: one that its owner selects is
brought onto the chain by its path with what waits for it. -/
theorem commands_of_unselected_never_seen (started : machine.Started) (moves : List (Move H)) :
    let final := (machine.run moves).2
    let events := Store.since machine.store final.store
    (∀ s ∈ final.root.subtree, (machine.custody events).selection s.address = s.activeName) ∧
    (∀ place, ((machine.custody events).waits place).map Receipt.command =
      final.store.waiting place) ∧
    (∀ earlier call later command, events = earlier ++ .called call :: later →
      call.view.command = some command →
      ∃ receipt, (machine.custody earlier).hand call.state = some receipt ∧
        receipt.command = command ∧ receipt.selected) ∧
    (∀ earlier place command between taken later,
      events = earlier ++ .mail place (.posted command true) ::
        (between ++ .mail place (.taken taken) :: later) →
      isSelected (machine.custody earlier).selection place = false →
      ∃ old, .mail place (.selected old) ∈ between) ∧
    (∀ owner ∈ final.root.subtree, ∀ t text path, owner.activeChild? = some t →
      StatePath.parse text = .ok path → path.segments = t.address.names →
      let reached := final.move (.operate 0 (.setPath text))
      reached.1 = .outcome .done ∧ t ∈ reached.2.root.chain ∧
        reached.2.store.waiting t.address = final.store.waiting t.address) := by
  obtain ⟨recorded, good, shown, fair⟩ := good_run started moves
  have first := Custody.fair_first machine.root machine.store
  have told := recorded.mailboxes
  refine ⟨shown, fair.waits_eq, ?_, ?_, ?_⟩
  · intro earlier call later command cut sees
    rw [cut] at good told
    obtain ⟨between, fair₁, good₁⟩ := first.cut good told
    exact fair₁.seen good₁ sees
  · intro earlier place command between taken later cut unselected
    have cut' : Store.since machine.store (machine.run moves).2.store =
        (earlier ++ .mail place (.posted command true) :: between) ++
          .mail place (.taken taken) :: later := by
      rw [cut, List.append_assoc, List.cons_append]
    rw [cut'] at good told
    obtain ⟨-, -, good₁⟩ := first.cut good told
    have selected := Custody.isSelected_of_taken good₁
    rw [Custody.after, List.foldl_append, List.foldl_cons] at selected
    -- accepting the command has not selected anything
    have still : isSelected ((machine.custody earlier).next
        (.mail place (.posted command true) : Event H)).selection place = false := unselected
    exact Custody.exists_selected still selected
  · intro owner mem t text path selects parsed leads
    obtain ⟨built, -, top⟩ := started.built
    have same := layout_run machine moves
    exact setPath_reaches (built.of_layout same) (by rw [address_eq_of_layout_eq same, top]) mem
      selects parsed leads

/-- Moves that post an order to the state that works before it is selected, and then turn to it. -/
def Sample.tooEarly : List (Move Script.stage) :=
  [.post Sample.work Sample.order, .operate 0 .cycle, .operate 0 .cycle]

/-- The order is accepted, and no callback sees it. -/
theorem commands_of_unselected_never_seen_sample :
    let final := (Sample.machine.run Sample.tooEarly).2
    let events := Store.since Sample.machine.store final.store
    Sample.machine.Started ∧ (Sample.machine.run Sample.tooEarly).1.head? = some (.accepted true) ∧
    (∀ s ∈ final.root.subtree,
      (Sample.machine.custody events).selection s.address = s.activeName) ∧
    (∀ place, ((Sample.machine.custody events).waits place).map Receipt.command =
      final.store.waiting place) ∧
    ∀ call ∈ callsIn events, call.view.command ≠ some Sample.order := by
  have accounts := commands_of_unselected_never_seen Sample.machine_started Sample.tooEarly
  exact ⟨Sample.machine_started, by decide +kernel, accounts.1, accounts.2.1, by decide +kernel⟩

/-- An order that is posted to a state off the chain is seen after all, if the state's owner selects
it and the path brings it onto the chain. -/
theorem command_of_idle_seen :
    let posted := Sample.machine.move (.post Sample.part Sample.order)
    let final := (posted.2.run [.operate 0 (.setPath "R->Work"), .operate 0 .cycle]).2
    Sample.machine.Started ∧
    (∀ s ∈ Sample.machine.root.subtree, Sample.machine.store.waiting s.address = none) ∧
    (∀ s ∈ Sample.machine.root.chain, s.address ≠ Sample.part) ∧ posted.1 = .accepted true ∧
    ∃ call ∈ callsIn (Store.since posted.2.store final.store),
      call.view.command = some Sample.order := by
  refine ⟨Sample.machine_started, ?_, ?_, ?_, ?_⟩ <;> decide +kernel

end Machine

end Statechart
