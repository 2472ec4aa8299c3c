import Statechart.Proofs.Ledger
import Statechart.Proofs.Spans

/-!
# How far a cycle reaches

Whatever is done about a state concerns its own place and those beneath it.  That the state itself is
selected, or is handed a command, is no part of it: both are up to the state above.
-/
namespace Statechart

variable {H : Host}

/-- The mark concerns the place or one beneath it, and is not up to whatever is above the place. -/
structure Mark.Within (place : Address) (mark : Mark) : Prop where
  covers : place.Covers mark.place
  unselected : mark ≠ .selected place
  unhanded : ∀ command, mark ≠ .handed place command

namespace Mark

variable {place : Address} {name : String} {mark : Mark}

/-- A mark about an inner place. -/
theorem within_of_place (beneath : mark.place = place.inner name) : mark.Within place := by
  have apart : place.inner name ≠ place := fun same =>
    Address.not_inner_covers place name (by rw [same]; exact Address.covers_refl _)
  refine ⟨beneath ▸ Address.covers_inner place name, ?_, ?_⟩
  · rintro rfl
    exact apart beneath.symm
  · rintro command rfl
    exact apart beneath.symm

/-- What is within an inner place is within the place. -/
theorem Within.outer (h : mark.Within (place.inner name)) : mark.Within place := by
  refine ⟨(Address.covers_inner place name).trans h.covers, ?_, ?_⟩
  · rintro rfl
    exact Address.not_inner_covers place name h.covers
  · rintro command rfl
    exact Address.not_inner_covers place name h.covers

/-- What is selected within a place is below it. -/
theorem Within.of_selected {other : Address} (h : (Mark.selected other).Within place) :
    place.Covers other ∧ other ≠ place :=
  ⟨h.covers, fun same => h.unselected (same ▸ rfl)⟩

end Mark

namespace Core

variable {core core' : Core H} {marks : List Mark}

theorem Advances.within {command : Option Command} {result : Except Fault (Option Tag)}
    (h : core.Advances command marks result core') :
    ∀ mark ∈ marks, mark.Within core.address := by
  have called (phase : Phase) {α : Type} (requests : α → Option Tag) (result : Except Fault α) :
      (Mark.called (core.record phase requests command result)).Within core.address := by
    cases result <;> exact ⟨Address.covers_refl _, by simp, by simp⟩
  cases h with
  | refused => simpa using called .entry (fun _ : Unit => none) _
  | entered => simpa using ⟨called .entry (fun _ : Unit => none) _, called .step id _⟩
  | resumed => simpa using called .step id _

theorem Leaves.within {result : Except Fault Unit} (h : core.Leaves marks result core') :
    ∀ mark ∈ marks, mark.Within core.address := by
  cases h with
  | idle => simp
  | left _ _ result =>
    cases result <;> simpa using ⟨Address.covers_refl _, by simp, by simp⟩

end Core

namespace State

variable {core core' : Core H} {routes : Routes} {before after : List (State H)}
  {active active' s s' : State H} {marks : List Mark}

/-- What is within the active inner state is within the state. -/
theorem WellBuilt.within (built : (composite core routes before active after).WellBuilt)
    (h : ∀ mark ∈ marks, mark.Within active.address) : ∀ mark ∈ marks, mark.Within core.address := by
  intro mark mem
  have inside := h mark mem
  rw [built.address_active] at inside
  exact inside.outer

/-- A selection is within the state that selects. -/
theorem within_selected {before' after' : List (State H)} {chosen : State H}
    (placed : (composite core routes before' chosen after').WellBuilt) :
    (Mark.selected chosen.address).Within core.address :=
  Mark.within_of_place placed.address_active

/-- A reset is within the state. -/
theorem Resets.within {result : Except Fault Unit} (h : Resets s marks result s')
    (built : s.WellBuilt) : ∀ mark ∈ marks, mark.Within s.address := by
  induction h with
  | exitFails left => exact left.within
  | leaf left => exact left.within
  | innerFails left inner ih =>
    exact List.forall_mem_append.2 ⟨left.within, built.within (ih built.inner)⟩
  | @composite core core' routes before after before' after' active active' chosen exit marks left
      inner chosen_eq ih =>
    have placed := (children_chosen chosen_eq
      (built.of_layout (layout_composite left.kept.stopped inner.layout_eq))).2
    have selected := within_selected placed
    have same : core'.stopped.address = core.address := left.kept.stopped.address
    rw [same] at selected
    refine List.forall_mem_append.2
      ⟨left.within, List.forall_mem_append.2 ⟨built.within (ih built.inner), ?_⟩⟩
    exact fun mark mem => List.mem_singleton.1 mem ▸ selected

/-- What is done about an outcome is within the state. -/
theorem Settles.within {outcome : Except Fault (Option Tag)} {settled : Except Fault Unit}
    (h : Settles core routes before active after outcome marks settled s')
    (built : (composite core routes before active after).WellBuilt) :
    ∀ mark ∈ marks, mark.Within core.address := by
  cases h with
  | failed => simp
  | stays => simp
  | unknown => simp
  | innerFails leads inner => exact built.within (inner.within built.inner)
  | follows leads inner chosen_eq =>
    have placed := (children_chosen chosen_eq (built.of_layout (layout_active inner.layout_eq))).2
    refine List.forall_mem_append.2 ⟨built.within (inner.within built.inner), ?_⟩
    exact fun mark mem => List.mem_singleton.1 mem ▸ within_selected placed

theorem Hands.within {command : Option Command} (h : Hands active.address command marks)
    (built : (composite core routes before active after).WellBuilt) :
    ∀ mark ∈ marks, mark.Within core.address := by
  cases h with
  | nothing => simp
  | handed command =>
    intro mark mem
    rw [List.mem_singleton.1 mem]
    exact Mark.within_of_place built.address_active

/-- A cycle is within the state. -/
theorem Cycles.within {outcome : Except Fault (Option Tag)} (h : Cycles s marks outcome s')
    (built : s.WellBuilt) : ∀ mark ∈ marks, mark.Within s.address := by
  have arrives {core core' : Core H} {command : Option Command} {calls : List Mark}
      {result : Except Fault (Option Tag)} (advanced : core.Advances command calls result core') :
      ∀ mark ∈ Mark.taken core.address command :: calls, mark.Within core.address :=
    List.forall_mem_cons.2 ⟨⟨Address.covers_refl _, by simp, by simp⟩, advanced.within⟩
  induction h with
  | fails advanced => exact arrives advanced
  | leaf advanced => exact arrives advanced
  | @composite core core' routes before after active active' s' command calls handed marks marks'
      requested outcome settled advanced hands inner settles ih =>
    have placed := built.of_layout (layout_composite advanced.kept inner.layout_eq)
    have settling := settles.within placed
    rw [advanced.kept.address] at settling
    rw [← List.cons_append]
    exact List.forall_mem_append.2 ⟨arrives advanced, List.forall_mem_append.2
      ⟨hands.within built, List.forall_mem_append.2 ⟨built.within (ih built.inner), settling⟩⟩⟩

end State

end Statechart
