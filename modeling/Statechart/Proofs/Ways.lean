import Statechart.Proofs.Rules

/-!
# The way down and the way up

A cycle goes down the active chain and comes up again.  On the way down commands are taken out of
mailboxes and handed down, and entries and steps are fired; on the way up exits are fired, which see
no command, and states are selected.  No mark of the way down comes after one of the way up.
-/
namespace Statechart

variable {H : Host}

/-- The mark is of the way down: what is taken out and handed down, entries and steps. -/
def Mark.isInward : Mark → Bool
  | .called call => call.phase ≠ .exit
  | .taken .. | .handed .. => true
  | .selected _ | .quieted _ => false

/-- The mark is of the way up: exits, which see no command, and selections. -/
def Mark.isOutward : Mark → Bool
  | .called call => call.phase = .exit && call.view.command = none
  | .selected _ => true
  | .taken .. | .handed .. | .quieted _ => false

/-- A callback on the way down is no exit. -/
theorem Mark.isInward_called {call : Call} :
    (Mark.called call).isInward = true ↔ call.phase ≠ .exit := by
  simp [isInward]

/-- A callback on the way up is an exit, which sees no command. -/
theorem Mark.isOutward_called {call : Call} :
    (Mark.called call).isOutward = true ↔ call.phase = .exit ∧ call.view.command = none := by
  simp [isOutward]

namespace Core

variable {core core' : Core H} {marks : List Mark} {mark : Mark}

theorem Advances.inward {command : Option Command} {result : Except Fault (Option Tag)}
    (h : core.Advances command marks result core') : ∀ mark ∈ marks, mark.isInward = true := by
  cases h with
  | refused => simp [Mark.isInward, record]
  | entered _ _ result => cases result <;> simp [Mark.isInward, record]
  | resumed _ _ result => cases result <;> simp [Mark.isInward, record]

theorem Leaves.outward {result : Except Fault Unit} (h : core.Leaves marks result core') :
    ∀ mark ∈ marks, mark.isOutward = true := by
  cases h with
  | idle => simp
  | left _ _ result => cases result <;> simp [Mark.isOutward, record, view]

end Core

namespace State

variable {core core' : Core H} {routes : Routes} {before after : List (State H)}
  {active active' s s' : State H} {marks : List Mark} {mark : Mark}

theorem Hands.inward {place : Address} {command : Option Command} (h : Hands place command marks) :
    ∀ mark ∈ marks, mark.isInward = true := by
  cases h <;> simp [Mark.isInward]

/-- A reset is on the way up. -/
theorem Resets.outward {result : Except Fault Unit} (h : Resets s marks result s') :
    ∀ mark ∈ marks, mark.isOutward = true := by
  induction h with
  | exitFails left => exact left.outward
  | leaf left => exact left.outward
  | innerFails left inner ih => exact List.forall_mem_append.2 ⟨left.outward, ih⟩
  | composite left inner chosen_eq ih =>
    refine List.forall_mem_append.2 ⟨left.outward, List.forall_mem_append.2 ⟨ih, ?_⟩⟩
    simp [Mark.isOutward]

/-- What is done about an outcome is done on the way up. -/
theorem Settles.outward {outcome : Except Fault (Option Tag)} {settled : Except Fault Unit}
    (h : Settles core routes before active after outcome marks settled s') :
    ∀ mark ∈ marks, mark.isOutward = true := by
  cases h with
  | failed => simp
  | stays => simp
  | unknown => simp
  | innerFails leads inner => exact inner.outward
  | follows leads inner chosen_eq =>
    refine List.forall_mem_append.2 ⟨inner.outward, ?_⟩
    simp [Mark.isOutward]

/-- A cycle goes down, and then up. -/
theorem Cycles.split {outcome : Except Fault (Option Tag)} (h : Cycles s marks outcome s') :
    ∃ down up, marks = down ++ up ∧ (∀ mark ∈ down, mark.isInward = true) ∧
      ∀ mark ∈ up, mark.isOutward = true := by
  have arrives {core core' : Core H} {command : Option Command} {calls : List Mark}
      {result : Except Fault (Option Tag)} (advanced : core.Advances command calls result core') :
      ∀ mark ∈ Mark.taken core.address command :: calls, mark.isInward = true :=
    List.forall_mem_cons.2 ⟨rfl, advanced.inward⟩
  induction h with
  | fails advanced => exact ⟨_, [], (List.append_nil _).symm, arrives advanced, by simp⟩
  | leaf advanced => exact ⟨_, [], (List.append_nil _).symm, arrives advanced, by simp⟩
  | @composite core _ _ _ _ _ _ _ command calls handed _ marks' _ _ _ advanced hands inner settles
      ih =>
    obtain ⟨down, up, rfl, inward, outward⟩ := ih
    refine ⟨(.taken core.address command :: calls) ++ (handed ++ down), up ++ marks', by simp, ?_, ?_⟩
    · exact List.forall_mem_append.2
        ⟨arrives advanced, List.forall_mem_append.2 ⟨hands.inward, inward⟩⟩
    · exact List.forall_mem_append.2 ⟨outward, settles.outward⟩

end State

end Statechart
