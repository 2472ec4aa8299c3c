import Statechart.Proofs.Journal

/-!
# What firing callbacks does

A callback changes nothing of a state but what its behaviour keeps, and puts just itself on record
beside what its program does.  `Core.Advances` and `Core.Leaves` are all that callers need: how the
callbacks of a cycle or an exit can end, with the marks that they make.
-/
namespace Statechart

variable {H : Host} {α : Type} {σ σ' : Store H}

namespace Program

/-- A program of the host records what it may, and nothing else. -/
theorem records_run (program : Program H α) (σ : Store H) :
    ∃ events, Store.Records σ (σ.after program.run) events ∧ ∀ event ∈ events, event.Hosted := by
  induction program generalizing σ with
  | done result => exact ⟨[], .refl σ, by simp⟩
  | read next ih => exact ih σ.shared σ
  | write shared next ih =>
    obtain ⟨events, recorded, hosted⟩ := ih { σ with shared := shared }
    exact ⟨events, ⟨recorded.journal, recorded.mailboxes⟩, hosted⟩
  | remark said next ih =>
    obtain ⟨events, recorded, hosted⟩ := ih (σ.after (Store.log (.remark said)))
    exact ⟨_, (Store.records_log (fun _ _ => rfl) σ).trans recorded,
      by simpa using ⟨.remark said, hosted⟩⟩
  | post state command next ih =>
    obtain ⟨posted, recorded, hosted⟩ := Store.records_post state command σ
    obtain ⟨events, rest, restHosted⟩ :=
      ih ((Store.post state command).run σ).1 (σ.after (Store.post state command))
    refine ⟨_, recorded.trans rest, fun event mem => ?_⟩
    rcases List.mem_append.1 mem with mem | mem
    · exact hosted event mem
    · exact restHosted event mem
  | pending state next ih => exact ih (σ.isPending state) σ
  | look scope next ih => exact ih (σ.scope scope) σ
  | declare scope name value next ih =>
    obtain ⟨events, recorded, hosted⟩ :=
      ih ((Store.declare scope name value).run σ).1 (σ.after (Store.declare scope name value))
    refine ⟨events, ?_, hosted⟩
    rw [← List.nil_append events]
    exact (Store.records_declare scope name value σ).trans recorded

theorem fires_run (program : Program H α) (σ : Store H) :
    Store.Fires σ (σ.after program.run) [] := by
  obtain ⟨events, recorded, hosted⟩ := program.records_run σ
  exact ⟨events, recorded, marksIn_eq_nil hosted⟩

end Program

namespace Core

variable {core core' : Core H} {command : Option Command}

/-- The core with what its behaviour now keeps. -/
def withBehavior (core : Core H) (behavior : H.Behavior) : Core H :=
  { core with behavior := behavior }

/-- The core of a state that runs. -/
def started (core : Core H) : Core H := { core with running := true }

/-- The state has the same place and is of the same type. -/
structure Kept (core core' : Core H) : Prop where
  address : core'.address = core.address
  typeName : core'.typeName = core.typeName

theorem kept_stopped (core : Core H) : core.Kept core.stopped := ⟨rfl, rfl⟩

theorem Kept.stopped (h : core.Kept core') : core.Kept core'.stopped :=
  ⟨h.address, h.typeName⟩

/-- Firing a callback keeps the core but for the behaviour, and ends with putting the callback on
record, which is the only mark it makes. -/
theorem run_call (phase : Phase) (requests : α → Option Tag) (command : Option Command)
    (body : View → H.Behavior → Program H (Except Fault α × H.Behavior)) (core : Core H)
    (σ : Store H) :
    let called := (core.call phase requests command body).run σ
    (∃ behavior, called.1.2 = core.withBehavior behavior) ∧
      ∃ earlier, marksIn earlier = [] ∧ Store.Records σ called.2
        (earlier ++ [.called (core.record phase requests command called.1.1)]) := by
  let noted := σ.after (Store.note (.callback phase core.name))
  let program := body (core.view command) core.behavior
  obtain ⟨events, recorded, hosted⟩ := program.records_run noted
  refine ⟨⟨(program.run.run noted).1.2, rfl⟩, .notice (.callback phase core.name) :: events, ?_, ?_⟩
  · exact (List.filterMap_cons_none rfl).trans (marksIn_eq_nil hosted)
  · exact ((Store.records_note _ σ).trans recorded).trans (Store.records_log (fun _ _ => rfl) _)

/-! ## Cycles -/

/-- How the callbacks of a cycle can go, with the marks that they make. -/
inductive Advances (core : Core H) (command : Option Command) :
    List Mark → Except Fault (Option Tag) → Core H → Prop
  /-- The entry fails. -/
  | refused (idle : core.running = false) (behavior : H.Behavior) (fault : Fault) :
    Advances core command [.called (core.record .entry (fun _ : Unit => none) command (.error fault))]
      (.error fault) (core.withBehavior behavior)
  /-- The entry completes, and the step follows. -/
  | entered (idle : core.running = false) (behavior : H.Behavior)
    (result : Except Fault (Option Tag)) :
    Advances core command [.called (core.record .entry (fun _ : Unit => none) command (.ok ())),
      .called (core.record .step id command result)] result (core.withBehavior behavior).started
  /-- The state runs already, and only the step is fired. -/
  | resumed (running : core.running = true) (behavior : H.Behavior)
    (result : Except Fault (Option Tag)) :
    Advances core command [.called (core.record .step id command result)] result
      (core.withBehavior behavior)

/-- The callbacks of a cycle go by the rules, and the last of them is the last that is recorded. -/
theorem advances_records [Conduct H] (command : Option Command) (core : Core H) (σ : Store H) :
    ∃ earlier call, core.Advances command (marksIn earlier ++ [.called call])
        ((core.advance command).run σ).1.1 ((core.advance command).run σ).1.2 ∧
      Store.Records σ (σ.after (core.advance command)) (earlier ++ [.called call]) := by
  rcases running : core.running
  · have entry := core.run_call .entry (fun _ => none) command Conduct.entry σ
    rcases called : (core.call .entry (fun _ => none) command Conduct.entry).run σ with
      ⟨⟨fault | ⟨⟩, core₁⟩, σ₁⟩
    · rw [called] at entry
      obtain ⟨⟨behavior, rfl⟩, earlier, quiet, recorded⟩ := entry
      have run : (core.advance command).run σ = ((.error fault, core.withBehavior behavior), σ₁) := by
        simp only [advance, enter, running, Bool.false_eq_true, if_false, StoreM.run_bind, called,
          StoreM.run_pure]
      rw [Store.after, run]
      refine ⟨earlier, _, ?_, recorded⟩
      rw [quiet]
      exact .refused running behavior fault
    · rw [called] at entry
      obtain ⟨⟨behavior, rfl⟩, earlier, quiet, recorded⟩ := entry
      let core₁ := (core.withBehavior behavior).started
      obtain ⟨⟨behavior', kept⟩, between, quiet', followed⟩ :=
        core₁.run_call .step id command Conduct.step σ₁
      have run : (core.advance command).run σ =
          (core₁.call .step id command Conduct.step).run σ₁ := by
        simp only [advance, enter, running, Bool.false_eq_true, if_false, StoreM.run_bind, called,
          StoreM.run_pure]
        rfl
      rw [Store.after, run, kept]
      have both := recorded.trans followed
      rw [← List.append_assoc] at both
      refine ⟨_, _, ?_, both⟩
      rw [marksIn_append, marksIn_append, quiet, quiet']
      exact .entered running behavior' _
  · obtain ⟨⟨behavior, kept⟩, earlier, quiet, recorded⟩ :=
      core.run_call .step id command Conduct.step σ
    have run : (core.advance command).run σ = (core.call .step id command Conduct.step).run σ := by
      simp only [advance, enter, running, if_true, StoreM.run_bind, StoreM.run_pure]
    rw [Store.after, run, kept]
    refine ⟨earlier, _, ?_, recorded⟩
    rw [quiet]
    exact .resumed running behavior _

theorem advances_run [Conduct H] (command : Option Command) (core : Core H) (σ : Store H) :
    ∃ marks, core.Advances command marks ((core.advance command).run σ).1.1
      ((core.advance command).run σ).1.2 ∧ Store.Fires σ (σ.after (core.advance command)) marks := by
  obtain ⟨earlier, call, advances, recorded⟩ := core.advances_records command σ
  exact ⟨_, advances, _, recorded, marksIn_append _ _⟩

namespace Advances

variable {result : Except Fault (Option Tag)} {marks : List Mark}

theorem kept (h : core.Advances command marks result core') : core.Kept core' := by
  cases h <;> exact ⟨rfl, rfl⟩

/-- A state whose callbacks complete runs. -/
theorem running_of_ok {requested : Option Tag} (h : core.Advances command marks (.ok requested) core') :
    core'.running = true := by
  cases h with
  | entered => rfl
  | resumed running => exact running

/-- The callbacks of a cycle stop no state. -/
theorem running_mono (h : core.Advances command marks result core') :
    core'.running = true ∨ core'.running = core.running := by
  cases h with
  | refused => exact .inr rfl
  | entered => exact .inl rfl
  | resumed => exact .inr rfl

end Advances

/-! ## Exits -/

/-- How leaving a state can go, with the marks that it makes: the state does not run and nothing
happens, or its exit is fired.  That the exit has completed does not by itself stop the state. -/
inductive Leaves (core : Core H) : List Mark → Except Fault Unit → Core H → Prop
  | idle (idle : core.running = false) : Leaves core [] (.ok ()) core
  | left (running : core.running = true) (behavior : H.Behavior) (result : Except Fault Unit) :
    Leaves core [.called (core.record .exit (fun _ => none) none result)] result
      (core.withBehavior behavior)

/-- Leaving a state goes by the rules. -/
theorem leaves_run [Conduct H] (core : Core H) (σ : Store H) :
    ∃ marks, core.Leaves marks (core.leave.run σ).1.1 (core.leave.run σ).1.2 ∧
      Store.Fires σ (σ.after core.leave) marks := by
  rcases running : core.running
  · have run : core.leave.run σ = ((.ok (), core), σ) := by
      simp only [leave, running, Bool.false_eq_true, if_false, StoreM.run_pure]
    rw [Store.after, run]
    exact ⟨_, .idle running, .refl σ⟩
  · obtain ⟨⟨behavior, kept⟩, earlier, quiet, recorded⟩ :=
      core.run_call .exit (fun _ => none) none Conduct.exit σ
    have run : core.leave.run σ = (core.call .exit (fun _ => none) none Conduct.exit).run σ := by
      simp only [leave, running, if_true]
    rw [Store.after, run, kept]
    exact ⟨_, .left running behavior _, _, recorded, by rw [marksIn_append, quiet]; rfl⟩

namespace Leaves

variable {result : Except Fault Unit} {marks : List Mark}

theorem kept (h : core.Leaves marks result core') : core.Kept core' := by
  cases h <;> exact ⟨rfl, rfl⟩

theorem running_eq (h : core.Leaves marks result core') : core'.running = core.running := by
  cases h <;> rfl

end Leaves

end Core

end Statechart
