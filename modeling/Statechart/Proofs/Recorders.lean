import Statechart.Proofs.Lasting
import Statechart.Proofs.Surveys
import Mathlib.Data.List.Induction

/-!
# Recorders

A recorder puts the changes that it is told into a history, at its end; a bounded one drops the oldest
changes then.  However many changes come in one after another, what a bounded recorder leaves is the
newest part of all that was there or came.  Nothing but telling a recorder touches a history.
-/
namespace Statechart

variable {H : Host}

namespace PathHistory

/-- Recording into the newest part of a history leaves the newest part of the longer history. -/
theorem recordWithin_newest (limit : Option Nat) (history : PathHistory) (change : PathChange) :
    (history.newest limit).recordWithin limit change = (history.record change).newest limit := by
  cases limit with
  | none => rfl
  | some limit =>
    obtain ⟨changes⟩ := history
    simp only [recordWithin, newest, record, List.length_append, List.length_drop,
      List.length_singleton, mk.injEq]
    rw [← List.drop_append_of_le_length (Nat.sub_le _ _), List.drop_drop]
    congr 1
    omega

/-- Record changes, one after another. -/
def recordAll (limit : Option Nat) (changes : List PathChange) (history : PathHistory) :
    PathHistory := changes.foldl (recordWithin limit) history

/-- What has been recorded is the newest part of all there was and all that came. -/
theorem recordAll_eq (limit : Option Nat) (history : PathHistory) {changes : List PathChange}
    (some_told : changes ≠ []) :
    history.recordAll limit changes = newest limit ⟨history.changes ++ changes⟩ := by
  induction changes using List.reverseRecOn with
  | nil => contradiction
  | append_singleton earlier change ih =>
    rw [recordAll, List.foldl_concat, ← recordAll]
    rcases eq : earlier with _ | ⟨first, rest⟩
    · rfl
    · rw [← eq, ih (by simp [eq]), recordWithin_newest, record, List.append_assoc]

end PathHistory

/-- The change from one path to another, if that is another. -/
def PathChange.between? (oldPath newPath : String) (clock : Instant) : Option PathChange :=
  if newPath = oldPath then none else some ⟨oldPath, newPath, clock⟩

/-- The limit within which an observer records into a history, if it does. -/
def Observer.limit? (name : String) : Observer H → Option (Option Nat)
  | .host _ => none
  | .recorder history limit => if history = name then some limit else none

namespace Core

/-- The limits within which observers of a state record into a history. -/
def limits (name : String) (core : Core H) : List (Option Nat) :=
  core.observers.filterMap (Observer.limit? name)

end Core

namespace Store

variable {σ σ' : Store H} {name : String}

/-- The histories are the same, at the same time. -/
def KeepsHistories (σ σ' : Store H) : Prop := σ'.histories = σ.histories ∧ σ'.clock = σ.clock

theorem KeepsHistories.history_eq (h : KeepsHistories σ σ') (name : String) :
    σ'.history name = σ.history name := by
  rw [history, history, h.1]

theorem keepsHistories_steady : Steady (fun _ => True) (KeepsHistories (H := H)) := by
  refine SameRest.steady ?_ (fun h k => ⟨k.1.trans h.1, k.2.trans h.2⟩) fun owner name value σ => ?_
  · rintro σ σ' ⟨mailboxes, shared, journal, rfl⟩
    exact ⟨rfl, rfl⟩
  · rcases found : σ.scopes.get? owner with _ | scope <;>
      (simp only [after, declare, found, StoreM.run_bind, StoreM.run_get, StoreM.run_modify,
        StoreM.run_pure]; exact ⟨rfl, rfl⟩)

/-- Opening a scope is nothing to histories. -/
theorem keepsHistories_openScope (owner : Address) :
    Along KeepsHistories (openScope (H := H) owner) := by
  intro σ
  rcases found : σ.scopes.get? owner with _ | scope <;>
    (simp only [after, openScope, found, StoreM.run_modify]; exact ⟨rfl, rfl⟩)

/-- The time is the same. -/
def KeepsClock (σ σ' : Store H) : Prop := σ'.clock = σ.clock

theorem keepsClock_lasting : Lasting (KeepsClock (H := H)) where
  refl _ := rfl
  trans h k := k.trans h
  log event other σ := (keepsHistories_steady.log event other σ).2
  share shared σ := (keepsHistories_steady.share shared σ).2
  post state command σ := (keepsHistories_steady.post state command σ).2
  handTo state command allowed σ := (keepsHistories_steady.handTo state command allowed σ).2
  drain step state allowed σ := (keepsHistories_steady.drain step state allowed σ).2
  declare owner name value σ := (keepsHistories_steady.declare owner name value σ).2
  openScope owner σ := (keepsHistories_openScope owner σ).2
  recordChange _ _ _ _ := rfl

/-! ## Telling recorders -/

variable [Conduct H]

open State

/-- An observer that is told of a change records it, if it does so into the history at all. -/
theorem history_tell (name : String) (change : PathChange) (observer : Observer H) (σ : Store H) :
    (σ.after (tell change observer)).history name =
      ((observer.limit? name).toList.foldl (fun history limit => history.recordWithin limit change)
        (σ.history name)) := by
  cases observer with
  | host observer => exact (keepsHistories_steady.program _ σ).history_eq name
  | recorder into limit =>
    simp only [after, State.tell, recordChange, StoreM.run_modify, history, Registry.get?_set,
      Observer.limit?]
    by_cases here : into = name
    · subst here
      simp
    · simp [here, Ne.symm here]

/-- Observers that are told of a change one after another record it, as many of them as there are. -/
theorem history_forM_tell (name : String) (change : PathChange) (observers : List (Observer H))
    (σ : Store H) :
    (σ.after (observers.forM (tell change))).history name =
      (observers.filterMap (Observer.limit? name)).foldl
        (fun history limit => history.recordWithin limit change) (σ.history name) := by
  induction observers generalizing σ with
  | nil => rfl
  | cons observer rest ih =>
    have both : σ.after ((observer :: rest).forM (tell change)) =
        (σ.after (tell change observer)).after (rest.forM (tell change)) := rfl
    rw [both, ih, history_tell, List.filterMap_cons]
    cases observer.limit? name <;> rfl

/-- Observers have been told of a change, if there is one, each once and in their order. -/
def told (observers : List (Observer H)) (change : Option PathChange) (σ : Store H) : Store H :=
  match change with
  | none => σ
  | some change => σ.after (observers.forM (tell change))

theorem told_nil (change : Option PathChange) (σ : Store H) : σ.told [] change = σ := by
  cases change <;> rfl

/-- Announcing tells the observers of the change that there is since an old path. -/
theorem after_announce (oldPath : String) (s : State H) (σ : Store H) :
    σ.after (s.announce oldPath) =
      σ.told s.core.observers (PathChange.between? oldPath s.path σ.clock) := by
  by_cases same : s.path = oldPath
  · simp only [after, announce, same, ne_eq, not_true_eq_false, if_false, PathChange.between?,
      if_true, told]
    rfl
  · simp only [after, announce, same, ne_eq, not_false_eq_true, if_true, StoreM.run_bind,
      StoreM.run_get, PathChange.between?, if_false, told]

/-- Observers that do not record into a history leave it as it is. -/
theorem history_told_of_none {name : String} {observers : List (Observer H)}
    (clear : observers.filterMap (Observer.limit? name) = []) (change : Option PathChange)
    (σ : Store H) : (σ.told observers change).history name = σ.history name := by
  cases change with
  | none => rfl
  | some change => rw [told, history_forM_tell, clear, List.foldl_nil]

/-- A change of which observers are told is recorded by the one that records into a history. -/
theorem history_told_of_one {name : String} {observers : List (Observer H)} {limit : Option Nat}
    (one : observers.filterMap (Observer.limit? name) = [limit]) (change : Option PathChange)
    (σ : Store H) : (σ.told observers change).history name =
      (σ.history name).recordAll limit change.toList := by
  cases change with
  | none => rfl
  | some change => rw [told, history_forM_tell, one]; rfl

end Store

namespace State

variable [Conduct H] {s : State H} {name : String}

/-- A cycle of a tree in which nothing records into a history leaves the history as it is. -/
theorem history_cycle (clear : ∀ t ∈ s.subtree, t.core.limits name = []) (σ : Store H) :
    (σ.after s.cycle).history name = σ.history name := by
  have steady := Store.keepsHistories_steady (H := H)
  induction s using chainInduction generalizing σ with
  | leaf core =>
    have kept : Along Store.KeepsHistories (State.leaf core).cycle :=
      steady.bind (steady.drain _ _ trivial) fun command =>
        steady.bind (steady.advance command core) fun _ => steady.refl
    exact (kept σ).history_eq name
  | composite core routes before active after ih =>
    let σ₁ := σ.after (Store.takeFrom core.address)
    have taken : σ₁.history name = σ.history name :=
      (steady.drain .taken core.address trivial σ).history_eq name
    have stepped := (steady.advance (σ.waiting core.address) core σ₁).history_eq name
    obtain ⟨calls, advances, -⟩ := core.advances_run (σ.waiting core.address) σ₁
    rcases advanced : (core.advance (σ.waiting core.address)).run σ₁ with
      ⟨⟨fault | requested, core'⟩, σ₂⟩
    · rw [Store.after, advanced] at stepped
      rw [Store.after, run_cycle_of_error advanced]
      exact stepped.trans taken
    · rw [Store.after, advanced] at stepped
      rw [advanced] at advances
      have passed : (σ₂.after (passOn active.address (σ.waiting core.address))).history name =
          σ₂.history name := by
        rcases σ.waiting core.address with _ | command
        · rfl
        · exact (steady.handTo active.address command trivial σ₂).history_eq name
      have inner := ih (fun t mem => clear t (mem_subtree.2 (.inr ⟨_, active_mem_children, mem⟩)))
        (σ₂.after (passOn active.address (σ.waiting core.address)))
      rcases innerRun : active.cycle.run
        (σ₂.after (passOn active.address (σ.waiting core.address))) with ⟨⟨outcome, active'⟩, σ₃⟩
      rw [Store.after, innerRun] at inner
      have settles : Along Store.KeepsHistories
          ((composite core' routes before active' after).settle outcome) :=
        steady.settle outcome fun _ _ _ _ => trivial
      have settled := (settles σ₃).history_eq name
      obtain ⟨marks, settles, -⟩ := settles_run core' routes before active' after outcome σ₃
      rcases settledRun : ((composite core' routes before active' after).settle outcome).run σ₃ with
        ⟨⟨result, s'⟩, σ₄⟩
      rw [Store.after, settledRun] at settled
      rw [settledRun] at settles
      -- every level announces to its own observers, and they are the ones from before the cycle
      have observed : s'.core.observers = core.observers :=
        (feature_eq_of_survey_eq (settles.survey_eq Core.fitted_observers)).trans
          (advances.fitted Core.fitted_observers)
      have unrecorded : s'.core.observers.filterMap (Observer.limit? name) = [] := by
        rw [observed]
        exact clear _ (self_mem_subtree _)
      rw [Store.after, run_cycle_of_ok advanced innerRun settledRun, Store.after_announce,
        Store.history_told_of_none unrecorded, settled, inner, passed, stepped, taken]

end State

end Statechart
