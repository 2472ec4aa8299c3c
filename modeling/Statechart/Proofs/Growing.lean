import Statechart.Proofs.Surveys

/-!
# What becomes of behaviours

A behaviour grows by the callbacks of its state: each of them replaces what the behaviour keeps by what
it leaves.  Main statement: nothing else that is done to a machine touches a behaviour.  So at every
time the behaviours of a machine are those that it was built with, each grown by itself, and none is
ever replaced by another or by one made anew.
-/
namespace Statechart

variable {H : Host} {α β : Type}

/-! ## Results -/

/-- Whatever the store is, the result is such a one. -/
def Gives (op : StoreM H α) (Q : α → Prop) : Prop := ∀ σ, Q (op.run σ).1

namespace Gives

variable {op : StoreM H α} {next : α → StoreM H β} {Q : α → Prop} {R : β → Prop} {a : α}

theorem any (op : StoreM H α) : Gives op fun _ => True := fun _ => trivial

theorem pure (h : Q a) : Gives (pure a : StoreM H α) Q := fun _ => h

theorem bind (first : Gives op Q) (rest : ∀ a, Q a → Gives (next a) R) : Gives (op >>= next) R :=
  fun σ => rest _ (first σ) _

/-- After something that has no say in the result. -/
theorem after (rest : ∀ a, Gives (next a) R) : Gives (op >>= next) R :=
  (any op).bind fun a _ => rest a

theorem mono {Q' : α → Prop} (h : Gives op Q) (weaker : ∀ a, Q a → Q' a) : Gives op Q' :=
  fun σ => weaker _ (h σ)

end Gives

variable [Conduct H]

/-- What callbacks may have made of a behaviour. -/
inductive Grown (behavior : H.Behavior) : H.Behavior → Prop
  | untouched : Grown behavior behavior
  | entry {later : H.Behavior} (earlier : Grown behavior later) (view : View) (σ : Store H) :
    Grown behavior ((Conduct.entry view later).run.run σ).1.2
  | step {later : H.Behavior} (earlier : Grown behavior later) (view : View) (σ : Store H) :
    Grown behavior ((Conduct.step view later).run.run σ).1.2
  | exit {later : H.Behavior} (earlier : Grown behavior later) (view : View) (σ : Store H) :
    Grown behavior ((Conduct.exit view later).run.run σ).1.2

theorem Grown.trans {first second third : H.Behavior} (h : Grown first second)
    (k : Grown second third) : Grown first third := by
  induction k with
  | untouched => exact h
  | entry earlier view σ ih => exact ih.entry view σ
  | step earlier view σ ih => exact ih.step view σ
  | exit earlier view σ ih => exact ih.exit view σ

/-- The behaviours of the later tree are those of the earlier one, each grown by itself. -/
def State.Grows (s s' : State H) : Prop :=
  List.Forall₂ Grown (s.survey Core.behavior) (s'.survey Core.behavior)

namespace Core

/-- Firing a callback leaves what its program leaves. -/
theorem gives_call (phase : Phase) (requests : α → Option Tag) (command : Option Command)
    {body : View → H.Behavior → Program H (Except Fault α × H.Behavior)}
    (grows : ∀ view behavior σ, Grown behavior ((body view behavior).run.run σ).1.2) (core : Core H) :
    Gives (core.call phase requests command body) fun called =>
      Grown core.behavior called.2.behavior :=
  .after fun _ => Gives.bind (fun σ => grows _ _ σ) fun _ grown => .after fun _ => .pure grown

theorem gives_advance (command : Option Command) (core : Core H) :
    Gives (core.advance command) fun advanced => Grown core.behavior advanced.2.behavior := by
  have entered : Gives (core.enter command) fun entered =>
      Grown core.behavior entered.2.behavior := by
    rw [enter]
    split
    · exact .pure .untouched
    · refine (core.gives_call _ _ _ fun view behavior σ => .entry .untouched view σ).bind
        fun called grown => ?_
      split <;> exact .pure grown
  refine entered.bind fun entered grown => ?_
  split
  · exact .pure grown
  · exact (gives_call _ _ _ (fun view behavior σ => .step .untouched view σ) _).mono
      fun called later => grown.trans later

theorem gives_leave (core : Core H) :
    Gives core.leave fun left => Grown core.behavior left.2.behavior := by
  rw [leave]
  split
  · exact core.gives_call _ _ _ fun view behavior σ => .exit .untouched view σ
  · exact .pure .untouched

end Core

namespace State

variable {core core' : Core H} {routes : Routes} {before after : List (State H)}
  {active active' s s' t : State H}

namespace Grows

/-- Trees with the same behaviours. -/
theorem of_survey_eq (same : s'.survey Core.behavior = s.survey Core.behavior) : s.Grows s' := by
  rw [Grows, same]
  exact List.forall₂_same.2 fun _ _ => .untouched

theorem refl (s : State H) : s.Grows s := of_survey_eq rfl

theorem trans (h : s.Grows t) (k : t.Grows s') : s.Grows s' := by
  rw [Grows, List.forall₂_iff_get] at *
  obtain ⟨length_eq, first⟩ := h
  obtain ⟨length_eq', second⟩ := k
  refine ⟨length_eq.trans length_eq', fun i lt lt' => ?_⟩
  exact (first i lt (length_eq ▸ lt)).trans (second i (length_eq ▸ lt) lt')

theorem withCore (own : Grown s.core.behavior core.behavior) : s.Grows (s.withCore core) := by
  have children_eq : (s.withCore core).children = s.children := by cases s <;> rfl
  rw [Grows, survey_eq, survey_eq, children_eq, core_withCore]
  exact .cons own (List.forall₂_same.2 fun _ _ => .untouched)

theorem composite (own : Grown core.behavior core'.behavior) (inner : active.Grows active') :
    (composite core routes before active after).Grows
      (composite core' routes before active' after) := by
  have same (states : List (State H)) : List.Forall₂ Grown
      (states.flatMap (survey Core.behavior)) (states.flatMap (survey Core.behavior)) :=
    List.forall₂_same.2 fun _ _ => .untouched
  rw [Grows, survey_eq, survey_eq]
  simp only [core_composite, children, List.flatMap_append, List.flatMap_cons]
  exact .cons own (List.rel_append (same before) (List.rel_append inner (same after)))

end Grows

theorem gives_activate (name : String) (s : State H) : Gives (s.activate name) s.Grows := by
  intro σ
  rw [run_activate]
  exact .of_survey_eq (survey_select name s)

theorem gives_reset (s : State H) : Gives s.reset fun left => s.Grows left.2 := by
  induction s using chainInduction with
  | leaf core =>
    refine .after fun _ => core.gives_leave.bind fun left grown => ?_
    split
    · exact .pure (.withCore (s := .leaf core) grown)
    · exact .after fun _ => .pure (.withCore (s := .leaf core) grown)
  | composite core routes before active after ih =>
    refine .after fun _ => core.gives_leave.bind fun left own => ?_
    split
    · exact .pure (.composite own (.refl active))
    · refine ih.bind fun below inner => ?_
      split
      · exact .pure (.composite own inner)
      · refine (gives_activate _ _).bind fun t chosen => .after fun _ => .pure ?_
        exact (Grows.composite own inner).trans chosen

theorem gives_settle (outcome : Except Fault (Option Tag)) (s : State H) :
    Gives (s.settle outcome) fun settled => s.Grows settled.2 := by
  rcases outcome with fault | _ | request
  · exact .pure (.refl s)
  · exact .pure (.refl s)
  · cases s with
    | leaf core => exact .pure (.refl _)
    | composite core routes before active after =>
      rw [settle, follow]
      split
      · exact .pure (.refl _)
      · refine active.gives_reset.bind fun below inner => ?_
        split
        · exact .pure (.composite .untouched inner)
        · refine .after fun _ => (gives_activate _ _).bind fun t chosen => .pure ?_
          exact (Grows.composite .untouched inner).trans chosen

theorem gives_cycle (s : State H) : Gives s.cycle fun cycled => s.Grows cycled.2 := by
  induction s using chainInduction with
  | leaf core =>
    exact .after fun command => (core.gives_advance command).bind fun advanced grown =>
      .pure (.withCore (s := .leaf core) grown)
  | composite core routes before active after ih =>
    refine .after fun command => (core.gives_advance command).bind fun advanced own => ?_
    split
    · exact .pure (.composite own (.refl active))
    · split
      on_goal 1 => refine .after fun _ => ?_
      all_goals
        exact ih.bind fun turned inner => (gives_settle _ _).bind fun settled last =>
          .after fun _ => .pure ((Grows.composite own inner).trans last)

theorem gives_perform (operation : Operation H) (s : State H) :
    Gives (s.perform operation) fun performed => s.Grows performed.2 := by
  cases operation with
  | cycle =>
    refine s.gives_cycle.bind fun cycled grows => ?_
    split <;> exact .pure grows
  | reset => exact s.gives_reset.bind fun left grows => .pure grows
  | setPath path => exact fun σ => .of_survey_eq (survey_path rfl (fun _ => rfl) s σ)
  | restore checkpoint => exact fun σ => .of_survey_eq (survey_path rfl (fun _ => rfl) s σ)
  | injectVariable name value =>
    exact fun σ => .of_survey_eq (survey_injectVariable (fun _ _ => rfl) name value s σ)
  | observe observer => exact .pure (.withCore .untouched)

theorem gives_onActive {act : State H → StoreM H (α × State H)}
    (here : ∀ s, Gives (act s) fun acted => s.Grows acted.2) (depth : Nat) (s : State H) :
    Gives (s.onActive act depth) fun acted => s.Grows acted.2 := by
  induction depth generalizing s with
  | zero => exact (here s).bind fun acted grows => .pure grows
  | succ depth ih =>
    cases s with
    | leaf core => exact .pure (.refl _)
    | composite core routes before active after =>
      exact (ih active).bind fun acted grows => .pure (.composite .untouched grows)

end State

open State

/-- Whatever is done to a machine, each of its behaviours has grown by itself. -/
theorem Machine.grows_run (machine : Machine H) (moves : List (Move H)) :
    machine.root.Grows (machine.run moves).2.root := by
  refine run_induction (motive := fun later => machine.root.Grows later.root) ?_ (.refl _)
  intro move _ later grows
  refine grows.trans ?_
  exact move_induction (motive := fun s _ s' _ => s.Grows s') move
    (fun depth operation _ => gives_onActive (gives_perform operation) depth _ _) fun _ _ => .refl _

end Statechart
