import Statechart.Proofs.Ledger
import Statechart.Proofs.Surveys

/-!
# Links to scopes

A table of sight gives for every place the scope that is seen from there.  A scope is opened at a place
and seen from everything beneath that has seen none before; nothing that sees a scope ever comes to see
another one.  So scopes are handed down: a scope is seen at its own place, and from there on all the way
down to whoever sees it, and below a place that sees a scope no place sees none.
-/
namespace Statechart

variable {H : Host}

/-- Nothing but a place without any above it covers that place. -/
theorem Address.Covers.eq_of_top {place other : Address} (h : place.Covers other)
    (top : other.above = []) : place = other := by
  refine eq_of_names_eq h.1 (h.2.eq_of_length_le ?_)
  simp [names, top]

/-- What is seen once a scope is open at a place: all beneath that has seen none sees it. -/
def openAt (place : Address) (sight : Address → Option Address) (other : Address) : Option Address :=
  if place.Covers other then (sight other).or (some place) else sight other

/-- Scopes are handed down, from the place where they are open to whoever sees them. -/
structure HandedDown (sight : Address → Option Address) : Prop where
  full : ∀ {place other}, place.Covers other → sight other = none → sight place = none
  topped : ∀ {place scope}, sight place = some scope → scope.Covers place
  between : ∀ {place scope other}, sight place = some scope → scope.Covers other →
    other.Covers place → sight other = some scope

/-- No scope is handed down where none is open. -/
theorem handedDown_none : HandedDown fun _ => none := ⟨fun _ _ => rfl, nofun, nofun⟩

section

variable {sight : Address → Option Address} {place other scope : Address}

/-- What sees a scope goes on to see it. -/
theorem openAt_of_some (seen : sight other = some scope) (place : Address) :
    openAt place sight other = some scope := by
  rw [openAt, seen]
  split <;> rfl

theorem openAt_of_none (covers : place.Covers other) (blind : sight other = none) :
    openAt place sight other = some place := by
  rw [openAt, if_pos covers, blind, Option.none_or]

theorem openAt_of_not_covers (apart : ¬ place.Covers other) :
    openAt place sight other = sight other := if_neg apart

/-- What is seen once a scope is open has been seen before, or it is the new scope. -/
theorem of_openAt (seen : openAt place sight other = some scope) :
    sight other = some scope ∨ sight other = none ∧ place.Covers other ∧ scope = place := by
  rcases known : sight other with _ | earlier
  · by_cases covers : place.Covers other
    · rw [openAt_of_none covers known] at seen
      exact .inr ⟨rfl, covers, (Option.some.inj seen).symm⟩
    · rw [openAt_of_not_covers covers, known] at seen
      contradiction
  · rw [openAt_of_some known] at seen
    exact .inl seen

theorem openAt_eq_none (blind : openAt place sight other = none) :
    sight other = none ∧ ¬ place.Covers other := by
  rcases known : sight other with _ | earlier
  · refine ⟨rfl, fun covers => ?_⟩
    rw [openAt_of_none covers known] at blind
    contradiction
  · rw [openAt_of_some known] at blind
    contradiction

/-- Where a place sees a scope already, opening one there changes nothing. -/
theorem HandedDown.openAt_eq (handed : HandedDown sight) (seen : sight place = some scope) :
    openAt place sight = sight := by
  funext other
  rcases known : sight other with _ | earlier
  · refine (openAt_of_not_covers fun covers => ?_).trans known
    rw [handed.full covers known] at seen
    contradiction
  · exact openAt_of_some known place

/-- Opening a scope keeps scopes handed down. -/
theorem HandedDown.openAt (handed : HandedDown sight) (place : Address) :
    HandedDown (openAt place sight) where
  full {upper lower} covers blind := by
    obtain ⟨known, apart⟩ := openAt_eq_none blind
    rw [openAt_of_not_covers fun above => apart (above.trans covers)]
    exact handed.full covers known
  topped {other scope} seen := by
    rcases of_openAt seen with known | ⟨-, covers, rfl⟩
    · exact handed.topped known
    · exact covers
  between {other scope middle} seen above below := by
    rcases of_openAt seen with known | ⟨blind, -, rfl⟩
    · exact openAt_of_some (handed.between known above below) place
    · exact openAt_of_none above (handed.full below blind)

/-- A place that does not see the scope of the place above sees its own, if any. -/
theorem HandedDown.own_of_ne (handed : HandedDown sight) {owner : Address}
    (owned : place.owner? = some owner) (seen : sight place = some scope)
    (differs : sight owner ≠ some scope) : scope = place := by
  by_contra other
  have above := (handed.topped seen).of_owner? (Ne.symm other) owned
  have beneath : owner.Covers place := by
    rw [Address.eq_inner_of_owner? owned]
    exact Address.covers_inner _ _
  exact differs (handed.between seen above beneath)

/-- The table changes beneath the place only. -/
theorem agreeOff_openAt (place : Address) (sight : Address → Option Address) :
    AgreeOff place sight (openAt place sight) := fun _ apart => openAt_of_not_covers apart

end

namespace State

variable {core : Core H} {routes : Routes} {before after : List (State H)}
  {active s s' t : State H} {sight : Address → Option Address} {σ : Store H} {scope : Address}

/-- The table gives what every state of the tree sees. -/
def Sees (sight : Address → Option Address) (s : State H) : Prop :=
  Shows (fun t => t.core.scope) sight s

/-- Whether a table gives what is seen shows in the survey of links. -/
theorem Sees.of_survey (h : Sees sight s) (same : s'.survey Core.link = s.survey Core.link) :
    Sees sight s' := by
  intro t mem
  obtain ⟨u, inside, eq⟩ := exists_of_survey_eq same mem
  obtain ⟨placed, seen⟩ := Prod.mk.inj eq
  exact (congrArg sight placed.symm).trans ((h u inside).trans seen)

/-- Below a state that sees a scope every state sees one. -/
theorem Sees.full (h : Sees sight s) (handed : HandedDown sight) (built : s.WellBuilt)
    (seen : s.core.scope ≠ none) : ∀ t ∈ s.subtree, t.core.scope ≠ none := by
  intro t mem blind
  exact seen ((h s (self_mem_subtree s)).symm.trans
    (handed.full (built.covers mem) ((h t mem).trans blind)))

/-! ## Linking -/

/-- A state that sees a scope is not linked anew. -/
theorem run_inherit_of_some (scope : Address) (seen : s.core.scope ≠ none) (σ : Store H) :
    (inherit scope s).run σ = (s, σ) := by
  have some_seen : s.core.scope.isSome = true := Option.isSome_iff_ne_none.2 seen
  cases s with
  | leaf core | composite core routes before active after =>
    simp only [core_leaf, core_composite] at some_seen
    simp only [inherit, some_seen, if_true, StoreM.run_pure]

theorem run_inheritAll_of_some (scope : Address) {states : List (State H)}
    (seen : ∀ t ∈ states, t.core.scope ≠ none) (σ : Store H) :
    (inheritAll scope states).run σ = (states, σ) := by
  induction states with
  | nil => rw [inheritAll]; rfl
  | cons state rest ih =>
    have here := run_inherit_of_some scope (seen state List.mem_cons_self) σ
    have there := ih fun t mem => seen t (List.mem_cons_of_mem _ mem)
    simp only [inheritAll, StoreM.run_bind, here, there, StoreM.run_pure]

/-- Where all inner states see a scope, there is nothing to link. -/
theorem run_attach_of_some (scope : Address) (seen : ∀ t ∈ s.children, t.core.scope ≠ none)
    (σ : Store H) : (attach scope s).run σ = (s, σ) := by
  cases s with
  | leaf core => rfl
  | composite core routes before active after =>
    rw [children, List.forall_mem_append, List.forall_mem_cons] at seen
    obtain ⟨inBefore, here, inAfter⟩ := seen
    simp only [attach, StoreM.run_bind, run_inheritAll_of_some scope inBefore,
      run_inherit_of_some scope here, run_inheritAll_of_some scope inAfter, StoreM.run_pure]

mutual

/-- Linking a tree to a scope has all see it that have seen none. -/
theorem sees_inherit (handed : HandedDown sight) (scope : Address) (s : State H) (built : s.WellBuilt)
    (h : Sees sight s) (σ : Store H) :
    Sees (fun place => (sight place).or (some scope)) ((inherit scope s).run σ).1 := by
  by_cases seen : s.core.scope = none
  · cases s with
    | leaf core =>
      have blind : core.scope.isSome = false := by simpa using seen
      have own : sight core.address = none := (shows_leaf.1 h).trans seen
      simp only [inherit, blind, Bool.false_eq_true, if_false, StoreM.run_bind, StoreM.run_pure]
      rw [Sees, shows_leaf]
      simp only [own, Option.none_or, core_leaf]
    | composite core routes before active after =>
      have blind : core.scope.isSome = false := by simpa using seen
      obtain ⟨own, inner⟩ := shows_composite.1 h
      rw [List.forall_mem_append, List.forall_mem_cons] at inner
      obtain ⟨inBefore, here, inAfter⟩ := inner
      have placed (child) (mem : child ∈ before ++ active :: after) : child.WellBuilt :=
        built.child mem
      rw [List.forall_mem_append, List.forall_mem_cons] at placed
      obtain ⟨builtBefore, builtHere, builtAfter⟩ := placed
      simp only [inherit, blind, Bool.false_eq_true, if_false, StoreM.run_bind, StoreM.run_pure]
      refine shows_composite.2 ⟨?_, ?_⟩
      · have blind' : sight core.address = none := own.trans seen
        simp only [blind', Option.none_or, core_composite]
      · rw [List.forall_mem_append, List.forall_mem_cons]
        exact ⟨sees_inheritAll handed scope before builtBefore inBefore _,
          sees_inherit handed scope active builtHere here _,
          sees_inheritAll handed scope after builtAfter inAfter _⟩
  · rw [run_inherit_of_some scope seen]
    intro t mem
    obtain ⟨known, eq⟩ := Option.ne_none_iff_exists'.1 (h.full handed built seen t mem)
    simp only [h t mem, eq, Option.some_or]

theorem sees_inheritAll (handed : HandedDown sight) (scope : Address) (states : List (State H))
    (built : ∀ t ∈ states, t.WellBuilt) (h : ∀ t ∈ states, Sees sight t) (σ : Store H) :
    ∀ t ∈ ((inheritAll scope states).run σ).1,
      Sees (fun place => (sight place).or (some scope)) t := by
  cases states with
  | nil =>
    rw [inheritAll, StoreM.run_pure]
    exact List.forall_mem_nil _
  | cons state rest =>
    rw [List.forall_mem_cons] at built h
    simp only [inheritAll, StoreM.run_bind, StoreM.run_pure, List.forall_mem_cons]
    exact ⟨sees_inherit handed scope state built.1 h.1 _,
      sees_inheritAll handed scope rest built.2 h.2 _⟩

end

/-- Linking all beneath a state that has opened a scope has all see it that have seen none. -/
theorem sees_attach (handed : HandedDown sight) (scope : Address) (built : s.WellBuilt)
    (h : Sees sight s) (blind : s.core.scope = none) (σ : Store H) :
    Sees (fun place => (sight place).or (some scope))
      ((attach scope (s.withCore { s.core with scope := some scope })).run σ).1 := by
  cases s with
  | leaf core =>
    have own : sight core.address = none := (shows_leaf.1 h).trans blind
    refine shows_leaf.2 ?_
    simp only [core_leaf, own, Option.none_or]
  | composite core routes before active after =>
    obtain ⟨own, inner⟩ := shows_composite.1 h
    have placed (child) (mem : child ∈ before ++ active :: after) : child.WellBuilt := built.child mem
    rw [List.forall_mem_append, List.forall_mem_cons] at inner placed
    refine shows_composite.2 ⟨?_, ?_⟩
    · have blind' : sight core.address = none := own.trans blind
      simp only [core_composite, blind', Option.none_or]
    · rw [List.forall_mem_append, List.forall_mem_cons]
      exact ⟨sees_inheritAll handed scope before placed.1 inner.1 _,
        sees_inherit handed scope active placed.2.1 inner.2.1 _,
        sees_inheritAll handed scope after placed.2.2 inner.2.2 _⟩

end State

end Statechart
