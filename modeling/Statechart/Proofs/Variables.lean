import Statechart.Proofs.Lasting
import Statechart.Proofs.Links

/-!
# Adding variables

What adding a variable at a state does to the tree and to the store.  A name that is taken is refused,
and nothing changes.  Otherwise the variable is put into the scope that the state sees, or into a new one
that is opened at the state's place, and the state and all beneath it see a scope then.
-/
namespace Statechart

variable {H : Host}

/-- Setting a key to the value that it has changes nothing. -/
theorem Registry.set_of_get? {κ α : Type} [DecidableEq κ] {registry : Registry κ α} {key : κ}
    {value : α} (found : registry.get? key = some value) : registry.set key value = registry := by
  obtain ⟨entries⟩ := registry
  rw [set, mk.injEq]
  simp only [get?] at found
  induction entries with
  | nil => contradiction
  | cons entry rest ih =>
    obtain ⟨other, old⟩ := entry
    by_cases here : other = key
    · simp only [find?, here, if_true, Option.some.injEq] at found
      simp only [assign, here, if_true, found]
    · simp only [find?, here, if_false] at found
      simp only [assign, here, if_false, ih found]

/-- Adding a variable says nothing about other names. -/
theorem Scope.get?_insert_of_ne {scope : Scope} {name other : String} (value : Value)
    (ne : other ≠ name) : (scope.insert name value).2.get? other = scope.get? other := by
  unfold insert
  split
  · rfl
  · have differs : (other == name) = false := by simpa using ne
    simp [get?, List.lookup_append, List.lookup_cons, differs]

namespace Store

variable {σ σ' : Store H} {owner : Address} {scope : Scope} {name : String}

/-- A scope has been given a variable under a name that was free, and all other scopes are as they
were.  A scope that was not open is open now. -/
structure Admits (σ : Store H) (owner : Address) (name : String) (value : Value) (σ' : Store H) :
    Prop where
  free : (σ.scope owner).contains name = false
  scopes : ∀ other, σ'.scopes.get? other =
    if other = owner then some ((σ.scope owner).insert name value).2 else σ.scopes.get? other
  machines : σ'.machines = σ.machines

/-- Declaring a variable in an open scope is adding it to the scope. -/
theorem run_declare_of_some (found : σ.scopes.get? owner = some scope) (name : String)
    (value : Value) : (declare owner name value).run σ = ((scope.insert name value).1,
      { σ with scopes := σ.scopes.set owner (scope.insert name value).2 }) := by
  simp only [declare, StoreM.run_bind, StoreM.run_get, found, StoreM.run_modify, StoreM.run_pure]

/-- A name that is taken is refused, and nothing changes. -/
theorem run_declare_of_taken (found : σ.scopes.get? owner = some scope)
    (taken : scope.contains name = true) (value : Value) :
    (declare owner name value).run σ = (false, σ) := by
  have refused : scope.insert name value = (false, scope) := by rw [Scope.insert, if_pos taken]
  rw [run_declare_of_some found, refused, Registry.set_of_get? found]

/-- A name that is free is accepted. -/
theorem run_declare_of_free (found : σ.scopes.get? owner = some scope)
    (free : scope.contains name = false) (value : Value) :
    ((declare owner name value).run σ).1 = true ∧
      Admits σ owner name value ((declare owner name value).run σ).2 := by
  have here : σ.scope owner = scope := by rw [Store.scope, found, Option.getD_some]
  have accepted : (scope.insert name value).1 = true := by simp [Scope.insert, free]
  rw [run_declare_of_some found]
  refine ⟨accepted, ⟨by rw [here, free], fun other => ?_, rfl⟩⟩
  rw [here]
  exact Registry.get?_set _ _ _ _

/-- The scopes are the same, and as many machines. -/
def SameScopes (σ σ' : Store H) : Prop := σ'.scopes = σ.scopes ∧ σ'.machines = σ.machines

theorem sameScopes_loggable : Loggable (SameScopes (H := H)) where
  refl _ := ⟨rfl, rfl⟩
  trans h k := ⟨k.1.trans h.1, k.2.trans h.2⟩
  log _ _ _ := ⟨rfl, rfl⟩

theorem Admits.later {value : Value} (h : Admits σ owner name value σ') {σ'' : Store H}
    (same : SameScopes σ' σ'') : Admits σ owner name value σ'' :=
  ⟨h.free, fun other => by rw [same.1, h.scopes], same.2.trans h.machines⟩

end Store

namespace State

variable {s : State H} {sight : Address → Option Address} {σ : Store H}

/-- The place of the scope that variables of the state are added to. -/
def scopePlace (s : State H) : Address := s.core.scope.getD s.address

theorem run_ensureScope_of_some {owner : Address} (seen : s.core.scope = some owner) (σ : Store H) :
    s.ensureScope.run σ = ((owner, s), σ) := by
  simp only [ensureScope, seen, StoreM.run_pure]

theorem run_ensureScope_of_none (blind : s.core.scope = none)
    (closed : σ.scopes.get? s.address = none) :
    s.ensureScope.run σ = ((s.address, s.withCore { s.core with scope := some s.address }),
      { σ with scopes := σ.scopes.set s.address .empty }) := by
  simp only [ensureScope, blind, StoreM.run_bind, Store.openScope, StoreM.run_modify, closed,
    StoreM.run_pure]

/-- A variable whose name is free is added once the state sees a scope, and then all beneath are linked
to that one. -/
theorem run_injectVariable_of_free {owner : Address} {linked : State H} {σ₁ : Store H} {name : String}
    {value : Value} (ensured : s.ensureScope.run σ = ((owner, linked), σ₁))
    (accepted : ((Store.declare owner name value).run σ₁).1 = true) :
    let declared := ((Store.declare owner name value).run σ₁).2
    ∃ σ', declared.SameScopes σ' ∧ (s.injectVariable name value).run σ =
      ((.ok (), ((attach owner linked).run declared).1), σ') := by
  intro declared
  let s' := ((attach owner linked).run declared).1
  have kept := Store.sameScopes_loggable.composes.attach owner linked declared
  have noted := Store.sameScopes_loggable.note (.variableInjected s'.name name)
    (declared.after (attach owner linked))
  refine ⟨_, Store.sameScopes_loggable.trans kept noted, ?_⟩
  simp only [injectVariable, StoreM.run_bind, ensured, accepted, if_true, StoreM.run_pure]
  rfl

/-- A state that sees no scope opens one, and it is seen from all beneath that has seen none. -/
theorem injectVariable_of_none (h : Sees sight s) (handed : HandedDown sight) (built : s.WellBuilt)
    (blind : s.core.scope = none) (closed : σ.scopes.get? s.address = none) (name : String)
    (value : Value) :
    ∃ s' σ', (s.injectVariable name value).run σ = ((.ok (), s'), σ') ∧
      Sees (openAt s.address sight) s' ∧ σ.Admits s.address name value σ' := by
  let opened : Store H := { σ with scopes := σ.scopes.set s.address .empty }
  have found : opened.scopes.get? s.address = some .empty := Registry.get?_set_self _ _ _
  obtain ⟨accepted, admits⟩ := Store.run_declare_of_free found
    (show Scope.empty.contains name = false from rfl) value
  obtain ⟨σ', same, run⟩ :=
    run_injectVariable_of_free (run_ensureScope_of_none blind closed) accepted
  refine ⟨_, σ', run, ?_, ?_⟩
  · have linked := sees_attach handed s.address built h blind
      ((Store.declare s.address name value).run opened).2
    have layout := layout_eq_of_outline_eq ((outline_injectVariable name value s σ).symm)
    rw [run] at layout
    intro t mem
    have covers := (built.of_layout layout.symm).covers mem
    rw [← address_eq_of_layout_eq layout] at covers
    rw [openAt, if_pos covers]
    exact linked t mem
  · refine Store.Admits.later ?_ same
    have empty : σ.scope s.address = .empty := by rw [Store.scope, closed, Option.getD_none]
    have empty' : opened.scope s.address = .empty := by rw [Store.scope, found, Option.getD_some]
    refine ⟨by rw [empty]; rfl, fun other => ?_, admits.machines⟩
    rw [admits.scopes, empty, empty']
    by_cases here : other = s.address
    · rw [if_pos here, if_pos here]
    · rw [if_neg here, if_neg here]
      exact Registry.get?_set_of_ne _ here _

/-- A variable that is added at a state of which all beneath see scopes, which are open, and which has
no open scope unless it sees one, is refused where its name is taken, and nothing changes.  Otherwise
it is admitted, and the state and all beneath it see a scope. -/
theorem injectVariable_cases (h : Sees sight s) (handed : HandedDown sight) (built : s.WellBuilt)
    (opened : ∀ scope, s.core.scope = some scope → (σ.scopes.get? scope).isSome)
    (closed : s.core.scope = none → σ.scopes.get? s.address = none) (name : String) (value : Value) :
    ((∃ scope, s.core.scope = some scope ∧ (σ.scope scope).contains name = true) ∧
      (s.injectVariable name value).run σ = ((.error (.duplicateVariable s.name name), s), σ)) ∨
    ∃ s' σ', (s.injectVariable name value).run σ = ((.ok (), s'), σ') ∧
      Sees (openAt s.address sight) s' ∧ σ.Admits s.scopePlace name value σ' := by
  rcases seen : s.core.scope with _ | owner
  · have place : s.scopePlace = s.address := by rw [scopePlace, seen, Option.getD_none]
    rw [place]
    exact .inr (injectVariable_of_none h handed built seen (closed seen) name value)
  · have place : s.scopePlace = owner := by rw [scopePlace, seen, Option.getD_some]
    obtain ⟨scope, found⟩ := Option.isSome_iff_exists.1 (opened owner seen)
    have here : σ.scope owner = scope := by rw [Store.scope, found, Option.getD_some]
    have ensured := run_ensureScope_of_some seen σ
    rcases taken : scope.contains name
    · obtain ⟨accepted, admits⟩ := Store.run_declare_of_free found taken value
      obtain ⟨σ', same, run⟩ := run_injectVariable_of_free ensured accepted
      have full := h.full handed built (by simp [seen])
      rw [run_attach_of_some owner fun t mem =>
        full t (child_mem_subtree mem)] at run
      refine .inr ⟨s, σ', run, ?_, place ▸ admits.later same⟩
      rw [handed.openAt_eq ((h s (self_mem_subtree s)).trans seen)]
      exact h
    · refine .inl ⟨⟨owner, rfl, by rw [here, taken]⟩, ?_⟩
      have refused := Store.run_declare_of_taken found taken value
      simp only [injectVariable, StoreM.run_bind, ensured, refused, Bool.false_eq_true, if_false,
        StoreM.run_pure]

variable [Conduct H]

/-- Adding a variable at a state of the active chain goes as it does at that state; for what is above
and beside, nothing changes. -/
theorem onActive_injectVariable_cases {depth : Nat} {owner : State H}
    (active_eq : s.chain[depth]? = some owner) (h : Sees sight s) (handed : HandedDown sight)
    (built : s.WellBuilt)
    (opened : ∀ scope, owner.core.scope = some scope → (σ.scopes.get? scope).isSome)
    (closed : owner.core.scope = none → σ.scopes.get? owner.address = none) (name : String)
    (value : Value) :
    let act (t : State H) := t.perform (.injectVariable name value)
    ((∃ scope, owner.core.scope = some scope ∧ (σ.scope scope).contains name = true) ∧
      (s.onActive act depth).run σ =
        ((some (.failed (.duplicateVariable owner.name name)), s), σ)) ∨
    ∃ s' σ', (s.onActive act depth).run σ = ((some .done, s'), σ') ∧
      Sees (openAt owner.address sight) s' ∧ σ.Admits owner.scopePlace name value σ' := by
  intro act
  induction depth generalizing s with
  | zero =>
    rw [getElem?_chain_zero] at active_eq
    obtain rfl := Option.some.inj active_eq
    rcases injectVariable_cases h handed built opened closed name value with
      ⟨taken, run⟩ | ⟨s', σ', run, seen, admits⟩
    · refine .inl ⟨taken, ?_⟩
      simp only [onActive, act, perform, StoreM.run_bind, run, StoreM.run_pure, Outcome.ofExcept]
    · refine .inr ⟨s', σ', ?_, seen, admits⟩
      simp only [onActive, act, perform, StoreM.run_bind, run, StoreM.run_pure, Outcome.ofExcept]
  | succ depth ih =>
    cases s with
    | leaf core => simp [chain] at active_eq
    | composite core routes before active after =>
      have below : active.chain[depth]? = some owner := active_eq
      obtain ⟨own, inner⟩ := shows_composite.1 h
      have here : Sees sight active := inner active (by simp)
      rcases ih below here built.inner with ⟨taken, run⟩ | ⟨active', σ', run, seen, admits⟩
      · refine .inl ⟨taken, ?_⟩
        simp only [onActive, StoreM.run_bind, run, StoreM.run_pure]
      · have covers : active.address.Covers owner.address :=
          built.inner.covers (mem_subtree_of_getElem? below)
        have agree : AgreeOff active.address sight (openAt owner.address sight) :=
          (agreeOff_openAt owner.address sight).mono covers
        refine .inr ⟨.composite core routes before active' after, σ', ?_, ?_, admits⟩
        · simp only [onActive, StoreM.run_bind, run, StoreM.run_pure]
        · exact shows_composite.2
            ⟨(AgreeOff.owner agree built).trans own, shows_replace built inner agree seen⟩

end State

end Statechart
