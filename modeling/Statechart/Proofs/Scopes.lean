import Statechart.Proofs.Blueprints
import Statechart.Proofs.Variables

/-!
# Scopes of machines

Over every run of a machine there is a table of sight that gives what its states see, and it grows only
where a variable is added at a state that sees no scope.  All that is known of tables of sight follows
for machines: whoever sees a scope sees it for good, below a state that sees one all states do, and where
a state does not see the scope of the state above, its own was opened by adding a variable to it.
-/
namespace Statechart

variable {H : Host}

namespace Store

variable {σ σ' : Store H} {owner : Address} {name : String} {value : Value}

/-- The same scopes are open, and there are as many machines. -/
def KeepsScopes (σ σ' : Store H) : Prop :=
  (∀ owner, (σ'.scopes.get? owner).isSome = (σ.scopes.get? owner).isSome) ∧ σ'.machines = σ.machines

theorem keepsScopes_steady : Steady (fun _ => True) (KeepsScopes (H := H)) := by
  refine SameRest.steady ?_ (fun h k => ⟨fun owner => (k.1 owner).trans (h.1 owner), k.2.trans h.2⟩)
    fun owner name value σ => ?_
  · rintro σ σ' ⟨mailboxes, shared, journal, rfl⟩
    exact ⟨fun _ => rfl, rfl⟩
  · rcases found : σ.scopes.get? owner with _ | scope
    · simp only [after, declare, found, StoreM.run_bind, StoreM.run_get, StoreM.run_pure]
      exact ⟨fun _ => rfl, rfl⟩
    · rw [after, run_declare_of_some found]
      refine ⟨fun other => ?_, rfl⟩
      rw [Registry.get?_set]
      split
      · next here => rw [here, found]; rfl
      · rfl

theorem Admits.isSome_iff (h : σ.Admits owner name value σ') (other : Address) :
    (σ'.scopes.get? other).isSome ↔ other = owner ∨ (σ.scopes.get? other).isSome := by
  rw [h.scopes]
  by_cases here : other = owner <;> simp [here]

/-- The value of a variable that a state sees. -/
def visible? (σ : Store H) (t : State H) (name : String) : Option Value :=
  (σ.scopeOf t.core.scope).bind fun scope => scope.get? name

theorem visible?_of_some {t : State H} (seen : t.core.scope = some owner) (name : String) :
    σ.visible? t name = (σ.scope owner).get? name := by
  rw [visible?, scopeOf, seen]
  rfl

theorem visible?_of_none {t : State H} (blind : t.core.scope = none) (name : String) :
    σ.visible? t name = none := by
  rw [visible?, scopeOf, blind]
  rfl

/-- A state sees a variable of a name just if the scope that it sees contains the name. -/
theorem isSome_visible? {t : State H} : (σ.visible? t name).isSome ↔
    ∃ scope, t.core.scope = some scope ∧ (σ.scope scope).contains name = true := by
  rcases seen : t.core.scope with _ | scope
  · simp [visible?_of_none seen]
  · simp [visible?_of_some seen, Scope.contains]

/-- What a scope holds once it has admitted a variable. -/
theorem Admits.get? (h : σ.Admits owner name value σ') (other : String) :
    (σ'.scope owner).get? other = if other = name then some value else (σ.scope owner).get? other := by
  have here : σ'.scope owner = ((σ.scope owner).insert name value).2 := by
    rw [Store.scope, h.scopes, if_pos rfl, Option.getD_some]
  rw [here]
  by_cases same : other = name
  · subst same
    have free : (σ.scope owner).get? other = none := by
      simpa [Scope.contains] using h.free
    rw [if_pos rfl, Scope.get?_insert_self value free]
  · rw [if_neg same, Scope.get?_insert_of_ne value same]

/-- Every open scope is of a machine that has been started. -/
def Tidy (σ : Store H) : Prop := ∀ owner, (σ.scopes.get? owner).isSome → owner.machine < σ.machines

/-- A store in which nothing has happened is tidy. -/
theorem tidy_initial (shared : H.Shared) (clock : Instant) : (initial shared clock).Tidy := nofun

theorem Tidy.later (h : σ.Tidy) (kept : KeepsScopes σ σ') : σ'.Tidy := by
  intro owner isOpen
  rw [kept.1] at isOpen
  rw [kept.2]
  exact h owner isOpen

end Store

namespace Blueprint

open State Store

variable {config : Config} {place : Address} {typeName : String} {blueprint : Blueprint H}
  {s : State H}

/-- Nothing that has just been built sees a scope. -/
theorem Builds.blind (h : Builds config place typeName blueprint s) :
    ∀ t ∈ s.subtree, t.core.scope = none := by
  induction h with
  | leaf place typeName make behavior => simp [subtree]
  | composite valid names_eq initial_eq inner ih =>
    intro t mem
    rcases mem_subtree.1 mem with rfl | ⟨child, inside, mem⟩
    · rfl
    · obtain ⟨row, here, same⟩ := exists_builder names_eq inside
      exact ih row here child inside same.symm t mem

/-- Starting a machine opens no scope. -/
theorem keepsScopes_start {name : String} (segment : isSegment name = true) (config : Config)
    (typeName : String) (blueprint : Blueprint H) (σ : Store H) :
    KeepsScopes { σ with machines := σ.machines + 1 }
      (σ.after (blueprint.start config name typeName)) := by
  have built := keepsScopes_steady.build config (.root σ.machines name) typeName blueprint
    { σ with machines := σ.machines + 1 }
  have housed (root : State H) := keepsScopes_steady.house (fun _ _ _ => ⟨fun _ => rfl, rfl⟩)
    config.policy root
  rw [after, run_start segment]
  rw [after] at built
  rcases run : (blueprint.build config (.root σ.machines name) typeName).run
    { σ with machines := σ.machines + 1 } with ⟨fault | root, σ'⟩ <;> rw [run] at built
  · exact built
  · exact keepsScopes_steady.trans built (housed root σ')

/-- A store stays tidy where a machine is started, or fails to be. -/
theorem tidy_start {σ : Store H} (tidy : σ.Tidy) (config : Config) (name typeName : String)
    (blueprint : Blueprint H) : (σ.after (blueprint.start config name typeName)).Tidy := by
  rcases segment : isSegment name
  · have same : σ.after (blueprint.start config name typeName) = σ := by
      simp only [after, start, segment, Bool.false_eq_true, if_false, StoreM.run_pure]
    rw [same]
    exact tidy
  · have counted : Tidy { σ with machines := σ.machines + 1 } :=
      fun owner isOpen => Nat.lt_succ_of_lt (tidy owner isOpen)
    exact counted.later (keepsScopes_start segment config typeName blueprint σ)

end Blueprint

namespace State

variable {s t u : State H}

theorem mem_subtree_trans (mem : t ∈ s.subtree) (inside : u ∈ t.subtree) : u ∈ s.subtree := by
  induction s using treeInduction with
  | leaf core =>
    rw [subtree, List.mem_singleton] at mem
    exact mem ▸ inside
  | composite core routes before active after ih =>
    rcases mem_subtree.1 mem with rfl | ⟨child, here, below⟩
    · exact inside
    · exact mem_subtree.2 (.inr ⟨child, here, ih child here below⟩)

theorem WellBuilt.of_mem (built : s.WellBuilt) (mem : t ∈ s.subtree) : t.WellBuilt := by
  induction s using treeInduction with
  | leaf core =>
    rw [subtree, List.mem_singleton] at mem
    exact mem ▸ built
  | composite core routes before active after ih =>
    rcases mem_subtree.1 mem with rfl | ⟨child, inside, below⟩
    · exact built
    · exact ih child inside (built.child inside) below

/-- In a tree, what a state's place covers is beneath the state. -/
theorem WellBuilt.mem_of_covers (built : s.WellBuilt) (mem : u ∈ s.subtree) (mem' : t ∈ s.subtree)
    (covers : u.address.Covers t.address) : t ∈ u.subtree := by
  induction s using treeInduction with
  | leaf core =>
    rw [subtree, List.mem_singleton] at mem mem'
    rw [mem, mem']
    exact self_mem_subtree _
  | composite core routes before active after ih =>
    rcases mem_subtree.1 mem with rfl | ⟨child, inside, below⟩
    · exact mem'
    · have above := ((built.child inside).covers below).trans covers
      rcases mem_subtree.1 mem' with rfl | ⟨other, inside', below'⟩
      · exact absurd above (built.not_covers_owner inside)
      · obtain rfl := built.eq_of_covers inside inside' above ((built.child inside').covers below')
        exact ih child inside (built.child inside) below below'

variable [Conduct H]

/-- No operation but adding a variable changes what is seen from a state. -/
theorem survey_perform {operation : Operation H}
    (other : ∀ name value, operation ≠ .injectVariable name value) (s : State H) (σ : Store H) :
    ((s.perform operation).run σ).1.2.survey Core.link = s.survey Core.link := by
  have fitted := Core.fitted_link (H := H)
  cases operation with
  | cycle =>
    obtain ⟨marks, cycles, -⟩ := cycles_run s σ
    rcases cycled : s.cycle.run σ with ⟨⟨fault | request, s'⟩, σ'⟩ <;> rw [cycled] at cycles <;>
      simp only [perform, StoreM.run_bind, cycled, StoreM.run_pure] <;>
      exact cycles.survey_eq fitted
  | reset =>
    obtain ⟨marks, resets, -⟩ := resets_run s σ
    exact resets.survey_eq fitted
  | setPath text => exact survey_path rfl fitted.stops s σ
  | restore checkpoint => exact survey_path rfl fitted.stops s σ
  | injectVariable name value => exact absurd rfl (other name value)
  | observe observer => exact survey_withCore rfl

omit [Conduct H] in
/-- Where the chain is too short, nothing is done. -/
theorem run_onActive_of_none {α : Type} {act : State H → StoreM H (α × State H)} {depth : Nat}
    (short : s.chain[depth]? = none) (σ : Store H) : (s.onActive act depth).run σ = ((none, s), σ) := by
  induction depth generalizing s with
  | zero => simp [getElem?_chain_zero] at short
  | succ depth ih =>
    cases s with
    | leaf core => rfl
    | composite core routes before active after =>
      have below : active.chain[depth]? = none := short
      simp only [onActive, StoreM.run_bind, ih below, StoreM.run_pure]

end State

namespace Machine

open State

variable [Conduct H] {machine later first : Machine H} {sight : Address → Option Address}

/-- The table of sight is that of the machine, in a tidy store: it gives what the states see, and the
scopes that are seen are open, and no others of the machine. -/
structure Sighted (machine : Machine H) (sight : Address → Option Address) : Prop where
  tidy : machine.store.Tidy
  counted : machine.root.address.machine < machine.store.machines
  built : machine.root.WellBuilt
  sees : Sees sight machine.root
  handed : HandedDown sight
  opened : ∀ {place scope}, sight place = some scope → (machine.store.scopes.get? scope).isSome
  closed : ∀ {place}, place.machine = machine.root.address.machine → sight place = none →
    machine.store.scopes.get? place = none

omit [Conduct H] in
/-- What neither links nor opens a scope keeps the table. -/
theorem Sighted.of_same (h : Sighted machine sight)
    (layout : later.root.layout = machine.root.layout)
    (links : later.root.survey Core.link = machine.root.survey Core.link)
    (scopes : Store.KeepsScopes machine.store later.store) : Sighted later sight where
  tidy := h.tidy.later scopes
  counted := by
    rw [address_eq_of_layout_eq layout, scopes.2]
    exact h.counted
  built := h.built.of_layout layout
  sees := h.sees.of_survey links
  handed := h.handed
  opened seen := by
    rw [scopes.1]
    exact h.opened seen
  closed placed blind := by
    rw [address_eq_of_layout_eq layout] at placed
    rw [← Option.not_isSome_iff_eq_none, scopes.1, h.closed placed blind]
    exact Bool.false_ne_true

omit [Conduct H] in
/-- What is seen from a state is what the table says. -/
theorem Sighted.eq (h : Sighted machine sight) {t : State H} (mem : t ∈ machine.root.subtree) :
    sight t.address = t.core.scope := h.sees t mem

omit [Conduct H] in
/-- A scope that is admitted at a state keeps a table of sight. -/
theorem Sighted.of_admits (h : Sighted machine sight) {owner : State H}
    (mem : owner ∈ machine.root.subtree) (layout : later.root.layout = machine.root.layout)
    (sees : Sees (openAt owner.address sight) later.root) {name : String} {value : Value}
    (admits : machine.store.Admits owner.scopePlace name value later.store) :
    Sighted later (openAt owner.address sight) where
  tidy place isOpen := by
    rw [admits.machines]
    rcases (admits.isSome_iff place).1 isOpen with rfl | known
    · rcases seen : owner.core.scope with _ | scope
      · rw [scopePlace, seen, Option.getD_none, ← (h.built.covers mem).1]
        exact h.counted
      · rw [scopePlace, seen, Option.getD_some]
        exact h.tidy scope (h.opened ((h.eq mem).trans seen))
    · exact h.tidy place known
  counted := by
    rw [address_eq_of_layout_eq layout, admits.machines]
    exact h.counted
  built := h.built.of_layout layout
  sees := sees
  handed := h.handed.openAt owner.address
  opened {place scope} seen := by
    rw [admits.isSome_iff]
    rcases of_openAt seen with known | ⟨blind, covers, rfl⟩
    · exact .inr (h.opened known)
    · have none_seen := (h.eq mem).symm.trans (h.handed.full covers blind)
      exact .inl (by rw [scopePlace, none_seen, Option.getD_none])
  closed {place} placed blind := by
    obtain ⟨known, apart⟩ := openAt_eq_none blind
    rw [address_eq_of_layout_eq layout] at placed
    rw [← Option.not_isSome_iff_eq_none, admits.isSome_iff, h.closed placed known]
    rintro (rfl | isOpen)
    · -- the scope of the state is seen from its own place
      rcases seen : owner.core.scope with _ | scope
      · rw [scopePlace, seen, Option.getD_none] at apart
        exact apart (Address.covers_refl _)
      · have own := (h.eq mem).trans seen
        rw [scopePlace, seen, Option.getD_some] at known
        rw [h.handed.between own (Address.covers_refl _) (h.handed.topped own)] at known
        contradiction
    · contradiction

/-! ## Moves -/

/-- Adding a variable at a state of the active chain: its name is refused, and nothing changes, or it is
admitted, and the state and all beneath it see a scope. -/
theorem Sighted.move_injectVariable (h : Sighted machine sight) {depth : Nat} {owner : State H}
    (active_eq : machine.root.activeAt? depth = some owner) (name : String) (value : Value) :
    let moved := machine.move (.operate depth (.injectVariable name value))
    ((∃ scope, owner.core.scope = some scope ∧ (machine.store.scope scope).contains name = true) ∧
      moved = (.outcome (.failed (.duplicateVariable owner.name name)), machine)) ∨
    moved.1 = .outcome .done ∧ Sighted moved.2 (openAt owner.address sight) ∧
      machine.store.Admits owner.scopePlace name value moved.2.store := by
  intro moved
  have mem : owner ∈ machine.root.subtree := mem_subtree_of_getElem? active_eq
  have layout : moved.2.root.layout = machine.root.layout := layout_move machine _
  rcases onActive_injectVariable_cases active_eq h.sees h.handed h.built
      (fun scope seen => h.opened ((h.eq mem).trans seen))
      (fun blind => h.closed (h.built.covers mem).1.symm ((h.eq mem).trans blind)) name value with
    ⟨taken, run⟩ | ⟨root, σ, run, sees, admits⟩
  · refine .inl ⟨taken, ?_⟩
    simp only [moved, Machine.move, run, Option.map_some, Option.getD_some]
  · have result : moved = (.outcome .done, ⟨root, σ⟩) := by
      simp only [moved, Machine.move, run, Option.map_some, Option.getD_some]
    rw [result] at layout ⊢
    exact .inr ⟨rfl, h.of_admits mem layout sees admits, admits⟩

/-- A move that adds no variable at a state leaves links and scopes as they are. -/
theorem Sighted.move_other (h : Sighted machine sight) {move : Move H}
    (other : ∀ depth name value, move ≠ .operate depth (.injectVariable name value)) :
    Sighted (machine.move move).2 sight := by
  have steady := Store.keepsScopes_steady (H := H)
  cases move with
  | operate depth operation =>
    have adds_none (name : String) (value : Value) : operation ≠ .injectVariable name value :=
      fun eq => other depth name value (congrArg _ eq)
    have kept (s : State H) : Along Store.KeepsScopes (s.perform operation) :=
      steady.perform (fun _ _ _ _ => ⟨fun _ => rfl, rfl⟩) operation adds_none fun _ _ => trivial
    exact h.of_same (layout_move machine _)
      (survey_onActive (survey_perform adds_none) depth machine.root machine.store)
      (steady.onActive (fun s _ => kept s) depth (fun _ _ => trivial) machine.store)
  | post state command => exact h.of_same rfl rfl (steady.post state command machine.store)
  | declare scope name value => exact h.of_same rfl rfl (steady.declare scope name value machine.store)

/-- Every move keeps the table of sight, or it opens the scope of a state that has seen none. -/
theorem Sighted.move (h : Sighted machine sight) (move : Move H) :
    Sighted (machine.move move).2 sight ∨
    ∃ depth name value owner, move = .operate depth (.injectVariable name value) ∧
      machine.root.activeAt? depth = some owner ∧ owner.core.scope = none ∧
      Sighted (machine.move move).2 (openAt owner.address sight) := by
  by_cases adds : ∃ depth name value, move = .operate depth (.injectVariable name value)
  · obtain ⟨depth, name, value, rfl⟩ := adds
    rcases active_eq : machine.root.activeAt? depth with _ | owner
    · have nothing : (machine.move (.operate depth (.injectVariable name value))).2 = machine := by
        simp only [Machine.move, run_onActive_of_none active_eq]
      rw [nothing]
      exact .inl h
    · rcases h.move_injectVariable active_eq name value with ⟨-, same⟩ | ⟨-, later, -⟩
      · rw [same]
        exact .inl h
      · have mem : owner ∈ machine.root.subtree := mem_subtree_of_getElem? active_eq
        rcases seen : owner.core.scope with _ | scope
        · exact .inr ⟨depth, name, value, owner, rfl, active_eq, seen, later⟩
        · rw [h.handed.openAt_eq ((h.eq mem).trans seen)] at later
          exact .inl later
  · exact .inl (h.move_other fun depth name value eq => adds ⟨depth, name, value, eq⟩)

/-! ## Runs -/

/-- Somewhere in the run a variable is added at the state of the place, which has seen no scope, and
this opens the scope of the place. -/
def Opened (machine : Machine H) (moves : List (Move H)) (place : Address) : Prop :=
  ∃ earlier depth name value later t,
    moves = earlier ++ .operate depth (.injectVariable name value) :: later ∧
    let before := (machine.run earlier).2
    let after := (before.move (.operate depth (.injectVariable name value))).2
    before.root.activeAt? depth = some t ∧ t.address = place ∧ t.core.scope = none ∧
    before.store.scopes.get? place = none ∧ (after.store.scopes.get? place).isSome

theorem Opened.earlier {move : Move H} {moves : List (Move H)} {place : Address}
    (h : Opened (machine.move move).2 moves place) : Opened machine (move :: moves) place := by
  obtain ⟨earlier, depth, name, value, later, t, rfl, rest⟩ := h
  exact ⟨move :: earlier, depth, name, value, later, t, rfl, rest⟩

/-- In a run the table of sight only grows, by scopes that are opened in the run. -/
theorem Sighted.run (h : Sighted machine sight) (moves : List (Move H)) :
    ∃ sight', Sighted (machine.run moves).2 sight' ∧
      (∀ place scope, sight place = some scope → sight' place = some scope) ∧
      ∀ place scope, sight' place = some scope →
        sight place = some scope ∨ Opened machine moves scope := by
  induction moves generalizing machine sight with
  | nil => exact ⟨sight, h, fun _ _ seen => seen, fun _ _ seen => .inl seen⟩
  | cons move moves ih =>
    rcases h.move move with kept | ⟨depth, name, value, owner, rfl, active_eq, blind, opens⟩
    · obtain ⟨sight', last, grows, only⟩ := ih kept
      exact ⟨sight', last, grows, fun place scope seen => (only place scope seen).imp_right .earlier⟩
    · obtain ⟨sight', last, grows, only⟩ := ih opens
      refine ⟨sight', last, fun place scope seen => grows place scope (openAt_of_some seen _), ?_⟩
      intro place scope seen
      rcases only place scope seen with known | opened
      · rcases of_openAt known with known | ⟨-, -, rfl⟩
        · exact .inl known
        · have mem : owner ∈ machine.root.subtree := mem_subtree_of_getElem? active_eq
          have none_seen := (h.eq mem).trans blind
          have closed := h.closed (h.built.covers mem).1.symm none_seen
          have isOpen := opens.opened (openAt_of_none (Address.covers_refl _) none_seen)
          exact .inr ⟨[], depth, name, value, moves, owner, rfl, active_eq, rfl, blind, closed, isOpen⟩
      · exact .inr opened.earlier

omit [Conduct H] in
/-- A machine that has just been built in a tidy store has nothing in sight. -/
theorem sighted_of_start {config : Config} {name typeName : String} {blueprint : Blueprint H}
    {σ : Store H} (tidy : σ.Tidy)
    (started : (start config name typeName blueprint σ).1 = .ok first) :
    Sighted first fun _ => none := by
  have genuine := started_of_start started
  have run := run_of_start started
  obtain ⟨segment, builds⟩ := builds_of_start started
  have place : first.root.address = .root σ.machines name := builds.address_eq
  have kept := Blueprint.keepsScopes_start segment config typeName blueprint σ
  have tidied := Blueprint.tidy_start tidy config name typeName blueprint
  rw [Store.after, run] at kept tidied
  refine ⟨tidied, ?_, genuine.spec.1, fun t mem => (builds.blind t mem).symm, handedDown_none,
    fun seen => absurd seen.symm (Option.some_ne_none _), ?_⟩
  · rw [place, kept.2]
    exact Nat.lt_succ_self σ.machines
  · intro owner placed _
    rw [← Option.not_isSome_iff_eq_none, kept.1]
    intro isOpen
    rw [place] at placed
    exact absurd (tidy owner isOpen) (by rw [placed]; exact Nat.lt_irrefl _)

/-- The store stays tidy in every run of a machine that is built in a tidy store, and so the next machine
is built in a tidy store again. -/
theorem tidy_run {config : Config} {name typeName : String} {blueprint : Blueprint H} {σ : Store H}
    (tidy : σ.Tidy) (started : (start config name typeName blueprint σ).1 = .ok first)
    (moves : List (Move H)) : (first.run moves).2.store.Tidy := by
  obtain ⟨sight, h, -⟩ := (sighted_of_start tidy started).run moves
  exact h.tidy

/-! ## Who sees what -/

omit [Conduct H] in
/-- Below a state that sees a scope all states do. -/
theorem Sighted.full (h : Sighted machine sight) {t : State H} (mem : t ∈ machine.root.subtree)
    (seen : t.core.scope ≠ none) {u : State H} (inside : u ∈ t.subtree) : u.core.scope ≠ none := by
  have sees : Sees sight t := fun u below => h.sees u (mem_subtree_trans mem below)
  exact sees.full h.handed (h.built.of_mem mem) seen u inside

omit [Conduct H] in
/-- An inner state that does not see the scope of the state above sees its own. -/
theorem Sighted.own_of_ne (h : Sighted machine sight) {t child : State H}
    (mem : t ∈ machine.root.subtree) (inner : child ∈ t.children)
    (differs : child.core.scope ≠ t.core.scope) : child.core.scope = some child.address := by
  have inside : child ∈ t.subtree := child_mem_subtree inner
  have mem' := mem_subtree_trans mem inside
  rcases seen : child.core.scope with _ | scope
  · have blind : t.core.scope = none := by
      by_contra some_seen
      exact h.full mem some_seen inside seen
    exact absurd (seen.trans blind.symm) differs
  · have owned : child.address.owner? = some t.address := by
      rw [(h.built.of_mem mem).address_child inner, Address.owner?_inner]
    rw [h.handed.own_of_ne owned ((h.eq mem').trans seen)
      fun above => differs (seen.trans ((h.eq mem).symm.trans above).symm)]

omit [Conduct H] in
/-- The scope that a state sees is seen from its own place on, all the way down to the state. -/
theorem Sighted.top (h : Sighted machine sight) {t top : State H} {scope : Address}
    (mem : t ∈ machine.root.subtree) (seen : t.core.scope = some scope)
    (there : top ∈ machine.root.subtree) (placed : top.address = scope) :
    t ∈ top.subtree ∧ ∀ u ∈ top.subtree, t ∈ u.subtree → u.core.scope = some scope := by
  subst placed
  have known := (h.eq mem).trans seen
  refine ⟨h.built.mem_of_covers there mem (h.handed.topped known), fun u inside below => ?_⟩
  have mem' := mem_subtree_trans there inside
  rw [← h.eq mem']
  exact h.handed.between known ((h.built.of_mem there).covers inside)
    ((h.built.of_mem mem').covers below)

/-- A scope that is opened in a run is that of a state of the machine. -/
theorem Opened.exists_top {moves : List (Move H)} {place : Address} (h : Opened machine moves place) :
    ∃ top ∈ (machine.run moves).2.root.subtree, top.address = place := by
  obtain ⟨earlier, depth, name, value, later, t, rfl, active_eq, rfl, -⟩ := h
  have mem : t ∈ (machine.run earlier).2.root.subtree := mem_subtree_of_getElem? active_eq
  exact exists_of_layout_eq ((layout_run machine earlier).trans (layout_run machine _).symm) mem

omit [Conduct H] in
/-- What states see of variables once one has been admitted at a state: whoever sees the scope of that
state then sees the variable, which is new to it, and nothing else changes for anyone. -/
theorem Sighted.visible?_of_admits (h : Sighted machine sight) {owner : State H}
    (mem : owner ∈ machine.root.subtree) (later_h : Sighted later (openAt owner.address sight))
    {name : String} {value : Value}
    (admits : machine.store.Admits owner.scopePlace name value later.store) {t t' : State H}
    (here : t ∈ machine.root.subtree) (there : t' ∈ later.root.subtree)
    (same : t'.address = t.address) :
    (t'.core.scope = some owner.scopePlace → machine.store.visible? t name = none ∧
      ∀ other, later.store.visible? t' other =
        if other = name then some value else machine.store.visible? t other) ∧
    (t'.core.scope ≠ some owner.scopePlace → t'.core.scope = t.core.scope ∧
      ∀ other, later.store.visible? t' other = machine.store.visible? t other) := by
  have before := h.eq here
  have after : openAt owner.address sight t.address = t'.core.scope := same ▸ later_h.eq there
  have own := h.eq mem
  constructor
  · intro holds
    have admitted (other : String) := admits.get? other
    rcases of_openAt (after.trans holds) with known | ⟨blind, covers, -⟩
    · have seen := before.symm.trans known
      have free : (machine.store.scope owner.scopePlace).get? name = none := by
        simpa [Scope.contains] using admits.free
      refine ⟨by rw [Store.visible?_of_some seen, free], fun other => ?_⟩
      rw [Store.visible?_of_some holds, Store.visible?_of_some seen, admitted]
    · -- the state sees the scope first now that it is opened, and there is nothing else in it
      have unseen := before.symm.trans blind
      have none_seen := h.handed.full covers blind
      have place : owner.scopePlace = owner.address := by
        rw [State.scopePlace, own.symm.trans none_seen, Option.getD_none]
      have closed : machine.store.scope owner.scopePlace = .empty := by
        rw [place, Store.scope, h.closed (h.built.covers mem).1.symm none_seen, Option.getD_none]
      refine ⟨Store.visible?_of_none unseen name, fun other => ?_⟩
      rw [Store.visible?_of_some holds, Store.visible?_of_none unseen, admitted, closed,
        Scope.get?_empty]
  · intro apart
    have kept : t'.core.scope = t.core.scope := by
      rcases seen : t.core.scope with _ | scope
      · have blind := before.trans seen
        by_cases covers : owner.address.Covers t.address
        · have place : owner.scopePlace = owner.address := by
            rw [State.scopePlace, own.symm.trans (h.handed.full covers blind), Option.getD_none]
          rw [openAt_of_none covers blind, ← place] at after
          exact absurd after.symm apart
        · exact after.symm.trans ((openAt_of_not_covers covers).trans blind)
      · exact after.symm.trans (openAt_of_some (before.trans seen) _)
    refine ⟨kept, fun other => ?_⟩
    rcases seen : t.core.scope with _ | scope
    · rw [Store.visible?_of_none seen, Store.visible?_of_none (kept.trans seen)]
    · have differs : scope ≠ owner.scopePlace := fun eq => apart (eq ▸ kept.trans seen)
      rw [Store.visible?_of_some seen, Store.visible?_of_some (kept.trans seen), Store.scope,
        Store.scope, admits.scopes, if_neg differs]

/-- How scopes are seen in a tree, when it is known where scopes have been opened. -/
structure ScopesHandedDown (opened : Address → Prop) (root : State H) : Prop where
  /-- Below a state that sees a scope all states see one. -/
  full : ∀ t ∈ root.subtree, t.core.scope ≠ none → ∀ u ∈ t.subtree, u.core.scope ≠ none
  /-- A root that sees a scope sees its own, which has been opened there. -/
  top : root.core.scope ≠ none → root.core.scope = some root.address ∧ opened root.address
  /-- A state that does not see the scope of the state above sees its own, which was opened there. -/
  own : ∀ t ∈ root.subtree, ∀ child ∈ t.children, child.core.scope ≠ t.core.scope →
    child.core.scope = some child.address ∧ opened child.address
  /-- The states that see one scope are connected; at the top is the state where it was opened. -/
  connected : ∀ t ∈ root.subtree, ∀ scope, t.core.scope = some scope → opened scope ∧
    ∃ top ∈ root.subtree, top.address = scope ∧ t ∈ top.subtree ∧
      ∀ u ∈ top.subtree, t ∈ u.subtree → u.core.scope = some scope

/-- What comes of adding a variable at a state of a machine. -/
structure AddsVariable (machine : Machine H) (owner : State H) (key : String) (value : Value)
    (moved : Answer × Machine H) : Prop where
  /-- It fails just if the scope that the state sees has the name. -/
  refused : moved.1 = .outcome (.failed (.duplicateVariable owner.name key)) ↔
    (machine.store.visible? owner key).isSome
  /-- Where it fails nothing changes. -/
  unchanged : (machine.store.visible? owner key).isSome → moved.2 = machine
  /-- Otherwise it is done, and the state sees a scope then. -/
  done : machine.store.visible? owner key = none → moved.1 = .outcome .done ∧
    ∃ owner' ∈ moved.2.root.subtree, owner'.address = owner.address ∧ owner'.core.scope ≠ none ∧
      ∀ t ∈ machine.root.subtree, ∀ t' ∈ moved.2.root.subtree, t'.address = t.address →
        -- whoever sees that scope sees the variable, which is new to it, and what it has seen before
        (t'.core.scope = owner'.core.scope → machine.store.visible? t key = none ∧
          ∀ other, moved.2.store.visible? t' other =
            if other = key then some value else machine.store.visible? t other) ∧
        -- nothing changes for anyone else
        (t'.core.scope ≠ owner'.core.scope → t'.core.scope = t.core.scope ∧
          ∀ other, moved.2.store.visible? t' other = machine.store.visible? t other)

/-- What comes of adding a variable in a machine that a table of sight is of. -/
theorem Sighted.addsVariable (h : Sighted machine sight) {depth : Nat} {owner : State H}
    (active_eq : machine.root.activeAt? depth = some owner) (key : String) (value : Value) :
    AddsVariable machine owner key value
      (machine.move (.operate depth (.injectVariable key value))) := by
  have mem : owner ∈ machine.root.subtree := mem_subtree_of_getElem? active_eq
  rcases h.move_injectVariable active_eq key value with ⟨taken, result⟩ | ⟨done, later, admits⟩
  · have known := Store.isSome_visible?.2 taken
    refine ⟨⟨fun _ => known, fun _ => congrArg Prod.fst result⟩, fun _ => congrArg Prod.snd result,
      fun unseen => ?_⟩
    rw [unseen] at known
    contradiction
  · have unseen : machine.store.visible? owner key = none := by
      rw [← Option.not_isSome_iff_eq_none, Store.isSome_visible?]
      rintro ⟨scope, seen, taken⟩
      have free := admits.free
      rw [scopePlace, seen, Option.getD_some, taken] at free
      contradiction
    obtain ⟨owner', there, same⟩ := exists_of_layout_eq (layout_move machine _).symm mem
    have sees : owner'.core.scope = some owner.scopePlace := by
      rw [← later.eq there, same]
      rcases seen : owner.core.scope with _ | scope
      · rw [scopePlace, seen]
        exact openAt_of_none (Address.covers_refl _) ((h.eq mem).trans seen)
      · rw [scopePlace, seen]
        exact openAt_of_some ((h.eq mem).trans seen) _
    refine ⟨⟨fun failed => ?_, fun known => ?_⟩, fun known => ?_,
      fun _ => ⟨done, owner', there, same, by simp [sees], fun t here t' there' same' => ?_⟩⟩
    · cases done.symm.trans failed
    · rw [unseen] at known
      contradiction
    · rw [unseen] at known
      contradiction
    · rw [sees]
      exact h.visible?_of_admits mem later admits here there' same'

/-- In every run of a machine that is built in a tidy store scopes are handed down from where they are
opened by adding variables, and what a state sees it sees for good.  So adding a variable at a state adds
it for whoever sees the scope of that state, unless the name is taken there. -/
theorem scopes_handed_down {config : Config} {name typeName : String} {blueprint : Blueprint H}
    {σ : Store H} (tidy : σ.Tidy)
    (started : (start config name typeName blueprint σ).1 = .ok first) (moves : List (Move H)) :
    let machine := (first.run moves).2
    ScopesHandedDown (Opened first moves) machine.root ∧
    (∀ more, ∀ t ∈ machine.root.subtree, ∀ t' ∈ (machine.run more).2.root.subtree,
      t'.address = t.address → ∀ scope, t.core.scope = some scope → t'.core.scope = some scope) ∧
    ∀ depth owner key value, machine.root.activeAt? depth = some owner →
      AddsVariable machine owner key value
        (machine.move (.operate depth (.injectVariable key value))) := by
  intro machine
  obtain ⟨sight, h, -, only⟩ := (sighted_of_start tidy started).run moves
  have opened {t : State H} {scope : Address} (mem : t ∈ machine.root.subtree)
      (seen : t.core.scope = some scope) : Opened first moves scope :=
    (only t.address scope ((h.eq mem).trans seen)).resolve_left nofun
  refine ⟨⟨fun t mem seen u inside => h.full mem seen inside, fun seen => ?_,
    fun t mem child inner differs => ?_, fun t mem scope seen => ?_⟩, ?_,
    fun depth owner key value active_eq => h.addsVariable active_eq key value⟩
  · obtain ⟨scope, eq⟩ := Option.ne_none_iff_exists'.1 seen
    have mem := self_mem_subtree machine.root
    have top := (h.handed.topped ((h.eq mem).trans eq)).eq_of_top
      ((started_of_start started).reachable moves).top
    exact ⟨eq.trans (congrArg some top), top ▸ opened mem eq⟩
  · have own := h.own_of_ne mem inner differs
    have inside : child ∈ t.subtree := child_mem_subtree inner
    exact ⟨own, opened (mem_subtree_trans mem inside) own⟩
  · obtain ⟨top, there, placed⟩ := (opened mem seen).exists_top
    exact ⟨opened mem seen, top, there, placed, h.top mem seen there placed⟩
  · intro more t mem t' mem' same scope seen
    obtain ⟨sight', later, grows, -⟩ := h.run more
    rw [← later.eq mem', same]
    exact grows _ _ ((h.eq mem).trans seen)

end Machine

/-! ## A machine with variables -/

namespace Sample

open Script

/-- A variable at the state that is active first, and then one at the root. -/
def scoping : List (Move stage) :=
  [.operate 1 (.injectVariable "x" ⟨"u8", .integer 1⟩),
    .operate 0 (.injectVariable "y" ⟨"u8", .integer 2⟩)]

end Sample

/-- The state that has a scope of its own keeps it, and all others come to see that of the root. -/
theorem Machine.scopes_handed_down_sample :
    let first := Sample.machine
    let moves := Sample.scoping
    let machine := (first.run moves).2
    (Store.initial (H := Script.stage) .empty Sample.clock).Tidy ∧
    (start .default "R" "Node" Sample.cast (.initial .empty Sample.clock)).1 = .ok first ∧
    machine.root.survey Core.link = [(Sample.top, some Sample.top),
      (Sample.top.inner "Idle", some (Sample.top.inner "Idle")), (Sample.work, some Sample.top),
      (Sample.part, some Sample.top)] ∧
    ScopesHandedDown (Opened first moves) machine.root ∧
    (∀ more, ∀ t ∈ machine.root.subtree, ∀ t' ∈ (machine.run more).2.root.subtree,
      t'.address = t.address → ∀ scope, t.core.scope = some scope → t'.core.scope = some scope) ∧
    ∀ depth owner key value, machine.root.activeAt? depth = some owner →
      AddsVariable machine owner key value
        (machine.move (.operate depth (.injectVariable key value))) := by
  have tidy : (Store.initial (H := Script.stage) .empty Sample.clock).Tidy :=
    Store.tidy_initial _ _
  exact ⟨tidy, Sample.start_machine, by decide +kernel,
    scopes_handed_down tidy Sample.start_machine Sample.scoping⟩

end Statechart
