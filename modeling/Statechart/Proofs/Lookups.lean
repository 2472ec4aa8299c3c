import Statechart.Proofs.Scopes
import Statechart.Proofs.Steering

/-!
# What has been read stays

Variables are only ever added to a scope, by whomever and through whatever handle, and a state that
sees a scope sees no other one later.  Main statement: once a variable has been read at a state, it is
read there with the same content ever after, and once a state has been told that a variable is of
another type, the variable stays, with its type.
-/
namespace Statechart

variable {H : Host}

namespace Store

variable {σ σ' : Store H}

/-! ## Scopes only grow -/

/-- Every variable of every scope is still there, with its value. -/
def KeepsVariables (σ σ' : Store H) : Prop :=
  ∀ owner name value, (σ.scope owner).get? name = some value →
    (σ'.scope owner).get? name = some value

theorem keepsVariables_of_same (same : σ'.scopes = σ.scopes) : KeepsVariables σ σ' := by
  intro owner name value found
  rwa [Store.scope, same]

/-- A step on the store that changes the content of one scope keeps all variables if that scope keeps
its own. -/
theorem keepsVariables_set {place : Address} {scope : Scope}
    (set : σ'.scopes = σ.scopes.set place scope)
    (grows : ∀ name value, (σ.scope place).get? name = some value → scope.get? name = some value) :
    KeepsVariables σ σ' := by
  intro owner name value found
  rw [Store.scope, set, Registry.get?_set]
  by_cases here : owner = place
  · rw [if_pos here, Option.getD_some]
    exact grows name value (here ▸ found)
  · rwa [if_neg here]

/-- Whatever is done to a machine, no variable is lost or changed. -/
theorem keepsVariables_lasting : Lasting (KeepsVariables (H := H)) where
  toSteady := by
    refine SameRest.steady ?_ (fun h k owner name value found => k _ _ _ (h _ _ _ found)) ?_
    · rintro σ _ ⟨mailboxes, shared, journal, rfl⟩
      exact keepsVariables_of_same rfl
    · intro owner name value σ
      rcases opened : σ.scopes.get? owner with _ | scope
      · simp only [after, declare, opened, StoreM.run_bind, StoreM.run_get, StoreM.run_pure]
        exact keepsVariables_of_same rfl
      · rw [after, run_declare_of_some opened]
        refine keepsVariables_set rfl fun other old found => ?_
        rw [Store.scope, opened, Option.getD_some] at found
        exact Scope.get?_insert_of_get? found name value
  openScope owner σ := by
    rcases opened : σ.scopes.get? owner with _ | scope
    · simp only [after, openScope, StoreM.run_modify, opened]
      refine keepsVariables_set rfl fun name value found => ?_
      rwa [Store.scope, opened, Option.getD_none] at found
    · simp only [after, openScope, StoreM.run_modify, opened]
      exact keepsVariables_of_same rfl
  recordChange history limit change σ := keepsVariables_of_same rfl

end Store

/-! ## Reading -/

namespace Store

variable {σ σ' : Store H} {t t' : State H} {name typeName : String}

/-- What is read at a state is told by the variable that it sees. -/
theorem read_eq (σ : Store H) (t : State H) (name typeName : String) :
    σ.read t name typeName = match σ.visible? t name with
      | none => .error (.variableNotFound t.name name)
      | some value =>
        match value.as? typeName with
        | none => .error (.variableTypeMismatch t.name name typeName)
        | some content => .ok content := by
  rcases seen : t.core.scope with _ | scope
  · rw [visible?_of_none seen, read, scopeOf, seen]
    rfl
  · rw [visible?_of_some seen, read, scopeOf, seen, Option.map_some, readVariable, Scope.read]
    rcases (σ.scope scope).get? name with _ | value
    · rfl
    · rcases typed : value.as? typeName with _ | content <;> simp only [typed]

/-- A variable is missing just where none is seen. -/
theorem read_eq_notFound_iff :
    σ.read t name typeName = .error (.variableNotFound t.name name) ↔ σ.visible? t name = none := by
  rw [read_eq]
  rcases σ.visible? t name with _ | value
  · simp
  · rcases typed : value.as? typeName with _ | content <;> simp [typed]

/-- A variable that a state sees is seen there as long as the variables are kept, and the scope with
them. -/
theorem visible?_later (kept : KeepsVariables σ σ')
    (linked : t.core.scope ≠ none → t'.core.scope = t.core.scope) {value : Value}
    (found : σ.visible? t name = some value) : σ'.visible? t' name = some value := by
  rcases seen : t.core.scope with _ | scope
  · rw [visible?_of_none seen] at found
    contradiction
  · have same : t'.core.scope = some scope := (linked (by simp [seen])).trans seen
    rw [visible?_of_some seen] at found
    rw [visible?_of_some same]
    exact kept scope name value found

/-- Whatever is read of a variable that is there is read of it later too, as of any type. -/
theorem read_later (kept : KeepsVariables σ σ')
    (linked : t.core.scope ≠ none → t'.core.scope = t.core.scope) (named : t'.name = t.name)
    (found : σ.read t name typeName ≠ .error (.variableNotFound t.name name)) (asked : String) :
    σ'.read t' name asked = σ.read t name asked ∧
      σ'.read t' name asked ≠ .error (.variableNotFound t.name name) := by
  obtain ⟨value, there⟩ := Option.ne_none_iff_exists'.1 (mt read_eq_notFound_iff.2 found)
  have later := visible?_later kept linked there
  have same : σ'.read t' name asked = σ.read t name asked := by
    rw [read_eq, read_eq, there, later, named]
  refine ⟨same, ?_⟩
  rw [same, Ne, read_eq_notFound_iff, there]
  exact Option.some_ne_none value

end Store

namespace State

variable {core core' : Core H} {routes : Routes} {before after before' after' : List (State H)}
  {active active' s s' s'' t t' : State H} {marks : List Mark}

/-! ## Links stay -/

/-- Whoever is in the later tree is in the earlier one, and the scope it has seen there, if any, is the
one it sees. -/
def KeepsLinks (s s' : State H) : Prop :=
  ∀ t' ∈ s'.subtree, ∃ t ∈ s.subtree, t.address = t'.address ∧
    (t.core.scope ≠ none → t'.core.scope = t.core.scope)

theorem KeepsLinks.refl (s : State H) : KeepsLinks s s := fun t mem => ⟨t, mem, rfl, fun _ => rfl⟩

theorem KeepsLinks.trans (h : KeepsLinks s s') (k : KeepsLinks s' s'') : KeepsLinks s s'' := by
  intro t'' mem
  obtain ⟨t', mem', same', kept'⟩ := k t'' mem
  obtain ⟨t, mem, same, kept⟩ := h t' mem'
  refine ⟨t, mem, same.trans same', fun seen => ?_⟩
  have still := kept seen
  exact (kept' (still ▸ seen)).trans still

theorem KeepsLinks.of_survey (same : s'.survey Core.link = s.survey Core.link) : KeepsLinks s s' := by
  intro t' mem
  obtain ⟨t, there, eq⟩ := exists_of_survey_eq same mem
  exact ⟨t, there, congrArg Prod.fst eq, fun _ => (congrArg Prod.snd eq).symm⟩

/-- Links are kept in a tree if they are kept at its top and in what is beneath. -/
theorem keepsLinks_of_children (placed : s'.core.address = s.core.address)
    (top : s.core.scope ≠ none → s'.core.scope = s.core.scope)
    (inner : ∀ child' ∈ s'.children, ∃ child ∈ s.children, KeepsLinks child child') :
    KeepsLinks s s' := by
  intro t' mem
  rcases mem_subtree.1 mem with rfl | ⟨child', inside, below⟩
  · exact ⟨s, self_mem_subtree s, placed.symm, top⟩
  · obtain ⟨child, there, kept⟩ := inner child' inside
    obtain ⟨t, found, rest⟩ := kept t' below
    exact ⟨t, mem_subtree.2 (.inr ⟨child, there, found⟩), rest⟩

/-- Every inner state keeps its links where those on both sides of the active one do, and that one. -/
theorem keepsLinks_children (left : ∀ t' ∈ before', ∃ t ∈ before, KeepsLinks t t')
    (here : KeepsLinks active active') (right : ∀ t' ∈ after', ∃ t ∈ after, KeepsLinks t t') :
    ∀ t' ∈ before' ++ active' :: after', ∃ t ∈ before ++ active :: after, KeepsLinks t t' := by
  intro t' mem
  rcases List.mem_append.1 mem with inside | inside
  · obtain ⟨t, there, kept⟩ := left t' inside
    exact ⟨t, List.mem_append_left _ there, kept⟩
  · rcases List.mem_cons.1 inside with rfl | inside
    · exact ⟨active, by simp, here⟩
    · obtain ⟨t, there, kept⟩ := right t' inside
      exact ⟨t, List.mem_append_right _ (List.mem_cons_of_mem _ there), kept⟩

theorem keepsLinks_active (here : KeepsLinks active active') :
    KeepsLinks (composite core routes before active after)
      (.composite core routes before active' after) :=
  keepsLinks_of_children rfl (fun _ => rfl) (keepsLinks_children
    (fun t mem => ⟨t, mem, .refl t⟩) here (fun t mem => ⟨t, mem, .refl t⟩))

mutual

/-- Linking a tree to a scope links only what sees none. -/
theorem keepsLinks_inherit (scope : Address) (s : State H) (σ : Store H) :
    KeepsLinks s ((inherit scope s).run σ).1 := by
  cases s with
  | leaf core =>
    rw [inherit]
    split
    · exact .refl _
    · next blind =>
      refine keepsLinks_of_children rfl (fun seen => ?_) fun _ mem => nomatch mem
      exact absurd (Option.isSome_iff_ne_none.2 seen) blind
  | composite core routes before active after =>
    rw [inherit]
    split
    · exact .refl _
    · next blind =>
      refine keepsLinks_of_children rfl (fun seen => ?_) (keepsLinks_children
        (keepsLinks_inheritAll scope before _) (keepsLinks_inherit scope active _)
        (keepsLinks_inheritAll scope after _))
      exact absurd (Option.isSome_iff_ne_none.2 seen) blind

theorem keepsLinks_inheritAll (scope : Address) (states : List (State H)) (σ : Store H) :
    ∀ t' ∈ ((inheritAll scope states).run σ).1, ∃ t ∈ states, KeepsLinks t t' := by
  cases states with
  | nil => exact fun _ mem => nomatch mem
  | cons state rest =>
    simp only [inheritAll, StoreM.run_bind, StoreM.run_pure, List.forall_mem_cons]
    refine ⟨⟨state, List.mem_cons_self, keepsLinks_inherit scope state σ⟩, fun t' mem => ?_⟩
    obtain ⟨t, there, kept⟩ := keepsLinks_inheritAll scope rest _ t' mem
    exact ⟨t, List.mem_cons_of_mem _ there, kept⟩

end

theorem keepsLinks_attach (scope : Address) (s : State H) (σ : Store H) :
    KeepsLinks s ((attach scope s).run σ).1 := by
  cases s with
  | leaf core => exact .refl _
  | composite core routes before active after =>
    exact keepsLinks_of_children rfl (fun _ => rfl) (keepsLinks_children
      (keepsLinks_inheritAll scope before _) (keepsLinks_inherit scope active _)
      (keepsLinks_inheritAll scope after _))

theorem keepsLinks_ensureScope (s : State H) (σ : Store H) :
    KeepsLinks s (s.ensureScope.run σ).1.2 := by
  rcases seen : s.core.scope with _ | scope
  · have children_eq (core : Core H) : (s.withCore core).children = s.children := by cases s <;> rfl
    simp only [ensureScope, seen, StoreM.run_bind, StoreM.run_pure]
    refine keepsLinks_of_children (by rw [core_withCore]) (fun some => absurd seen some) ?_
    rw [children_eq]
    exact fun t mem => ⟨t, mem, .refl t⟩
  · simp only [ensureScope, seen, StoreM.run_pure]
    exact .refl s

/-- Adding a variable relinks nothing. -/
theorem keepsLinks_injectVariable (name : String) (value : Value) (s : State H) (σ : Store H) :
    KeepsLinks s ((s.injectVariable name value).run σ).1.2 := by
  have ensured := keepsLinks_ensureScope s σ
  simp only [injectVariable, StoreM.run_bind]
  split
  · exact ensured.trans (keepsLinks_attach _ _ _)
  · exact ensured

/-! ## What callbacks see -/

/-- Every callback among the marks sees the scope that its state sees. -/
def Sightly (s : State H) (marks : List Mark) : Prop :=
  ∀ call, .called call ∈ marks → (call.state, call.view.scope) ∈ s.survey Core.link

theorem Sightly.append {marks' : List Mark} (h : Sightly s marks) (k : Sightly s marks') :
    Sightly s (marks ++ marks') :=
  fun call mem => (List.mem_append.1 mem).elim (h call) (k call)

theorem sightly_of_silent (silent : ∀ mark ∈ marks, mark.call? = none) : Sightly s marks :=
  fun call mem => by simpa [Mark.call?] using silent _ mem

theorem Sightly.of_survey (h : Sightly s marks) (same : s'.survey Core.link = s.survey Core.link) :
    Sightly s' marks :=
  fun call mem => same ▸ h call mem

theorem Sightly.outer (h : Sightly active marks) :
    Sightly (composite core routes before active after) marks := by
  intro call mem
  rw [survey_eq]
  refine List.mem_cons_of_mem _ (List.mem_flatMap.2 ⟨active, active_mem_children, h call mem⟩)

theorem link_mem_survey (s : State H) : s.core.link ∈ s.survey Core.link := by
  rw [survey_eq]
  exact List.mem_cons_self

end State

namespace Core

variable {core core' : Core H} {marks : List Mark} {call : Call}

theorem Advances.link_eq {command : Option Command} {result : Except Fault (Option Tag)}
    (h : core.Advances command marks result core') (mem : .called call ∈ marks) :
    (call.state, call.view.scope) = core.link := by
  cases h with
  | refused idle behavior fault =>
    obtain rfl : call = _ := by simpa using mem
    rfl
  | entered idle behavior result =>
    rcases (by simpa using mem : call = _ ∨ call = _) with rfl | rfl
    · rfl
    · cases result <;> rfl
  | resumed running behavior result =>
    obtain rfl : call = _ := by simpa using mem
    cases result <;> rfl

theorem Leaves.link_eq {result : Except Fault Unit} (h : core.Leaves marks result core')
    (mem : .called call ∈ marks) : (call.state, call.view.scope) = core.link := by
  cases h with
  | idle => contradiction
  | left running behavior result =>
    obtain rfl : call = _ := by simpa using mem
    cases result <;> rfl

end Core

namespace State

variable {core core' : Core H} {routes : Routes} {before after : List (State H)}
  {active s s' : State H} {marks : List Mark}

theorem sightly_exit {result : Except Fault Unit} {exit : List Mark}
    (left : s.core.Leaves exit result core') : Sightly s exit :=
  fun _ mem => left.link_eq mem ▸ link_mem_survey s

theorem Resets.sightly {result : Except Fault Unit} (h : Resets s marks result s') :
    Sightly s marks := by
  induction h with
  | exitFails left => exact sightly_exit left
  | @leaf core core' exit left => exact sightly_exit (s := .leaf core) left
  | @innerFails core core' routes before after active active' exit marks fault left inner ih =>
    exact (sightly_exit (s := .composite core routes before active after) left).append ih.outer
  | @composite core core' routes before after before' after' active active' chosen exit marks left
      inner chosen_eq ih =>
    exact (sightly_exit (s := .composite core routes before active after) left).append
      (ih.outer.append (sightly_of_silent (by simp [Mark.call?])))

theorem Settles.sightly {outcome : Except Fault (Option Tag)} {settled : Except Fault Unit}
    (h : Settles core routes before active after outcome marks settled s') :
    Sightly (composite core routes before active after) marks := by
  cases h with
  | failed => exact sightly_of_silent (by simp)
  | stays => exact sightly_of_silent (by simp)
  | unknown => exact sightly_of_silent (by simp)
  | innerFails leads inner => exact inner.sightly.outer
  | follows leads inner chosen_eq =>
    exact inner.sightly.outer.append (sightly_of_silent (by simp [Mark.call?]))

theorem sightly_advance {command : Option Command} {calls : List Mark}
    {result : Except Fault (Option Tag)} (advanced : s.core.Advances command calls result core') :
    Sightly s (.taken s.address command :: calls) := by
  intro call mem
  have inside : .called call ∈ calls := by simpa using mem
  exact advanced.link_eq inside ▸ link_mem_survey s

/-- Every callback of a cycle sees the scope that its state sees. -/
theorem Cycles.sightly {outcome : Except Fault (Option Tag)} (h : Cycles s marks outcome s') :
    Sightly s marks := by
  have fitted := Core.fitted_link (H := H)
  induction h with
  | fails advanced => exact sightly_advance advanced
  | @leaf core core' command calls requested advanced =>
    exact sightly_advance (s := .leaf core) advanced
  | @composite core core' routes before after active active' s' command calls down marks marks'
      requested outcome settled advanced hands inner settles ih =>
    have handed : ∀ mark ∈ down, mark.call? = none := by cases hands <;> simp [Mark.call?]
    have own := sightly_advance (s := .composite core routes before active after) advanced
    have same : (State.composite core' routes before active' after).survey Core.link =
        (State.composite core routes before active after).survey Core.link :=
      survey_composite (advanced.fitted fitted) (inner.survey_eq fitted)
    exact own.append ((sightly_of_silent handed).append
      (ih.outer.append (settles.sightly.of_survey same.symm)))

/-- Every callback of an operation sees the scope that its state sees. -/
theorem Performs.sightly {operation : Operation H} {σ σ' : Store H}
    (h : Performs s σ operation s' σ') :
    ∃ marks, Store.Fires σ σ' marks ∧ Sightly s marks := by
  cases h with
  | cycle cycles fired => exact ⟨_, fired, cycles.sightly⟩
  | reset resets fired => exact ⟨_, fired, resets.sightly⟩
  | path sets points fired => exact ⟨_, fired, sightly_of_silent points.silent⟩
  | outline same fired => exact ⟨_, fired, sightly_of_silent (by simp)⟩

variable [Conduct H]

theorem keepsLinks_perform (operation : Operation H) (s : State H) (σ : Store H) :
    KeepsLinks s ((s.perform operation).run σ).1.2 := by
  by_cases adds : ∃ name value, operation = .injectVariable name value
  · obtain ⟨name, value, rfl⟩ := adds
    exact keepsLinks_injectVariable name value s σ
  · exact .of_survey (survey_perform (fun name value eq => adds ⟨name, value, eq⟩) s σ)

theorem keepsLinks_onActive (operation : Operation H) (depth : Nat) (s : State H) (σ : Store H) :
    KeepsLinks s ((s.onActive (fun s => s.perform operation) depth).run σ).1.2 := by
  induction depth generalizing s with
  | zero => exact keepsLinks_perform operation s σ
  | succ depth ih =>
    cases s with
    | leaf core => exact .refl _
    | composite core routes before active after => exact keepsLinks_active (ih active)

end State

namespace Machine

open State

variable [Conduct H] {machine : Machine H}

theorem keepsLinks_move (machine : Machine H) (move : Move H) :
    KeepsLinks machine.root (machine.move move).2.root := by
  cases move with
  | operate depth operation => exact keepsLinks_onActive operation depth machine.root machine.store
  | post state command => exact .refl machine.root
  | declare scope name value => exact .refl machine.root

/-- No run relinks anything. -/
theorem keepsLinks_run (machine : Machine H) (moves : List (Move H)) :
    KeepsLinks machine.root (machine.run moves).2.root :=
  run_induction (motive := fun later => KeepsLinks machine.root later.root)
    (fun move _ later kept => kept.trans (keepsLinks_move later move)) (.refl machine.root)

theorem sightly_move (machine : Machine H) (move : Move H) :
    ∃ marks, Store.Fires machine.store (machine.move move).2.store marks ∧
      Sightly machine.root marks := by
  refine move_induction (motive := fun s σ _ σ' => ∃ marks, Store.Fires σ σ' marks ∧ Sightly s marks)
    move ?_ fun σ fired => ⟨[], fired, sightly_of_silent (by simp)⟩
  intro depth operation _
  refine onActive_induction
    (motive := fun s σ _ σ' => ∃ marks, Store.Fires σ σ' marks ∧ Sightly s marks)
    (fun _ _ _ _ performs => performs.sightly) (fun _ σ => ⟨[], .refl σ, sightly_of_silent (by simp)⟩)
    ?_ depth _ _
  rintro core routes before active after active' σ σ' ⟨marks, fired, sightly⟩
  exact ⟨marks, fired, sightly.outer⟩

/-- In a run every callback of a state that sees a scope at the beginning sees that one. -/
theorem scope_of_calls (machine : Machine H) (moves : List (Move H)) (place scope : Address)
    (linked : ∀ t ∈ machine.root.subtree, t.address = place → t.core.scope = some scope) :
    ∃ marks, Store.Fires machine.store (machine.run moves).2.store marks ∧
      ∀ call, .called call ∈ marks → call.state = place → call.view.scope = some scope := by
  induction moves generalizing machine with
  | nil => exact ⟨[], .refl _, by simp⟩
  | cons move moves ih =>
    obtain ⟨marks, fired, sightly⟩ := sightly_move machine move
    obtain ⟨marks', fired', later⟩ := ih (machine.move move).2 <| by
      intro t' mem same
      obtain ⟨t, there, placed, kept⟩ := keepsLinks_move machine move t' mem
      have seen := linked t there (placed.trans same)
      exact (kept (by simp [seen])).trans seen
    refine ⟨marks ++ marks', fired.trans fired', fun call mem same => ?_⟩
    rcases List.mem_append.1 mem with here | here
    · obtain ⟨t, there, eq⟩ := List.mem_map.1 (sightly call here)
      have placed : t.address = call.state := congrArg Prod.fst eq
      have seen : t.core.scope = call.view.scope := congrArg Prod.snd eq
      exact seen ▸ linked t there (placed.trans same)
    · exact later call here same

/-- Whatever moves follow, a state that can be reached is there after each of them.  What has been read
at it of a variable is read ever after; and of a variable that was there, if only under another type,
the same is read as of every type, so that it is never missing.  A state that sees a scope goes on
seeing it, and so do all its callbacks. -/
theorem variables_stay (reachable : machine.Reachable) {t : State H}
    (mem : t ∈ machine.root.subtree) (moves : List (Move H)) :
    let later := (machine.run moves).2
    (∃ t' ∈ later.root.subtree, t'.address = t.address) ∧
    (∀ t' ∈ later.root.subtree, t'.address = t.address → ∀ name typeName,
      (∀ content, machine.store.read t name typeName = .ok content →
        later.store.read t' name typeName = .ok content) ∧
      (machine.store.read t name typeName = .error (.variableTypeMismatch t.name name typeName) →
        ∀ asked, later.store.read t' name asked = machine.store.read t name asked ∧
          later.store.read t' name asked ≠ .error (.variableNotFound t.name name))) ∧
    (t.core.scope ≠ none →
      (∀ t' ∈ later.root.subtree, t'.address = t.address → t'.core.scope = t.core.scope) ∧
      ∀ call ∈ callsIn (Store.since machine.store later.store), call.state = t.address →
        call.view.scope = t.core.scope) := by
  intro later
  have built := reachable.spec.1
  have kept : Store.KeepsVariables machine.store later.store :=
    Store.keepsVariables_lasting.moves machine moves
  have linked : ∀ t' ∈ later.root.subtree, t'.address = t.address →
      t.core.scope ≠ none → t'.core.scope = t.core.scope := by
    intro t' mem' same
    obtain ⟨u, there, placed, links⟩ := keepsLinks_run machine moves t' mem'
    obtain rfl := built.eq_of_address_eq there mem (placed.trans same)
    exact links
  refine ⟨exists_of_layout_eq (layout_run machine moves).symm mem, ?_, fun seen =>
    ⟨fun t' mem' same => linked t' mem' same seen, ?_⟩⟩
  · intro t' mem' same name typeName
    have named : t'.name = t.name := congrArg Address.name same
    have stays (there : machine.store.read t name typeName ≠ .error (.variableNotFound t.name name)) :=
      Store.read_later kept (linked t' mem' same) named there
    refine ⟨fun content found => ?_, fun mismatch => stays (by simp [mismatch])⟩
    rw [(stays (by simp [found]) typeName).1, found]
  · obtain ⟨scope, sees⟩ := Option.ne_none_iff_exists'.1 seen
    intro call there same
    obtain ⟨marks, fired, all⟩ := scope_of_calls machine moves t.address scope <| by
      intro u mem' placed
      rw [built.eq_of_address_eq mem' mem placed, sees]
    rw [callsIn, fired.marksIn_since, mem_calls] at there
    rw [sees]
    exact all call there same

end Machine

/-! ## A machine whose variables clash -/

namespace Sample

open Script State

/-- The state that is active first, with a scope of its own. -/
def sighted : State stage :=
  .leaf { fresh (top.inner "Idle") eager with scope := some (top.inner "Idle") }

/-- The name of a variable is given again, at the root, and is offered again through the first scope,
while the machine goes on to work and cannot be reset. -/
def clashing : List (Move stage) :=
  [.operate 0 .cycle, .operate 0 (.injectVariable "x" ⟨"bool", .truth true⟩),
    .declare (top.inner "Idle") "x" ⟨"bool", .truth true⟩, .operate 0 .cycle, .operate 0 .reset]

end Sample

/-- The first value and its type stay, though others are added under the same name. -/
theorem Machine.variables_stay_sample :
    let machine := (Sample.machine.run Sample.scoping).2
    let later := (machine.run Sample.clashing).2
    machine.Reachable ∧ Sample.sighted ∈ machine.root.subtree ∧
    machine.store.read Sample.sighted "x" "u8" = .ok (.integer 1) ∧
    machine.store.read Sample.sighted "x" "bool" =
      .error (.variableTypeMismatch "Idle" "x" "bool") ∧
    later.root.survey Core.link = machine.root.survey Core.link ∧
    later.store.visible? later.root "x" = some ⟨"bool", .truth true⟩ ∧
    ∀ t' ∈ later.root.subtree, t'.address = Sample.sighted.address →
      later.store.read t' "x" "u8" = .ok (.integer 1) ∧
      ∀ asked, later.store.read t' "x" asked = machine.store.read Sample.sighted "x" asked ∧
        later.store.read t' "x" asked ≠ .error (.variableNotFound "Idle" "x") := by
  have reachable : (Sample.machine.run Sample.scoping).2.Reachable :=
    ⟨_, _, Sample.machine_started, rfl⟩
  have here : (Sample.machine.run Sample.scoping).2.root.chain[1]? = some Sample.sighted := rfl
  have mem := State.mem_subtree_of_getElem? here
  have read : (Sample.machine.run Sample.scoping).2.store.read Sample.sighted "x" "u8" =
      .ok (.integer 1) := by decide +kernel
  have mismatch : (Sample.machine.run Sample.scoping).2.store.read Sample.sighted "x" "bool" =
      .error (.variableTypeMismatch "Idle" "x" "bool") := by decide +kernel
  refine ⟨reachable, mem, read, mismatch, by decide +kernel, by decide +kernel, fun t' mem' same => ?_⟩
  have stays := (variables_stay reachable mem Sample.clashing).2.1 t' mem' same "x"
  exact ⟨(stays "u8").1 _ read, (stays "bool").2 mismatch⟩

end Statechart
