import Statechart.Proofs.Parallel

/-!
# Arrangements

Two trees are alike if they differ only in how inner states are arranged: at each level there are the
same names, inner states of one name are alike, the same one is active and the same one is initial, and
the tables lead everywhere to the same names, though their rows may stand in another order.  Operations
do not see the arrangement: carried out on trees that are alike they run in parallel, with equal results
and trees that are alike again.  So machines that are alike are so for good.
-/
namespace Statechart

variable {H : Host} {J : List (Event H) → List (Event H) → Prop}

namespace Store

/-- The store after states of these names were linked to a scope, the latest first. -/
def attached (names : List String) (σ : Store H) : Store H :=
  { σ with journal := (names.map fun name => .notice (.scopeAttached name)) ++ σ.journal }

theorem attached_attached (xs ys : List String) (σ : Store H) :
    (σ.attached xs).attached ys = σ.attached (ys ++ xs) := by
  simp only [attached, List.map_append, List.append_assoc]

theorem run_note_scopeAttached (name : String) (σ : Store H) :
    (note (.scopeAttached name)).run σ = ((), σ.attached [name]) := rfl

/-- Twins stay so while states are linked in both. -/
theorem Twins.attached {σ τ : Store H} (h : Twins J σ τ) (tolerant : Tolerant J)
    (xs ys : List String) : Twins J (σ.attached xs) (τ.attached ys) := by
  refine { h with journal := ?_ }
  have right : J σ.journal (τ.attached ys).journal := by
    induction ys with
    | nil => exact h.journal
    | cons name ys ih => exact tolerant.right name ih
  induction xs with
  | nil => exact right
  | cons name xs ih => exact tolerant.left name ih

end Store

namespace State

/-- The trees differ in the order of inner states and of rows at most. -/
inductive Alike : State H → State H → Prop
  | leaf (core : Core H) : Alike (.leaf core) (.leaf core)
  | composite (core : Core H) {routes routes' : Routes}
    {before after before' after' : List (State H)} {active active' : State H}
    (initial_eq : routes'.initial = routes.initial)
    (target_eq : ∀ tag, routes'.target? tag = routes.target? tag)
    (names_perm : ((before' ++ active' :: after').map State.name).Perm
      ((before ++ active :: after).map State.name))
    (distinct : ((before ++ active :: after).map State.name).Nodup)
    (selects : active'.name = active.name)
    (inner : ∀ child ∈ before ++ active :: after, ∀ child' ∈ before' ++ active' :: after',
      child'.name = child.name → Alike child child') :
    Alike (.composite core routes before active after)
      (.composite core routes' before' active' after')

variable {core core' : Core H} {routes routes' : Routes}
  {before after before' after' : List (State H)} {active active' s t u v : State H}

theorem Alike.core_eq (h : s.Alike t) : t.core = s.core := by
  cases h <;> rfl

theorem Alike.name_eq (h : s.Alike t) : t.name = s.name := congrArg Core.name h.core_eq

theorem Alike.address_eq (h : s.Alike t) : t.address = s.address :=
  congrArg Core.address h.core_eq

/-- The active inner states are alike. -/
theorem Alike.inner_active (h : (State.composite core routes before active after).Alike
    (State.composite core' routes' before' active' after')) : active.Alike active' := by
  cases h with
  | composite _ initial_eq target_eq names_perm distinct selects inner =>
    exact inner active (by simp) active' (by simp) selects

theorem Alike.initial_eq (h : (State.composite core routes before active after).Alike
    (State.composite core' routes' before' active' after')) : routes'.initial = routes.initial := by
  cases h with
  | composite _ initial_eq => exact initial_eq

/-- What holds of leaves, and of states if it holds of their active inner states, holds of all trees
that are alike. -/
theorem Alike.chainInduction {motive : ∀ s t : State H, s.Alike t → Prop}
    (leaf : ∀ core, motive (.leaf core) (.leaf core) (.leaf core))
    (composite : ∀ core routes routes' before before' after after' active active'
      (alike : (State.composite core routes before active after).Alike
        (State.composite core routes' before' active' after')),
      motive active active' alike.inner_active → motive _ _ alike)
    {s t : State H} (h : s.Alike t) : motive s t h := by
  induction h with
  | leaf core => exact leaf core
  | composite core initial_eq target_eq names_perm distinct selects inner ih =>
    exact composite _ _ _ _ _ _ _ _ _
      (.composite core initial_eq target_eq names_perm distinct selects inner)
      (ih _ (by simp) _ (by simp) selects)

/-- The chains are made of the same states, but for what is beneath them. -/
theorem Alike.chain_eq (h : s.Alike t) : t.chain.map State.core = s.chain.map State.core := by
  induction h using Alike.chainInduction with
  | leaf core => rfl
  | composite core routes routes' before before' after after' active active' alike ih =>
    simp only [chain, List.map_cons, core_composite, ih]

theorem Alike.path_eq (h : s.Alike t) : t.path = s.path := by
  have names := congrArg (List.map Core.name) h.chain_eq
  rw [List.map_map, List.map_map] at names
  exact congrArg StatePath.joined names

/-- Every well-built tree is like itself. -/
theorem Alike.refl (built : s.WellBuilt) : s.Alike s := by
  induction s using treeInduction with
  | leaf core => exact .leaf core
  | composite core routes before active after ih =>
    have distinct := built.sound.distinct
    rw [innerNames_site] at distinct
    refine .composite core rfl (fun _ => rfl) (.refl _) distinct rfl ?_
    intro child mem child' mem' same
    obtain rfl := built.eq_of_name_eq mem' mem same
    exact ih child' mem (built.child mem)

theorem Alike.symm (h : s.Alike t) : t.Alike s := by
  induction h with
  | leaf core => exact .leaf core
  | composite core initial_eq target_eq names_perm distinct selects _ ih =>
    exact .composite core initial_eq.symm (fun tag => (target_eq tag).symm) names_perm.symm
      (names_perm.nodup_iff.2 distinct) selects.symm
      fun child mem child' mem' same => ih child' mem' child mem same.symm

/-- Trees that are alike have states at the same places. -/
theorem Alike.exists_place (h : s.Alike t) (mem : u ∈ s.subtree) :
    ∃ v ∈ t.subtree, v.address = u.address := by
  induction h generalizing u with
  | leaf core => exact ⟨u, mem, rfl⟩
  | composite core _ _ names_perm _ _ inner ih =>
    rcases mem_subtree.1 mem with rfl | ⟨child, here, mem⟩
    · exact ⟨_, self_mem_subtree _, rfl⟩
    · obtain ⟨child', here', same⟩ := List.mem_map.1 (names_perm.mem_iff.2 (List.mem_map_of_mem here))
      obtain ⟨v, mem', placed⟩ := ih child here child' here' same mem
      exact ⟨v, mem_subtree.2 (.inr ⟨child', here', mem'⟩), placed⟩

theorem Alike.mem_places_iff (h : s.Alike t) (place : Address) :
    place ∈ t.subtree.map address ↔ place ∈ s.subtree.map address := by
  simp only [List.mem_map]
  constructor
  · rintro ⟨u, mem, rfl⟩
    exact h.symm.exists_place mem
  · rintro ⟨u, mem, rfl⟩
    exact h.exists_place mem

/-! ## Changing both trees -/

theorem mem_middle {α : Type} {x y : α} {xs ys : List α} :
    x ∈ xs ++ y :: ys ↔ x = y ∨ x ∈ xs ++ ys := List.perm_middle.mem_iff.trans List.mem_cons

/-- The others are not named as the active one. -/
theorem name_ne_of_distinct (distinct : ((before ++ active :: after).map State.name).Nodup)
    (mem : s ∈ before ++ after) : s.name ≠ active.name := by
  rw [List.map_append, List.map_cons, List.nodup_middle, List.nodup_cons, ← List.map_append]
    at distinct
  exact fun same => distinct.1 (same ▸ List.mem_map_of_mem mem)

/-- The states' own parts may be replaced in both, and the active inner states by others of their
name. -/
theorem Alike.replace (h : (State.composite core routes before active after).Alike
    (State.composite core' routes' before' active' after')) (core₁ : Core H) (inner : u.Alike v)
    (named : u.name = active.name) :
    (State.composite core₁ routes before u after).Alike
      (State.composite core₁ routes' before' v after') := by
  cases h with
  | composite _ initial_eq target_eq names_perm distinct selects others =>
    have named' : v.name = active'.name := by rw [inner.name_eq, named, selects]
    have distinct' := names_perm.nodup_iff.2 distinct
    refine .composite core₁ initial_eq target_eq (by simpa [named, named'] using names_perm)
      (by simpa [named] using distinct) (by rw [named, named', selects]) ?_
    intro child mem child' mem' same
    rcases mem_middle.1 mem with rfl | mem <;> rcases mem_middle.1 mem' with rfl | mem'
    · exact inner
    · exact absurd (same.trans (named.trans selects.symm)) (name_ne_of_distinct distinct' mem')
    · exact absurd (same.symm.trans (named'.trans selects)) (name_ne_of_distinct distinct mem)
    · exact others child (mem_middle.2 (.inr mem)) child' (mem_middle.2 (.inr mem')) same

theorem Alike.withCore (h : s.Alike t) (core : Core H) :
    (s.withCore core).Alike (t.withCore core) := by
  cases h with
  | leaf => exact .leaf core
  | composite _ initial_eq target_eq names_perm distinct selects inner =>
    exact .composite core initial_eq target_eq names_perm distinct selects inner

theorem select_of_not_mem {name : String}
    (other : name ∉ (before ++ active :: after).map State.name) :
    (composite core routes before active after).select name =
      .composite core routes before active after := by
  rcases found : focus name (before ++ active :: after) with _ | ⟨before', active', after'⟩
  · simp [State.select, found]
  · obtain ⟨same, named⟩ := focus_eq_some found
    exact absurd (List.mem_map.2 ⟨active', same ▸ by simp, named⟩) other

/-- The same name is selected in both. -/
theorem Alike.select (h : s.Alike t) (name : String) : (s.select name).Alike (t.select name) := by
  cases h with
  | leaf core => exact .leaf core
  | @composite core routes routes' before after before' after' active active' initial_eq target_eq
      names_perm distinct selects inner =>
    by_cases mem : name ∈ (before ++ active :: after).map State.name
    · obtain ⟨_, u, _, eq, same, named⟩ := exists_select name core routes before active after
      obtain ⟨_, v, _, eq', same', named'⟩ := exists_select name core routes' before' active' after'
      rw [eq, eq']
      rw [← same] at distinct
      rw [← same, ← same'] at names_perm inner
      exact .composite core initial_eq target_eq names_perm distinct
        ((named' (same' ▸ names_perm.mem_iff.2 (same ▸ mem))).trans (named mem).symm) inner
    · rw [select_of_not_mem mem, select_of_not_mem (mt names_perm.mem_iff.1 mem)]
      exact .composite core initial_eq target_eq names_perm distinct selects inner

/-- Inner states of a name are found in both, or in none. -/
theorem Alike.child? (h : s.Alike t) (name : String) :
    Option.Rel Alike (s.child? name) (t.child? name) := by
  have named {s : State H} {child : State H} (found : s.child? name = some child) :
      child ∈ s.children ∧ child.name = name :=
    ⟨List.mem_of_find?_eq_some found, by simpa using List.find?_some found⟩
  have unnamed {s : State H} (none : s.child? name = none) {child : State H}
      (mem : child ∈ s.children) : child.name ≠ name := by
    simpa using List.find?_eq_none.1 none child mem
  cases h with
  | leaf core => exact .none
  | @composite core routes routes' before after before' after' active active' initial_eq target_eq
      names_perm distinct selects inner =>
    rcases found : (State.composite core routes before active after).child? name with _ | child <;>
      rcases found' : (State.composite core routes' before' active' after').child? name with _ | child'
    · exact .none
    · obtain ⟨mem', same'⟩ := named found'
      obtain ⟨child, mem, same⟩ := List.mem_map.1 (names_perm.mem_iff.1 (List.mem_map_of_mem mem'))
      exact absurd (same.trans same') (unnamed found mem)
    · obtain ⟨mem, same⟩ := named found
      obtain ⟨child', mem', same'⟩ := List.mem_map.1 (names_perm.mem_iff.2 (List.mem_map_of_mem mem))
      exact absurd (same'.trans same) (unnamed found' mem')
    · obtain ⟨mem, same⟩ := named found
      obtain ⟨mem', same'⟩ := named found'
      exact .some (inner child mem child' mem' (same'.trans same.symm))

/-- The same names lead down to states that are alike. -/
theorem Alike.descend? (h : s.Alike t) (names : List String) :
    Option.Rel Alike (s.descend? names) (t.descend? names) := by
  induction names generalizing s t with
  | nil => exact .some h
  | cons name names ih =>
    have found := h.child? name
    rw [State.descend?, State.descend?]
    generalize s.child? name = child at found ⊢
    generalize t.child? name = child' at found ⊢
    cases found with
    | none => exact .none
    | some alike => exact ih alike

/-- The same names lead down to states that have the same of themselves, and are on the same path. -/
theorem Alike.map_descend?_eq (h : s.Alike t) (names : List String) :
    (t.descend? names).map (fun u => (u.core, u.path)) =
      (s.descend? names).map fun u => (u.core, u.path) := by
  have found := h.descend? names
  generalize s.descend? names = u at found ⊢
  generalize t.descend? names = v at found ⊢
  cases found with
  | none => rfl
  | some alike => rw [Option.map_some, Option.map_some, alike.core_eq, alike.path_eq]

theorem Alike.resolve_eq (h : s.Alike t) (text : String) (names : List String) :
    t.resolve text names = s.resolve text names := by
  induction names generalizing s t with
  | nil => cases h <;> rfl
  | cons name names ih =>
    have found := h.child? name
    cases h with
    | leaf core => rfl
    | composite core =>
      rw [resolve, resolve]
      generalize State.child? _ name = child at found ⊢
      generalize State.child? _ name = child' at found ⊢
      cases found with
      | none => rfl
      | some alike => exact ih alike

theorem name_eq_of_layout_eq (h : s.layout = t.layout) : s.name = t.name :=
  congrArg Address.name (address_eq_of_layout_eq h)

/-! ## Linking both trees -/

/-- Names are kept where each inner state becomes another. -/
theorem Alike.map (h : (State.composite core routes before active after).Alike
    (State.composite core' routes' before' active' after')) (core₁ : Core H)
    {f : State H → State H} (named : ∀ s, (f s).name = s.name)
    (kept : ∀ child ∈ before ++ active :: after, ∀ child' ∈ before' ++ active' :: after',
      child'.name = child.name → (f child).Alike (f child')) :
    (State.composite core₁ routes (before.map f) (f active) (after.map f)).Alike
      (State.composite core₁ routes' (before'.map f) (f active') (after'.map f)) := by
  have names (before after : List (State H)) (active : State H) :
      (before.map f ++ f active :: after.map f).map State.name =
        (before ++ active :: after).map State.name := by
    simp only [List.map_append, List.map_cons, List.map_map, Function.comp_def, named]
  cases h with
  | composite _ initial_eq target_eq names_perm distinct selects _ =>
    refine .composite core₁ initial_eq target_eq (by rwa [names, names]) (by rwa [names])
      (by rw [named, named, selects]) ?_
    simp only [← List.map_cons, ← List.map_append, List.forall_mem_map, named]
    exact kept

mutual

/-- The state linked to a scope with all beneath it, down to the states that see one. -/
def linked (scope : Address) : State H → State H
  | .leaf core => .leaf (if core.scope.isSome then core else { core with scope := some scope })
  | .composite core routes before active after =>
    if core.scope.isSome then .composite core routes before active after
    else .composite { core with scope := some scope } routes (linkedAll scope before)
      (linked scope active) (linkedAll scope after)

/-- Some states linked to a scope. -/
def linkedAll (scope : Address) : List (State H) → List (State H)
  | [] => []
  | state :: rest => linked scope state :: linkedAll scope rest

end

theorem linkedAll_eq (scope : Address) (states : List (State H)) :
    linkedAll scope states = states.map (linked scope) := by
  induction states with
  | nil => rfl
  | cons state rest ih => rw [linkedAll, ih, List.map_cons]

/-- The state with all beneath it linked to a scope. -/
def linkedBelow (scope : Address) : State H → State H
  | .leaf core => .leaf core
  | .composite core routes before active after =>
    .composite core routes (before.map (linked scope)) (linked scope active)
      (after.map (linked scope))

theorem name_linked (scope : Address) (s : State H) : (linked scope s).name = s.name := by
  cases s with
  | leaf core | composite core routes before active after => rw [linked]; split <;> rfl

theorem Alike.linked (h : s.Alike t) (scope : Address) :
    (linked scope s).Alike (linked scope t) := by
  induction h with
  | leaf core => exact .leaf _
  | @composite core routes routes' before after before' after' active active' initial_eq target_eq
      names_perm distinct selects inner ih =>
    have alike : (State.composite core routes before active after).Alike
        (.composite core routes' before' active' after') :=
      .composite core initial_eq target_eq names_perm distinct selects inner
    rw [State.linked, State.linked]
    split
    · exact alike
    · simp only [linkedAll_eq]
      exact alike.map _ (name_linked scope) ih

theorem Alike.linkedBelow (h : s.Alike t) (scope : Address) :
    (s.linkedBelow scope).Alike (t.linkedBelow scope) := by
  have alike := h
  cases h with
  | leaf core => exact .leaf core
  | composite core _ _ _ _ _ inner =>
    exact alike.map core (name_linked scope) fun child mem child' mem' same =>
      (inner child mem child' mem' same).linked scope

mutual

theorem exists_run_inherit (scope : Address) (s : State H) (σ : Store H) :
    ∃ names, (inherit scope s).run σ = (linked scope s, σ.attached names) := by
  cases s with
  | leaf core =>
    rw [inherit, linked]
    split
    · exact ⟨[], rfl⟩
    · exact ⟨[core.name], rfl⟩
  | composite core routes before active after =>
    rw [inherit, linked]
    split
    · exact ⟨[], rfl⟩
    · obtain ⟨xs, first⟩ := exists_run_inheritAll scope before (σ.attached [core.name])
      obtain ⟨ys, second⟩ := exists_run_inherit scope active ((σ.attached [core.name]).attached xs)
      obtain ⟨zs, third⟩ :=
        exists_run_inheritAll scope after (((σ.attached [core.name]).attached xs).attached ys)
      refine ⟨zs ++ (ys ++ (xs ++ [core.name])), ?_⟩
      simp only [StoreM.run_bind, Store.run_note_scopeAttached, first, second, third,
        StoreM.run_pure, linkedAll_eq]
      simp only [Store.attached_attached]

theorem exists_run_inheritAll (scope : Address) (states : List (State H)) (σ : Store H) :
    ∃ names, (inheritAll scope states).run σ = (states.map (linked scope), σ.attached names) := by
  cases states with
  | nil => exact ⟨[], rfl⟩
  | cons state rest =>
    obtain ⟨xs, first⟩ := exists_run_inherit scope state σ
    obtain ⟨ys, second⟩ := exists_run_inheritAll scope rest (σ.attached xs)
    refine ⟨ys ++ xs, ?_⟩
    simp only [inheritAll, StoreM.run_bind, first, second, StoreM.run_pure, List.map_cons,
      Store.attached_attached]

end

/-- Linking gives notices only, and what it makes of the tree does not depend on the store. -/
theorem exists_run_attach (scope : Address) (s : State H) (σ : Store H) :
    ∃ names, (attach scope s).run σ = (s.linkedBelow scope, σ.attached names) := by
  cases s with
  | leaf core => exact ⟨[], rfl⟩
  | composite core routes before active after =>
    obtain ⟨xs, first⟩ := exists_run_inheritAll scope before σ
    obtain ⟨ys, second⟩ := exists_run_inherit scope active (σ.attached xs)
    obtain ⟨zs, third⟩ := exists_run_inheritAll scope after ((σ.attached xs).attached ys)
    refine ⟨zs ++ (ys ++ xs), ?_⟩
    simp only [attach, StoreM.run_bind, first, second, third, StoreM.run_pure, linkedBelow]
    simp only [Store.attached_attached]

/-- The results are equal, and the trees are alike. -/
def Agree {α : Type} (x y : α × State H) : Prop := y.1 = x.1 ∧ x.2.Alike y.2

section Rules

variable {α β β' : Type} {Q : β → β' → Prop}

/-- What two operations make of inner states that are alike may be put in their place. -/
theorem bind_alike {x y : StoreM H (State H)} {f : State H → StoreM H β} {g : State H → StoreM H β'}
    (first : Parallel J Alike x y) (kept : ∀ σ, (x.run σ).1.layout = s.layout)
    (next : ∀ u v, u.Alike v → u.name = s.name → Parallel J Q (f u) (g v)) :
    Parallel J Q (x >>= f) (y >>= g) :=
  (first.and (P := fun u => u.name = s.name) fun σ => name_eq_of_layout_eq (kept σ)).bind
    fun u v both => next u v both.1 both.2

/-- After results that agree both go on with the same one. -/
theorem bind_agree {x y : StoreM H (α × State H)} {f : α × State H → StoreM H β}
    {g : α × State H → StoreM H β'} (first : Parallel J Agree x y)
    (next : ∀ a u v, u.Alike v → Parallel J Q (f (a, u)) (g (a, v))) :
    Parallel J Q (x >>= f) (y >>= g) := by
  refine first.bind fun before after agree => ?_
  obtain ⟨a, u⟩ := before
  obtain ⟨b, v⟩ := after
  obtain ⟨same, alike⟩ := agree
  obtain rfl : b = a := same
  exact next b u v alike

/-- So they do where the operations were carried out on inner states, which may be replaced. -/
theorem bind_agree_inner {x y : StoreM H (α × State H)} {f : α × State H → StoreM H β}
    {g : α × State H → StoreM H β'} (first : Parallel J Agree x y)
    (kept : ∀ σ, (x.run σ).1.2.layout = s.layout)
    (next : ∀ a u v, u.Alike v → u.name = s.name → Parallel J Q (f (a, u)) (g (a, v))) :
    Parallel J Q (x >>= f) (y >>= g) := by
  refine (first.and (P := fun left => left.2.name = s.name)
    fun σ => name_eq_of_layout_eq (kept σ)).bind fun before after both => ?_
  obtain ⟨a, u⟩ := before
  obtain ⟨b, v⟩ := after
  obtain ⟨⟨same, alike⟩, named⟩ := both
  obtain rfl : b = a := same
  exact next b u v alike named

end Rules

section Operations

variable (tolerant : Tolerant J)
include tolerant

/-! ## Setting the path -/

theorem Alike.activate (h : s.Alike t) (name : String) :
    Parallel J Alike (s.activate name) (t.activate name) := by
  have selected := h.select name
  rw [State.activate, State.activate]
  generalize s.select name = u at selected ⊢
  generalize t.select name = v at selected ⊢
  have alike := selected
  cases selected with
  | leaf core => exact .pure alike
  | composite =>
    simp only [activeChild?, alike.inner_active.address_eq]
    exact .after (tolerant.discard _ _) fun _ => .pure alike

theorem Alike.deactivate (h : s.Alike t) : Parallel J Alike s.deactivate t.deactivate := by
  induction h using Alike.chainInduction with
  | leaf core => exact .after (tolerant.discard _ _) fun _ => .pure (.leaf _)
  | composite core routes routes' before before' after after' active active' alike ih =>
    refine .after (tolerant.discard _ _) fun _ => bind_alike ih (layout_deactivate active)
      fun u v deeper named => ?_
    rw [alike.initial_eq]
    exact (alike.replace core.stopped deeper named).activate tolerant _

theorem Alike.retarget (h : s.Alike t) (name : String) :
    Parallel J Alike (s.retarget name) (t.retarget name) := by
  have alike := h
  cases h with
  | leaf core => exact .pure (.leaf core)
  | @composite core _ _ _ _ _ _ active _ _ _ _ _ selects =>
    rw [State.retarget, State.retarget, selects]
    split
    · exact .pure alike
    · refine bind_alike (alike.inner_active.deactivate tolerant) (layout_deactivate active)
        fun u v deeper named => ?_
      rw [deeper.name_eq]
      exact .after (tolerant.note _) fun _ => (alike.replace core deeper named).activate tolerant name

theorem Alike.applyPath (h : s.Alike t) (names : List String) :
    Parallel J Alike (s.applyPath names) (t.applyPath names) := by
  induction names generalizing s t with
  | nil => exact .pure h
  | cons name names ih =>
    refine (h.retarget tolerant name).bind fun u v alike => ?_
    have turned := alike
    cases turned with
    | leaf core => exact .pure alike
    | @composite core _ _ _ _ _ _ active =>
      refine bind_alike (ih alike.inner_active) (fun σ => ?_) fun u v deeper named =>
        .pure (alike.replace core deeper named)
      obtain ⟨marks, points, -⟩ := points_run names active σ
      exact points.layout_eq

theorem Alike.setPath (h : s.Alike t) (text : String) :
    Parallel J Agree (s.setPath text) (t.setPath text) := by
  rw [State.setPath, State.setPath, h.name_eq]
  split
  · exact .pure ⟨rfl, h⟩
  · rw [h.resolve_eq]
    split
    · exact .pure ⟨rfl, h⟩
    · split
      · exact .pure ⟨rfl, h⟩
      · refine (h.applyPath tolerant _).bind fun u v alike => ?_
        rw [alike.name_eq]
        exact .after (tolerant.note _) fun _ => .pure ⟨rfl, alike⟩

theorem Alike.restore (h : s.Alike t) (checkpoint : Checkpoint) :
    Parallel J Agree (s.restore checkpoint) (t.restore checkpoint) := by
  rw [State.restore, State.restore, h.name_eq]
  split
  · exact .pure ⟨rfl, h⟩
  · split
    · exact .pure ⟨rfl, h⟩
    · refine bind_agree (h.setPath tolerant _) fun result u v alike => ?_
      rcases result with fault | ⟨⟩
      · exact .pure ⟨rfl, alike⟩
      · exact .after (tolerant.note _) fun _ => .pure ⟨rfl, alike⟩

/-! ## Cycles and resets -/

variable [Conduct H]

theorem Alike.reset (h : s.Alike t) : Parallel J Agree s.reset t.reset := by
  induction h using Alike.chainInduction with
  | leaf core =>
    refine .after (tolerant.discard _ _) fun _ => .after (tolerant.leave core) fun left => ?_
    rcases left with ⟨fault | ⟨⟩, core'⟩
    · exact .pure ⟨rfl, .leaf core'⟩
    · exact .after (tolerant.note _) fun _ => .pure ⟨rfl, .leaf _⟩
  | composite core routes routes' before before' after after' active active' alike ih =>
    refine .after (tolerant.discard _ _) fun _ => .after (tolerant.leave core) fun left => ?_
    rcases left with ⟨fault | ⟨⟩, core'⟩
    · exact .pure ⟨rfl, alike.withCore core'⟩
    · refine bind_agree_inner ih (layout_reset active) fun result u v deeper named => ?_
      rcases result with fault | ⟨⟩
      · exact .pure ⟨rfl, alike.replace core' deeper named⟩
      · rw [alike.initial_eq]
        exact ((alike.replace core'.stopped deeper named).activate tolerant _).bind fun u v chosen =>
          .after (tolerant.note _) fun _ => .pure ⟨rfl, chosen⟩

theorem Alike.follow (h : s.Alike t) (request : Tag) :
    Parallel J Agree (s.follow request) (t.follow request) := by
  have alike := h
  cases h with
  | leaf core => exact .pure ⟨rfl, .leaf core⟩
  | @composite core _ _ _ _ _ _ active active' _ target_eq _ _ selects =>
    rw [State.follow, State.follow, target_eq, selects]
    split
    · exact .pure ⟨rfl, alike⟩
    · refine bind_agree_inner (alike.inner_active.reset tolerant) (layout_reset active)
        fun result u v deeper named => ?_
      rcases result with fault | ⟨⟩
      · exact .pure ⟨rfl, alike.replace core deeper named⟩
      · dsimp only
        rw [deeper.name_eq]
        exact .after (tolerant.note _) fun _ =>
          ((alike.replace core deeper named).activate tolerant _).bind fun u v chosen =>
            .pure ⟨rfl, chosen⟩

theorem Alike.settle (h : s.Alike t) (outcome : Except Fault (Option Tag)) :
    Parallel J Agree (s.settle outcome) (t.settle outcome) := by
  rcases outcome with fault | _ | request
  · exact .pure ⟨rfl, h⟩
  · exact .pure ⟨rfl, h⟩
  · exact h.follow tolerant request

theorem Alike.announce (h : s.Alike t) (oldPath : String) :
    Parallel J (· = ·) (s.announce oldPath) (t.announce oldPath) := by
  rw [State.announce, State.announce, h.path_eq, h.core_eq]
  split
  · exact .get fun σ τ twins => twins.clock ▸ tolerant.tell _ _
  · exact .pure rfl

theorem Alike.cycle (h : s.Alike t) : Parallel J Agree s.cycle t.cycle := by
  induction h using Alike.chainInduction with
  | leaf core =>
    exact .after (tolerant.drain _ _) fun _ => .after (tolerant.advance _ core) fun _ =>
      .pure ⟨rfl, .leaf _⟩
  | composite core routes routes' before before' after after' active active' alike ih =>
    rw [State.cycle, State.cycle, alike.path_eq]
    refine .after (tolerant.drain _ _) fun command => .after (tolerant.advance _ core) fun left => ?_
    rcases left with ⟨fault | requested, core'⟩
    · exact .pure ⟨rfl, alike.withCore core'⟩
    · have rest : Parallel J Agree (do
            let cycled ← active.cycle
            let settled ← (State.composite core' routes before cycled.2 after).settle cycled.1
            settled.2.announce (State.composite core routes before active after).path
            pure (settled.1.map fun _ => requested, settled.2))
          (do
            let cycled ← active'.cycle
            let settled ← (State.composite core' routes' before' cycled.2 after').settle cycled.1
            settled.2.announce (State.composite core routes before active after).path
            pure (settled.1.map fun _ => requested, settled.2)) := by
        refine bind_agree_inner ih (layout_cycle active) fun outcome u v deeper named => ?_
        refine bind_agree ((alike.replace core' deeper named).settle tolerant outcome)
          fun result u v settled => ?_
        exact (settled.announce tolerant _).bind fun _ _ _ => .pure ⟨rfl, settled⟩
      rcases command with _ | command
      · exact rest
      · rw [alike.inner_active.address_eq]
        exact .after (tolerant.handTo _ _) fun _ => rest

/-! ## Variables -/

omit [Conduct H] in
theorem Alike.attach (h : s.Alike t) (scope : Address) :
    Parallel J Alike (s.attach scope) (t.attach scope) := by
  intro σ τ twins
  obtain ⟨names, run⟩ := exists_run_attach scope s σ
  obtain ⟨names', run'⟩ := exists_run_attach scope t τ
  rw [Store.after, Store.after, run, run']
  exact ⟨h.linkedBelow scope, twins.attached tolerant names names'⟩

omit [Conduct H] tolerant in
theorem Alike.ensureScope (h : s.Alike t) : Parallel J Agree s.ensureScope t.ensureScope := by
  rw [State.ensureScope, State.ensureScope, h.core_eq, h.address_eq]
  split
  · exact .pure ⟨rfl, h⟩
  · exact .after (Tolerant.openScope _) fun _ => .pure ⟨rfl, h.withCore _⟩

omit [Conduct H] in
theorem Alike.injectVariable (h : s.Alike t) (name : String) (value : Value) :
    Parallel J Agree (s.injectVariable name value) (t.injectVariable name value) := by
  refine bind_agree h.ensureScope fun scope u v ensured => ?_
  refine .after (Tolerant.declare _ _ _) fun free => ?_
  cases free with
  | true =>
    refine (ensured.attach tolerant _).bind fun u v linked => ?_
    rw [linked.name_eq]
    exact .after (tolerant.note _) fun _ => .pure ⟨rfl, linked⟩
  | false =>
    simp only [ensured.name_eq]
    exact .pure ⟨rfl, ensured⟩

omit [Conduct H] tolerant in
theorem Alike.observe (h : s.Alike t) (observer : Observer H) :
    (s.observe observer).Alike (t.observe observer) := by
  rw [State.observe, State.observe, h.core_eq]
  exact h.withCore _

/-! ## All operations -/

theorem Alike.perform (h : s.Alike t) (operation : Operation H) :
    Parallel J Agree (s.perform operation) (t.perform operation) := by
  cases operation with
  | cycle =>
    refine bind_agree (h.cycle tolerant) fun result u v alike => ?_
    rcases result with fault | request <;> exact .pure ⟨rfl, alike⟩
  | reset => exact bind_agree (h.reset tolerant) fun _ _ _ alike => .pure ⟨rfl, alike⟩
  | setPath path => exact bind_agree (h.setPath tolerant path) fun _ _ _ alike => .pure ⟨rfl, alike⟩
  | restore checkpoint =>
    refine bind_agree (h.restore tolerant checkpoint) fun result u v alike => ?_
    rcases result with fault | ⟨⟩ <;> exact .pure ⟨rfl, alike⟩
  | injectVariable name value =>
    exact bind_agree (h.injectVariable tolerant name value) fun _ _ _ alike => .pure ⟨rfl, alike⟩
  | observe observer => exact .pure ⟨rfl, h.observe observer⟩

theorem Alike.onActive (h : s.Alike t) (operation : Operation H) (depth : Nat) :
    Parallel J Agree (s.onActive (fun s => s.perform operation) depth)
      (t.onActive (fun s => s.perform operation) depth) := by
  induction depth generalizing s t with
  | zero =>
    exact bind_agree (h.perform tolerant operation) fun _ _ _ alike => .pure ⟨rfl, alike⟩
  | succ depth ih =>
    have alike := h
    cases h with
    | leaf core => exact .pure ⟨rfl, .leaf core⟩
    | @composite core _ _ _ _ _ _ active =>
      exact bind_agree_inner (ih alike.inner_active) (layout_onActive operation depth active)
        fun _ _ _ deeper named => .pure ⟨rfl, alike.replace core deeper named⟩

end Operations

end State

namespace Machine

/-- The roots are alike, and the stores are the same but for their journals. -/
structure Alike (J : List (Event H) → List (Event H) → Prop) (machine machine' : Machine H) :
    Prop where
  root : machine.root.Alike machine'.root
  store : Store.Twins J machine.store machine'.store

variable [Conduct H] {machine machine' : Machine H}

/-- A move is answered alike by machines that are alike, and they stay so. -/
theorem Alike.move (tolerant : Tolerant J) (h : Alike J machine machine') (move : Move H) :
    (machine'.move move).1 = (machine.move move).1 ∧
      Alike J (machine.move move).2 (machine'.move move).2 := by
  cases move with
  | operate depth operation =>
    obtain ⟨⟨same, alike⟩, twins⟩ := h.root.onActive tolerant operation depth _ _ h.store
    exact ⟨congrArg (fun result => (result.map Answer.outcome).getD .missing) same, ⟨alike, twins⟩⟩
  | post state command =>
    obtain ⟨same, twins⟩ := tolerant.post state command _ _ h.store
    exact ⟨congrArg Answer.accepted same.symm, ⟨h.root, twins⟩⟩
  | declare scope name value =>
    obtain ⟨same, twins⟩ := Tolerant.declare scope name value _ _ h.store
    exact ⟨congrArg Answer.accepted same.symm, ⟨h.root, twins⟩⟩

/-- Machines that are alike answer every run alike, and stay so. -/
theorem Alike.run (tolerant : Tolerant J) (h : Alike J machine machine') (moves : List (Move H)) :
    (machine'.run moves).1 = (machine.run moves).1 ∧
      Alike J (machine.run moves).2 (machine'.run moves).2 := by
  induction moves generalizing machine machine' with
  | nil => exact ⟨rfl, h⟩
  | cons move moves ih =>
    obtain ⟨same, moved⟩ := h.move tolerant move
    obtain ⟨rest, alike⟩ := ih moved
    exact ⟨congrArg₂ _ same rest, alike⟩

end Machine

end Statechart
