import Statechart.Proofs.Idle

/-!
# What is built

What building makes of a blueprint, whatever the programs that make the behaviours do: a state for the
first row of every name, each built from what that row leads to.  So building gives a well-built tree
in which everything is dormant: the inner states stand beneath their owner under names of their own,
and every row of the table finds one of its name.
-/
namespace Statechart

variable {H : Host} {α : Type}

/-! ## The rows that build -/

namespace Table

/-- The rows that build a state: the first one of every name that is not known yet. -/
def builders (known : List String) : Table α → Table α
  | [] => []
  | row :: rest =>
    if row.name ∈ known then builders known rest
    else row :: builders (known ++ [row.name]) rest

theorem mem_of_mem_builders {known : List String} {row : Row α} {rows : Table α}
    (mem : row ∈ builders known rows) : row ∈ rows ∧ row.name ∉ known := by
  fun_induction builders known rows with
  | case1 => simp at mem
  | case2 known first rest taken ih => exact (ih mem).imp_left (List.mem_cons_of_mem _)
  | case3 known first rest free ih =>
    rcases List.mem_cons.1 mem with rfl | mem
    · exact ⟨List.mem_cons_self, free⟩
    · obtain ⟨inside, other⟩ := ih mem
      exact ⟨List.mem_cons_of_mem _ inside, fun taken => other (List.mem_append_left _ taken)⟩

/-- The rows that build have names of their own. -/
theorem nodup_builders (known : List String) (rows : Table α) :
    ((builders known rows).map Row.name).Nodup := by
  fun_induction builders known rows with
  | case1 => exact List.nodup_nil
  | case2 known first rest taken ih => exact ih
  | case3 known first rest free ih =>
    refine List.nodup_cons.2 ⟨fun again => ?_, ih⟩
    obtain ⟨row, mem, same⟩ := List.mem_map.1 again
    exact (mem_of_mem_builders mem).2 (by simp [same])

/-- Every row has a name that is known already or that of a row that builds. -/
theorem name_mem_known_or_builders {known : List String} {row : Row α} {rows : Table α}
    (mem : row ∈ rows) : row.name ∈ known ∨ row.name ∈ (builders known rows).map Row.name := by
  fun_induction builders known rows with
  | case1 => simp at mem
  | case2 known first rest taken ih =>
    rcases List.mem_cons.1 mem with rfl | mem
    · exact .inl taken
    · exact ih mem
  | case3 known first rest free ih =>
    rw [List.map_cons, List.mem_cons]
    rcases List.mem_cons.1 mem with rfl | mem
    · exact .inr (.inl rfl)
    · rcases ih mem with before | later
      · exact (List.mem_append.1 before).imp_right fun here => .inl (List.mem_singleton.1 here)
      · exact .inr (.inr later)

/-- Every row has the name of a row that builds. -/
theorem name_mem_builders {row : Row α} {rows : Table α} (mem : row ∈ rows) :
    row.name ∈ (builders [] rows).map Row.name :=
  (name_mem_known_or_builders mem).resolve_left List.not_mem_nil

end Table

namespace Blueprint

open State

variable {config : Config} {place owner : Address} {name typeName : String}
  {blueprint : Blueprint H} {states : List (State H)} {s : State H} {σ σ' : Store H}

/-! ## Building -/

/-- What building makes of a blueprint at a place. -/
inductive Builds (config : Config) : Address → String → Blueprint H → State H → Prop
  /-- An empty table makes a state without inner states. -/
  | leaf (place : Address) (typeName : String) (make : Program H H.Behavior) (behavior : H.Behavior) :
    Builds config place typeName (.mk make []) (.leaf ⟨place, typeName, false, none, behavior, []⟩)
  /-- The first row of every name makes an inner state; the one of the initial row is selected. -/
  | composite {place : Address} {typeName : String} {make : Program H H.Behavior}
    {behavior : H.Behavior} {rows : List (Row (Blueprint H))} {before after : List (State H)}
    {active : State H} (valid : Table.violations config.strict rows = [])
    (names_eq : (before ++ active :: after).map State.name =
      (Table.builders [] rows).map Row.name)
    (initial_eq : (Table.initial? rows).map Row.name = some active.name)
    (inner : ∀ row ∈ Table.builders [] rows, ∀ child ∈ before ++ active :: after,
      child.name = row.name →
      Builds config (place.inner row.name) row.typeName row.target child) :
    Builds config place typeName (.mk make rows)
      (.composite ⟨place, typeName, false, none, behavior, []⟩
        ⟨rows.map fun row => (row.tag, row.name), active.name⟩ before active after)

theorem Builds.address_eq (h : Builds config place typeName blueprint s) : s.address = place := by
  cases h <;> rfl

theorem not_mem_of_built? (h : built? states name = none) : name ∉ states.map State.name := by
  intro mem
  obtain ⟨t, inside, same⟩ := List.mem_map.1 mem
  have differs := List.find?_eq_none.1 h t inside
  simp [same] at differs

theorem mem_of_built? (h : built? states name = some s) : name ∈ states.map State.name := by
  have named := List.find?_some h
  exact List.mem_map.2 ⟨s, List.mem_of_find?_eq_some h, by simpa using named⟩

/-- What is assembled has the states that it is assembled of, in their order. -/
theorem exists_assemble {initial : String} (core : Core H) (rows : List (Tag × String))
    (there : initial ∈ states.map State.name) :
    ∃ before active after, before ++ active :: after = states ∧ active.name = initial ∧
      assemble core rows initial states = .composite core ⟨rows, initial⟩ before active after := by
  obtain ⟨⟨before, active, after⟩, focused⟩ := exists_focus there
  obtain ⟨rfl, named⟩ := focus_eq_some focused
  exact ⟨before, active, after, rfl, named, by rw [assemble, focused]⟩

/-- What a table with rows has built is assembled of what its rows have built. -/
theorem exists_of_build {make : Program H H.Behavior} {rows : List (Row (Blueprint H))}
    (filled : rows ≠ [])
    (run : ((Blueprint.mk make rows).build config place typeName).run σ = (.ok s, σ')) :
    Table.violations config.strict rows = [] ∧ ∃ row made, Table.initial? rows = some row ∧
      (buildRows config place [] rows).run ((σ.after make.run).after
        ((Table.duplicates rows).forM fun label => Store.note (.tagShared place.name label))) =
          (.ok made, σ') ∧
      s = assemble ⟨place, typeName, false, none, (make.run.run σ).1, []⟩
        (rows.map fun row => (row.tag, row.name)) row.name made := by
  have more : rows.isEmpty = false := by simpa using filled
  simp only [build, StoreM.run_bind, more, Bool.false_eq_true, if_false] at run
  split at run
  · cases run
  · next valid =>
    simp only [StoreM.run_bind] at run
    split at run
    · cases run
    · next states rowsRun =>
      split at run
      · cases run
      · next row found =>
        rw [StoreM.run_pure] at run
        obtain ⟨⟨⟩, rfl⟩ := run
        exact ⟨by simpa using valid, row, states, found, Prod.ext rowsRun rfl, rfl⟩

mutual

/-- Building goes by the rules. -/
theorem build_builds (config : Config) (place : Address) (typeName : String) :
    ∀ (blueprint : Blueprint H) (s : State H) (σ σ' : Store H),
      (blueprint.build config place typeName).run σ = (.ok s, σ') →
      Builds config place typeName blueprint s
  | .mk make rows, s, σ, σ', h => by
    by_cases filled : rows = []
    · subst filled
      simp only [build, StoreM.run_bind, List.isEmpty_nil, if_true, StoreM.run_pure] at h
      obtain ⟨⟨⟩, -⟩ := h
      exact .leaf place typeName make _
    · obtain ⟨valid, row, states, found, built, rfl⟩ := exists_of_build filled h
      obtain ⟨states, rfl, names_eq, inner⟩ := buildRows_builds config place rows [] _ _ _ built
      have there : row.name ∈ states.map State.name := by
        rw [names_eq]
        exact Table.name_mem_builders (List.mem_of_find?_eq_some found)
      obtain ⟨before, active, after, rfl, named, assembled⟩ := exists_assemble _ _ there
      rw [assembled, ← named]
      exact .composite valid names_eq (by rw [found, Option.map_some, named]) inner

/-- The rows of a table make their states in order, the first row of every name a new one. -/
theorem buildRows_builds (config : Config) (owner : Address) :
    ∀ (rows : List (Row (Blueprint H))) (states built : List (State H)) (σ σ' : Store H),
      (buildRows config owner states rows).run σ = (.ok built, σ') →
      ∃ made, built = states ++ made ∧
        made.map State.name = (Table.builders (states.map State.name) rows).map Row.name ∧
        ∀ row ∈ Table.builders (states.map State.name) rows, ∀ child ∈ made,
          child.name = row.name →
          Builds config (owner.inner row.name) row.typeName row.target child
  | [], states, built, σ, σ', h => by
    simp only [buildRows, StoreM.run_pure] at h
    obtain ⟨⟨⟩, -⟩ := h
    exact ⟨[], by simp, rfl, by simp⟩
  | row :: rest, states, built, σ, σ', h => by
    rcases found : built? states row.name with _ | state
    · simp only [buildRows, found, StoreM.run_bind] at h
      rcases rowRun : (buildRow config owner row).run σ with ⟨fault | s, σ₁⟩
      · rw [rowRun] at h
        nomatch h
      · simp only [rowRun] at h
        have here := buildRow_builds config owner row s σ σ₁ rowRun
        have named : s.name = row.name := congrArg Address.name here.address_eq
        have fresh := not_mem_of_built? found
        obtain ⟨made, rfl, names_eq, inner⟩ :=
          buildRows_builds config owner rest (states ++ [s]) built σ₁ σ' h
        rw [List.map_append, List.map_singleton, named] at names_eq inner
        -- what the rows further on make has other names
        have other : ∀ next ∈ Table.builders (states.map State.name ++ [row.name]) rest,
            next.name ≠ row.name := by
          intro next mem eq
          refine (Table.mem_of_mem_builders mem).2 ?_
          rw [eq]
          simp
        rw [Table.builders, if_neg fresh]
        refine ⟨s :: made, by simp, by rw [List.map_cons, List.map_cons, named, names_eq], ?_⟩
        refine List.forall_mem_cons.2
          ⟨List.forall_mem_cons.2 ⟨fun _ => here, fun child mem same => ?_⟩,
            fun next mem => List.forall_mem_cons.2 ⟨fun same => ?_, inner next mem⟩⟩
        · have inside : child.name ∈ made.map State.name := List.mem_map_of_mem mem
          rw [names_eq] at inside
          obtain ⟨next, there, eq⟩ := List.mem_map.1 inside
          exact absurd (eq.trans same) (other next there)
        · exact absurd (same.symm.trans named) (other next mem)
    · have rest_run : ∃ σ₁, (buildRows config owner states rest).run σ₁ = (.ok built, σ') := by
        simp only [buildRows, found] at h
        split at h <;> exact ⟨_, h⟩
      obtain ⟨σ₁, h⟩ := rest_run
      rw [Table.builders, if_pos (mem_of_built? found)]
      exact buildRows_builds config owner rest states built σ₁ σ' h

/-- The state of a row is built at the row's place. -/
theorem buildRow_builds (config : Config) (owner : Address) :
    ∀ (row : Row (Blueprint H)) (s : State H) (σ σ' : Store H),
      (buildRow config owner row).run σ = (.ok s, σ') →
      Builds config (owner.inner row.name) row.typeName row.target s
  | ⟨_, name, typeName, _, target⟩, s, σ, σ', h => by
    rw [buildRow] at h
    exact build_builds config (owner.inner name) typeName target s σ σ' h

end

/-- The state of a row has the row's name. -/
theorem name_of_buildRow {row : Row (Blueprint H)}
    (run : (buildRow config owner row).run σ = (.ok s, σ')) : s.name = row.name :=
  congrArg Address.name (buildRow_builds config owner row s σ σ' run).address_eq

/-- A machine is not built under a name that is no segment. -/
theorem run_start_of_not_segment (other : isSegment name = false) (σ : Store H) :
    (blueprint.start config name typeName).run σ =
      (.error (.invalidConfiguration name [.invalidRootName name]), σ) := by
  simp only [start, other, Bool.false_eq_true, if_false, StoreM.run_pure]

/-- Under a segment, what has been built at the top of the next machine gets its mailboxes. -/
theorem run_start (segment : isSegment name = true) (σ : Store H) :
    (blueprint.start config name typeName).run σ =
      match (blueprint.build config (.root σ.machines name) typeName).run
        { σ with machines := σ.machines + 1 } with
      | (.error fault, σ') => (.error fault, σ')
      | (.ok root, σ') => (.ok root, σ'.after (house config.policy root)) := by
  rcases built : (blueprint.build config (.root σ.machines name) typeName).run
    { σ with machines := σ.machines + 1 } with ⟨fault | root, σ'⟩ <;>
    simp only [start, segment, if_true, StoreM.run_bind, StoreM.run_get, StoreM.run_modify, built,
      StoreM.run_pure, Store.after]

/-- What has been started has been built, under a segment, and has got its mailboxes. -/
theorem built_of_start (h : (blueprint.start config name typeName).run σ = (.ok s, σ')) :
    isSegment name = true ∧ ∃ σ₁, (blueprint.build config (.root σ.machines name) typeName).run
        { σ with machines := σ.machines + 1 } = (.ok s, σ₁) ∧
      σ' = σ₁.after (house config.policy s) := by
  rcases segment : isSegment name
  · rw [run_start_of_not_segment segment] at h
    nomatch h
  · rw [run_start segment] at h
    rcases built : (blueprint.build config (.root σ.machines name) typeName).run
      { σ with machines := σ.machines + 1 } with ⟨fault | root, σ₁⟩
    · rw [built] at h
      nomatch h
    · rw [built] at h
      obtain ⟨⟨⟩, rfl⟩ := h
      exact ⟨rfl, σ₁, rfl, rfl⟩

/-- A machine is built from its blueprint, and its name is a segment. -/
theorem start_builds
    (h : (blueprint.start config name typeName).run σ = (.ok s, σ')) :
    isSegment name = true ∧ Builds config (.root σ.machines name) typeName blueprint s := by
  obtain ⟨segment, σ₁, built, -⟩ := built_of_start h
  exact ⟨segment, build_builds config _ typeName blueprint s _ σ₁ built⟩

/-! ## What has been built -/

/-- Every inner state is made by one of the rows that build. -/
theorem exists_builder {rows : List (Row (Blueprint H))}
    (names_eq : states.map State.name = (Table.builders [] rows).map Row.name) (mem : s ∈ states) :
    ∃ row ∈ Table.builders [] rows, row.name = s.name := by
  have inside : s.name ∈ states.map State.name := List.mem_map_of_mem mem
  rw [names_eq] at inside
  exact List.mem_map.1 inside

/-- A leaf that does not run. -/
theorem wellBuilt_leaf (core : Core H) : (State.leaf core).WellBuilt := by
  intro site mem
  simp only [layout, subtree, List.map_cons, List.map_nil, List.mem_singleton] at mem
  subst mem
  exact ⟨by simp [State.site, children], by simp [children], by simp [State.site, routes?],
    by simp [State.site, routes?]⟩

/-- What is built is well built. -/
theorem Builds.wellBuilt (h : Builds config place typeName blueprint s) : s.WellBuilt := by
  induction h with
  | leaf place typeName make behavior => exact wellBuilt_leaf _
  | composite valid names_eq initial_eq inner ih =>
    intro site mem
    rw [layout_eq, List.mem_cons] at mem
    rcases mem with rfl | mem
    · constructor
      · intro place mem
        obtain ⟨child, inside, rfl⟩ := List.mem_map.1 mem
        obtain ⟨row, here, same⟩ := exists_builder names_eq inside
        rw [(inner row here child inside same.symm).address_eq]
        rfl
      · rw [innerNames_site]
        exact names_eq ▸ Table.nodup_builders _ _
      · rintro routes ⟨⟩
        rw [innerNames_site]
        exact List.mem_map_of_mem active_mem_children
      · rintro routes ⟨⟩ pair mem
        obtain ⟨row, inside, rfl⟩ := List.mem_map.1 mem
        rw [innerNames_site]
        exact names_eq ▸ Table.name_mem_builders inside
    · obtain ⟨child, inside, mem⟩ := List.mem_flatMap.1 mem
      obtain ⟨row, here, same⟩ := exists_builder names_eq inside
      exact ih row here child inside same.symm site mem

/-- What is built is dormant. -/
theorem Builds.dormant (h : Builds config place typeName blueprint s) : s.Dormant := by
  induction h with
  | leaf place typeName make behavior => exact dormant_leaf.2 rfl
  | composite valid names_eq initial_eq inner ih =>
    refine dormant_composite.2 ⟨⟨rfl, rfl⟩, fun child inside => ?_⟩
    obtain ⟨row, here, same⟩ := exists_builder names_eq inside
    exact ih row here child inside same.symm

/-- A machine that has been started is well built and dormant, and nothing is above its root. -/
theorem start_spec (h : (blueprint.start config name typeName).run σ = (.ok s, σ')) :
    s.WellBuilt ∧ s.Dormant ∧ s.address.above = [] := by
  obtain ⟨-, builds⟩ := start_builds h
  exact ⟨builds.wellBuilt, builds.dormant, by rw [builds.address_eq, Address.root]⟩

end Blueprint

end Statechart
