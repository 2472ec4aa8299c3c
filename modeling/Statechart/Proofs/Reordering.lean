import Statechart.Proofs.Arrangements
import Statechart.Proofs.Raising
import Mathlib.Data.List.Forall2

/-!
# Tables in another order

Where no two rows share a tag, and rows of one name are to build the same state, a table may be written
in any order.  The rules that it obeys, its initial row and what its tags lead to do not depend on it,
and the inner states are built one by one, whichever is first, as far as the programs that make their
behaviours exchange.  Main statement: the order of the rows of one table of that kind, anywhere in a
machine, can never be told from how the machine is built or from how it behaves.  It can be told where
those programs do not exchange.
-/
namespace Statechart

variable {H : Host} {α : Type}

/-! ## Tables -/

namespace Table

variable {rows rows' : Table α} {row : Row α}

/-- No two rows share a tag. -/
def TagsDistinct (rows : Table α) : Prop :=
  rows.Pairwise fun row next => row.tag.agrees next.tag = false

theorem TagsDistinct.perm (h : rows.TagsDistinct) (reordered : rows'.Perm rows) :
    rows'.TagsDistinct :=
  reordered.symm.pairwise h fun apart => Tag.agrees_comm _ _ ▸ apart

/-- A tag agrees with one row at most. -/
theorem TagsDistinct.once (h : rows.TagsDistinct) (tag : Tag) :
    (rows.filter (·.tag.agrees tag)).Pairwise fun _ _ => False := by
  refine (h.filter _).imp_of_mem fun {row next} mem mem' apart => ?_
  have agrees := (List.mem_filter.1 mem).2
  have agrees' := (List.mem_filter.1 mem').2
  rw [Tag.agrees_comm] at agrees'
  exact absurd (Tag.agrees_trans agrees agrees') (by simp [apart])

theorem repeatedAfter_eq_nil (seen : List Tag) {tags : List Tag}
    (distinct : tags.Pairwise fun tag next => tag.agrees next = false) :
    repeatedAfter seen tags = [] := by
  induction tags generalizing seen with
  | nil => rfl
  | cons tag rest ih =>
    rw [List.pairwise_cons] at distinct
    have single : rest.any (·.agrees tag) = false := by
      rw [List.any_eq_false]
      intro next mem
      rw [Tag.agrees_comm, distinct.1 next mem]
      exact Bool.false_ne_true
    rw [repeatedAfter, ih _ distinct.2, single, Bool.and_false, if_neg Bool.false_ne_true]

/-- Where no tag is shared, no order of the rows breaks a rule that another one does not break. -/
theorem violations_perm {strict : Bool} (distinct : rows.TagsDistinct) (reordered : rows'.Perm rows)
    (valid : rows.violations strict = []) : rows'.violations strict = [] := by
  rw [violations, List.append_eq_nil_iff, List.append_eq_nil_iff] at valid ⊢
  obtain ⟨⟨counted, named⟩, -⟩ := valid
  have single : rows'.duplicates = [] := by
    rw [duplicates, repeated, repeatedAfter_eq_nil [] (List.pairwise_map.2 (distinct.perm reordered))]
    rfl
  refine ⟨⟨?_, ?_⟩, ?_⟩
  · rwa [initialViolations, initialCount, reordered.countP_eq]
  · rw [List.filterMap_eq_nil_iff] at named ⊢
    exact fun row mem => named row (reordered.mem_iff.1 mem)
  · simp [single]

/-- The initial row is the same in every order. -/
theorem initial?_perm {strict : Bool} (reordered : rows'.Perm rows)
    (valid : rows.violations strict = []) : rows'.initial? = rows.initial? := by
  obtain ⟨row, only, found⟩ := initial_of_violations valid
  have only' : rows'.filter (·.initial) = [row] :=
    List.perm_singleton.1 (only ▸ reordered.filter (·.initial))
  rw [found, initial?, ← List.head?_filter, only']
  rfl

/-- Where no tag is shared, every tag leads to the same name in every order. -/
theorem target?_perm (distinct : rows.TagsDistinct) (reordered : rows'.Perm rows) (initial : String)
    (tag : Tag) :
    Routes.target? ⟨rows'.map fun row => (row.tag, row.name), initial⟩ tag =
      Routes.target? ⟨rows.map fun row => (row.tag, row.name), initial⟩ tag := by
  have same : rows'.filter (·.tag.agrees tag) = rows.filter (·.tag.agrees tag) :=
    (reordered.filter _).eq_of_pairwise (fun _ _ _ _ impossible _ => impossible.elim)
      ((distinct.perm reordered).once tag) (distinct.once tag)
  simp only [Routes.target?, ← List.map_reverse, ← List.head?_filter, List.filter_map,
    Function.comp_def, List.filter_reverse, same]

/-- What goes by names only is had by a row that builds if any row has it. -/
theorem mem_map_builders {β : Type} {f : Row α → β}
    (named : ∀ row ∈ rows, ∀ next ∈ rows, row.name = next.name → f row = f next) (pair : String × β) :
    pair ∈ (builders [] rows).map (fun row => (row.name, f row)) ↔
      ∃ row ∈ rows, (row.name, f row) = pair := by
  rw [List.mem_map]
  constructor
  · rintro ⟨row, mem, eq⟩
    exact ⟨row, (mem_of_mem_builders mem).1, eq⟩
  · rintro ⟨row, mem, rfl⟩
    obtain ⟨first, here, eq⟩ := List.mem_map.1 (name_mem_builders mem)
    exact ⟨first, here, by rw [eq, named first (mem_of_mem_builders here).1 row mem eq]⟩

/-- Whatever goes by names only is the same for the rows that build, but for the order. -/
theorem map_builders_perm {β : Type} {f : Row α → β} (reordered : rows'.Perm rows)
    (named : ∀ row ∈ rows, ∀ next ∈ rows, row.name = next.name → f row = f next) :
    ((builders [] rows).map f).Perm ((builders [] rows').map f) := by
  have nodup (table : Table α) :
      ((builders [] table).map fun row => (row.name, f row)).Nodup := by
    refine List.Nodup.of_map Prod.fst ?_
    rw [List.map_map]
    exact nodup_builders [] table
  have pairs : ((builders [] rows).map fun row => (row.name, f row)).Perm
      ((builders [] rows').map fun row => (row.name, f row)) := by
    refine (List.perm_ext_iff_of_nodup (nodup rows) (nodup rows')).2 fun pair => ?_
    rw [mem_map_builders named, mem_map_builders fun row mem next mem' =>
      named row (reordered.mem_iff.1 mem) next (reordered.mem_iff.1 mem')]
    simp only [reordered.mem_iff]
  simpa only [List.map_map, Function.comp_def] using pairs.map Prod.snd

/-- Rows that are related one by one, with the same names, have builders that are so. -/
theorem forall₂_builders {β : Type} {R : Row α → Row β → Prop} {rows : Table α} {rows' : Table β}
    (named : ∀ row row', R row row' → row'.name = row.name) (h : List.Forall₂ R rows rows')
    (known : List String) : List.Forall₂ R (builders known rows) (builders known rows') := by
  induction h generalizing known with
  | nil => exact .nil
  | cons related rest ih =>
    rw [builders, builders, named _ _ related]
    split
    · exact ih known
    · exact .cons related (ih _)

/-- The row without what its state is built from. -/
def bare (row : Row α) : Row Unit := { row with target := () }

theorem violations_bare (strict : Bool) (rows : Table α) :
    violations strict (rows.map bare) = violations strict rows := by
  simp only [violations, initialViolations, initialCount, List.countP_map, List.filterMap_map,
    duplicates, repeated, List.map_map, Function.comp_def]
  rfl

theorem initial?_bare (rows : Table α) : initial? (rows.map bare) = rows.initial?.map bare := by
  rw [initial?, List.find?_map]
  rfl

/-- The rows in another order.  No two of them share a tag, and those of one name are to build the same
state. -/
structure Reorders (rows rows' : Table (Blueprint H)) : Prop where
  perm : rows'.Perm rows
  distinct : rows.TagsDistinct
  same : ∀ row ∈ rows, ∀ next ∈ rows, row.name = next.name →
    row.typeName = next.typeName ∧ row.target = next.target

/-- Of rows of different names either may build its state first: the programs that make the behaviours of
the one state and of those beneath it exchange with those of the other. -/
def Exchangeable (rows : Table (Blueprint H)) : Prop :=
  ∀ row ∈ rows, ∀ next ∈ rows, row.name ≠ next.name →
    ∀ program, row.target.Makes program → ∀ program', next.target.Makes program' →
      Exchange program.run program'.run

section

variable {rows rows' : Table (Blueprint H)}

theorem Reorders.symm (h : rows.Reorders rows') : rows'.Reorders rows where
  perm := h.perm.symm
  distinct := h.distinct.perm h.perm
  same row mem next mem' := h.same row (h.perm.mem_iff.1 mem) next (h.perm.mem_iff.1 mem')

theorem Exchangeable.perm (h : rows.Exchangeable) (reordered : rows'.Perm rows) :
    rows'.Exchangeable := fun row mem next mem' =>
  h row (reordered.mem_iff.1 mem) next (reordered.mem_iff.1 mem')

end

end Table

/-! ## Blueprints -/

namespace Blueprint

open State

/-- The one table is in the place of the other, as that of the state itself or of one beneath it. -/
inductive Swaps (rows rows' : Table (Blueprint H)) : Blueprint H → Blueprint H → Prop
  | table (make : Program H H.Behavior) : Swaps rows rows' (.mk make rows) (.mk make rows')
  | inner (make : Program H H.Behavior) (front back : Table (Blueprint H)) (row : Row (Blueprint H))
    {target : Blueprint H} (within : Swaps rows rows' row.target target) :
    Swaps rows rows' (.mk make (front ++ row :: back))
      (.mk make (front ++ { row with target := target } :: back))

variable {config : Config} {place : Address} {name typeName : String}
  {rows rows' : Table (Blueprint H)} {blueprint blueprint' : Blueprint H} {s t : State H}
  {σ σ' τ : Store H} {core : Core H} {made made' : List (State H)}

theorem Swaps.symm (h : Swaps rows rows' blueprint blueprint') :
    Swaps rows' rows blueprint' blueprint := by
  induction h with
  | table make => exact .table make
  | @inner make front back row target _ ih => exact .inner make front back { row with target } ih

/-- States made of inner states that are alike are alike if their rows lead to the same names. -/
theorem assemble_alike {pairs pairs' : List (Tag × String)} (core : Core H)
    (target_eq : ∀ tag, Routes.target? ⟨pairs', name⟩ tag = Routes.target? ⟨pairs, name⟩ tag)
    (names_perm : (made'.map State.name).Perm (made.map State.name))
    (distinct : (made.map State.name).Nodup) (there : name ∈ made.map State.name)
    (inner : ∀ child ∈ made, ∀ child' ∈ made', child'.name = child.name → child.Alike child') :
    (assemble core pairs name made).Alike (assemble core pairs' name made') := by
  obtain ⟨⟨before, active, after⟩, focused⟩ := exists_focus there
  obtain ⟨⟨before', active', after'⟩, focused'⟩ := exists_focus (names_perm.mem_iff.2 there)
  rw [assemble, assemble, focused, focused']
  obtain ⟨rfl, named⟩ := focus_eq_some focused
  obtain ⟨rfl, named'⟩ := focus_eq_some focused'
  exact .composite core rfl target_eq names_perm distinct (named'.trans named.symm) inner

theorem yields_self (config : Config) (owner : Address) (row : Row (Blueprint H)) :
    Yields Alike (buildRow config owner row) (buildRow config owner row) := fun σ s σ' run =>
  ⟨s, σ', run, .refl (buildRow_builds config owner row s σ σ' run).wellBuilt, .refl σ'⟩

theorem names_eq_of_forall₂ (h : List.Forall₂ Alike made made') :
    made.map State.name = made'.map State.name := by
  rw [← List.forall₂_eq_eq_eq, List.forall₂_map_left_iff, List.forall₂_map_right_iff]
  exact h.imp fun _ _ alike => alike.name_eq.symm

/-- Of states that are alike one by one, those of one name are alike. -/
theorem alike_of_forall₂ (h : List.Forall₂ Alike made made') (distinct : (made.map State.name).Nodup) :
    ∀ child ∈ made, ∀ child' ∈ made', child'.name = child.name → child.Alike child' := by
  induction h with
  | nil => simp
  | @cons s t made made' alike rest ih =>
    rw [List.map_cons, List.nodup_cons] at distinct
    intro child mem child' mem' same
    rcases List.mem_cons.1 mem with rfl | mem <;> rcases List.mem_cons.1 mem' with rfl | mem'
    · exact alike
    · have here : child'.name ∈ made'.map State.name := List.mem_map_of_mem mem'
      rw [← names_eq_of_forall₂ rest, same] at here
      exact absurd here distinct.1
    · have here : child.name ∈ made.map State.name := List.mem_map_of_mem mem
      rw [← same, alike.name_eq] at here
      exact absurd here distinct.1
    · exact ih distinct.2 child mem child' mem' same

/-- A table in another order builds a state that is alike. -/
theorem yields_of_reorders (make : Program H H.Behavior) (reordered : rows.Reorders rows')
    (exchangeable : rows.Exchangeable) :
    Yields Alike ((Blueprint.mk make rows).build config place typeName)
      ((Blueprint.mk make rows').build config place typeName) := by
  obtain ⟨perm, distinct, same⟩ := reordered
  intro σ s σ' run
  by_cases empty : rows = []
  · subst empty
    rw [List.perm_nil.1 perm]
    exact ⟨s, σ', run, .refl (build_builds config place typeName _ s σ σ' run).wellBuilt, .refl σ'⟩
  · obtain ⟨valid, row, made, found, rfl, raised, names_eq, built⟩ := raised_of_build empty run
    have operations : ((Table.builders [] rows).map (buildRow config place)).Perm
        ((Table.builders [] rows').map (buildRow config place)) := by
      refine Table.map_builders_perm perm fun row mem next mem' named => ?_
      rw [buildRow_eq, buildRow_eq, named, (same row mem next mem' named).1,
        (same row mem next mem' named).2]
    have either : ((Table.builders [] rows).map (buildRow config place)).Pairwise Exchange := by
      refine List.pairwise_map.2 ((List.pairwise_map.1 (Table.nodup_builders [] rows)).imp_of_mem
        fun {row next} mem mem' other => ?_)
      rw [buildRow_eq, buildRow_eq]
      exact exchange_build (exchangeable row (Table.mem_of_mem_builders mem).1 next
        (Table.mem_of_mem_builders mem').1 other)
    have even : ∀ x ∈ (Table.builders [] rows).map (buildRow config place), Even Unread x :=
      List.forall_mem_map.2 fun row _ => even_buildRow config place row
    obtain ⟨made', raised', swapped⟩ := raised.perm operations either even
    have filled : rows' ≠ [] := fun none => empty (List.perm_nil.1 (none ▸ perm.symm))
    obtain ⟨τ', run', ends⟩ := build_of_raised typeName filled
      (Table.violations_perm distinct perm valid)
      ((Table.initial?_perm perm valid).trans found) raised'
    have nodup : (made.map State.name).Nodup := names_eq ▸ Table.nodup_builders [] rows
    have alike := alike_of_forall₂
      (List.forall₂_same.2 fun child mem => Alike.refl (built child mem)) nodup
    exact ⟨_, τ', run', assemble_alike _ (Table.target?_perm distinct perm row.name)
      (swapped.map _) nodup (names_eq ▸ Table.name_mem_builders (List.mem_of_find?_eq_some found))
      fun child mem child' mem' => alike child mem child' (swapped.mem_iff.1 mem'), ends⟩

/-- The rows have the same name, and the one yields a state that is like that of the other. -/
def Kindred (config : Config) (owner : Address) (row row' : Row (Blueprint H)) : Prop :=
  row'.name = row.name ∧ Yields Alike (buildRow config owner row) (buildRow config owner row')

/-- Tables that differ only in what their rows build, and in that not much, build states that are
alike. -/
theorem yields_of_kindred (make : Program H H.Behavior) (filled : rows ≠ []) (bare_eq : rows'.map Table.bare = rows.map Table.bare)
    (kindred : List.Forall₂ (Kindred config place) rows rows') :
    Yields Alike ((Blueprint.mk make rows).build config place typeName)
      ((Blueprint.mk make rows').build config place typeName) := by
  intro σ s σ' run
  obtain ⟨valid, row, made, found, rfl, raised, names_eq, -⟩ := raised_of_build filled run
  have beneath := (Table.forall₂_builders (fun _ _ related => related.1) kindred []).imp
    fun _ _ related => related.2
  obtain ⟨made', raised', alike⟩ := raised.yields
    (List.forall₂_map_left_iff.2 (List.forall₂_map_right_iff.2 beneath))
  have filled' : rows' ≠ [] := by
    rintro rfl
    exact filled (List.map_eq_nil_iff.1 bare_eq.symm)
  have valid' : Table.violations config.strict rows' = [] := by
    rw [← Table.violations_bare, bare_eq, Table.violations_bare, valid]
  have found' := Table.initial?_bare rows'
  rw [bare_eq, Table.initial?_bare, found] at found'
  obtain ⟨row', initial, same⟩ := Option.map_eq_some_iff.1 found'.symm
  have named : row'.name = row.name := congrArg (fun row : Row Unit => row.name) same
  have pairs := congrArg (List.map fun row : Row Unit => (row.tag, row.name)) bare_eq
  rw [List.map_map, List.map_map] at pairs
  obtain ⟨τ', run', ends⟩ := build_of_raised typeName filled' valid' initial raised'
  have nodup : (made.map State.name).Nodup := names_eq ▸ Table.nodup_builders [] rows
  refine ⟨_, τ', run', ?_, ends⟩
  rw [named]
  exact assemble_alike _ (fun tag => congrArg (fun rows => Routes.target? ⟨rows, row.name⟩ tag) pairs)
    (.of_eq (names_eq_of_forall₂ alike).symm) nodup
    (names_eq ▸ Table.name_mem_builders (List.mem_of_find?_eq_some found))
    (alike_of_forall₂ alike nodup)

/-- Where the one blueprint builds a state, the other builds one that is alike. -/
theorem Swaps.yields (h : Swaps rows rows' blueprint blueprint') (reordered : rows.Reorders rows')
    (exchangeable : rows.Exchangeable) (config : Config) (place : Address) (typeName : String) :
    Yields Alike (blueprint.build config place typeName) (blueprint'.build config place typeName) := by
  induction h generalizing place typeName with
  | table make => exact yields_of_reorders make reordered exchangeable
  | @inner make front back row target _ ih =>
    have unchanged (rows : Table (Blueprint H)) : List.Forall₂ (Kindred config place) rows rows :=
      List.forall₂_same.2 fun row _ => ⟨rfl, yields_self config place row⟩
    have changed : Kindred config place row { row with target := target } := by
      refine ⟨rfl, ?_⟩
      rw [buildRow_eq, buildRow_eq]
      exact ih _ _
    refine yields_of_kindred make (by simp) ?_
      (List.rel_append (unchanged front) (.cons changed (unchanged back)))
    simp only [List.map_append, List.map_cons, Table.bare]

/-! ## Machines -/

/-- Giving states mailboxes changes nothing but mailboxes. -/
theorem exists_house_eq (policy : MailboxPolicy) (root : State H) (σ : Store H) :
    ∃ boxes, σ.after (house policy root) = { σ with mailboxes := boxes } := by
  rw [house]
  generalize root.subtree = states
  induction states generalizing σ with
  | nil => exact ⟨σ.mailboxes, rfl⟩
  | cons s rest ih => exact (ih (σ.after (Store.setMailbox s.address (.empty policy)))).imp fun _ h => h

/-- Trees that are alike are given the same mailboxes. -/
theorem twins_house (alike : s.Alike t) (twins : Store.Twins Unread σ τ) (policy : MailboxPolicy) :
    Store.Twins Unread (σ.after (house policy s)) (τ.after (house policy t)) := by
  have boxes (place : Address) : (τ.after (house policy t)).mailboxes.get? place =
      (σ.after (house policy s)).mailboxes.get? place := by
    rw [get?_house, get?_house, twins.mailboxes]
    simp only [alike.mem_places_iff place]
  obtain ⟨xs, left⟩ := exists_house_eq policy s σ
  obtain ⟨ys, right⟩ := exists_house_eq policy t τ
  rw [left, right] at boxes ⊢
  exact { twins with mailboxes := boxes }

/-- Where the one blueprint starts a machine, the other starts one that is alike. -/
theorem Swaps.start (h : Swaps rows rows' blueprint blueprint') (reordered : rows.Reorders rows')
    (exchangeable : rows.Exchangeable)
    (run : (blueprint.start config name typeName).run σ = (.ok s, σ')) :
    ∃ t τ', (blueprint'.start config name typeName).run σ = (.ok t, τ') ∧ s.Alike t ∧
      Store.Twins Unread σ' τ' := by
  obtain ⟨segment, σ₁, built, rfl⟩ := built_of_start run
  obtain ⟨t, τ₁, built', alike, twins⟩ := h.yields reordered exchangeable config _ typeName _ s σ₁ built
  refine ⟨t, τ₁.after (house config.policy t), ?_, alike, twins_house alike twins config.policy⟩
  rw [run_start segment, built']

end Blueprint

/-! ## What is put on record -/

/-- A state was linked to a scope. -/
def Event.isLink : Event H → Bool
  | .notice (.scopeAttached _) => true
  | _ => false

/-- The events but for links to scopes. -/
def unlinked (events : List (Event H)) : List (Event H) := events.filter fun event => !event.isLink

/-- The same has been added to two journals, but for links to scopes. -/
def AddedAlike (base base' : List (Event H)) (xs ys : List (Event H)) : Prop :=
  ∃ recent recent', xs = recent ++ base ∧ ys = recent' ++ base' ∧ unlinked recent' = unlinked recent

theorem tolerant_addedAlike (base base' : List (Event H)) : Tolerant (AddedAlike base base') where
  both event := by
    rintro ⟨recent, recent', rfl, rfl, same⟩
    refine ⟨event :: recent, event :: recent', rfl, rfl, ?_⟩
    rw [unlinked, unlinked] at same ⊢
    rw [List.filter_cons, List.filter_cons, same]
  left state := by
    rintro ⟨recent, recent', rfl, rfl, same⟩
    exact ⟨.notice (.scopeAttached state) :: recent, recent', rfl, rfl, same⟩
  right state := by
    rintro ⟨recent, recent', rfl, rfl, same⟩
    exact ⟨recent, .notice (.scopeAttached state) :: recent', rfl, rfl, same⟩

/-- Links to scopes are no callbacks. -/
theorem callsIn_unlinked (events : List (Event H)) : callsIn (unlinked events) = callsIn events := by
  rw [callsIn, callsIn, marksIn, marksIn, unlinked, List.filterMap_filter]
  refine congrArg (List.filterMap Mark.call?) (List.filterMap_congr fun event _ => ?_)
  cases event with
  | notice notice => cases notice <;> rfl
  | remark said | called call | mail state step => rfl

theorem unlinked_reverse (events : List (Event H)) :
    unlinked events.reverse = (unlinked events).reverse := List.filter_reverse

namespace Machine

open State

variable [Conduct H] {config : Config} {name typeName : String} {blueprint blueprint' : Blueprint H}
  {rows rows' : Table (Blueprint H)} {machine machine' : Machine H} {σ : Store H}

omit [Conduct H] in
/-- Where the one blueprint starts a machine, the other starts one that is alike. -/
theorem exists_start_of_swaps (h : Blueprint.Swaps rows rows' blueprint blueprint')
    (reordered : rows.Reorders rows') (exchangeable : rows.Exchangeable)
    (started : (start config name typeName blueprint σ).1 = .ok machine) :
    ∃ machine', (start config name typeName blueprint' σ).1 = .ok machine' ∧
      Alike Unread machine machine' := by
  obtain ⟨t, τ', run, alike, twins⟩ := h.start reordered exchangeable (run_of_start started)
  refine ⟨⟨t, τ'⟩, ?_, ⟨alike, twins⟩⟩
  rw [start, run]
  rfl

/-- The order of the rows of a table, anywhere in a machine, is immaterial if no two of them share a
tag, those of one name build the same state, and of the others either may build its state first: with the
one order a machine can be built just if it can with the other, and whatever is done to the two, the
answers and the paths are the same.  The same is put on record, but for links to scopes: so the same
callbacks are fired in the same order and see the same command and scope, and what behaviours put on
record of what they find there is the same, whatever it is.  The same names lead to states that have the
same of themselves, and the stores are the same but for journals. -/
theorem row_order_immaterial (swaps : Blueprint.Swaps rows rows' blueprint blueprint')
    (reordered : rows.Reorders rows') (exchangeable : rows.Exchangeable) (config : Config)
    (name typeName : String) (σ : Store H) :
    let built := (start config name typeName blueprint σ).1
    let built' := (start config name typeName blueprint' σ).1
    ((∃ machine, built = .ok machine) ↔ ∃ machine', built' = .ok machine') ∧
    ∀ machine machine', built = .ok machine → built' = .ok machine' → ∀ moves,
      let run := machine.run moves
      let run' := machine'.run moves
      let events := Store.since machine.store run.2.store
      let events' := Store.since machine'.store run'.2.store
      run'.1 = run.1 ∧ run'.2.root.path = run.2.root.path ∧
      callsIn events' = callsIn events ∧ unlinked events' = unlinked events ∧
      (∀ names, (run'.2.root.descend? names).map (fun s => (s.core, s.path)) =
        (run.2.root.descend? names).map fun s => (s.core, s.path)) ∧
      Store.Twins Unread run.2.store run'.2.store := by
  intro built built'
  refine ⟨⟨?_, ?_⟩, fun machine machine' started started' moves => ?_⟩
  · rintro ⟨machine, started⟩
    exact (exists_start_of_swaps swaps reordered exchangeable started).imp fun _ found => found.1
  · rintro ⟨machine', started⟩
    exact (exists_start_of_swaps swaps.symm reordered.symm (exchangeable.perm reordered.perm)
      started).imp fun _ found => found.1
  · obtain ⟨other, again, alike⟩ := exists_start_of_swaps swaps reordered exchangeable started
    obtain rfl : machine' = other := Except.ok.inj (started'.symm.trans again)
    -- from here on the journals are compared as well, as to what is added to them
    have base : Alike (AddedAlike machine.store.journal machine'.store.journal) machine machine' :=
      ⟨alike.root, { alike.store with journal := ⟨[], [], rfl, rfl, rfl⟩ }⟩
    obtain ⟨answers, later⟩ := base.run (tolerant_addedAlike _ _) moves
    obtain ⟨recent, recent', added, added', same⟩ := later.store.journal
    have events_eq : Store.since machine.store (machine.run moves).2.store = recent.reverse :=
      Store.since_eq (by rw [List.reverse_reverse, added])
    have events_eq' : Store.since machine'.store (machine'.run moves).2.store = recent'.reverse :=
      Store.since_eq (by rw [List.reverse_reverse, added'])
    have unlinked_eq : unlinked recent'.reverse = unlinked recent.reverse := by
      rw [unlinked_reverse, unlinked_reverse, same]
    dsimp only
    rw [events_eq, events_eq', ← callsIn_unlinked, ← callsIn_unlinked recent.reverse, unlinked_eq]
    refine ⟨answers, later.root.path_eq, rfl, rfl, fun names => ?_,
      { later.store with journal := trivial }⟩
    exact later.root.map_descend?_eq names

end Machine

namespace Sample

open Script Blueprint

/-- The row that builds a state that is not there at first. -/
def restRow : Row Cast :=
  ⟨next, "Rest", "Node", false, (Cast.ofPart .node eager []).announced "Next" "Rest"⟩

/-- The row that builds a state that is there at first. -/
def partRow : Row Cast :=
  ⟨first, "Part", "Node", true, (Cast.ofPart .node mute []).announced "First" "Part"⟩

/-- How a root is built whose inner state has these rows. -/
def shift (rows : List (Row Cast)) : Cast :=
  .ofPart .node mute [⟨first, "Work", "Node", true, .ofPart .node mute rows⟩]

theorem fresh_of_makes {kind : Kind} {role : Part} {tag name : String}
    {program : Program stage Actor}
    (made : Makes ((Cast.ofPart kind role []).announced tag name) program) : program.Fresh := by
  cases made with
  | own => exact .remark _ (.done _)
  | inner mem => simp [Table.builders] at mem

theorem shift_reorders : Table.Reorders [restRow, partRow] [partRow, restRow] where
  perm := .swap _ _ _
  distinct := .cons (by decide) (.cons (by decide) .nil)
  same := by simp [restRow, partRow]

theorem shift_exchangeable : Table.Exchangeable [restRow, partRow] := by
  have fresh : ∀ row ∈ [restRow, partRow], ∀ program, row.target.Makes program → program.Fresh :=
    List.forall_mem_cons.2 ⟨fun _ made => fresh_of_makes made,
      List.forall_mem_singleton.2 fun _ made => fresh_of_makes made⟩
  exact fun row mem next _ _ program made program' _ =>
    (fresh row mem program made).exchange (tolerant_unread.program program')

theorem shift_swaps : Swaps [restRow, partRow] [partRow, restRow] (shift [restRow, partRow])
    (shift [partRow, restRow]) :=
  .inner _ [] [] ⟨first, "Work", "Node", true, Cast.ofPart .node mute [restRow, partRow]⟩ (.table _)

end Sample

/-- Two inner states may be declared in either order, beneath an inner state. -/
theorem Machine.row_order_immaterial_sample :
    let start (rows : List (Row Script.Cast)) :=
      (start .default "R" "Node" (Sample.shift rows) (.initial .empty Sample.clock)).1
    Blueprint.Swaps [Sample.restRow, Sample.partRow] [Sample.partRow, Sample.restRow]
      (Sample.shift [Sample.restRow, Sample.partRow])
      (Sample.shift [Sample.partRow, Sample.restRow]) ∧
    Table.Reorders [Sample.restRow, Sample.partRow] [Sample.partRow, Sample.restRow] ∧
    Table.Exchangeable [Sample.restRow, Sample.partRow] ∧
    ∃ machine machine', start [Sample.restRow, Sample.partRow] = .ok machine ∧
      start [Sample.partRow, Sample.restRow] = .ok machine' ∧
      ∀ moves, (machine'.run moves).1 = (machine.run moves).1 ∧
        (machine'.run moves).2.root.path = (machine.run moves).2.root.path := by
  intro start
  obtain ⟨-, same⟩ := Machine.row_order_immaterial Sample.shift_swaps Sample.shift_reorders
    Sample.shift_exchangeable .default "R" "Node" (.initial .empty Sample.clock)
  refine ⟨Sample.shift_swaps, Sample.shift_reorders, Sample.shift_exchangeable, _, _, rfl, rfl,
    fun moves => ?_⟩
  have run := same _ _ rfl rfl moves
  exact ⟨run.1, run.2.1⟩

/-! ## Programs that do not exchange -/

namespace Sample

open Script Blueprint

/-- A state that asks to be left if it is the first of its kind to be made: they count themselves in
what they share. -/
def rival : Cast :=
  .mk (do
    let common ← desk
    setDesk { common with cells := common.cells ++ [0] }
    pure (.new .node (if common.cells.isEmpty then eager else mute))) []

/-- The row of such a state that is there at first. -/
def upperRow : Row Cast := ⟨first, "Upper", "Node", true, rival⟩

/-- The row of such a state that is not there at first. -/
def lowerRow : Row Cast := ⟨next, "Lower", "Node", false, rival⟩

/-- How a root with these rows is built. -/
def rivals (rows : List (Row Cast)) : Cast := .ofPart .node mute rows

theorem rivals_reorders : Table.Reorders [upperRow, lowerRow] [lowerRow, upperRow] where
  perm := .swap _ _ _
  distinct := .cons (by decide) (.cons (by decide) .nil)
  same := by simp [upperRow, lowerRow]

end Sample

/-- The order of the rows can be told where the programs that make the behaviours have something in
common: the state that is made first asks to be left, so with the one order the first cycle changes the
path and with the other it does not. -/
theorem Machine.row_order_told_by_makers :
    let start (rows : List (Row Script.Cast)) :=
      (start .default "R" "Node" (Sample.rivals rows) (.initial .empty Sample.clock)).1
    Blueprint.Swaps [Sample.upperRow, Sample.lowerRow] [Sample.lowerRow, Sample.upperRow]
      (Sample.rivals [Sample.upperRow, Sample.lowerRow])
      (Sample.rivals [Sample.lowerRow, Sample.upperRow]) ∧
    Table.Reorders [Sample.upperRow, Sample.lowerRow] [Sample.lowerRow, Sample.upperRow] ∧
    ∃ machine machine', start [Sample.upperRow, Sample.lowerRow] = .ok machine ∧
      start [Sample.lowerRow, Sample.upperRow] = .ok machine' ∧
      (machine.run [.operate 0 .cycle]).2.root.path = "R->Lower" ∧
      (machine'.run [.operate 0 .cycle]).2.root.path = "R->Upper" :=
  ⟨.table _, Sample.rivals_reorders, _, _, rfl, rfl, by decide +kernel, by decide +kernel⟩

end Statechart
