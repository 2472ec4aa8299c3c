import Statechart.Proofs.Expansion
import Statechart.Proofs.Numbering
import Statechart.Proofs.Parallel
import Statechart.Proofs.Surveys

/-!
# What is constructed

Building a tree makes the behaviours of its states by programs of the host, and does nothing else to the
store but to give notices.  An item is what one state is built from; the items of a blueprint are listed
in the order of the tree, at each level one for the first row of every name.  Main statement: building
runs the programs of just these items, one after the other, and what they make is what the states get.
The programs of later rows of a name are not run.
-/
namespace Statechart

variable {H : Host} {α : Type}

/-- What a state is built from, and where. -/
structure Item (H : Host) where
  place : Address
  typeName : String
  blueprint : Blueprint H

/-- What a row asks to be built beneath an owner. -/
def Row.item (owner : Address) (row : Row (Blueprint H)) : Item H :=
  ⟨owner.inner row.name, row.typeName, row.target⟩

namespace Item

/-- The table of the state. -/
def rows (item : Item H) : Table (Blueprint H) := item.blueprint.rows

/-- Where the requests of inner states lead, if there are any. -/
def routes? (item : Item H) : Option Routes :=
  item.rows.initial?.map fun row => ⟨item.rows.map fun row => (row.tag, row.name), row.name⟩

/-- What stays the same about the state that is built. -/
def site (item : Item H) : Site :=
  ⟨item.place, item.typeName, item.routes?,
    (Table.builders [] item.rows).map fun row => item.place.inner row.name⟩

end Item

/-! ## Stores but for notices -/

/-- The event is a notice. -/
def Event.isNotice : Event H → Bool
  | .notice _ => true
  | _ => false

/-- But for notices the journals are the same. -/
def Noteless (xs ys : List (Event H)) : Prop :=
  xs.filter (fun event => !event.isNotice) = ys.filter fun event => !event.isNotice

theorem tolerant_noteless : Tolerant (Noteless (H := H)) where
  both event same := by
    rw [Noteless, List.filter_cons, List.filter_cons]
    split
    · exact congrArg _ same
    · exact same
  left _ same := same
  right _ same := same

namespace Store.Twins

variable {σ τ : Store H}

/-- A notice in the one store does not show. -/
theorem noted (h : Twins Noteless σ τ) (notice : Notice) :
    Twins Noteless (σ.after (Store.note notice)) τ :=
  { h with journal := h.journal }

/-- Nor do some of them. -/
theorem warned (h : Twins Noteless σ τ) (notice : String → Notice) (labels : List String) :
    Twins Noteless (σ.after (labels.forM fun label => Store.note (notice label))) τ := by
  induction labels generalizing σ with
  | nil => exact h
  | cons label rest ih => exact ih (h.noted _)

end Store.Twins

namespace Blueprint

open State

variable {config : Config} {place owner : Address} {typeName : String} {blueprint : Blueprint H}
  {s : State H} {σ σ' τ : Store H}

/-! ## The items of a blueprint -/

mutual

/-- The items of a blueprint at a place, that of a state before those beneath it. -/
def items (place : Address) (typeName : String) : Blueprint H → List (Item H)
  | .mk make rows => ⟨place, typeName, .mk make rows⟩ :: itemsRows place [] rows

/-- The items beneath a state, some of whose inner states are known already. -/
def itemsRows (owner : Address) (known : List String) : List (Row (Blueprint H)) → List (Item H)
  | [] => []
  | row :: rest =>
    if row.name ∈ known then itemsRows owner known rest
    else itemsRow owner row ++ itemsRows owner (known ++ [row.name]) rest

/-- The items of a row. -/
def itemsRow (owner : Address) : Row (Blueprint H) → List (Item H)
  | ⟨_, name, typeName, _, target⟩ => items (owner.inner name) typeName target

end

theorem itemsRow_eq (owner : Address) (row : Row (Blueprint H)) :
    itemsRow owner row = row.target.items (owner.inner row.name) row.typeName := by
  cases row
  rw [itemsRow]

/-- At each level the first row of every name has items. -/
theorem itemsRows_eq (owner : Address) (known : List String) (rows : Table (Blueprint H)) :
    itemsRows owner known rows = (Table.builders known rows).flatMap (itemsRow owner) := by
  induction rows generalizing known with
  | nil => rw [itemsRows, Table.builders, List.flatMap_nil]
  | cons row rest ih =>
    rw [itemsRows, Table.builders]
    split
    · exact ih known
    · rw [ih, List.flatMap_cons]

/-- A blueprint is an item of itself. -/
theorem mem_items_self (place : Address) (typeName : String) (blueprint : Blueprint H) :
    ⟨place, typeName, blueprint⟩ ∈ blueprint.items place typeName := by
  cases blueprint
  rw [items]
  exact List.mem_cons_self

mutual

/-- The rows that build the inner states of an item's state are items as well. -/
theorem item_mem_items (place : Address) (typeName : String) :
    ∀ (blueprint : Blueprint H), ∀ item ∈ blueprint.items place typeName,
      ∀ row ∈ Table.builders [] item.rows, row.item item.place ∈ blueprint.items place typeName
  | .mk make rows, item, mem, row, builds => by
    rw [items] at mem ⊢
    refine List.mem_cons_of_mem _ ?_
    rcases List.mem_cons.1 mem with rfl | mem
    · rw [itemsRows_eq, List.mem_flatMap]
      refine ⟨row, builds, ?_⟩
      rw [itemsRow_eq]
      exact mem_items_self _ _ _
    · exact item_mem_itemsRows place rows [] item mem row builds

theorem item_mem_itemsRows (owner : Address) :
    ∀ (rows : List (Row (Blueprint H))) (known : List String), ∀ item ∈ itemsRows owner known rows,
      ∀ row ∈ Table.builders [] item.rows, row.item item.place ∈ itemsRows owner known rows
  | [], known, item, mem, row, builds => by
    rw [itemsRows] at mem
    contradiction
  | first :: rest, known, item, mem, row, builds => by
    rw [itemsRows] at mem ⊢
    split at mem
    · next taken =>
      rw [if_pos taken]
      exact item_mem_itemsRows owner rest known item mem row builds
    · next free =>
      rw [if_neg free, List.mem_append]
      rcases List.mem_append.1 mem with mem | mem
      · exact .inl (item_mem_itemsRow owner first item mem row builds)
      · exact .inr (item_mem_itemsRows owner rest (known ++ [first.name]) item mem row builds)

theorem item_mem_itemsRow (owner : Address) :
    ∀ (first : Row (Blueprint H)), ∀ item ∈ itemsRow owner first,
      ∀ row ∈ Table.builders [] item.rows, row.item item.place ∈ itemsRow owner first
  | ⟨_, name, typeName, _, target⟩, item, mem, row, builds => by
    rw [itemsRow] at mem ⊢
    exact item_mem_items (owner.inner name) typeName target item mem row builds

end

/-- What is built has a state for each item, in the order of the tree. -/
theorem Builds.sites (h : Builds config place typeName blueprint s) :
    List.Forall₂ (fun item t => t.site = item.site) (blueprint.items place typeName) s.subtree := by
  induction h with
  | leaf place typeName make behavior =>
    rw [items, itemsRows, subtree]
    exact .cons rfl .nil
  | @composite place typeName make behavior rows before after active valid names_eq initial_eq inner
      ih =>
    rw [items, itemsRows_eq, subtree_eq]
    refine .cons ?_ (forall₂_forest names_eq fun row mem child inside same => ?_)
    · obtain ⟨row, found, named⟩ := Option.map_eq_some_iff.1 initial_eq
      have owned : (before ++ active :: after).map address =
          (Table.builders [] rows).map fun row => place.inner row.name := by
        have beneath : ∀ child ∈ before ++ active :: after,
            child.address = place.inner child.name := by
          intro child inside
          obtain ⟨row, here, same⟩ := exists_builder names_eq inside
          rw [(inner row here child inside same.symm).address_eq, same]
        calc (before ++ active :: after).map address
          _ = ((before ++ active :: after).map State.name).map place.inner := by
              rw [List.map_map]
              exact List.map_congr_left beneath
          _ = (Table.builders [] rows).map fun row => place.inner row.name := by
              rw [names_eq, List.map_map]
              rfl
      simp only [State.site, Item.site, Item.routes?, Item.rows, Blueprint.rows, State.routes?, children,
        found, Option.map_some, named, owned]
      rfl
    · rw [itemsRow_eq]
      exact ih row mem child inside same

/-! ## Running the programs of items -/

/-- Make the behaviours of some items, one after the other. -/
def construct (items : List (Item H)) : StoreM H (List H.Behavior) :=
  items.mapM fun item => item.blueprint.make.run

theorem run_construct_cons (item : Item H) (items : List (Item H)) (σ : Store H) :
    (construct (item :: items)).run σ =
      let made := (construct items).run (σ.after item.blueprint.make.run)
      ((item.blueprint.make.run.run σ).1 :: made.1, made.2) := by
  rw [construct, List.mapM_cons]
  rfl

theorem run_construct_append (xs ys : List (Item H)) (σ : Store H) :
    (construct (xs ++ ys)).run σ =
      let made := (construct ys).run (σ.after (construct xs))
      (((construct xs).run σ).1 ++ made.1, made.2) := by
  rw [construct, List.mapM_append]
  rfl

mutual

/-- Building runs the programs of the items, and but for its notices nothing else. -/
theorem build_constructs (config : Config) (place : Address) (typeName : String) :
    ∀ (blueprint : Blueprint H) (s : State H) (σ σ' τ : Store H),
      (blueprint.build config place typeName).run σ = (.ok s, σ') → Store.Twins Noteless σ τ →
      ∃ τ', (construct (blueprint.items place typeName)).run τ = (s.survey Core.behavior, τ') ∧
        Store.Twins Noteless σ' τ'
  | .mk make rows, s, σ, σ', τ, run, twins => by
    obtain ⟨same, made⟩ := tolerant_noteless.program make σ τ twins
    rw [items, run_construct_cons]
    by_cases filled : rows = []
    · subst filled
      simp only [build, StoreM.run_bind, List.isEmpty_nil, if_true, StoreM.run_pure] at run
      obtain ⟨⟨⟩, rfl⟩ := run
      refine ⟨_, ?_, made⟩
      rw [itemsRows, survey_eq]
      exact Prod.ext (congrArg (· :: []) same.symm) rfl
    · obtain ⟨-, row, states, found, built, rfl⟩ := exists_of_build filled run
      obtain ⟨again, rfl, names_eq, -⟩ := buildRows_builds config place rows [] _ _ _ built
      obtain ⟨states, τ', rfl, constructed, left⟩ := buildRows_constructs config place rows [] _ _ _ _
        built (made.warned (.tagShared place.name) (Table.duplicates rows))
      have there : row.name ∈ states.map State.name := by
        rw [names_eq]
        exact Table.name_mem_builders (List.mem_of_find?_eq_some found)
      obtain ⟨before, active, after, inner, -, assembled⟩ := exists_assemble _ _ there
      refine ⟨τ', ?_, left⟩
      rw [assembled, survey_eq, children, inner]
      simp only [List.map_nil] at constructed
      simp only [Blueprint.make, constructed, ← same]
      rfl

theorem buildRows_constructs (config : Config) (owner : Address) :
    ∀ (rows : List (Row (Blueprint H))) (states built : List (State H)) (σ σ' τ : Store H),
      (buildRows config owner states rows).run σ = (.ok built, σ') → Store.Twins Noteless σ τ →
      ∃ made τ', built = states ++ made ∧
        (construct (itemsRows owner (states.map State.name) rows)).run τ =
          (made.flatMap (survey Core.behavior), τ') ∧
        Store.Twins Noteless σ' τ'
  | [], states, built, σ, σ', τ, run, twins => by
    simp only [buildRows, StoreM.run_pure] at run
    obtain ⟨⟨⟩, rfl⟩ := run
    exact ⟨[], τ, by simp, by rw [itemsRows]; rfl, twins⟩
  | row :: rest, states, built, σ, σ', τ, run, twins => by
    rcases found : built? states row.name with _ | state
    · simp only [buildRows, found, StoreM.run_bind] at run
      rcases rowRun : (buildRow config owner row).run σ with ⟨fault | s, σ₁⟩
      · rw [rowRun] at run
        cases run
      · rw [rowRun] at run
        have named : s.name = row.name := name_of_buildRow rowRun
        obtain ⟨τ₁, first, twins₁⟩ := buildRow_constructs config owner row s σ σ₁ τ rowRun twins
        obtain ⟨made, τ', rfl, later, left⟩ :=
          buildRows_constructs config owner rest (states ++ [s]) built σ₁ σ' τ₁ run twins₁
        rw [List.map_append, List.map_singleton, named] at later
        refine ⟨s :: made, τ', by simp, ?_, left⟩
        rw [itemsRows, if_neg (not_mem_of_built? found), run_construct_append, Store.after, first]
        simp only [later, List.flatMap_cons]
    · rw [itemsRows, if_pos (mem_of_built? found)]
      simp only [buildRows, found] at run
      split at run
      · exact buildRows_constructs config owner rest states built _ σ' τ run (twins.noted _)
      · exact buildRows_constructs config owner rest states built σ σ' τ run twins

theorem buildRow_constructs (config : Config) (owner : Address) :
    ∀ (row : Row (Blueprint H)) (s : State H) (σ σ' τ : Store H),
      (buildRow config owner row).run σ = (.ok s, σ') → Store.Twins Noteless σ τ →
      ∃ τ', (construct (itemsRow owner row)).run τ = (s.survey Core.behavior, τ') ∧
        Store.Twins Noteless σ' τ'
  | ⟨_, name, typeName, _, target⟩, s, σ, σ', τ, run, twins => by
    rw [buildRow] at run
    rw [itemsRow]
    exact build_constructs config (owner.inner name) typeName target s σ σ' τ run twins

end

end Blueprint

end Statechart
