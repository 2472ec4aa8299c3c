import Statechart.Proofs.Layout
import Mathlib.Logic.Function.Basic

/-!
# Tables of places

A table gives a value for every place.  It shows a feature of a tree when it gives for the place of
every state the value of the feature there.  What happens to an inner state changes a table only
beneath that inner state's place, so what the table shows of the other inner states stays good.
-/
namespace Statechart

variable {H : Host} {α β : Type}

/-- Two tables agree on all places that do not lie beneath this one. -/
def AgreeOff (place : Address) (table table' : Address → α) : Prop :=
  ∀ other, ¬ place.Covers other → table' other = table other

theorem AgreeOff.refl (place : Address) (table : Address → α) : AgreeOff place table table :=
  fun _ _ => rfl

theorem AgreeOff.trans {place : Address} {t₁ t₂ t₃ : Address → α} (h : AgreeOff place t₁ t₂)
    (k : AgreeOff place t₂ t₃) : AgreeOff place t₁ t₃ :=
  fun other apart => (k other apart).trans (h other apart)

theorem AgreeOff.mono {place inner : Address} {t₁ t₂ : Address → α} (covers : place.Covers inner)
    (h : AgreeOff inner t₁ t₂) : AgreeOff place t₁ t₂ :=
  fun other apart => h other fun within => apart (covers.trans within)

theorem agreeOff_update (place : Address) (table : Address → α) (value : α) :
    AgreeOff place table (Function.update table place value) := by
  intro other apart
  exact Function.update_of_ne (Address.ne_of_not_covers apart) _ _

namespace State

variable {core : Core H} {routes : Routes} {before after : List (State H)}
  {active active' s t u child : State H} {feature : State H → α} {table table' : Address → α}

/-- The table gives the feature of every state in the tree for its place. -/
def Shows (feature : State H → α) (table : Address → α) (s : State H) : Prop :=
  ∀ t ∈ s.subtree, table t.address = feature t

theorem shows_leaf : Shows feature table (.leaf core) ↔
    table core.address = feature (.leaf core) := by
  simp [Shows, subtree, address]

theorem shows_composite : Shows feature table (composite core routes before active after) ↔
    table core.address = feature (composite core routes before active after) ∧
      ∀ child ∈ before ++ active :: after, Shows feature table child := by
  rw [Shows, subtree_eq, List.forall_mem_cons, forall_mem_forest]
  rfl

namespace WellBuilt

/-- An inner state's place does not cover the state's own. -/
theorem not_covers_owner (built : s.WellBuilt) (mem : child ∈ s.children) :
    ¬ child.address.Covers s.address := by
  rw [built.address_child mem]
  exact Address.not_inner_covers _ _

/-- The state's own place is not that of a state beneath it. -/
theorem ne_of_mem (built : s.WellBuilt) (mem : child ∈ s.children) (inside : t ∈ child.subtree) :
    t.address ≠ s.address := by
  intro eq
  have covers := (built.child mem).covers inside
  rw [eq] at covers
  exact built.not_covers_owner mem covers

/-- A state of the chain below a state stands elsewhere. -/
theorem ne_of_mem_chain (built : (composite core routes before active after).WellBuilt)
    (mem : s ∈ active.chain) : s.address ≠ core.address :=
  built.ne_of_mem active_mem_children (mem_subtree_iff.2 (.inl mem))

/-- The states of a chain stand at different places. -/
theorem nodup_chain (built : s.WellBuilt) : (s.chain.map address).Nodup := by
  induction s using chainInduction with
  | leaf core => simp [chain]
  | composite core routes before active after ih =>
    rw [chain, List.map_cons, List.nodup_cons]
    refine ⟨fun mem => ?_, ih built.inner⟩
    obtain ⟨t, inside, same⟩ := List.mem_map.1 mem
    exact built.ne_of_mem_chain inside same

/-- A place beneath two inner states tells them equal. -/
theorem eq_of_covers (built : s.WellBuilt) {place : Address} (mem : child ∈ s.children)
    (mem' : t ∈ s.children) (covers : child.address.Covers place) (covers' : t.address.Covers place) :
    child = t := by
  rw [built.address_child mem] at covers
  rw [built.address_child mem'] at covers'
  exact built.eq_of_name_eq mem mem' (Address.eq_of_inner_covers covers covers')

/-- States of one place are one state. -/
theorem eq_of_address_eq (built : s.WellBuilt) (mem : t ∈ s.subtree) (mem' : u ∈ s.subtree)
    (same : t.address = u.address) : t = u := by
  induction s using treeInduction with
  | leaf core =>
    rw [subtree, List.mem_singleton] at mem mem'
    rw [mem, mem']
  | composite core routes before active after ih =>
    rcases mem_subtree.1 mem with rfl | ⟨child, inside, below⟩ <;>
      rcases mem_subtree.1 mem' with rfl | ⟨other, inside', below'⟩
    · rfl
    · exact absurd same.symm (built.ne_of_mem inside' below')
    · exact absurd same (built.ne_of_mem inside below)
    · have covers' := (built.child inside').covers below'
      rw [← same] at covers'
      obtain rfl := built.eq_of_covers inside inside' ((built.child inside).covers below) covers'
      exact ih child inside (built.child inside) below below'

/-- The place of the active inner state covers none beneath the others. -/
theorem apart (built : (composite core routes before active after).WellBuilt)
    (mem : child ∈ before ++ after) (inside : t ∈ child.subtree) :
    ¬ active.address.Covers t.address := by
  have here : child ∈ (composite core routes before active after).children := by
    rw [children]
    rcases List.mem_append.1 mem with mem | mem
    · exact List.mem_append_left _ mem
    · exact List.mem_append_right _ (List.mem_cons_of_mem _ mem)
  have distinct : (composite core routes before active after).site.innerNames.Nodup :=
    built.sound.distinct
  rw [innerNames_site, children, List.map_append, List.map_cons, List.nodup_middle,
    List.nodup_cons, ← List.map_append] at distinct
  have covers := (built.child here).covers inside
  rw [built.address_child here] at covers
  rw [built.address_active]
  intro within
  apply distinct.1
  rw [Address.eq_of_inner_covers within covers]
  exact List.mem_map_of_mem mem

end WellBuilt

/-- The table of a feature of a tree, from the tree itself. -/
def lookup (feature : State H → Option β) (s : State H) (place : Address) : Option β :=
  (s.subtree.find? fun t => t.address = place).bind feature

/-- The table of a feature shows the feature. -/
theorem WellBuilt.shows_lookup (built : s.WellBuilt) (feature : State H → Option β) :
    Shows feature (s.lookup feature) s := by
  intro t mem
  rcases found : s.subtree.find? (fun u => u.address = t.address) with _ | u
  · have differs := List.find?_eq_none.1 found t mem
    simp at differs
  · have inside := List.mem_of_find?_eq_some found
    have same : u.address = t.address := by simpa using List.find?_some found
    obtain rfl := built.eq_of_address_eq inside mem same
    rw [lookup, found]
    rfl

/-- What the table shows of a tree stays good where it changes beneath another place only. -/
theorem Shows.frame {place : Address} (h : Shows feature table s) (agree : AgreeOff place table table')
    (apart : ∀ t ∈ s.subtree, ¬ place.Covers t.address) : Shows feature table' s :=
  fun t mem => (agree t.address (apart t mem)).trans (h t mem)

/-- The state's own entry has nothing to do with its inner states. -/
theorem Shows.update_owner (h : Shows feature table child) (built : s.WellBuilt)
    (mem : child ∈ s.children) (value : α) :
    Shows feature (Function.update table s.address value) child := by
  intro t inside
  rw [Function.update_of_ne (built.ne_of_mem mem inside)]
  exact h t inside

/-- What the table shows of the inner states stays good where the state's own entry changes. -/
theorem shows_inner (built : (composite core routes before active after).WellBuilt)
    (h : Shows feature table (composite core routes before active after)) (value : α) :
    ∀ child ∈ before ++ active :: after,
      Shows feature (Function.update table core.address value) child :=
  fun child mem => ((shows_composite.1 h).2 child mem).update_owner built mem value

/-- Where the table changes beneath the active inner state, and shows what becomes of that one, it
shows all inner states. -/
theorem shows_replace (built : (composite core routes before active after).WellBuilt)
    (others : ∀ child ∈ before ++ active :: after, Shows feature table child)
    (agree : AgreeOff active.address table table') (here : Shows feature table' active') :
    ∀ child ∈ before ++ active' :: after, Shows feature table' child := by
  intro child mem
  have other (mem : child ∈ before ++ after) (known : child ∈ before ++ active :: after) :
      Shows feature table' child :=
    (others child known).frame agree fun t inside => built.apart mem inside
  rcases List.mem_append.1 mem with mem | mem
  · exact other (List.mem_append_left _ mem) (List.mem_append_left _ mem)
  · rcases List.mem_cons.1 mem with rfl | mem
    · exact here
    · exact other (List.mem_append_right _ mem)
        (List.mem_append_right _ (List.mem_cons_of_mem _ mem))

/-- A change beneath the active inner state does not change the state's own entry. -/
theorem AgreeOff.owner (agree : AgreeOff active.address table table')
    (built : (composite core routes before active after).WellBuilt) :
    table' core.address = table core.address :=
  agree _ (WellBuilt.not_covers_owner built active_mem_children)

/-- A change beneath the active inner state is one beneath the state. -/
theorem AgreeOff.outer (agree : AgreeOff active.address table table')
    (built : (composite core routes before active after).WellBuilt) :
    AgreeOff core.address table table' :=
  agree.mono (WellBuilt.covers built (by simp [subtree_eq, children]))

end State

end Statechart
