import Statechart.Proofs.Tree

/-!
# Layouts

What no operation changes about a tree: the layout lists its places in the order of the tables, so
it does not show what is selected.  A tree is well built when its layout is: inner states stand
directly beneath their parent under names of their own, and every route leads to one of them.  In a
well-built tree the place of a state covers the places of all beneath it, and places of different
inner states cover nothing in common.
-/
namespace Statechart

namespace Address

/-- The other place is this one, or lies beneath it. -/
def Covers (place other : Address) : Prop :=
  place.machine = other.machine ∧ place.names <+: other.names

instance decidableCovers (place other : Address) : Decidable (place.Covers other) :=
  inferInstanceAs (Decidable (place.machine = other.machine ∧ place.names <+: other.names))

@[simp] theorem covers_refl (place : Address) : place.Covers place := ⟨rfl, List.prefix_rfl⟩

theorem Covers.trans {x y z : Address} (h : x.Covers y) (k : y.Covers z) : x.Covers z :=
  ⟨h.1.trans k.1, h.2.trans k.2⟩

theorem covers_inner (place : Address) (name : String) : place.Covers (place.inner name) :=
  ⟨rfl, by simp⟩

/-- A place that another does not cover is not that one. -/
theorem ne_of_not_covers {place other : Address} (apart : ¬ other.Covers place) :
    place ≠ other := by
  rintro rfl
  exact apart (covers_refl _)

/-- No place lies beneath one of its own inner places. -/
theorem not_inner_covers (place : Address) (name : String) :
    ¬ (place.inner name).Covers place := by
  intro h
  have lengths := h.2.length_le
  rw [names_inner, List.length_append, List.length_singleton] at lengths
  omega

/-- What lies beneath two inner places of one place tells their names equal. -/
theorem eq_of_inner_covers {place other : Address} {x y : String}
    (hx : (place.inner x).Covers other) (hy : (place.inner y).Covers other) : x = y := by
  have same : (place.inner x).names = (place.inner y).names :=
    List.prefix_of_prefix_length_le hx.2 hy.2 (by simp) |>.eq_of_length (by simp)
  simpa using same

end Address

/-- What stays the same about a state. -/
structure Site where
  address : Address
  typeName : String
  /-- Where the requests of its inner states lead, if it has any. -/
  routes : Option Routes
  /-- The places of its inner states, in the order of its table. -/
  inner : List Address

namespace Site

/-- Names of the inner states. -/
def innerNames (site : Site) : List String := site.inner.map Address.name

/-- Inner states stand beneath the state under different names, and every route leads to one. -/
structure Sound (site : Site) : Prop where
  beneath : ∀ place ∈ site.inner, place = site.address.inner place.name
  distinct : site.innerNames.Nodup
  initial_mem : ∀ routes, site.routes = some routes → routes.initial ∈ site.innerNames
  target_mem : ∀ routes, site.routes = some routes → ∀ row ∈ routes.rows, row.2 ∈ site.innerNames

end Site

namespace State

variable {H : Host} {core core' : Core H} {routes : Routes} {before after : List (State H)}
  {active active' s t u : State H}

/-- Where the requests of the inner states lead. -/
def routes? : State H → Option Routes
  | .leaf _ => none
  | .composite _ routes _ _ _ => some routes

/-- What stays the same about the state. -/
def site (s : State H) : Site :=
  ⟨s.address, s.core.typeName, s.routes?, s.children.map address⟩

/-- What stays the same about the state and all beneath it. -/
def layout (s : State H) : List Site := s.subtree.map site

/-- Every place in the tree is sound. -/
def WellBuilt (s : State H) : Prop := ∀ site ∈ s.layout, site.Sound

@[simp] theorem innerNames_site (s : State H) : s.site.innerNames = s.children.map name := by
  simp only [site, Site.innerNames, List.map_map]
  rfl

/-- The active inner state is one of the inner states. -/
theorem active_mem_children : active ∈ (composite core routes before active after).children := by
  simp [children]

theorem mem_children_of_activeChild? (selects : s.activeChild? = some t) : t ∈ s.children := by
  cases s with
  | leaf core => simp [activeChild?] at selects
  | composite core routes before active after =>
    obtain rfl : active = t := by simpa [activeChild?] using selects
    exact active_mem_children

theorem layout_eq (s : State H) : s.layout = s.site :: s.children.flatMap layout := by
  have flat (states : List (State H)) : (forest states).map site = states.flatMap layout := by
    induction states with
    | nil => simp
    | cons state rest ih => simp [ih, layout]
  simp [layout, subtree_eq, flat]

theorem address_eq_of_layout_eq (h : s.layout = t.layout) : s.address = t.address := by
  rw [layout_eq, layout_eq] at h
  exact congrArg Site.address (List.cons.inj h).1

/-- Trees of one layout have states at the same places. -/
theorem exists_of_layout_eq (h : s.layout = t.layout) (mem : u ∈ s.subtree) :
    ∃ v ∈ t.subtree, v.address = u.address := by
  have inside : u.site ∈ t.layout := h ▸ List.mem_map_of_mem mem
  obtain ⟨v, there, same⟩ := List.mem_map.1 inside
  exact ⟨v, there, congrArg Site.address same⟩

@[simp] theorem routes?_select (name : String) (s : State H) :
    (s.select name).routes? = s.routes? := by
  cases s with
  | leaf core => rfl
  | composite core routes before active after =>
    obtain ⟨_, _, _, eq, _⟩ := exists_select name core routes before active after
    rw [eq]; rfl

/-- Selecting does not change the layout. -/
@[simp] theorem layout_select (name : String) (s : State H) :
    (s.select name).layout = s.layout := by
  rw [layout_eq, layout_eq]
  simp [site]

/-- The layout depends on the core only by its place and its type. -/
theorem layout_withCore {s : State H} (place : core.address = s.core.address)
    (type : core.typeName = s.core.typeName) : (s.withCore core).layout = s.layout := by
  have children_eq : (s.withCore core).children = s.children := by cases s <;> rfl
  have routes_eq : (s.withCore core).routes? = s.routes? := by cases s <;> rfl
  rw [layout_eq, layout_eq]
  simp [site, children_eq, routes_eq, address, place, type]

/-- The layout depends on the active inner state only by that state's layout. -/
theorem layout_active (h : active'.layout = active.layout) :
    (composite core routes before active' after).layout =
      (composite core routes before active after).layout := by
  have here : active'.address = active.address := address_eq_of_layout_eq h
  rw [layout_eq, layout_eq]
  simp only [site, address, core_composite, routes?, children, List.map_append, List.map_cons,
    List.flatMap_append, List.flatMap_cons, h]
  rw [← address, ← address, here]

namespace WellBuilt

theorem sound (h : s.WellBuilt) : s.site.Sound := h s.site (by rw [layout_eq]; exact List.mem_cons_self)

theorem child (h : s.WellBuilt) (mem : t ∈ s.children) : t.WellBuilt := by
  intro site inside
  apply h
  rw [layout_eq]
  exact List.mem_cons_of_mem _ (List.mem_flatMap.2 ⟨t, mem, inside⟩)

theorem inner (h : (composite core routes before active after).WellBuilt) : active.WellBuilt :=
  h.child active_mem_children

theorem of_layout (h : s.WellBuilt) (eq : t.layout = s.layout) : t.WellBuilt := by
  rwa [WellBuilt, eq]

theorem address_child (h : s.WellBuilt) (mem : t ∈ s.children) :
    t.address = s.address.inner t.name :=
  h.sound.beneath t.address (List.mem_map_of_mem mem)

/-- The active inner state stands right beneath the state. -/
theorem address_active (h : (composite core routes before active after).WellBuilt) :
    active.address = core.address.inner active.name :=
  h.address_child active_mem_children

/-- A state's place covers the places of all beneath it. -/
theorem covers (h : s.WellBuilt) (mem : t ∈ s.subtree) : s.address.Covers t.address := by
  induction s using treeInduction with
  | leaf core =>
    rw [subtree, List.mem_singleton] at mem
    subst mem
    exact Address.covers_refl _
  | composite core routes before active after ih =>
    rcases mem_subtree.1 mem with rfl | ⟨child, inside, mem⟩
    · exact Address.covers_refl _
    · have beneath : child.address.Covers t.address := ih child inside (h.child inside) mem
      rw [h.address_child inside] at beneath
      exact (Address.covers_inner _ _).trans beneath

/-- Inner states of one name are one state. -/
theorem eq_of_name_eq (h : s.WellBuilt) (mem : t ∈ s.children) (mem' : u ∈ s.children)
    (same : t.name = u.name) : t = u := by
  have distinct := h.sound.distinct
  rw [innerNames_site] at distinct
  exact List.inj_on_of_nodup_map distinct mem mem' same

/-- An inner state is found by its name. -/
theorem child?_eq (h : s.WellBuilt) (mem : t ∈ s.children) : s.child? t.name = some t := by
  rcases found : s.child? t.name with _ | u
  · have differs := List.find?_eq_none.1 found t mem
    simp at differs
  · have inside : u ∈ s.children := List.mem_of_find?_eq_some found
    have named : u.name = t.name := by simpa using List.find?_some found
    rw [h.eq_of_name_eq inside mem named]

/-- The initial inner state exists. -/
theorem initial_mem (h : (composite core routes before active after).WellBuilt) :
    routes.initial ∈ (before ++ active :: after).map name := by
  simpa [children] using h.sound.initial_mem routes rfl

/-- The inner state that a request leads to exists. -/
theorem target_mem (h : (composite core routes before active after).WellBuilt)
    {request : Tag} {target : String} (found : routes.target? request = some target) :
    target ∈ (before ++ active :: after).map name := by
  obtain ⟨row, here, rfl⟩ := Option.map_eq_some_iff.1 found
  have mem := h.sound.target_mem routes rfl row
    (List.mem_reverse.1 (List.mem_of_find?_eq_some here))
  simpa [children] using mem

end WellBuilt

end State

end Statechart
