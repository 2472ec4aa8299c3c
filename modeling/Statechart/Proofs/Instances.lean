import Statechart.Proofs.Constructing
import Statechart.Proofs.Growing
import Statechart.Proofs.Remarks
import Statechart.Proofs.Scopes

/-!
# One state for every name

What is built for a table has one inner state for every name in it, made by the first row of that name.
A request leads by the last row whose tag agrees to the state of that row's name, whichever row has made
that state.  Main statement: so it is after building, and so it stays whatever is done to the machine;
and after building no behaviour is made any more.
-/
namespace Statechart

variable {H : Host} {α β : Type}

/-- Looking for related elements in two lists finds related ones. -/
theorem rel_find? {R : α → β → Prop} {p : α → Bool} {q : β → Bool} {xs : List α} {ys : List β}
    (h : List.Forall₂ R xs ys) (same : ∀ x y, R x y → p x = q y) :
    Option.Rel R (xs.find? p) (ys.find? q) := by
  induction h with
  | nil => exact .none
  | @cons x y xs ys here rest ih =>
    rcases passes : q y
    · rw [List.find?_cons_of_neg (by simp [same x y here, passes]),
        List.find?_cons_of_neg (by simp [passes])]
      exact ih
    · rw [List.find?_cons_of_pos (by rw [same x y here, passes]), List.find?_cons_of_pos passes]
      exact .some here

namespace Table

variable {rows : Table α} {request : Tag}

/-- The last row whose tag agrees. -/
def lastRow? (rows : Table α) (request : Tag) : Option (Row α) :=
  rows.reverse.find? (·.tag.agrees request)

/-- The last row whose tag agrees leads to its own name. -/
theorem target?_eq (rows : Table α) (initial : String) (request : Tag) :
    (⟨rows.map fun row => (row.tag, row.name), initial⟩ : Routes).target? request =
      (rows.lastRow? request).map Row.name := by
  rw [Routes.target?, ← List.map_reverse, List.find?_map, Option.map_map, lastRow?]
  rfl

/-- In the index it leads to the number of its name. -/
theorem target?_index (rows : Table α) (request : Tag) :
    rows.index.target? request =
      (rows.lastRow? request).bind fun row => rows.index.numbers.get? row.name := by
  have found := rel_find? (List.rel_reverse rows.routes_index)
    (p := fun row => row.tag.agrees request) (q := fun route => route.1.agrees request)
    fun row route related => by rw [related.1]
  rw [Index.target?, lastRow?]
  generalize rows.reverse.find? _ = row at found
  generalize rows.index.routes.reverse.find? _ = route at found
  cases found with
  | none => rfl
  | some related => exact (rows.counts_index.number.2 related.2).symm

theorem mem_names {row : Row α} (mem : row ∈ rows) : row.name ∈ rows.names := by
  rw [← names_eq]
  exact name_mem_builders mem

/-- What a route leads to is the number of a name. -/
theorem exists_of_mem_routes (rows : Table α) {route : Tag × Nat} (mem : route ∈ rows.index.routes) :
    ∃ name, rows.names[route.2]? = some name := by
  have each : List.Forall₂ (fun route row => (∃ name, rows.names[route.2]? = some name) ∧ True)
      rows.index.routes rows :=
    rows.routes_index.flip.imp fun route row related => ⟨⟨row.name, related.2⟩, trivial⟩
  exact ((List.forall₂_and_left _ _).1 each).1 route mem

/-- A table with rows has names. -/
theorem names_eq_nil : rows.names = [] ↔ rows = [] := by
  rw [← names_eq, List.map_eq_nil_iff]
  cases rows with
  | nil => exact iff_of_true rfl rfl
  | cons row rest => simp [builders]

end Table

namespace State

variable {s : State H} {request : Tag} {target : String}

/-- Number of the active inner state, in the order of the table. -/
def activeNumber? : State H → Option Nat
  | .leaf _ => none
  | .composite _ _ before _ _ => some before.length

/-- The number leads to the active inner state. -/
theorem getElem?_activeNumber? (s : State H) :
    s.activeNumber?.bind (s.children[·]?) = s.activeChild? := by
  cases s with
  | leaf core => rfl
  | composite core routes before active after => simp [activeNumber?, children, activeChild?]

/-- Following the request fails just as leaving the active inner state does; if it does not fail, the
inner state of the number is active afterwards. -/
def LeadsTo [Conduct H] (s : State H) (request : Tag) (number : Nat) : Prop :=
  ∃ active child, s.activeChild? = some active ∧ s.children[number]? = some child ∧ ∀ σ,
    let followed := (s.follow request).run σ
    followed.1.1 = (active.reset.run σ).1.1 ∧ (followed.1.1 = .ok () →
      followed.1.2.activeNumber? = some number ∧
        followed.1.2.activeChild?.map address = some child.address)

/-- A request that leads somewhere is followed unless leaving the active inner state fails, and has then
selected the state that it leads to. -/
theorem exists_of_follow [Conduct H] (built : s.WellBuilt)
    (leads : s.routes?.bind (·.target? request) = some target) :
    ∃ active, s.activeChild? = some active ∧ ∀ σ,
      let followed := (s.follow request).run σ
      followed.1.1 = (active.reset.run σ).1.1 ∧ followed.1.2.layout = s.layout ∧
        (followed.1.1 = .ok () →
          followed.1.2.activeChild?.map address = some (s.address.inner target)) := by
  cases s with
  | leaf core => contradiction
  | composite core routes before active after =>
    replace leads : routes.target? request = some target := leads
    refine ⟨active, rfl, fun σ => ?_⟩
    obtain ⟨marks, settles, -⟩ := settles_run core routes before active after (.ok (some request)) σ
    rw [settle] at settles
    refine ⟨?_, settles.layout_eq, fun done => ?_⟩
    · simp only [follow, leads, StoreM.run_bind]
      rcases active.reset.run σ with ⟨⟨fault | ⟨⟩, active'⟩, σ'⟩ <;> rfl
    · rw [done] at settles
      generalize (((composite core routes before active after).follow request).run σ).1.2 = s'
        at settles ⊢
      cases settles with
      | follows leads' inner chosen_eq =>
        obtain rfl := Option.some.inj (leads'.symm.trans leads)
        have placed := built.of_layout (layout_active inner.layout_eq)
        rw [activeChild?, Option.map_some, address_chosen chosen_eq placed (placed.target_mem leads')]
        rfl

end State

open State

/-- A state is as its item wants it, with one inner state for every name of the table. -/
structure Furnished [Conduct H] (items : List (Item H)) (item : Item H) (s : State H) : Prop where
  address_eq : s.address = item.place
  typeName_eq : s.core.typeName = item.typeName
  /-- It has an inner state for every name, in the order in which these first occur. -/
  names_eq : s.children.map State.name = item.rows.names
  /-- Each of them is there for the first row of its name. -/
  first_row : ∀ child ∈ s.children, ∃ row, item.rows.find? (·.name = child.name) = some row ∧
    row.item item.place ∈ items ∧ child.address = item.place.inner row.name ∧
    child.core.typeName = row.typeName
  /-- Names and numbers correspond. -/
  numbered : ∀ name number, item.rows.index.numbers.get? name = some number ↔
    s.children[number]?.map State.name = some name
  /-- Every row has a route, to the inner state of its name. -/
  routed : List.Forall₂ (fun row route => route.1 = row.tag ∧
    s.children[route.2]?.map State.name = some row.name) item.rows item.rows.index.routes
  /-- The initial number is that of the state which is selected by a reset. -/
  initial_eq : (item.rows.index.initial.bind (s.children[·]?)).map State.name =
    s.routes?.map Routes.initial
  /-- Unless the table is empty, there are an initial and an active inner state. -/
  selects : item.rows ≠ [] → ∃ initial current, item.rows.index.initial = some initial ∧
    s.activeNumber? = some current
  /-- Every number belongs to an inner state. -/
  within : ∀ number, item.rows.index.initial = some number ∨ s.activeNumber? = some number ∨
    number ∈ item.rows.index.routes.map Prod.snd → number < s.children.length
  /-- A request leads, by the last row that answers for it, to the inner state of that row's name. -/
  lands : ∀ request row, item.rows.lastRow? request = some row → ∃ number,
    item.rows.index.target? request = some number ∧
      s.children[number]?.map State.name = some row.name ∧ s.LeadsTo request number

namespace Item

variable {items : List (Item H)} {item : Item H} {r s t child : State H} {number : Nat}
  {request : Tag} {row : Row (Blueprint H)}

/-- A state at the site of an item has inner states of the names of its table. -/
theorem names_of_site (same : t.site = item.site) : t.children.map State.name = item.rows.names := by
  rw [← innerNames_site, same, Site.innerNames, Item.site, List.map_map, ← Table.names_eq]
  exact List.map_congr_left fun row _ => Address.name_inner _ _

/-- Unless the table is empty there is an active inner state, and the rows say where requests lead. -/
theorem exists_initial (same : t.site = item.site) (filled : item.rows ≠ []) :
    ∃ first child, item.rows.initial? = some first ∧ t.activeChild? = some child ∧
      t.routes? = some ⟨item.rows.map fun row => (row.tag, row.name), first.name⟩ := by
  have routes_eq : t.routes? = item.routes? := congrArg Site.routes same
  cases t with
  | leaf core =>
    rw [ne_eq, ← Table.names_eq_nil, ← names_of_site same] at filled
    exact absurd rfl filled
  | composite core routes before active after =>
    obtain ⟨first, initial, routes_eq⟩ := Option.map_eq_some_iff.1 routes_eq.symm
    exact ⟨first, active, initial, rfl, congrArg some routes_eq.symm⟩

/-- The name of an inner state and its number in the table. -/
theorem number_iff (same : t.site = item.site) (name : String) (number : Nat) :
    item.rows.index.numbers.get? name = some number ↔
      t.children[number]?.map State.name = some name := by
  rw [item.rows.counts_index.number, ← names_of_site same, List.getElem?_map]

/-- The number of the active inner state is that of its name. -/
theorem activeNumber?_eq (same : t.site = item.site) (selects : t.activeChild? = some child) :
    t.activeNumber? = item.rows.index.numbers.get? child.name := by
  have leads := getElem?_activeNumber? t
  rw [selects] at leads
  obtain ⟨number, active, there⟩ := Option.bind_eq_some_iff.1 leads
  rw [active, (number_iff same child.name number).2 (by rw [there, Option.map_some])]

/-- What the number of a name leads to is the inner state of that name. -/
theorem exists_of_number (same : t.site = item.site) {name : String}
    (mem : name ∈ item.rows.names) :
    ∃ number child, item.rows.index.numbers.get? name = some number ∧
      t.children[number]? = some child ∧ child.name = name := by
  obtain ⟨number, there⟩ := List.mem_iff_getElem?.1 mem
  have found := item.rows.counts_index.number.2 there
  obtain ⟨child, inside, named⟩ := Option.map_eq_some_iff.1 ((number_iff same name number).1 found)
  exact ⟨number, child, found, inside, named⟩

/-- An inner state is there for the first row of its name. -/
theorem exists_first_row (built : r.WellBuilt) (inside : t ∈ r.subtree) (same : t.site = item.site)
    (placed : ∀ row ∈ Table.builders [] item.rows, row.item item.place ∈ items ∧
      (row.item item.place).site ∈ r.layout)
    (mem : child ∈ t.children) :
    ∃ row, item.rows.find? (·.name = child.name) = some row ∧ row.item item.place ∈ items ∧
      child.address = item.place.inner row.name ∧ child.core.typeName = row.typeName := by
  have named : child.name ∈ t.children.map State.name := List.mem_map_of_mem mem
  rw [names_of_site same, ← Table.names_eq] at named
  obtain ⟨row, builds, row_name⟩ := List.mem_map.1 named
  obtain ⟨wanted, there⟩ := placed row builds
  obtain ⟨u, within, site⟩ := List.mem_map.1 there
  have place : child.address = item.place.inner row.name := by
    rw [(built.of_mem inside).address_child mem, row_name]
    exact congrArg (Address.inner · child.name) (congrArg Site.address same)
  obtain rfl : child = u := built.eq_of_address_eq
    (mem_subtree_trans inside (child_mem_subtree mem)) within
    (place.trans (congrArg Site.address site).symm)
  refine ⟨row, ?_, wanted, place, congrArg Site.typeName site⟩
  rw [← row_name]
  exact Table.find?_of_mem_builders builds

/-- A request leads, by the last row that answers for it, to the inner state of that row's name. -/
theorem exists_landing [Conduct H] (built : t.WellBuilt) (same : t.site = item.site)
    (answers : item.rows.lastRow? request = some row) :
    ∃ number, item.rows.index.target? request = some number ∧
      t.children[number]?.map State.name = some row.name ∧ t.LeadsTo request number := by
  have mem : row ∈ item.rows := List.mem_reverse.1 (List.mem_of_find?_eq_some answers)
  obtain ⟨number, child, found, there, named⟩ := exists_of_number same (Table.mem_names mem)
  have leads : t.routes?.bind (·.target? request) = some row.name := by
    obtain ⟨first, -, -, -, routes⟩ := exists_initial same (List.ne_nil_of_mem mem)
    rw [routes, Option.bind_some, Table.target?_eq, answers, Option.map_some]
  obtain ⟨active, selects, follows⟩ := exists_of_follow built leads
  refine ⟨number, ?_, ?_, active, child, selects, there, fun σ => ⟨(follows σ).1, fun done => ?_⟩⟩
  · rw [Table.target?_index, answers, Option.bind_some, found]
  · rw [there, Option.map_some, named]
  · obtain ⟨-, layout, selected⟩ := follows σ
    obtain ⟨chosen, selects, place⟩ := Option.map_eq_some_iff.1 (selected done)
    have chosen_name : chosen.name = row.name := congrArg Address.name place
    have kept : ((t.follow request).run σ).1.2.site = item.site := by
      rw [layout_eq, layout_eq] at layout
      exact (List.cons.inj layout).1.trans same
    refine ⟨?_, ?_⟩
    · rw [activeNumber?_eq kept selects, chosen_name, found]
    · rw [selected done, built.address_child (List.mem_of_getElem? there), named]

/-- The initial number leads to the inner state that a reset selects. -/
theorem initial_of_site (same : t.site = item.site) :
    (item.rows.index.initial.bind (t.children[·]?)).map State.name =
      t.routes?.map Routes.initial := by
  rw [Table.initial_index]
  by_cases filled : item.rows = []
  · have routes_eq : t.routes? = item.routes? := congrArg Site.routes same
    rw [routes_eq, routes?, filled]
    rfl
  · obtain ⟨first, -, initial, -, routes⟩ := exists_initial same filled
    obtain ⟨number, child, found, there, named⟩ :=
      exists_of_number same (Table.mem_names (List.mem_of_find?_eq_some initial))
    rw [initial, routes, Option.bind_some, found, Option.bind_some, there, Option.map_some,
      Option.map_some, named]

/-- Every number belongs to an inner state. -/
theorem lt_of_site (same : t.site = item.site)
    (known : item.rows.index.initial = some number ∨ t.activeNumber? = some number ∨
      number ∈ item.rows.index.routes.map Prod.snd) : number < t.children.length := by
  have lt {name : String} (found : item.rows.names[number]? = some name) :
      number < t.children.length := by
    rw [← names_of_site same] at found
    simpa using (List.getElem?_eq_some_iff.1 found).1
  rcases known with initial | active | route
  · rw [Table.initial_index] at initial
    obtain ⟨first, -, found⟩ := Option.bind_eq_some_iff.1 initial
    exact lt (item.rows.counts_index.number.1 found)
  · cases t with
    | leaf core => contradiction
    | composite core routes before chosen after =>
      obtain rfl := Option.some.inj active
      simp [children]
  · obtain ⟨route, mem, rfl⟩ := List.mem_map.1 route
    obtain ⟨name, found⟩ := item.rows.exists_of_mem_routes mem
    exact lt found

/-- A state at the site of an item is as the item wants it. -/
theorem furnished [Conduct H] (built : r.WellBuilt) (inside : t ∈ r.subtree)
    (same : t.site = item.site)
    (placed : ∀ row ∈ Table.builders [] item.rows, row.item item.place ∈ items ∧
      (row.item item.place).site ∈ r.layout) : Furnished items item t where
  address_eq := congrArg Site.address same
  typeName_eq := congrArg Site.typeName same
  names_eq := names_of_site same
  first_row _ mem := exists_first_row built inside same placed mem
  numbered := number_iff same
  routed := item.rows.routes_index.imp fun row route related =>
    ⟨related.1, by rw [← List.getElem?_map, names_of_site same, related.2]⟩
  initial_eq := initial_of_site same
  selects filled := by
    obtain ⟨first, child, initial, selects, -⟩ := exists_initial same filled
    obtain ⟨current, active, -⟩ := Option.bind_eq_some_iff.1 ((getElem?_activeNumber? t).trans selects)
    obtain ⟨number, -, found, -⟩ :=
      exists_of_number same (Table.mem_names (List.mem_of_find?_eq_some initial))
    exact ⟨number, current, by rw [Table.initial_index, initial, Option.bind_some, found], active⟩
  within _ := lt_of_site same
  lands _ _ := exists_landing (built.of_mem inside) same

end Item

/-- A tree has the layout of some items if its states stand at their sites, one at each. -/
theorem layout_eq_iff_sited {items : List (Item H)} {r : State H} :
    r.layout = items.map Item.site ↔
      List.Forall₂ (fun item t => t.site = item.site) items r.subtree := by
  rw [eq_comm, State.layout, ← List.forall₂_eq_eq_eq, List.forall₂_map_left_iff,
    List.forall₂_map_right_iff]
  simp only [eq_comm]

/-- What has the layout of some items is as these want it, if they are all that their tables ask for. -/
theorem furnished_of_layout [Conduct H] {items : List (Item H)} {r : State H} (built : r.WellBuilt)
    (layout : r.layout = items.map Item.site)
    (closed : ∀ item ∈ items, ∀ row ∈ Table.builders [] item.rows, row.item item.place ∈ items) :
    List.Forall₂ (Furnished items) items r.subtree := by
  have sites := layout_eq_iff_sited.1 layout
  rw [List.forall₂_iff_zip] at sites ⊢
  refine ⟨sites.1, fun {item t} mem => ?_⟩
  obtain ⟨wanted, inside⟩ := List.of_mem_zip mem
  refine Item.furnished built inside (sites.2 mem) fun row builds => ?_
  have there := closed item wanted row builds
  exact ⟨there, layout ▸ List.mem_map_of_mem there⟩

/-- A table that is accepted has one state for every name in it, built for the first row of that name,
in the order in which the names first occur: the programs that make behaviours are run for just these
rows, one after the other, and later rows of a name add only notices.  Whatever is then done to the
machine, the behaviours are still these, as callbacks have changed them, and no remark is made but by
callbacks and observers, so none is made anew.  Keeping an index of names on the way leads to the same
states.  At all times the index numbers the inner states of each state, one to one and without gaps;
every row has a route to the state of its name; a request is followed by the last row whose tag agrees,
to the state of that row's name, even if another row of another type has built it; and no number is out
of range. -/
theorem Machine.one_state_per_name [Conduct H] {config : Config} {place : Address}
    {typeName : String} {blueprint : Blueprint H} {s : State H} {σ σ' : Store H}
    (built : (blueprint.build config place typeName).run σ = (.ok s, σ')) (store : Store H)
    (moves : List (Move H)) :
    let items := blueprint.items place typeName
    let later := ((⟨s, store⟩ : Machine H).run moves).2
    (∃ behaviors τ, (Blueprint.construct items).run σ = (behaviors, τ) ∧
      Store.Twins Noteless σ' τ ∧ List.Forall₂ Grown behaviors (later.root.survey Core.behavior)) ∧
    (∀ said, .remark said ∈ Store.since store later.store → Spoken said) ∧
    (∀ owner (rows : Table (Blueprint H)) τ,
      (Blueprint.fill config owner [] .empty rows).run τ =
        let filled := (Blueprint.buildRows config owner [] rows).run τ
        (filled.1.map fun states => (states, rows.index), filled.2)) ∧
    List.Forall₂ (Furnished items) items later.root.subtree := by
  intro items later
  have builds := Blueprint.build_builds _ _ _ _ _ _ _ built
  have twins : Store.Twins Noteless σ σ :=
    ⟨fun _ => rfl, rfl, rfl, rfl, rfl, rfl, rfl⟩
  obtain ⟨τ, constructed, same⟩ := Blueprint.build_constructs _ _ _ _ _ _ _ _ built twins
  have layout : later.root.layout = items.map Item.site :=
    (layout_run _ _).trans (layout_eq_iff_sited.2 builds.sites)
  refine ⟨⟨_, τ, constructed, same, Machine.grows_run ⟨s, store⟩ moves⟩, ?_, fun owner rows τ => ?_, ?_⟩
  · exact (Machine.remarks_run ⟨s, store⟩ moves).of_since
  · exact Blueprint.run_fill rows Index.counts_empty τ
  · exact furnished_of_layout (builds.wellBuilt.of_layout (layout_run _ _)) layout
      (Blueprint.item_mem_items place typeName blueprint)

namespace Sample

open Script

/-- A table in which a tag and a name occur twice: by its tag the last row leads where the first one
has built a state of another type.  So it is beneath the second row as well. -/
def crossed : Cast :=
  .ofPart .node mute
    [⟨first, "Idle", "Node", true, (Cast.ofPart .node eager []).announced "First" "Idle"⟩,
      ⟨next, "Work", "Node", false, (Cast.ofPart .node eager
        [⟨first, "Part", "Node", true, (Cast.ofPart .node mute []).announced "First" "Part"⟩,
          ⟨next, "Part", "Alt", false, (Cast.ofPart .alt stuck []).announced "Next" "Part"⟩]).announced
            "Next" "Work"⟩,
      ⟨next, "Idle", "Alt", false, (Cast.ofPart .alt stuck []).announced "Next" "Idle"⟩]

/-- What an event reports to have been made: the tag and the name of a row. -/
def madeIn? : Event stage → Option (String × String)
  | .remark (Remark.made tag name) => some (tag, name)
  | _ => none

theorem eq_of_madeIn? {event : Event stage} {tag name : String}
    (reported : madeIn? event = some (tag, name)) : event = .remark (Remark.made tag name) := by
  unfold madeIn? at reported
  split at reported
  · cases reported
    rfl
  · cases reported

end Sample

/-- Three of the five rows have their behaviours made, and no more are made later on.  A request with
the tag that two rows share goes by the last of them, and leads to the state that the first row has
built. -/
theorem Machine.one_state_per_name_sample :
    let made := (Sample.crossed.build .default Sample.top "Node").run (.initial .empty Sample.clock)
    ∃ s, made.1 = .ok s ∧
      made.2.journal.reverse.filterMap Sample.madeIn? =
        [("First", "Idle"), ("Next", "Work"), ("First", "Part")] ∧
      ∀ store moves,
        let later := ((⟨s, store⟩ : Machine Script.stage).run moves).2
        (Store.since store later.store).filterMap Sample.madeIn? = [] ∧
        later.root.subtree.map (fun t => (t.address, t.core.typeName)) =
          [(Sample.top, "Node"), (Sample.top.inner "Idle", "Node"), (Sample.work, "Node"),
            (Sample.part, "Node")] ∧
        ∀ σ, let followed := (later.root.follow Sample.next).run σ
          followed.1.1 = .ok () → followed.1.2.activeNumber? = some 0 ∧
            followed.1.2.activeChild?.map State.address = some (Sample.top.inner "Idle") := by
  intro made
  refine ⟨_, rfl, by decide +kernel, fun store moves => ?_⟩
  have built : made = (.ok _, made.2) := rfl
  obtain ⟨-, spoken, -, furnished⟩ := Machine.one_state_per_name built store moves
  refine ⟨List.filterMap_eq_nil_iff.2 fun event mem => ?_, ?_, ?_⟩
  · rcases reported : Sample.madeIn? event with _ | ⟨tag, name⟩
    · rfl
    · obtain rfl := Sample.eq_of_madeIn? reported
      exact absurd (spoken _ mem) (Script.not_spoken_made tag name)
  · have wanted : (Sample.crossed.items Sample.top "Node").map
          (fun item => (item.place, item.typeName)) =
        [(Sample.top, "Node"), (Sample.top.inner "Idle", "Node"), (Sample.work, "Node"),
          (Sample.part, "Node")] := by decide +kernel
    rw [← wanted, ← List.forall₂_eq_eq_eq, List.forall₂_map_left_iff, List.forall₂_map_right_iff]
    exact furnished.flip.imp fun t item here => Prod.ext here.address_eq here.typeName_eq
  · intro σ followed done
    rw [State.subtree_eq] at furnished
    obtain ⟨here, -⟩ := List.forall₂_cons.1 furnished
    obtain ⟨number, leads, named, active, child, -, there, follows⟩ := here.lands Sample.next _ rfl
    obtain rfl : 0 = number := Option.some.inj leads
    rw [there] at named
    obtain ⟨row, found, -, place, -⟩ := here.first_row child (List.mem_of_getElem? there)
    have row_name : row.name = child.name := by simpa using List.find?_some found
    obtain ⟨chosen, selected⟩ := (follows σ).2 done
    refine ⟨chosen, ?_⟩
    rw [selected, place, row_name, Option.some.inj named]

end Statechart
