import Statechart.Proofs.Building

/-!
# Numbers for names

An index counts the names of a table as they first occur, and keeps for every row the number of its
name.  Building needs no index, since inner states are known by their names; but it may keep one on the
way, find the state of a name at its number and end where it would have ended without.  The numbers are
the positions of the states, each name has one and each number belongs to a name, and a row leads to the
number of its own name also where an earlier row of that name has built the state.
-/
namespace Statechart

variable {H : Host} {α : Type}

namespace Table

/-- The names of a table, each once and in the order in which they first occur. -/
def names (rows : Table α) : List String := (rows.map Row.name).eraseDups

/-- The rows that build have the names that are not known, each once and in order. -/
theorem map_name_builders (known : List String) (rows : Table α) :
    (builders known rows).map Row.name = ((rows.map Row.name).removeAll known).eraseDups := by
  fun_induction builders known rows with
  | case1 => rfl
  | case2 known row rest taken ih =>
    rw [ih, List.map_cons, List.cons_removeAll, if_neg (by simpa using taken)]
  | case3 known row rest free ih =>
    rw [List.map_cons, ih, List.map_cons, List.cons_removeAll, if_pos (by simpa using free),
      List.eraseDups_cons]
    congr 2
    simp only [List.removeAll, List.filter_filter]
    refine List.filter_congr fun name _ => ?_
    by_cases same : name = row.name <;> simp [same]

theorem names_eq (rows : Table α) : (builders [] rows).map Row.name = rows.names := by
  rw [map_name_builders, List.removeAll_nil, names]

/-- A row that builds is the first one of its name. -/
theorem find?_of_mem_builders {known : List String} {row : Row α} {rows : Table α}
    (mem : row ∈ builders known rows) :
    rows.find? (fun other => other.name = row.name) = some row := by
  fun_induction builders known rows with
  | case1 => simp at mem
  | case2 known first rest taken ih =>
    have other : first.name ≠ row.name := by
      rintro same
      exact (mem_of_mem_builders mem).2 (same ▸ taken)
    rw [List.find?_cons_of_neg (by simpa using other), ih mem]
  | case3 known first rest free ih =>
    rcases List.mem_cons.1 mem with rfl | mem
    · rw [List.find?_cons_of_pos (by simp)]
    · have other : first.name ≠ row.name := by
        rintro same
        exact (mem_of_mem_builders mem).2 (by simp [same])
      rw [List.find?_cons_of_neg (by simpa using other), ih mem]

end Table

/-! ## Indices -/

/-- The names of a table by number, and its rows with the numbers of their names. -/
structure Index where
  count : Nat
  /-- The number of every name that is known. -/
  numbers : Registry String Nat
  /-- Tags with the number of the name that each leads to, in the order of the rows. -/
  routes : List (Tag × Nat)
  /-- Number of the name of the first initial row. -/
  initial : Option Nat

namespace Index

/-- Nothing is known. -/
def empty : Index := ⟨0, .empty, [], none⟩

/-- Number of a name: the one that it has, or the next one. -/
def numberFor (index : Index) (name : String) : Nat := (index.numbers.get? name).getD index.count

/-- Number of the name to which the last row leads whose tag agrees. -/
def target? (index : Index) (request : Tag) : Option Nat :=
  (index.routes.reverse.find? fun route => route.1.agrees request).map Prod.snd

/-- The index with a row. -/
def enter (index : Index) (row : Row α) : Index where
  count := if (index.numbers.get? row.name).isSome then index.count else index.count + 1
  numbers := index.numbers.set row.name (index.numberFor row.name)
  routes := index.routes ++ [(row.tag, index.numberFor row.name)]
  initial := index.initial.or (if row.initial then some (index.numberFor row.name) else none)

theorem numbers_enter (index : Index) (row : Row α) :
    (index.enter row).numbers = index.numbers.set row.name (index.numberFor row.name) := rfl

theorem routes_enter (index : Index) (row : Row α) :
    (index.enter row).routes = index.routes ++ [(row.tag, index.numberFor row.name)] := rfl

theorem initial_enter (index : Index) (row : Row α) : (index.enter row).initial =
    index.initial.or (if row.initial then some (index.numberFor row.name) else none) := rfl

/-- The numbers are the positions of some names. -/
structure Counts (index : Index) (names : List String) : Prop where
  count : index.count = names.length
  number : ∀ {name i}, index.numbers.get? name = some i ↔ names[i]? = some name

variable {index : Index} {known names : List String} {row : Row α} {rows : Table α} {name : String}

theorem counts_empty : empty.Counts [] := ⟨rfl, by simp [empty]⟩

namespace Counts

/-- What has no number is not known. -/
theorem number_none (h : index.Counts names) : index.numbers.get? name = none ↔ name ∉ names := by
  rw [← not_iff_not, not_not, ← ne_eq, Option.ne_none_iff_exists', List.mem_iff_getElem?]
  exact exists_congr fun _ => h.number

/-- A name that is known keeps its number, and another gets the next one. -/
theorem enter (h : index.Counts known) (row : Row α) :
    (index.enter row).Counts (if row.name ∈ known then known else known ++ [row.name]) := by
  rcases found : index.numbers.get? row.name with _ | number
  · have free := h.number_none.1 found
    rw [if_neg free]
    constructor
    · simp [Index.enter, found, h.count]
    · intro name i
      simp only [numbers_enter, numberFor, found, Option.getD_none, Registry.get?_set, h.count]
      rcases Nat.lt_trichotomy i known.length with lt | rfl | gt
      · rw [List.getElem?_append_left lt]
        split
        · next same =>
          subst same
          refine iff_of_false (fun eq => ?_) fun there => free (List.mem_of_getElem? there)
          exact absurd (Option.some.inj eq) (Nat.ne_of_gt lt)
        · exact h.number
      · rw [List.getElem?_concat_length]
        split
        · next same => simp [same]
        · next other =>
          refine iff_of_false (fun there => ?_) fun same => other (Option.some.inj same).symm
          exact absurd (h.number.1 there) (by simp)
      · rw [List.getElem?_eq_none (by rw [List.length_append]; exact gt)]
        split
        · refine iff_of_false (fun eq => ?_) (by simp)
          exact absurd (Option.some.inj eq) (Nat.ne_of_lt gt)
        · rw [h.number, List.getElem?_eq_none (Nat.le_of_lt gt)]
  · have taken : row.name ∈ known := by
      by_contra free
      rw [h.number_none.2 free] at found
      contradiction
    rw [if_pos taken]
    constructor
    · simp [Index.enter, found, h.count]
    · intro name i
      simp only [numbers_enter, numberFor, found, Option.getD_some, Registry.get?_set]
      split
      · next same => rw [same, ← found, h.number]
      · exact h.number

/-- After the rows of a table have been entered, the names that are known are those from before and the
new ones, in the order of the rows that build. -/
theorem foldl (h : index.Counts known) (rows : Table α) :
    (rows.foldl Index.enter index).Counts
      (known ++ (Table.builders known rows).map Row.name) := by
  induction rows generalizing index known with
  | nil => simpa [Table.builders] using h
  | cons row rest ih =>
    have entered := ih (h.enter row)
    rw [List.foldl_cons, Table.builders]
    split
    · next taken => rwa [if_pos taken] at entered
    · next free =>
      rw [if_neg free] at entered
      simpa using entered

/-- A row is entered with the number that its name has from then on. -/
theorem numberFor_entered (h : index.Counts known) (row : Row α) (rest : Table α) :
    (known ++ (Table.builders known (row :: rest)).map Row.name)[index.numberFor row.name]? =
      some row.name := by
  have entered := h.enter row
  have here : (index.enter row).numbers.get? row.name = some (index.numberFor row.name) := by
    rw [numbers_enter, Registry.get?_set_self]
  rw [entered.number] at here
  rw [Table.builders]
  split
  · next taken =>
    rw [if_pos taken] at here
    rw [List.getElem?_append_left (List.getElem?_eq_some_iff.1 here).1, here]
  · next free =>
    rw [if_neg free] at here
    rw [List.map_cons, List.append_cons,
      List.getElem?_append_left (List.getElem?_eq_some_iff.1 here).1, here]

/-- Every row adds the number of its name. -/
theorem routes_foldl (h : index.Counts known) (rows : Table α) :
    ∃ routes, (rows.foldl Index.enter index).routes = index.routes ++ routes ∧
      List.Forall₂ (fun row route => route.1 = row.tag ∧
        (known ++ (Table.builders known rows).map Row.name)[route.2]? = some row.name) rows routes := by
  induction rows generalizing index known with
  | nil => exact ⟨[], by simp, .nil⟩
  | cons row rest ih =>
    obtain ⟨routes, routes_eq, each⟩ := ih (h.enter row)
    refine ⟨(row.tag, index.numberFor row.name) :: routes, ?_, ?_⟩
    · rw [List.foldl_cons, routes_eq, routes_enter, List.append_assoc, List.singleton_append]
    · refine .cons ⟨rfl, h.numberFor_entered row rest⟩ ?_
      rw [Table.builders]
      split
      · next taken => rwa [if_pos taken] at each
      · next free =>
        rw [if_neg free] at each
        simpa using each

/-- The first initial row adds the number of its name. -/
theorem initial_foldl (h : index.Counts known) (rows : Table α) :
    (rows.foldl Index.enter index).initial = index.initial.or
      (rows.initial?.bind fun row => (rows.foldl Index.enter index).numbers.get? row.name) := by
  induction rows generalizing index known with
  | nil => simp [Table.initial?]
  | cons row rest ih =>
    have entered := h.foldl (row :: rest)
    have here := entered.number.2 (h.numberFor_entered row rest)
    rw [List.foldl_cons] at here ⊢
    rw [ih (h.enter row), initial_enter, Option.or_assoc, Table.initial?, Table.initial?]
    rcases initial : row.initial
    · rw [List.find?_cons_of_neg (by simp [initial])]
      rfl
    · rw [List.find?_cons_of_pos initial, Option.bind_some, here]
      rfl

end Counts

end Index

namespace Table

/-- The index of a table: its rows are entered one after the other. -/
def index (rows : Table α) : Index := rows.foldl Index.enter .empty

variable {rows : Table α}

/-- The numbers of a table are the positions of its names. -/
theorem counts_index (rows : Table α) : rows.index.Counts rows.names := by
  have entered := Index.counts_empty.foldl rows
  rwa [List.nil_append, names_eq] at entered

/-- Every row of a table has a route, which leads to the number of the row's own name. -/
theorem routes_index (rows : Table α) :
    List.Forall₂ (fun row route => route.1 = row.tag ∧ rows.names[route.2]? = some row.name) rows
      rows.index.routes := by
  obtain ⟨routes, routes_eq, each⟩ := Index.counts_empty.routes_foldl rows
  rw [List.nil_append, names_eq] at each
  rwa [index, routes_eq]

/-- The initial number is that of the name of the first initial row. -/
theorem initial_index (rows : Table α) :
    rows.index.initial = rows.initial?.bind fun row => rows.index.numbers.get? row.name :=
  Index.counts_empty.initial_foldl rows

end Table

/-! ## Building by numbers -/

namespace Blueprint

open State

variable {config : Config} {owner : Address}

/-- Build the rows of a table that come after those built so far, with an index of the states that are
built. -/
def fill (config : Config) (owner : Address) (states : List (State H)) (index : Index) :
    List (Row (Blueprint H)) → StoreM H (Except Fault (List (State H) × Index))
  | [] => pure (.ok (states, index))
  | row :: rest => do
    match (index.numbers.get? row.name).bind (states[·]?) with
    | some state =>
      if state.core.typeName ≠ row.typeName then
        Store.note (.nameTaken owner.name row.name state.core.typeName row.typeName)
      fill config owner states (index.enter row) rest
    | none =>
      match ← buildRow config owner row with
      | .error fault => pure (.error fault)
      | .ok state => fill config owner (states ++ [state]) (index.enter row) rest

/-- The state at the number of a name is the one that has been built under that name. -/
theorem built?_eq {index : Index} {states : List (State H)}
    (counts : index.Counts (states.map State.name)) (name : String) :
    (index.numbers.get? name).bind (states[·]?) = built? states name := by
  rcases found : built? states name with _ | state
  · rw [counts.number_none.2 (not_mem_of_built? found), Option.bind_none]
  · obtain ⟨i, there⟩ := List.mem_iff_getElem?.1 (List.mem_of_find?_eq_some found)
    have named : state.name = name := by simpa using List.find?_some found
    have number : index.numbers.get? name = some i :=
      counts.number.2 (by rw [List.getElem?_map, there, Option.map_some, named])
    rw [number, Option.bind_some, there]

/-- Building with an index goes as building without one, as far as that goes. -/
theorem run_fill (rows : List (Row (Blueprint H))) {states : List (State H)} {index : Index}
    (counts : index.Counts (states.map State.name)) (σ : Store H) :
    (fill config owner states index rows).run σ =
      let filled := (buildRows config owner states rows).run σ
      (filled.1.map fun built => (built, rows.foldl Index.enter index), filled.2) := by
  induction rows generalizing states index σ with
  | nil => rfl
  | cons row rest ih =>
    have entered := counts.enter row
    rcases found : built? states row.name with _ | state
    · rw [if_neg (not_mem_of_built? found)] at entered
      simp only [fill, buildRows, built?_eq counts, found, StoreM.run_bind, List.foldl_cons]
      rcases rowRun : (buildRow config owner row).run σ with ⟨fault | s, σ₁⟩
      · rfl
      · have named : s.name = row.name := name_of_buildRow rowRun
        exact ih (by rwa [List.map_append, List.map_singleton, named]) σ₁
    · rw [if_pos (mem_of_built? found)] at entered
      simp only [fill, buildRows, built?_eq counts, found, List.foldl_cons]
      split
      · exact ih entered _
      · exact ih entered σ

end Blueprint

end Statechart
