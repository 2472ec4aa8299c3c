import Statechart.Proofs.Mailboxes
import Statechart.Proofs.Segments

/-!
# Which tables are checked

Expanding a blueprint meets tables: that of a state before those of its inner states, and these in
the order of the rows, of which only the first of every name is expanded.  Building checks just the
tables that are met, in this order, and ends at the first one that breaks a rule.  Main statement:
a machine is built if and only if its name is a segment and no table that is met breaks a rule; the
error names the first state whose table does, with all that is wrong with it; and what is built is
one fresh state for each table, which selects what its only initial row leads to.
-/
namespace Statechart

variable {H : Host} {α : Type}

namespace Table

/-- The table is not empty, and breaks a rule. -/
def offends (config : Config) (rows : Table α) : Bool :=
  !rows.isEmpty && !(rows.violations config.strict).isEmpty

theorem offends_eq_false {config : Config} {rows : Table α} :
    rows.offends config = false ↔ (rows ≠ [] → rows.violations config.strict = []) := by
  rcases rows with _ | ⟨row, rest⟩ <;> simp [offends]

/-- A table that breaks no rule has one initial row. -/
theorem initial_of_violations {strict : Bool} {rows : Table α} (valid : rows.violations strict = []) :
    ∃ row, rows.filter (·.initial) = [row] ∧ rows.initial? = some row := by
  rw [violations, List.append_eq_nil_iff, List.append_eq_nil_iff] at valid
  have count : rows.initialCount = 1 := by
    have none := valid.1.1
    rw [initialViolations] at none
    split at none
    · contradiction
    · assumption
    · contradiction
  obtain ⟨row, only⟩ := List.length_eq_one_iff.1 ((List.countP_eq_length_filter).symm.trans count)
  exact ⟨row, only, by rw [initial?, ← List.head?_filter, only]; rfl⟩

end Table

namespace Blueprint

open State

variable {config : Config} {place owner : Address} {name typeName : String}
  {blueprint : Blueprint H} {s : State H} {σ σ' : Store H}

/-! ## The tables that are met -/

mutual

/-- The tables that are met when a blueprint is expanded at a place, each with its state's place. -/
def expand (place : Address) : Blueprint H → List (Address × Table (Blueprint H))
  | .mk _ rows => (place, rows) :: expandRows place [] rows

/-- The tables that are met beneath a state, some of whose inner states are known already. -/
def expandRows (owner : Address) (known : List String) :
    List (Row (Blueprint H)) → List (Address × Table (Blueprint H))
  | [] => []
  | row :: rest =>
    if row.name ∈ known then expandRows owner known rest
    else expandRow owner row ++ expandRows owner (known ++ [row.name]) rest

/-- The tables that are met when a row is expanded. -/
def expandRow (owner : Address) : Row (Blueprint H) → List (Address × Table (Blueprint H))
  | ⟨_, name, _, _, target⟩ => expand (owner.inner name) target

end

/-- At each level the first row of every name is expanded. -/
theorem expandRows_eq (owner : Address) (known : List String) (rows : Table (Blueprint H)) :
    expandRows owner known rows =
      (Table.builders known rows).flatMap fun row => row.target.expand (owner.inner row.name) := by
  induction rows generalizing known with
  | nil => rw [expandRows, Table.builders, List.flatMap_nil]
  | cons row rest ih =>
    rw [expandRows, Table.builders]
    split
    · exact ih known
    · rw [ih, List.flatMap_cons, expandRow]

/-! ## The first table that breaks a rule -/

/-- What is said of some tables: the first one that breaks a rule is refused. -/
def verdict (config : Config) : List (Address × Table (Blueprint H)) → Except Fault Unit
  | [] => .ok ()
  | (place, rows) :: rest =>
    if rows.offends config then
      .error (.invalidConfiguration place.name (rows.violations config.strict))
    else verdict config rest

theorem verdict_append (met more : List (Address × Table (Blueprint H))) :
    verdict config (met ++ more) =
      match verdict config met with
      | .error fault => .error fault
      | .ok () => verdict config more := by
  induction met with
  | nil => rfl
  | cons entry met ih =>
    rw [List.cons_append, verdict, verdict]
    split
    · rfl
    · exact ih

/-- Nothing is refused if no table breaks a rule. -/
theorem verdict_eq_ok {met : List (Address × Table (Blueprint H))} :
    verdict config met = .ok () ↔ ∀ entry ∈ met, entry.2.offends config = false := by
  induction met with
  | nil => simp [verdict]
  | cons entry met ih =>
    rw [verdict, List.forall_mem_cons, ← ih]
    rcases entry.2.offends config <;> simp

mutual

/-- Building succeeds, or refuses the first table that breaks a rule. -/
theorem build_verdict (config : Config) (place : Address) (typeName : String) :
    ∀ (blueprint : Blueprint H) (σ : Store H),
      ((blueprint.build config place typeName).run σ).1.map (fun _ => ()) =
        verdict config (blueprint.expand place)
  | .mk make rows, σ => by
    rcases rows with _ | ⟨row, rest⟩
    · rw [expand, verdict, expandRows, verdict]
      rfl
    · have met := buildRows_verdict config place (row :: rest) []
      rw [expand, verdict]
      rcases valid : Table.violations config.strict (row :: rest) with _ | ⟨violation, more⟩
      · obtain ⟨first, -, found⟩ := Table.initial_of_violations valid
        have sound : Table.offends config (row :: rest) = false := by simp [Table.offends, valid]
        rw [sound, if_neg Bool.false_ne_true]
        simp only [build, StoreM.run_bind, valid, List.isEmpty_cons, List.isEmpty_nil,
          Bool.false_eq_true, if_false, Bool.not_true]
        split
        · next fault refused =>
          rw [List.map_nil] at met
          rw [← met, refused]
          rfl
        · next states made =>
          rw [List.map_nil] at met
          rw [← met, made, found]
          rfl
      · have bad : Table.offends config (row :: rest) = true := by simp [Table.offends, valid]
        rw [bad, if_pos rfl]
        simp only [build, StoreM.run_bind, valid, List.isEmpty_cons, Bool.false_eq_true, if_false,
          Bool.not_false, if_true, StoreM.run_pure]
        rfl

theorem buildRows_verdict (config : Config) (owner : Address) :
    ∀ (rows : List (Row (Blueprint H))) (states : List (State H)) (σ : Store H),
      ((buildRows config owner states rows).run σ).1.map (fun _ => ()) =
        verdict config (expandRows owner (states.map State.name) rows)
  | [], states, σ => by
    rw [buildRows, expandRows, verdict, StoreM.run_pure]
    rfl
  | row :: rest, states, σ => by
    rcases found : built? states row.name with _ | state
    · have here := buildRow_verdict config owner row σ
      rw [expandRows, if_neg (not_mem_of_built? found), verdict_append, ← here]
      simp only [buildRows, found, StoreM.run_bind]
      rcases run : (buildRow config owner row).run σ with ⟨fault | s, σ₁⟩
      · rfl
      · have named : s.name = row.name := name_of_buildRow run
        have later := buildRows_verdict config owner rest (states ++ [s]) σ₁
        rw [List.map_append, List.map_singleton, named] at later
        exact later
    · rw [expandRows, if_pos (mem_of_built? found)]
      simp only [buildRows, found]
      split
      · exact buildRows_verdict config owner rest states _
      · exact buildRows_verdict config owner rest states σ

theorem buildRow_verdict (config : Config) (owner : Address) :
    ∀ (row : Row (Blueprint H)) (σ : Store H),
      ((buildRow config owner row).run σ).1.map (fun _ => ()) =
        verdict config (expandRow owner row)
  | ⟨_, name, typeName, _, target⟩, σ => by
    rw [buildRow, expandRow]
    exact build_verdict config (owner.inner name) typeName target σ

end

/-! ## What is built for the tables -/

/-- The state that is built for a table at a place: it does not run, sees no scope, and has an inner
state for every name in the table, of which the one that the only initial row leads to is selected. -/
structure Raises (entry : Address × Table (Blueprint H)) (s : State H) : Prop where
  address_eq : s.address = entry.1
  stopped : s.isRunning = false
  blind : s.core.scope = none
  inner : s.children.map State.name = (Table.builders [] entry.2).map Row.name
  selected : (s.activeChild?.map State.name).toList = (entry.2.filter (·.initial)).map Row.name

/-- What holds row by row of the trees of some states holds of their forest. -/
theorem forall₂_forest {β : Type} {R : β → State H → Prop} {list : Row (Blueprint H) → List β}
    {rows : Table (Blueprint H)} {states : List (State H)}
    (names_eq : states.map State.name = rows.map Row.name)
    (each : ∀ row ∈ rows, ∀ child ∈ states, child.name = row.name →
      List.Forall₂ R (list row) child.subtree) :
    List.Forall₂ R (rows.flatMap list) (forest states) := by
  induction rows generalizing states with
  | nil =>
    obtain rfl := List.map_eq_nil_iff.1 names_eq
    rw [List.flatMap_nil, forest_nil]
    exact .nil
  | cons row rows ih =>
    rcases states with _ | ⟨child, rest⟩
    · contradiction
    · obtain ⟨named, names_eq⟩ := List.cons.inj names_eq
      rw [List.flatMap_cons, forest_cons]
      exact List.rel_append (each row List.mem_cons_self child List.mem_cons_self named)
        (ih names_eq fun row mem child inside =>
          each row (List.mem_cons_of_mem _ mem) child (List.mem_cons_of_mem _ inside))

/-- For each table that is met one state is built, in the order of the tree. -/
theorem Builds.raises (h : Builds config place typeName blueprint s) :
    List.Forall₂ Raises (blueprint.expand place) s.subtree := by
  induction h with
  | leaf place typeName make behavior =>
    rw [expand, expandRows, subtree]
    exact .cons ⟨rfl, rfl, rfl, rfl, rfl⟩ .nil
  | @composite place typeName make behavior rows before after active valid names_eq initial_eq inner ih =>
    rw [expand, expandRows_eq, subtree_eq]
    refine .cons ⟨rfl, rfl, rfl, names_eq, ?_⟩ ?_
    · obtain ⟨row, only, found⟩ := Table.initial_of_violations valid
      rw [found, Option.map_some] at initial_eq
      rw [only, List.map_singleton, Option.some.inj initial_eq]
      rfl
    · exact forall₂_forest names_eq ih

/-- Starting succeeds under a segment if no table that is met breaks a rule, and otherwise tells what is
wrong first. -/
theorem start_verdict (config : Config) (name typeName : String) (blueprint : Blueprint H)
    (σ : Store H) :
    ((blueprint.start config name typeName).run σ).1.map (fun _ => ()) =
      if isSegment name then verdict config (blueprint.expand (.root σ.machines name))
      else .error (.invalidConfiguration name [.invalidRootName name]) := by
  rcases segment : isSegment name
  · rw [run_start_of_not_segment segment]
    rfl
  · rw [run_start segment, if_pos rfl, ← build_verdict config _ typeName]
    rcases (blueprint.build config (.root σ.machines name) typeName).run
      { σ with machines := σ.machines + 1 } with ⟨fault | root, σ'⟩ <;> rfl

end Blueprint

/-- A machine is started just if its root is. -/
theorem Machine.start_verdict (config : Config) (name typeName : String) (blueprint : Blueprint H)
    (σ : Store H) :
    (start config name typeName blueprint σ).1.map (fun _ => ()) =
      if isSegment name then Blueprint.verdict config (blueprint.expand (.root σ.machines name))
      else .error (.invalidConfiguration name [.invalidRootName name]) := by
  rw [← Blueprint.start_verdict config name typeName, start]
  rcases (blueprint.start config name typeName).run σ with ⟨fault | root, σ'⟩ <;> rfl

/-- A machine is built just if its name is not empty and free of the separator and no table that is met,
but for empty ones, breaks a rule.  A name that will not do is reported first.  Otherwise the error
names the state whose table is the first one to break a rule, with all that is wrong with it.  That a
table has an initial row need not be checked again once its rows are built.  What has been built is one
fresh state for every table, whose mailbox is empty. -/
theorem Machine.start_iff_sound (config : Config) (name typeName : String)
    (blueprint : Blueprint H) (σ : Store H) :
    let built := (start config name typeName blueprint σ).1
    let met := blueprint.expand (.root σ.machines name)
    let segment := name ≠ "" ∧ ¬ separator.toList <:+: name.toList
    let sound (rows : Table (Blueprint H)) := rows ≠ [] → rows.violations config.strict = []
    ((∃ machine, built = .ok machine) ↔ segment ∧ ∀ entry ∈ met, sound entry.2) ∧
    (¬ segment → built = .error (.invalidConfiguration name [.invalidRootName name])) ∧
    (∀ before place rows after, segment → met = before ++ (place, rows) :: after →
      (∀ entry ∈ before, sound entry.2) → ¬ sound rows →
      built = .error (.invalidConfiguration place.name (Table.violations config.strict rows))) ∧
    (∀ entry ∈ met, entry.2 ≠ [] → sound entry.2 → entry.2.initial? ≠ none) ∧
    (∀ machine, built = .ok machine → List.Forall₂ Blueprint.Raises met machine.root.subtree ∧
      ∀ s ∈ machine.root.subtree,
        machine.store.mailboxes.get? s.address = some (.empty config.policy)) := by
  intro built met segment sound
  have said : built.map (fun _ => ()) = _ := start_verdict config name typeName blueprint σ
  have ok_iff : (∃ machine, built = .ok machine) ↔ built.map (fun _ => ()) = .ok () := by
    rcases built with fault | machine <;> simp [Except.map]
  have error_iff (fault : Fault) : built = .error fault ↔ built.map (fun _ => ()) = .error fault := by
    rcases built with other | machine <;> simp [Except.map]
  have named : isSegment name = true ↔ segment := by
    rw [isSegment_iff, ← Bool.not_eq_true, hasSeparator_iff]
  have offends (rows : Table (Blueprint H)) : rows.offends config = false ↔ sound rows :=
    Table.offends_eq_false
  refine ⟨?_, fun other => ?_, fun before place rows after known split fine bad => ?_,
    fun entry mem filled valid => ?_, fun machine started => ?_⟩
  · rw [ok_iff, said, ← named]
    rcases isSegment name
    · simp
    · simp only [if_true, Blueprint.verdict_eq_ok, offends, true_and]
      rfl
  · rw [error_iff, said, if_neg (mt named.1 other)]
  · have met_eq : blueprint.expand (.root σ.machines name) = before ++ (place, rows) :: after := split
    have passed : Blueprint.verdict config before = .ok () :=
      Blueprint.verdict_eq_ok.2 fun entry mem => (offends _).2 (fine entry mem)
    have refused : rows.offends config = true := by
      rw [← Bool.not_eq_false, offends]
      exact bad
    rw [error_iff, said, if_pos (named.2 known), met_eq, Blueprint.verdict_append, passed]
    simp only [Blueprint.verdict, refused, if_true]
  · obtain ⟨row, -, found⟩ := Table.initial_of_violations (valid filled)
    rw [found]
    exact Option.some_ne_none row
  · have run := run_of_start started
    exact ⟨(Blueprint.start_builds run).2.raises, fun s mem => Blueprint.get?_start run mem⟩

end Statechart
