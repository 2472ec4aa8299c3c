import Statechart.Proofs.Reaching
import Statechart.Proofs.Segments

/-!
# Names from blueprints

All names in a tree that has been built are segments, and trees that have been built from one
blueprint, wherever and whenever, lead down by the same names.  Both stay so, since no operation
changes the layout of a tree.
-/
namespace Statechart

variable {H : Host} {α : Type}

/-! ## What is built -/

namespace Table

/-- Every row of a table without violations has a segment for its name. -/
theorem isSegment_of_violations {strict : Bool} {rows : Table α} (valid : rows.violations strict = [])
    {row : Row α} (mem : row ∈ rows) : isSegment row.name = true := by
  rw [violations, List.append_eq_nil_iff, List.append_eq_nil_iff] at valid
  have fine : nameViolation? row = none := List.filterMap_eq_nil_iff.1 valid.1.2 row mem
  rw [nameViolation?] at fine
  split at fine
  · contradiction
  · next filled =>
    split at fine
    · contradiction
    · next whole => simp [isSegment, filled, whole]

end Table

namespace Blueprint

open State

variable {config : Config} {place place' : Address} {typeName : String} {blueprint : Blueprint H}
  {s s' t : State H} {names : List String}

/-- All names in a tree that has been built are segments, if the name of its place is one. -/
theorem Builds.isSegment_name (h : Builds config place typeName blueprint s)
    (segment : isSegment place.name = true) : ∀ t ∈ s.subtree, isSegment t.name = true := by
  induction h with
  | leaf place typeName make behavior => simpa [subtree, State.name, Core.name] using segment
  | composite valid names_eq initial_eq inner ih =>
    intro t mem
    rcases mem_subtree.1 mem with rfl | ⟨child, inside, mem⟩
    · exact segment
    · obtain ⟨row, here, same⟩ := exists_builder names_eq inside
      have known := Table.isSegment_of_violations valid (Table.mem_of_mem_builders here).1
      exact ih row here child inside same.symm known t mem

/-- What is built from one blueprint leads down by the same names. -/
theorem Builds.beneath {config' : Config} {typeName' : String}
    (h : Builds config place typeName blueprint s)
    (h' : Builds config' place' typeName' blueprint s') (below : Beneath s names t) :
    ∃ t', Beneath s' names t' := by
  induction h generalizing place' typeName' s' names with
  | leaf place typeName make behavior =>
    cases below with
    | here => exact ⟨s', .here s'⟩
    | inner mem => simp [children] at mem
  | composite valid names_eq initial_eq inner ih =>
    cases below with
    | here => exact ⟨s', .here s'⟩
    | @inner _ child _ names mem below =>
      obtain ⟨row, here, same⟩ := exists_builder names_eq mem
      cases h' with
      | leaf => simp [Table.builders] at here
      | composite valid' names_eq' initial_eq' inner' =>
        have there := List.mem_map_of_mem (f := Row.name) here
        rw [← names_eq'] at there
        obtain ⟨child', mem', same'⟩ := List.mem_map.1 there
        obtain ⟨t', below'⟩ := ih row here child mem same.symm (inner' row here child' mem' same')
          below
        rw [← same, ← same']
        exact ⟨t', .inner mem' below'⟩

end Blueprint

/-! ## What stays so -/

namespace State

variable {s s' t : State H} {names : List String}

/-- Where names lead shows in the layout. -/
theorem Beneath.of_layout (h : Beneath s names t) (built : s.WellBuilt)
    (same : s'.layout = s.layout) : ∃ t', Beneath s' names t' := by
  obtain ⟨t', mem, placed⟩ := exists_of_layout_eq same.symm h.mem_subtree
  obtain ⟨names', below⟩ := exists_beneath mem
  have way := h.names_eq built
  rw [← placed, below.names_eq (built.of_layout same), address_eq_of_layout_eq same] at way
  obtain rfl := List.append_cancel_left way
  exact ⟨t', below⟩

end State

namespace Machine

open State

variable [Conduct H] {first : Machine H} {moves : List (Move H)}

omit [Conduct H] in
/-- A machine that has just been built goes by the blueprint given, at the top of a machine of its
own, and its name is a segment. -/
theorem builds_of_start {config : Config} {name typeName : String} {blueprint : Blueprint H}
    {σ : Store H} (started : (start config name typeName blueprint σ).1 = .ok first) :
    isSegment name = true ∧
      Blueprint.Builds config (.root σ.machines name) typeName blueprint first.root :=
  Blueprint.start_builds (run_of_start started)

/-- All names in a machine that can be reached are segments. -/
theorem Reachable.isSegment_name {machine : Machine H} (h : machine.Reachable) :
    ∀ t ∈ machine.root.subtree, isSegment t.name = true := by
  obtain ⟨first, moves, ⟨config, name, typeName, blueprint, σ, started⟩, rfl⟩ := h
  obtain ⟨segment, builds⟩ := builds_of_start started
  intro t mem
  obtain ⟨u, there, placed⟩ := exists_of_layout_eq (layout_run first moves) mem
  have known := builds.isSegment_name segment u there
  rwa [State.name, Core.name, ← State.address, placed] at known

end Machine

end Statechart
