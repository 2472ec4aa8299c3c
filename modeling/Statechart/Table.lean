import Statechart.Path
import Statechart.Tag
import Statechart.Violation

/-!
# Transition tables

A table declares the inner states of a state, row by row: a tag, the name of the state it leads
to, and what that state is built from.  Several rows may lead to one name.  The rules that every
table obeys are checked all at once: `Table.violations` lists what breaks them, in order.

Two rows share a tag where their tags agree.  A tag that does not agree with itself is shared by
no rows.
-/
namespace Statechart

/-- A row of a table.  The target is what the state of that name is built from. -/
structure Row (α : Type) where
  /-- The transition that leads to the state. -/
  tag : Tag
  name : String
  /-- Name of the type of the state's behaviour. -/
  typeName : String
  /-- The state is the one selected at first and after every reset. -/
  initial : Bool
  /-- What the state is built from. -/
  target : α

/-- A tag as transitions show it. -/
def Tag.inspectTransition (tag : Tag) : String := Text.tagged "Transition" tag.label

/-- The row as inspections show it. -/
def Row.inspect {α : Type} (row : Row α) : String :=
  Text.record "TransitionEntry"
    [("transition", row.tag.inspectTransition), ("state_name", Text.quote row.name),
      ("state_type", Text.quote row.typeName), ("initial", Text.truth row.initial)]

/-- The rows of a state, in the order they were declared. -/
abbrev Table (α : Type) := List (Row α)

namespace Table

variable {α : Type}

/-- The table as inspections show it. -/
def inspect (table : Table α) : String :=
  Text.record "TransitionTable" [("entries", Text.list (table.map Row.inspect))]

/-- The first row marked as initial. -/
def initial? (table : Table α) : Option (Row α) := table.find? (·.initial)

/-- Number of rows marked as initial. -/
def initialCount (table : Table α) : Nat := table.countP (·.initial)

/-- Tags that occur again further on and have not occurred in `seen`. -/
def repeatedAfter (seen : List Tag) : List Tag → List Tag
  | [] => []
  | tag :: rest =>
    let later := repeatedAfter (seen ++ [tag]) rest
    if !seen.any (·.agrees tag) && rest.any (·.agrees tag) then tag :: later else later

/-- The tags that several rows share, each once and in the order of its first row. -/
def repeated (table : Table α) : List Tag := repeatedAfter [] (table.map (·.tag))

/-- Labels of the tags that several rows share. -/
def duplicates (table : Table α) : List String := table.repeated.map Tag.label

/-- What the number of initial rows breaks. -/
def initialViolations (table : Table α) : List Violation :=
  match table.initialCount with
  | 0 => [.missingInitial]
  | 1 => []
  | count => [.multipleInitial count]

/-- What the name of a row breaks. -/
def nameViolation? (row : Row α) : Option Violation :=
  if row.name.isEmpty then some (.emptyName row.tag.label)
  else if hasSeparator row.name.toList then some (.separatorInName row.name)
  else none

/-- All violations: of the number of initial rows, then of each row's name, then, in a strict
table, of each shared tag. -/
def violations (strict : Bool) (table : Table α) : List Violation :=
  table.initialViolations ++ table.filterMap nameViolation? ++
    if strict then table.duplicates.map .duplicateTag else []

end Table

end Statechart
