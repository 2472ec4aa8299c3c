import Statechart.Text

/-!
# Violations

What can be wrong with the way a state is set up.  A check reports every violation it finds, so a
violation is a value of its own, with the words for it in `Violation.message`.
-/
namespace Statechart

/-- One problem of a state's configuration. -/
inductive Violation
  | missingInitial
  | multipleInitial (count : Nat)
  /-- The row with this label has an empty name. -/
  | emptyName (label : String)
  /-- A row's name holds the separator. -/
  | separatorInName (name : String)
  | invalidRootName (name : String)
  /-- Rows share the tag with this label. -/
  | duplicateTag (label : String)
  /-- A command set that was read has no member for "no command". -/
  | missingNone (commandSet : String)
  deriving DecidableEq, Repr

namespace Violation

/-- Name of the kind of violation. -/
def kind : Violation → String
  | .missingInitial => "MissingInitialTransition"
  | .multipleInitial _ => "MultipleInitialTransitions"
  | .emptyName _ => "EmptyStateName"
  | .separatorInName _ => "SeparatorInStateName"
  | .invalidRootName _ => "InvalidRootName"
  | .duplicateTag _ => "DuplicateTransition"
  | .missingNone _ => "MissingNoneCommand"

/-- The violation in words. -/
def message : Violation → String
  | .missingInitial => "no transition entry is marked as initial"
  | .multipleInitial count => toString count ++ " transition entries are marked as initial"
  | .emptyName label => "transition " ++ label ++ " targets a state with an empty name"
  | .separatorInName name => "state name '" ++ name ++ "' contains the path separator"
  | .invalidRootName name => "root state name '" ++ name ++ "' is not a valid path segment"
  | .duplicateTag label => "transition " ++ label ++ " is declared more than once"
  | .missingNone commandSet => "command set " ++ commandSet ++ " has no \"none\" member"

/-- The violation as inspections show it. -/
def inspect (violation : Violation) : String :=
  match violation with
  | .missingInitial => violation.kind
  | .multipleInitial count => Text.record violation.kind [("count", toString count)]
  | .emptyName label => Text.record violation.kind [("transition", Text.quote label)]
  | .separatorInName name => Text.record violation.kind [("name", Text.quote name)]
  | .invalidRootName name => Text.record violation.kind [("name", Text.quote name)]
  | .duplicateTag label => Text.record violation.kind [("transition", Text.quote label)]
  | .missingNone commandSet => Text.record violation.kind [("command_set", Text.quote commandSet)]

end Violation

end Statechart
