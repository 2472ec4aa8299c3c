import Statechart.Path
import Statechart.Violation

/-!
# Faults of a machine

How building, driving or steering a machine fails.  A callback fails with one of these as well.
-/
namespace Statechart

/-- Why an operation on a machine failed. -/
inductive Fault
  /-- A state is set up wrongly; all violations found in its table are listed. -/
  | invalidConfiguration (state : String) (violations : List Violation)
  | variableNotFound (state name : String)
  | variableTypeMismatch (state name expected : String)
  | duplicateVariable (state name : String)
  /-- A state has inner states, but none of the name. -/
  | stateNotFound (parent name : String)
  | invalidPath (path : String) (cause : PathFault)
  /-- An inner state asked for a transition that no row of its parent declares. -/
  | unknownTransition (parent state transition : String)
  deriving DecidableEq, Repr

namespace Fault

/-- Name of the kind of fault. -/
def kind : Fault → String
  | .invalidConfiguration .. => "InvalidConfiguration"
  | .variableNotFound .. => "VarNotFound"
  | .variableTypeMismatch .. => "VarTypeMismatch"
  | .duplicateVariable .. => "DuplicateVariable"
  | .stateNotFound .. => "StateNotFound"
  | .invalidPath .. => "InvalidStatePath"
  | .unknownTransition .. => "UnknownTransition"

/-- The fault in words. -/
def message : Fault → String
  | .invalidConfiguration state violations =>
    "Invalid configuration of state '" ++ state ++ "': " ++
      String.intercalate "; " (violations.map Violation.message)
  | .variableNotFound state name =>
    "Variable '" ++ name ++ "' not found in scope of state '" ++ state ++ "'"
  | .variableTypeMismatch state name expected =>
    "Variable '" ++ name ++ "' in scope of state '" ++ state ++ "' is not of type " ++ expected
  | .duplicateVariable state name =>
    "Variable '" ++ name ++ "' already present in scope of state '" ++ state ++ "'"
  | .stateNotFound parent name =>
    "State '" ++ name ++ "' not found in context of '" ++ parent ++ "'"
  | .invalidPath path cause => "Invalid state path '" ++ path ++ "': " ++ cause.reason
  | .unknownTransition parent state transition =>
    "Transition " ++ transition ++ " requested by '" ++ state ++ "' is not declared by '" ++
      parent ++ "'"

/-- The fault as inspections show it. -/
def inspect (fault : Fault) : String :=
  match fault with
  | .invalidConfiguration state violations =>
    Text.record fault.kind
      [("state", Text.quote state), ("violations", Text.list (violations.map Violation.inspect))]
  | .variableNotFound state name =>
    Text.record fault.kind [("state", Text.quote state), ("name", Text.quote name)]
  | .variableTypeMismatch state name expected =>
    Text.record fault.kind
      [("state", Text.quote state), ("name", Text.quote name), ("expected", Text.quote expected)]
  | .duplicateVariable state name =>
    Text.record fault.kind [("state", Text.quote state), ("name", Text.quote name)]
  | .stateNotFound parent name =>
    Text.record fault.kind [("parent", Text.quote parent), ("name", Text.quote name)]
  | .invalidPath path cause =>
    Text.record fault.kind [("path", Text.quote path), ("reason", Text.quote cause.reason)]
  | .unknownTransition parent state transition =>
    Text.record fault.kind
      [("parent", Text.quote parent), ("state", Text.quote state),
        ("transition", Text.quote transition)]

end Fault

end Statechart
