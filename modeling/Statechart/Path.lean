/-!
# State paths

A state path names a chain of states from the root down, its segments joined by `->`.  A segment
is a state name: it is not empty and holds no separator.  `StatePath.parse` cuts a text at every
separator, leftmost first, and refuses it at its first empty piece; `StatePath.text` joins the
segments again.

A path names a chain.  Whether the states exist is a question for a machine.
-/
namespace Statechart

/-- The separator between two segments. -/
def separator : String := "->"

/-- Cut a text at every separator, leftmost first.  There is always at least one piece. -/
def pieces : List Char → List (List Char)
  | [] => [[]]
  | '-' :: '>' :: rest => [] :: pieces rest
  | c :: rest =>
    match pieces rest with
    | [] => [[c]]
    | piece :: more => (c :: piece) :: more

/-- A separator occurs somewhere in the text. -/
def hasSeparator : List Char → Bool
  | [] => false
  | '-' :: '>' :: _ => true
  | _ :: rest => hasSeparator rest

/-- A text that can stand as one segment of a path. -/
def isSegment (name : String) : Bool := !name.isEmpty && !hasSeparator name.toList

theorem pieces_ne_nil (cs : List Char) : pieces cs ≠ [] := by
  fun_cases pieces cs <;> simp_all

/-- Why a text or a path does not lead to a state. -/
inductive PathFault
  | empty
  /-- A segment is empty; segments are counted from zero. -/
  | emptySegment (position : Nat)
  /-- The first segment is not the name of the state where the path starts. -/
  | foreignRoot (root state : String)
  /-- The path goes on below a state that has no inner states. -/
  | noInnerState (state name : String)
  /-- A reason given by a behaviour. -/
  | other (reason : String)
  deriving DecidableEq, Repr

/-- The reason in words. -/
def PathFault.reason : PathFault → String
  | .empty => "path is empty"
  | .emptySegment position => "segment " ++ toString position ++ " is empty"
  | .foreignRoot root state =>
    "root segment '" ++ root ++ "' does not name state '" ++ state ++ "'"
  | .noInnerState state name => "state '" ++ state ++ "' has no inner state '" ++ name ++ "'"
  | .other reason => reason

/-- A chain of state names: the root and the segments below it. -/
structure StatePath where
  root : String
  /-- Names of the states below it, outermost first. -/
  inner : List String
  deriving DecidableEq, Repr

namespace StatePath

/-- All segments, root first. -/
def segments (path : StatePath) : List String := path.root :: path.inner

/-- The innermost segment. -/
def leaf (path : StatePath) : String := path.inner.getLast?.getD path.root

/-- Number of segments. -/
def depth (path : StatePath) : Nat := path.segments.length

/-- Segments joined by the separator. -/
def joined (segments : List String) : String := String.intercalate separator segments

/-- The path as text. -/
def text (path : StatePath) : String := joined path.segments

/-- Position of the first empty segment. -/
def firstEmpty? (segments : List String) : Option Nat := segments.findIdx? String.isEmpty

/-- Read a path.  An empty text is refused as such, any other at its first empty piece. -/
def parse (text : String) : Except PathFault StatePath :=
  if text.isEmpty then .error .empty
  else
    match (pieces text.toList).map String.ofList with
    | [] => .error .empty
    | root :: inner =>
      match firstEmpty? (root :: inner) with
      | some position => .error (.emptySegment position)
      | none => .ok ⟨root, inner⟩

end StatePath

end Statechart
