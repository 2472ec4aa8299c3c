import Statechart.Machine.Store
import Statechart.Real.Shortest
import Statechart.Script.Act

/-!
# The stage

The host of scripted behaviours.  Its behaviours are actors: a part to play with a counter and the
number of times each callback was fired.  What they share are the injectors that have been
registered, by name, and the cells.
-/
namespace Statechart.Script

/-- The kinds of actors. -/
inductive Kind
  | node
  /-- An actor that plays its part, of another type. -/
  | alt
  /-- An actor without a part, whose callbacks do nothing. -/
  | blank
  deriving DecidableEq, Repr

/-- What an actor does in each callback. -/
structure Part where
  entry : List Act
  step : List Act
  exit : List Act

/-- How often each callback was fired. -/
structure Calls where
  entries : Nat
  steps : Nat
  exits : Nat
  deriving DecidableEq, Repr

namespace Calls

/-- Count a callback. -/
def record (phase : Phase) (calls : Calls) : Calls :=
  match phase with
  | .entry => { calls with entries := calls.entries + 1 }
  | .step => { calls with steps := calls.steps + 1 }
  | .exit => { calls with exits := calls.exits + 1 }

/-- How often a callback was fired. -/
def of (phase : Phase) (calls : Calls) : Nat :=
  match phase with
  | .entry => calls.entries
  | .step => calls.steps
  | .exit => calls.exits

/-- The three numbers. -/
def toList (calls : Calls) : List Int := [calls.entries, calls.steps, calls.exits]

end Calls

/-- A scripted behaviour with what it keeps. -/
structure Actor where
  kind : Kind
  part : Part
  /-- What it counts on demand. -/
  counter : Int64
  calls : Calls

/-- An actor that has done nothing yet. -/
def Actor.new (kind : Kind) (part : Part) : Actor := ⟨kind, part, 0, ⟨0, 0, 0⟩⟩

/-- What watches the path of a scripted machine. -/
inductive Watcher
  | log (name : String)
  /-- Posts a command through an injector on every change. -/
  | post (injector : String) (order : Order)

/-- What scripts share. -/
structure Desk where
  /-- Registered injectors: the states whose mailboxes they post to. -/
  injectors : Registry String Address
  cells : List Int64

/-- What scripts put on record. -/
inductive Remark
  /-- The behaviour of a row has been made. -/
  | made (tag name : String)
  | began (state : String) (phase : Phase)
  | acted (state act : String) (shown : Shown)
  | saw (watcher oldPath newPath : String)
  /-- A watcher has posted a command; there may be no injector of the name. -/
  | relayed (injector : String) (accepted : Option Bool)

/-- The host of scripted behaviours. -/
def stage : Host := ⟨Actor, Watcher, Desk, Remark⟩

/-- What a value shows; a cell shows what it holds. -/
def showContent (cells : List Int64) : ValueContent → Shown
  | .integer value => .integer value
  | .truth value => .truth value
  | .text value => .text value
  | .real value => .text value.text
  | .unit => .text "()"
  | .integers values => .integers values
  | .optional value => .optional value
  | .cell handle => .integer ((cells[handle]?.map Int64.toInt).getD 0)

namespace Desk

/-- A desk with nothing on it. -/
def empty : Desk := ⟨.empty, []⟩

/-- A value from its written form; a cell is added to the desk. -/
def realize (desk : Desk) : Payload → Value × Desk
  | .value value => (value, desk)
  | .cell typeName start =>
    (⟨typeName, .cell desk.cells.length⟩, { desk with cells := desk.cells ++ [start] })

/-- A command from its written form. -/
def realizeOrder (desk : Desk) (order : Order) : Command × Desk :=
  match order.args with
  | none => (⟨order.tag, none⟩, desk)
  | some payload =>
    let (value, desk) := desk.realize payload
    (⟨order.tag, some value⟩, desk)

/-- Add to a cell; the sum wraps around. -/
def bump (desk : Desk) (handle : Nat) (amount : Int) : Int × Desk :=
  let sum := desk.cells[handle]?.getD 0 + Int64.ofInt amount
  (sum.toInt, { desk with cells := desk.cells.set handle sum })

end Desk

end Statechart.Script
