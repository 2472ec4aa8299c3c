import Statechart.Config
import Statechart.Fault
import Statechart.Machine.Notice

/-!
# Acts

A scripted behaviour is a list of acts for each of its callbacks.  Most acts look at something
and put what they saw on record; some end the callback.  An act may depend on a condition, and
may be tried so that its fault is recorded and forgotten.
-/
namespace Statechart.Script

/-- A value as a script writes it.  A cell is made anew each time it is written. -/
inductive Payload
  | value (value : Value)
  /-- A new cell of a type, with what it holds at first. -/
  | cell (typeName : String) (start : Int64)
  deriving DecidableEq

/-- A command as a script writes it. -/
structure Order where
  tag : Tag
  args : Option Payload
  deriving DecidableEq

/-- What an act may depend on. -/
inductive Condition
  | tag (tag : Tag)
  /-- The callback is fired for the time of this number. -/
  | nth (count : Nat)
  /-- The number of times that the callback was fired is a multiple. -/
  | every (count : Nat)
  | command (present : Bool)
  deriving DecidableEq

/-- An act of a script. -/
inductive Act
  /-- Read the command as a member of a set. -/
  | command (set : CommandSet)
  /-- Ask whether the command is of a family. -/
  | available (family : String)
  | args (typeName : String)
  | argsType
  /-- Inspect the command. -/
  | raw
  /-- Inspect all that the callback sees. -/
  | inspect
  | lookup (name typeName : String)
  /-- Ask whether there is a variable. -/
  | has (name : String)
  /-- Add to the cell in a variable. -/
  | bump (name typeName : String) (amount : Int)
  | count
  /-- Say how often each callback was fired. -/
  | calls
  | post (injector : String) (order : Order)
  | pending (injector : String)
  | fail (fault : Fault)
  /-- End with a request. -/
  | go (tag : Tag)
  /-- End without a request. -/
  | stop
  /-- End with a request of the command's own tag, if there is a command. -/
  | echo
  /-- End with a request of the command's tag, read as a member of a set, unless it is the member
  for "no command". -/
  | follow (set : CommandSet)
  | when (condition : Condition) (act : Act)
  /-- Act, and forget a fault. -/
  | attempt (act : Act)

/-- Name of an act on record.  Acts that are not recorded have none. -/
def Act.name : Act → String
  | .command _ => "cmd"
  | .available _ => "avail"
  | .args _ => "args"
  | .argsType => "args_type"
  | .raw => "raw"
  | .inspect => "debug"
  | .lookup .. => "var"
  | .has _ => "has"
  | .bump .. => "bump"
  | .count => "count"
  | .calls => "calls"
  | .post .. => "post"
  | .pending _ => "pending"
  | .attempt _ => "try"
  | .fail _ | .go _ | .stop | .echo | .follow _ | .when .. => ""

/-- Something that was seen, as it is put on record. -/
inductive Shown
  | nothing
  | truth (value : Bool)
  | integer (value : Int)
  | text (value : String)
  | integers (values : List Int)
  | optional (value : Option Int)
  | fault (fault : Fault)
  deriving DecidableEq

/-- Something that may not be there. -/
def Shown.ofOption {α : Type} (shown : α → Shown) : Option α → Shown
  | none => .nothing
  | some value => shown value

end Statechart.Script
