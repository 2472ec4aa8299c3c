import Statechart.Fault
import Statechart.History
import Statechart.Machine.Address
import Statechart.Mailbox
import Statechart.Scope

/-!
# Hosts and their programs

A host supplies what a machine runs: behaviours with the data they keep, observers of path
changes, and what all of them share beside the machine.  A callback is a program: it may read and
write what is shared, make remarks, post commands to any mailbox and use variables, and it ends
with a result.  It cannot reach into the machine that runs it, and it always ends.

`Conduct` says which program each callback of a behaviour is.
-/
namespace Statechart

/-- What a machine's behaviours are made of. -/
structure Host where
  /-- A behaviour together with the data it keeps between callbacks. -/
  Behavior : Type
  Observer : Type
  /-- What behaviours and observers share beside the machine. -/
  Shared : Type
  /-- What behaviours and observers may put on record. -/
  Remark : Type

/-- What a behaviour sees during a callback. -/
structure View where
  name : String
  /-- The command delivered for this cycle. -/
  command : Option Command
  /-- The place of the state whose scope is in sight. -/
  scope : Option Address
  deriving DecidableEq

/-- A program of a host: its effects in order, and its result. -/
inductive Program (H : Host) (α : Type) : Type
  | done (result : α)
  | read (next : H.Shared → Program H α)
  | write (shared : H.Shared) (next : Program H α)
  | remark (said : H.Remark) (next : Program H α)
  /-- Post a command to a state's mailbox; go on with whether it was accepted. -/
  | post (state : Address) (command : Command) (next : Bool → Program H α)
  /-- Ask whether a command waits in a state's mailbox. -/
  | pending (state : Address) (next : Bool → Program H α)
  | look (scope : Address) (next : Scope → Program H α)
  /-- Add a variable to a scope; go on with whether the name was free. -/
  | declare (scope : Address) (name : String) (value : Value) (next : Bool → Program H α)

namespace Program

variable {H : Host} {α β : Type}

/-- Go on with another program. -/
def bind : Program H α → (α → Program H β) → Program H β
  | .done result, f => f result
  | .read next, f => .read fun shared => (next shared).bind f
  | .write shared next, f => .write shared (next.bind f)
  | .remark said next, f => .remark said (next.bind f)
  | .post state command next, f => .post state command fun accepted => (next accepted).bind f
  | .pending state next, f => .pending state fun waiting => (next waiting).bind f
  | .look scope next, f => .look scope fun content => (next content).bind f
  | .declare scope name value next, f =>
    .declare scope name value fun free => (next free).bind f

instance : Monad (Program H) where
  pure := .done
  bind := bind

/-- What is shared. -/
def shared : Program H H.Shared := .read .done

/-- Change what is shared. -/
def setShared (value : H.Shared) : Program H Unit := .write value (.done ())

/-- Put a remark on record. -/
def say (said : H.Remark) : Program H Unit := .remark said (.done ())

end Program

/-- The callbacks of a host's behaviours and observers.  A callback gives back the behaviour with
what it now keeps, also when it fails. -/
class Conduct (H : Host) where
  /-- Fired on the first cycle of a span of activity, before the step. -/
  entry : View → H.Behavior → Program H (Except Fault Unit × H.Behavior)
  /-- Fired once a cycle; may ask the parent for a transition. -/
  step : View → H.Behavior → Program H (Except Fault (Option Tag) × H.Behavior)
  /-- Fired when the state is left. -/
  exit : View → H.Behavior → Program H (Except Fault Unit × H.Behavior)
  /-- Fired after a cycle that changed the path. -/
  notify : PathChange → H.Observer → Program H Unit

end Statechart
