import Statechart.Command
import Statechart.Table

/-!
# Notices

What a machine tells about its own doings while it works: a level, a message and named fields.
-/
namespace Statechart

/-- The callbacks of a behaviour. -/
inductive Phase
  | entry
  | step
  | exit
  deriving DecidableEq, Repr

/-- Name of a phase in notices. -/
def Phase.name : Phase → String
  | .entry => "entry"
  | .step => "do"
  | .exit => "exit"

/-- Something a machine does. -/
inductive Notice
  | callback (phase : Phase) (state : String)
  /-- A state is linked to the scope of a state above it. -/
  | scopeAttached (state : String)
  | reset (state : String)
  | transition (owner source target : String) (tag : Tag)
  /-- Another inner state has been selected without a transition. -/
  | retargeted (owner source target : String)
  | pathRestored (state path : String)
  | variableInjected (state name : String)
  | staleDiscarded (state : String) (command : Command)
  /-- A posted command has been dropped in favour of the one that waits. -/
  | mailboxOccupied (pending dropped : Tag)
  /-- A row names a state that exists with another type. -/
  | nameTaken (owner state existing declared : String)
  | checkpointRestored (checkpoint path : String)
  | tagShared (owner label : String)
  deriving DecidableEq

/-- How much a notice matters. -/
inductive Level
  | trace
  | debug
  | warn
  deriving DecidableEq, Repr

/-- Name of a level. -/
def Level.name : Level → String
  | .trace => "trace"
  | .debug => "debug"
  | .warn => "warn"

namespace Notice

/-- How much the notice matters. -/
def level : Notice → Level
  | .callback .. | .scopeAttached _ => .trace
  | .tagShared .. => .warn
  | _ => .debug

/-- The message. -/
def message : Notice → String
  | .callback phase _ => phase.name
  | .scopeAttached _ => "scope attached"
  | .reset _ => "reset"
  | .transition .. => "transition"
  | .retargeted .. => "current state retargeted"
  | .pathRestored .. => "state path restored"
  | .variableInjected .. => "variable injected"
  | .staleDiscarded .. => "stale command discarded"
  | .mailboxOccupied .. => "mailbox occupied, command dropped"
  | .nameTaken .. => "state name already bound to another type, reusing existing instance"
  | .checkpointRestored .. => "checkpoint restored"
  | .tagShared .. => "transition declared more than once, last entry wins"

/-- The fields by name. -/
def fields : Notice → List (String × String)
  | .callback _ state => [("state", state)]
  | .scopeAttached state => [("state", state)]
  | .reset state => [("state", state)]
  | .transition owner source target tag =>
    [("owner", owner), ("from", source), ("to", target), ("transition", tag.inspectTransition)]
  | .retargeted owner source target => [("owner", owner), ("from", source), ("to", target)]
  | .pathRestored state path => [("state", state), ("path", path)]
  | .variableInjected state name => [("state", state), ("variable", name)]
  | .staleDiscarded state command => [("state", state), ("command", command.inspect)]
  | .mailboxOccupied pending dropped => [("pending", pending.label), ("dropped", dropped.label)]
  | .nameTaken owner state existing declared =>
    [("owner", owner), ("state", state), ("existing", existing), ("declared", declared)]
  | .checkpointRestored checkpoint path => [("checkpoint", checkpoint), ("path", path)]
  | .tagShared owner label => [("owner", owner), ("transition", label)]

end Notice

end Statechart
