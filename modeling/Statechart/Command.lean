import Statechart.Tag
import Statechart.Text
import Statechart.Value

/-!
# Commands

A command is a tag, with or without a payload.  A command set is a family of tags of which one
member may stand for "no command": reading a command as a member of the set falls back on it.
-/
namespace Statechart

/-- A tag with an optional payload. -/
structure Command where
  tag : Tag
  args : Option Value
  deriving DecidableEq, Repr

namespace Command

/-- The payload, if there is one and it is of the type. -/
def argsAs? (command : Command) (typeName : String) : Option ValueContent :=
  command.args.bind (·.as? typeName)

/-- Name of the payload's type. -/
def argsType (command : Command) : Option String := command.args.map (·.typeName)

/-- The command as notices show it. -/
def inspect (command : Command) : String :=
  Text.record "Command"
    [("tag", command.tag.label), ("args_type", Text.optional (command.argsType.map Text.quote))]

end Command

/-- A family of tags that commands are read by. -/
structure CommandSet where
  family : String
  /-- The member that stands for "no command". -/
  none? : Option String
  deriving DecidableEq, Repr

namespace CommandSet

/-- The member that stands for "no command", as a tag. -/
def noneTag? (set : CommandSet) : Option Tag := set.none?.map fun name => ⟨set.family, .symbol name⟩

/-- The tag of a command, if it belongs to the set. -/
def member? (set : CommandSet) (command : Option Command) : Option Tag :=
  command.bind fun command => if command.tag.family = set.family then some command.tag else none

/-- The command read as a member of the set: any other command, and no command at all, is the
member for "no command".  A set without such a member cannot be read. -/
def read? (set : CommandSet) (command : Option Command) : Option Tag :=
  set.noneTag?.map (set.member? command).getD

end CommandSet

end Statechart
