import Statechart.Mailbox
import Statechart.Json.Printer
import Statechart.Json.Reader

/-!
# Machine configuration

The settings of a machine, which hold for its root and for every state beneath it, and their JSON
form.  A field that the document leaves out has its default.
-/
namespace Statechart

/-- The settings of a machine. -/
structure Config where
  policy : MailboxPolicy
  /-- Tables whose rows share a tag are refused. -/
  strict : Bool
  deriving DecidableEq, Repr

/-- The name of a policy in documents. -/
def MailboxPolicy.name : MailboxPolicy → String
  | .keepPending => "keep_pending"
  | .replacePending => "replace_pending"

/-- The policy of a name. -/
def MailboxPolicy.ofName? (name : String) : Option MailboxPolicy :=
  [MailboxPolicy.keepPending, .replacePending].find? (·.name = name)

/-- The policy that a document names: the name itself, or an object with the name alone, whose
value is null. -/
def MailboxPolicy.ofJson? : Json → Option MailboxPolicy
  | .text (some name) => ofName? name
  | .object [(some name, .null)] => ofName? name
  | _ => none

/-- Why a configuration cannot be had. -/
inductive ConfigFault
  | unreadable
  deriving DecidableEq, Repr

/-- Name of the kind of fault. -/
def ConfigFault.kind : ConfigFault → String
  | .unreadable => "Parse"

/-- The fault in words. -/
def ConfigFault.message : ConfigFault → String
  | .unreadable => "Configuration parse failed"

namespace Config

/-- A waiting command stays, and shared tags are allowed. -/
def default : Config := ⟨.keepPending, false⟩

/-- The names of the fields in documents. -/
def fieldNames : List String := ["mailbox_policy", "strict_transitions"]

/-- The configuration as a document. -/
def toJson (config : Config) : Json :=
  .ofMembers [("mailbox_policy", .string config.policy.name),
    ("strict_transitions", .truth config.strict)]

/-- The configuration that a document describes. -/
def ofJson? (document : Json) : Option Config := do
  match ← document.record? fieldNames with
  | [policy, strict] =>
    let policy ← policy.elim (some default.policy) MailboxPolicy.ofJson?
    let strict ← strict.elim (some default.strict) Json.truth?
    some ⟨policy, strict⟩
  | _ => none

/-- The configuration as text. -/
def write (config : Config) : String := config.toJson.pretty

/-- Read a configuration. -/
def read (s : String) : Except ConfigFault Config :=
  match (Json.read? s).bind ofJson? with
  | none => .error .unreadable
  | some config => .ok config

/-- The configuration as inspections show it. -/
def inspect (config : Config) : String :=
  Text.record "MachineConfig"
    [("mailbox_policy", config.policy.inspect), ("strict_transitions", Text.truth config.strict)]

end Config

end Statechart
