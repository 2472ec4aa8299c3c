import Statechart.Command

/-!
# Mailboxes

A mailbox holds at most one command.  What a post does to a command that is already waiting is
the mailbox's policy; handing a command in on the machine's own account ignores the policy.
-/
namespace Statechart

/-- What happens to a command that is posted while another one waits. -/
inductive MailboxPolicy
  /-- The waiting command stays, the new one is dropped. -/
  | keepPending
  /-- The new command takes the place of the waiting one. -/
  | replacePending
  deriving DecidableEq, Repr

/-- The policy as inspections show it. -/
def MailboxPolicy.inspect : MailboxPolicy → String
  | .keepPending => "KeepPending"
  | .replacePending => "ReplacePending"

/-- A place for one command. -/
structure Mailbox where
  policy : MailboxPolicy
  slot : Option Command
  deriving DecidableEq, Repr

namespace Mailbox

/-- A mailbox with nothing in it. -/
def empty (policy : MailboxPolicy) : Mailbox := ⟨policy, none⟩

/-- The command in whose favour a post is dropped. -/
def refusal? (box : Mailbox) : Option Command :=
  match box.policy with
  | .keepPending => box.slot
  | .replacePending => none

/-- Offer a command.  The answer says whether it was accepted. -/
def post (box : Mailbox) (command : Command) : Bool × Mailbox :=
  match box.refusal? with
  | some _ => (false, box)
  | none => (true, { box with slot := some command })

/-- Put a command in whatever the policy, over any that waits. -/
def replace (box : Mailbox) (command : Command) : Mailbox := { box with slot := some command }

/-- Take the waiting command out. -/
def take (box : Mailbox) : Option Command × Mailbox := (box.slot, { box with slot := none })

/-- A command waits. -/
def isPending (box : Mailbox) : Bool := box.slot.isSome

/-- The mailbox as inspections show it: the slot behind its lock, and the policy. -/
def inspect (box : Mailbox) : String :=
  let slot := Text.openRecord "Mutex"
    [("data", Text.optional (box.slot.map Command.inspect)), ("poisoned", Text.truth false)]
  Text.record "Mailbox" [("slot", slot), ("policy", box.policy.inspect)]

/-- A handle for posting to the mailbox, as inspections show it. -/
def inspectInjector (box : Mailbox) : String :=
  Text.record "CommandInjector" [("mailbox", box.inspect)]

@[simp] theorem slot_replace (box : Mailbox) (command : Command) :
    (box.replace command).slot = some command := rfl

@[simp] theorem slot_take (box : Mailbox) : (box.take).2.slot = none := rfl

@[simp] theorem fst_take (box : Mailbox) : (box.take).1 = box.slot := rfl

@[simp] theorem policy_post (box : Mailbox) (command : Command) :
    (box.post command).2.policy = box.policy := by
  unfold post; split <;> rfl

@[simp] theorem policy_take (box : Mailbox) : (box.take).2.policy = box.policy := rfl

end Mailbox

end Statechart
