import Statechart.Path

/-!
# Addresses

An address identifies a state for good: by the machine it belongs to and the names on the way
down to it.  Mailboxes and scopes are kept by address, so a handle to one stays good whatever
becomes of the machine.
-/
namespace Statechart

/-- The place of a state. -/
structure Address where
  machine : Nat
  /-- Names of the states around it, innermost first. -/
  above : List String
  name : String
  deriving DecidableEq, Repr

namespace Address

/-- The place of a machine's root. -/
def root (machine : Nat) (name : String) : Address := ⟨machine, [], name⟩

/-- The place of an inner state. -/
def inner (address : Address) (name : String) : Address :=
  ⟨address.machine, address.name :: address.above, name⟩

/-- Names from the root down to the state. -/
def names (address : Address) : List String := (address.name :: address.above).reverse

/-- The names joined by the separator. -/
def text (address : Address) : String := StatePath.joined address.names

@[simp] theorem name_inner (address : Address) (name : String) :
    (address.inner name).name = name := rfl

@[simp] theorem names_inner (address : Address) (name : String) :
    (address.inner name).names = address.names ++ [name] := by
  simp [names, inner]

end Address

end Statechart
