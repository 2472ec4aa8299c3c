import Statechart.Real.Binary64

/-!
# Typed values

Variables and command payloads are values of a named type.  A value is asked for by type: it is
given out where the names agree and refused otherwise.  A cell is a shared place that the host
keeps; the value is a handle to it, so copies of it lead to the same place.
-/
namespace Statechart

/-- What a value holds. -/
inductive ValueContent
  /-- An integer of whatever width the type has. -/
  | integer (value : Int)
  | truth (value : Bool)
  | text (value : String)
  | real (value : Binary64)
  | unit
  | integers (values : List Int)
  | optional (value : Option Int)
  /-- A handle to a shared cell. -/
  | cell (handle : Nat)
  deriving DecidableEq, Repr

/-- A value with the name of its type. -/
structure Value where
  /-- The type's name, as errors show it. -/
  typeName : String
  content : ValueContent
  deriving DecidableEq, Repr

/-- The content, if the value is of the type. -/
def Value.as? (value : Value) (typeName : String) : Option ValueContent :=
  if value.typeName = typeName then some value.content else none

end Statechart
