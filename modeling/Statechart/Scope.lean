import Statechart.Text
import Statechart.Value

/-!
# Scopes

A scope holds variables by name.  Variables are only ever added: a name that is taken keeps its
value.
-/
namespace Statechart

/-- Variables by name, in the order they were added. -/
structure Scope where
  /-- The variables; no name occurs twice. -/
  entries : List (String × Value)
  deriving DecidableEq, Repr

/-- How a variable fails to be read. -/
inductive LookupFault
  | missing
  | otherType
  deriving DecidableEq, Repr

namespace Scope

/-- A scope without variables. -/
def empty : Scope := ⟨[]⟩

/-- The variable of a name. -/
def get? (scope : Scope) (name : String) : Option Value := scope.entries.lookup name

/-- The name is taken. -/
def contains (scope : Scope) (name : String) : Bool := (scope.get? name).isSome

/-- Add a variable.  The answer says whether the name was free; a taken name changes nothing. -/
def insert (scope : Scope) (name : String) (value : Value) : Bool × Scope :=
  if scope.contains name then (false, scope) else (true, ⟨scope.entries ++ [(name, value)]⟩)

/-- Read a variable as of a type. -/
def read (scope : Scope) (name typeName : String) : Except LookupFault ValueContent :=
  match scope.get? name with
  | none => .error .missing
  | some value =>
    match value.as? typeName with
    | none => .error .otherType
    | some content => .ok content

/-- Number of variables. -/
def size (scope : Scope) : Nat := scope.entries.length

/-- Names of the variables, ascending by code points. -/
def names (scope : Scope) : List String :=
  (scope.entries.map Prod.fst).mergeSort fun x y => decide (x ≤ y)

/-- The scope as inspections show it. -/
def inspect (scope : Scope) : String :=
  Text.record "VariableScope" [("names", Text.list (scope.names.map Text.quote))]

@[simp] theorem get?_empty (name : String) : empty.get? name = none := rfl

theorem get?_insert_of_get? {scope : Scope} {name : String} {value : Value}
    (h : scope.get? name = some value) (other : String) (added : Value) :
    (scope.insert other added).2.get? name = some value := by
  unfold insert
  split
  · exact h
  · simp only [get?] at h ⊢
    rw [List.lookup_append, h]; rfl

theorem get?_insert_self {scope : Scope} {name : String} (value : Value)
    (h : scope.get? name = none) : (scope.insert name value).2.get? name = some value := by
  have free : scope.contains name = false := by simp [contains, h]
  simp only [insert, free, Bool.false_eq_true, if_false, get?] at h ⊢
  simp [List.lookup_append, h]

end Scope

end Statechart
