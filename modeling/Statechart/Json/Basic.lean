/-!
# JSON documents

A document as a tree.  Numbers keep the characters they were written with, and the members of an
object keep their order and repetitions: what a number or a repeated name means is for the reader
of a particular document to say.
-/
namespace Statechart

/-- A JSON text.  It is absent where an escape names half of a surrogate pair without the other
half, which no string can hold. -/
abbrev JsonText := Option String

/-- A JSON document. -/
inductive Json
  | null
  | truth (value : Bool)
  /-- A number, as written. -/
  | number (written : List Char)
  | text (value : JsonText)
  | array (items : List Json)
  /-- An object: its members in order. -/
  | object (members : List (JsonText × Json))

namespace Json

/-- A text that is a string. -/
def string (s : String) : Json := .text (some s)

/-- A natural number. -/
def nat (n : Nat) : Json := .number (Nat.toDigits 10 n)

/-- An object whose names are strings. -/
def ofMembers (members : List (String × Json)) : Json :=
  .object (members.map fun member => (some member.1, member.2))

/-- The string that a document consists of. -/
def string? : Json → Option String
  | .text value => value
  | _ => none

/-- The truth value that a document consists of. -/
def truth? : Json → Option Bool
  | .truth value => some value
  | _ => none

/-- The natural number below `bound` that a document consists of.  Signs, points and exponents
are not part of a natural number. -/
def natBelow? (bound : Nat) : Json → Option Nat
  | .number written =>
    let n := Nat.ofDigitChars 10 written 0
    if written.all Char.isDigit && decide (n < bound) then some n else none
  | _ => none

/-- The items of a document that is an array. -/
def items? : Json → Option (List Json)
  | .array items => some items
  | _ => none

/-- The value of a name that occurs at most once. -/
def member? (members : List (String × Json)) (name : String) : Option (Option Json) :=
  match members.filter (·.1 = name) with
  | [] => some none
  | [member] => some (some member.2)
  | _ => none

/-- The members of an object, if all names are strings. -/
def named? (members : List (JsonText × Json)) : Option (List (String × Json)) :=
  members.mapM fun member => member.1.map fun name => (name, member.2)

/-- The fields of a record, in the order of `names`; a field may be left out.  An object may hold
other names too, but each field once at most.  An array gives the fields by position. -/
def record? (names : List String) : Json → Option (List (Option Json))
  | .object members => do
    let members ← named? members
    names.mapM (member? members)
  | .array items =>
    if items.length ≤ names.length then
      some (items.map some ++ List.replicate (names.length - items.length) none)
    else none
  | _ => none

/-- The fields of a record of which none may be left out. -/
def fullRecord? (names : List String) (document : Json) : Option (List Json) := do
  let fields ← record? names document
  fields.mapM id

end Json

end Statechart
