import Statechart.Registry

/-!
# Slots

Shared places with handles.  Several handles may lead to one place: what is put there through one
of them is seen through all.
-/
namespace Statechart.Session

/-- Places, and the handles that lead to them. -/
structure Slots (α : Type) where
  /-- The place of each handle. -/
  handles : Registry String Nat
  /-- What the places hold. -/
  contents : List α

namespace Slots

variable {α : Type}

/-- No places. -/
def empty : Slots α := ⟨.empty, []⟩

/-- What a handle leads to. -/
def get? (slots : Slots α) (handle : String) : Option α :=
  (slots.handles.get? handle).bind (slots.contents[·]?)

/-- Let a handle lead to a new place. -/
def place (slots : Slots α) (handle : String) (content : α) : Slots α :=
  ⟨slots.handles.set handle slots.contents.length, slots.contents ++ [content]⟩

/-- Let a handle lead where another one leads. -/
def share (slots : Slots α) (handle other : String) : Slots α :=
  match slots.handles.get? handle with
  | none => slots
  | some index => { slots with handles := slots.handles.set other index }

/-- Change what a place holds. -/
def put (slots : Slots α) (index : Nat) (content : α) : Slots α :=
  { slots with contents := slots.contents.set index content }

/-- Change what a handle leads to. -/
def update (slots : Slots α) (handle : String) (content : α) : Slots α :=
  match slots.handles.get? handle with
  | none => slots
  | some index => slots.put index content

/-- Two handles lead to one place. -/
def same (slots : Slots α) (handle other : String) : Bool :=
  match slots.handles.get? handle, slots.handles.get? other with
  | some x, some y => x == y
  | _, _ => false

end Slots

end Statechart.Session
