/-!
# Registries

Values by key, in the order in which the keys were first given.  `Registry.get?` is the view:
`get?_set_self` and `get?_set_of_ne` say what setting a key does to it.
-/
namespace Statechart

/-- Values by key.  Of a repeated key the first entry counts. -/
structure Registry (κ α : Type) where
  entries : List (κ × α)

namespace Registry

variable {κ α : Type} [DecidableEq κ]

/-- Nothing registered. -/
def empty : Registry κ α := ⟨[]⟩

/-- The value of a key among some entries. -/
def find? (key : κ) : List (κ × α) → Option α
  | [] => none
  | (other, value) :: rest => if other = key then some value else find? key rest

/-- The entries with the value of one key changed, or added at the end. -/
def assign (key : κ) (value : α) : List (κ × α) → List (κ × α)
  | [] => [(key, value)]
  | (other, old) :: rest =>
    if other = key then (key, value) :: rest else (other, old) :: assign key value rest

/-- The value of a key. -/
def get? (registry : Registry κ α) (key : κ) : Option α := find? key registry.entries

/-- The registry with the value of one key set. -/
def set (registry : Registry κ α) (key : κ) (value : α) : Registry κ α :=
  ⟨assign key value registry.entries⟩

@[simp] theorem get?_empty (key : κ) : (empty : Registry κ α).get? key = none := rfl

theorem find?_assign_self (key : κ) (value : α) (entries : List (κ × α)) :
    find? key (assign key value entries) = some value := by
  induction entries with
  | nil => simp [assign, find?]
  | cons entry rest ih =>
    obtain ⟨other, old⟩ := entry
    by_cases h : other = key <;> simp [assign, find?, h, ih]

theorem find?_assign_of_ne {key other : κ} (ne : other ≠ key) (value : α)
    (entries : List (κ × α)) : find? other (assign key value entries) = find? other entries := by
  induction entries with
  | nil => simp [assign, find?, ne.symm]
  | cons entry rest ih =>
    obtain ⟨first, old⟩ := entry
    by_cases h : first = key
    · subst h; simp [assign, find?, ne.symm]
    · by_cases k : first = other
      · subst k; simp [assign, find?, h]
      · simp [assign, find?, h, k, ih]

@[simp] theorem get?_set_self (registry : Registry κ α) (key : κ) (value : α) :
    (registry.set key value).get? key = some value :=
  find?_assign_self key value registry.entries

theorem get?_set_of_ne (registry : Registry κ α) {key other : κ} (ne : other ≠ key) (value : α) :
    (registry.set key value).get? other = registry.get? other :=
  find?_assign_of_ne ne value registry.entries

theorem get?_set (registry : Registry κ α) (key other : κ) (value : α) :
    (registry.set key value).get? other = if other = key then some value else registry.get? other := by
  split
  · next h => subst h; simp
  · next h => exact registry.get?_set_of_ne h value

end Registry

end Statechart
