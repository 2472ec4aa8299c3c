import Statechart.Machine.State
import Mathlib.Data.List.Basic
import Mathlib.Data.List.Nodup

/-!
# The tree of a state

Everything beneath a state, cut in two: the active chain and what is off it.  Two inductions follow
the two ways of going down, and selecting is said to move the focus among the inner states.
-/
namespace Statechart

namespace State

variable {H : Host} {core core' : Core H} {routes : Routes} {before after : List (State H)}
  {active active' s t : State H}

/-- Induction down the active chain. -/
theorem chainInduction {motive : State H → Prop} (leaf : ∀ core, motive (.leaf core))
    (composite : ∀ core routes before active after, motive active →
      motive (.composite core routes before active after)) : ∀ state, motive state
  | .leaf core => leaf core
  | .composite core routes before active after =>
    composite core routes before active after (chainInduction leaf composite active)

/-- Induction over a tree: what holds of all inner states of a state holds of the state. -/
theorem treeInduction {motive : State H → Prop} (leaf : ∀ core, motive (.leaf core))
    (composite : ∀ core routes before active after,
      (∀ child ∈ before ++ active :: after, motive child) →
      motive (.composite core routes before active after)) (state : State H) : motive state := by
  refine @State.rec H motive (fun states => ∀ child ∈ states, motive child) leaf ?_ ?_ ?_ state
  · intro core routes before active after inBefore here inAfter
    refine composite core routes before active after fun child mem => ?_
    rcases List.mem_append.1 mem with mem | mem
    · exact inBefore child mem
    · rcases List.mem_cons.1 mem with rfl | mem
      · exact here
      · exact inAfter child mem
  · simp
  · intro state rest here inRest child mem
    rcases List.mem_cons.1 mem with rfl | mem
    · exact here
    · exact inRest child mem

/-! ## Subtrees -/

@[simp] theorem forest_nil : forest ([] : List (State H)) = [] := by simp [forest]

@[simp] theorem forest_cons (rest : List (State H)) :
    forest (s :: rest) = s.subtree ++ forest rest := by
  simp [forest]

@[simp] theorem forest_append (xs ys : List (State H)) :
    forest (xs ++ ys) = forest xs ++ forest ys := by
  induction xs with
  | nil => simp
  | cons x xs ih => simp [ih]

theorem mem_forest {states : List (State H)} :
    t ∈ forest states ↔ ∃ s ∈ states, t ∈ s.subtree := by
  induction states with
  | nil => simp
  | cons s rest ih => simp [ih]

/-- What holds of all states in all trees of a forest. -/
theorem forall_mem_forest {states : List (State H)} {p : State H → Prop} :
    (∀ t ∈ forest states, p t) ↔ ∀ s ∈ states, ∀ t ∈ s.subtree, p t := by
  constructor
  · intro h s mem t inside
    exact h t (mem_forest.2 ⟨s, mem, inside⟩)
  · intro h t mem
    obtain ⟨s, mem, inside⟩ := mem_forest.1 mem
    exact h s mem t inside

theorem subtree_eq (s : State H) : s.subtree = s :: forest s.children := by
  cases s <;> simp [subtree, children]

theorem self_mem_subtree (s : State H) : s ∈ s.subtree := by simp [subtree_eq]

/-- A state in a tree is the one at its top, or it is in the tree of an inner state. -/
theorem mem_subtree : t ∈ s.subtree ↔ t = s ∨ ∃ child ∈ s.children, t ∈ child.subtree := by
  rw [subtree_eq, List.mem_cons, mem_forest]

theorem child_mem_subtree {child : State H} (mem : child ∈ s.children) : child ∈ s.subtree :=
  mem_subtree.2 (.inr ⟨child, mem, self_mem_subtree child⟩)

/-- The states beneath a state that are not on its active chain. -/
def offChain : State H → List (State H)
  | .leaf _ => []
  | .composite _ _ before active after => forest before ++ forest after ++ active.offChain

/-- Every state beneath a state is on its active chain or off it. -/
theorem mem_subtree_iff : t ∈ s.subtree ↔ t ∈ s.chain ∨ t ∈ s.offChain := by
  induction s using chainInduction with
  | leaf core => simp [subtree, chain, offChain]
  | composite core routes before active after ih =>
    simp only [subtree, chain, offChain, List.mem_cons, List.mem_append, ih]
    tauto

/-- A state at some depth of the active chain is one of the tree. -/
theorem mem_subtree_of_getElem? {depth : Nat} (here : s.chain[depth]? = some t) : t ∈ s.subtree :=
  mem_subtree_iff.2 (.inl (List.mem_of_getElem? here))

theorem chain_ne_nil (s : State H) : s.chain ≠ [] := by cases s <;> simp [chain]

/-- The chain starts with the state itself. -/
theorem head?_chain (s : State H) : s.chain.head? = some s := by cases s <;> simp [chain]

theorem getElem?_chain_zero (s : State H) : s.chain[0]? = some s := by
  rw [← List.head?_eq_getElem?, head?_chain]

theorem chain_eq_cons (s : State H) : ∃ deeper, s.chain = s :: deeper := by
  cases s with
  | leaf core => exact ⟨[], rfl⟩
  | composite core routes before active after => exact ⟨active.chain, rfl⟩

/-! ## Selecting -/

@[simp] theorem address_select (name : String) (s : State H) :
    (s.select name).address = s.address := by
  simp [address]

theorem exists_focus {name : String} {states : List (State H)}
    (mem : name ∈ states.map State.name) : ∃ parts, focus name states = some parts := by
  induction states with
  | nil => simp at mem
  | cons state rest ih =>
    by_cases h : state.name = name
    · exact ⟨([], state, rest), by simp [focus, h]⟩
    · have inRest : name ∈ rest.map State.name := by
        rw [List.map_cons, List.mem_cons] at mem
        exact mem.resolve_left fun eq => h eq.symm
      obtain ⟨parts, found⟩ := ih inRest
      exact ⟨(state :: parts.1, parts.2.1, parts.2.2), by simp [focus, h, found]⟩

/-- Selecting moves the focus among the inner states, to the one of the name if there is one. -/
theorem exists_select (name : String) (core : Core H) (routes : Routes)
    (before : List (State H)) (active : State H) (after : List (State H)) :
    ∃ before' active' after',
      (composite core routes before active after).select name =
        .composite core routes before' active' after' ∧
      before' ++ active' :: after' = before ++ active :: after ∧
      (name ∈ (before ++ active :: after).map State.name → active'.name = name) := by
  rcases found : focus name (before ++ active :: after) with _ | ⟨before', active', after'⟩
  · refine ⟨before, active, after, by simp [select, found], rfl, fun mem => ?_⟩
    obtain ⟨parts, here⟩ := exists_focus mem
    rw [found] at here
    contradiction
  · obtain ⟨eq, named⟩ := focus_eq_some found
    exact ⟨before', active', after', by simp [select, found], eq.symm, fun _ => named⟩

end State

end Statechart
