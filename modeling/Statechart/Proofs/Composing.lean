import Statechart.Proofs.Building

/-!
# What operations are made of

Some properties of operations pass on to what is made of them.  Such a property holds of firing the
callbacks of a state, in whatever order they are due, if it holds of firing one.  And it holds of
building if it holds of the programs that make the behaviours of the states that are built: but for
these, building gives notices and does nothing else to the store.
-/
namespace Statechart

variable {H : Host}

/-- The property passes from operations to what is made of them, as far as they go. -/
structure Composes (P : ∀ {α : Type}, StoreM H α → Prop) : Prop where
  pure : ∀ {α : Type} (a : α), P (Pure.pure a : StoreM H α)
  bind : ∀ {α β : Type} {x : StoreM H α} {f : α → StoreM H β}, P x → (∀ σ, P (f (x.run σ).1)) →
    P (x >>= f)
  note : ∀ notice : Notice, P (Store.note (H := H) notice)

namespace Blueprint

open State

/-- The program makes the behaviour of a state that is built from the blueprint. -/
inductive Makes : Blueprint H → Program H H.Behavior → Prop
  | own (make : Program H H.Behavior) (rows : List (Row (Blueprint H))) : Makes (.mk make rows) make
  | inner {make program : Program H H.Behavior} {rows : List (Row (Blueprint H))}
    {row : Row (Blueprint H)} (mem : row ∈ Table.builders [] rows) (within : Makes row.target program) :
    Makes (.mk make rows) program

end Blueprint

namespace Composes

variable {P : ∀ {α : Type}, StoreM H α → Prop}

open Blueprint

/-! ## Callbacks -/

section Callbacks

variable [Conduct H]

theorem advance (h : Composes P)
    (entry : ∀ command (core : Core H), P (core.call .entry (fun _ => none) command Conduct.entry))
    (step : ∀ command (core : Core H), P (core.call .step id command Conduct.step))
    (command : Option Command) (core : Core H) : P (core.advance command) := by
  have entered : P (core.enter command) := by
    rw [Core.enter]
    split
    · exact h.pure _
    · refine h.bind (entry _ _) fun _ => ?_
      split <;> exact h.pure _
  refine h.bind entered fun _ => ?_
  split
  · exact h.pure _
  · exact step _ _

theorem leave (h : Composes P)
    (exit : ∀ core : Core H, P (core.call .exit (fun _ => none) none Conduct.exit)) (core : Core H) :
    P core.leave := by
  rw [Core.leave]
  split
  · exact exit _
  · exact h.pure _

end Callbacks

/-! ## Building -/

mutual

/-- What holds of the programs that make behaviours holds of building. -/
theorem build (h : Composes P) (config : Config) (place : Address) (typeName : String) :
    ∀ blueprint : Blueprint H, (∀ program, blueprint.Makes program → P program.run) →
      P (blueprint.build config place typeName)
  | .mk make rows, made => by
    have warned (labels : List String) :
        P (labels.forM fun label => Store.note (.tagShared place.name label)) := by
      induction labels with
      | nil => exact h.pure ()
      | cons label rest ih => exact h.bind (h.note _) fun _ => ih
    rw [Blueprint.build]
    refine h.bind (made make (.own make rows)) fun _ => ?_
    split
    · exact h.pure _
    · dsimp only
      split
      · exact h.pure _
      · refine h.bind (warned _) fun _ => h.bind (buildRows h config place rows []
          fun row mem program within => made program (.inner mem within)) fun _ => ?_
        split
        · exact h.pure _
        · split <;> exact h.pure _

theorem buildRows (h : Composes P) (config : Config) (owner : Address) :
    ∀ (rows : List (Row (Blueprint H))) (states : List (State H)),
      (∀ row ∈ Table.builders (states.map State.name) rows, ∀ program, row.target.Makes program →
        P program.run) →
      P (Blueprint.buildRows config owner states rows)
  | [], states, _ => by
    rw [Blueprint.buildRows]
    exact h.pure _
  | row :: rest, states, made => by
    rw [Blueprint.buildRows]
    rcases found : built? states row.name with _ | state
    · rw [Table.builders, if_neg (not_mem_of_built? found), List.forall_mem_cons] at made
      refine h.bind (buildRow h config owner row made.1) fun σ => ?_
      rcases run : (Blueprint.buildRow config owner row).run σ with ⟨fault | s, σ'⟩
      · exact h.pure _
      · have named : s.name = row.name := name_of_buildRow run
        refine buildRows h config owner rest (states ++ [s]) ?_
        rw [List.map_append, List.map_singleton, named]
        exact made.2
    · rw [Table.builders, if_pos (mem_of_built? found)] at made
      dsimp only
      split
      · exact h.bind (h.note _) fun _ => buildRows h config owner rest states made
      · exact buildRows h config owner rest states made

theorem buildRow (h : Composes P) (config : Config) (owner : Address) :
    ∀ row : Row (Blueprint H), (∀ program, row.target.Makes program → P program.run) →
      P (Blueprint.buildRow config owner row)
  | ⟨_, name, typeName, _, target⟩, made => by
    rw [Blueprint.buildRow]
    exact build h config (owner.inner name) typeName target made

end

end Composes

end Statechart
