import Statechart.Proofs.Parallel

/-!
# Operations that exchange

Two operations exchange if either may go first: each has the result that it would have had without the
other, and the stores that they leave are the same but for their journals.  What is made of operations
that exchange with another one exchanges with it as well.  So two states may be built in either order if
the programs that make the behaviours of the one and its inner states exchange with those of the other.
-/
namespace Statechart

variable {H : Host} {α β : Type}

/-! ## Stores but for their journals -/

/-- Journals are not compared. -/
def Unread (_ _ : List (Event H)) : Prop := True

theorem tolerant_unread : Tolerant (Unread (H := H)) where
  both _ _ := trivial
  left _ _ := trivial
  right _ _ := trivial

namespace Store.Twins

variable {σ σ₁ σ₂ σ₃ : Store H}

theorem refl (σ : Store H) : Twins Unread σ σ := ⟨fun _ => rfl, rfl, rfl, rfl, rfl, rfl, trivial⟩

theorem symm (h : Twins Unread σ₁ σ₂) : Twins Unread σ₂ σ₁ :=
  ⟨fun place => (h.mailboxes place).symm, h.scopes.symm, h.histories.symm, h.shared.symm,
    h.machines.symm, h.clock.symm, trivial⟩

theorem trans (h : Twins Unread σ₁ σ₂) (k : Twins Unread σ₂ σ₃) : Twins Unread σ₁ σ₃ :=
  ⟨fun place => (k.mailboxes place).trans (h.mailboxes place), k.scopes.trans h.scopes,
    k.histories.trans h.histories, k.shared.trans h.shared, k.machines.trans h.machines,
    k.clock.trans h.clock, trivial⟩

/-- What is put on record does not show. -/
theorem logged (event : Event H) (σ : Store H) : Twins Unread σ (σ.after (Store.log event)) :=
  { refl σ with }

end Store.Twins

/-! ## Exchange -/

/-- Either operation may go first. -/
def Exchange (x : StoreM H α) (y : StoreM H β) : Prop :=
  ∀ σ, (x.run (σ.after y)).1 = (x.run σ).1 ∧ (y.run (σ.after x)).1 = (y.run σ).1 ∧
    Store.Twins Unread ((σ.after x).after y) ((σ.after y).after x)

section

variable {x : StoreM H α} {y : StoreM H β}

theorem Exchange.symm (h : Exchange x y) : Exchange y x :=
  fun σ => ⟨(h σ).2.1, (h σ).1, (h σ).2.2.symm⟩

theorem Exchange.pure (a : α) (y : StoreM H β) : Exchange (pure a) y :=
  fun _ => ⟨rfl, rfl, .refl _⟩

/-- What is put on record does not matter to anything that does not see the journal. -/
theorem Exchange.log (event : Event H) {y : StoreM H β} (even : Even Unread y) :
    Exchange (Store.log event) y := by
  intro σ
  obtain ⟨same, left⟩ := even _ _ (Store.Twins.logged event σ)
  exact ⟨rfl, same.symm, left.symm.trans (.logged event _)⟩

/-- One operation and then another exchange with what each of them exchanges with. -/
theorem Exchange.bind {γ : Type} {f : α → StoreM H γ} (first : Exchange x y)
    (next : ∀ σ, Exchange (f (x.run σ).1) y) (even : ∀ σ, Even Unread (f (x.run σ).1)) :
    Exchange (x >>= f) y := by
  intro σ
  obtain ⟨same, same', twins⟩ := first σ
  obtain ⟨later, later', twins'⟩ := next σ (σ.after x)
  -- after `y` the operation `x` gives the same result and leaves twins, on which `f` runs in parallel
  have going : ((f (x.run σ).1).run ((σ.after y).after x)).1 =
        ((f (x.run σ).1).run ((σ.after x).after y)).1 ∧
      Store.Twins Unread (((σ.after x).after y).after (f (x.run σ).1))
        (((σ.after y).after x).after (f (x.run σ).1)) :=
    (even σ _ _ twins).imp_left Eq.symm
  have all : (x >>= f).run (σ.after y) = (f (x.run σ).1).run ((σ.after y).after x) := by
    rw [StoreM.run_bind, same]
    rfl
  have ending : (σ.after y).after (x >>= f) = ((σ.after y).after x).after (f (x.run σ).1) :=
    congrArg Prod.snd all
  refine ⟨?_, later'.trans same', ?_⟩
  · rw [all]
    exact going.1.trans later
  · rw [ending]
    exact twins'.trans going.2

end

/-- The program does nothing but to end with its result, or to put something on record before. -/
inductive Program.Fresh : Program H α → Prop
  | done (result : α) : Fresh (.done result)
  | remark (said : H.Remark) {next : Program H α} (fresh : Fresh next) : Fresh (.remark said next)

/-- Such a program exchanges with all that does not see the journal. -/
theorem Program.Fresh.exchange {program : Program H α} (h : program.Fresh) {y : StoreM H β}
    (even : Even Unread y) : Exchange program.run y := by
  induction h with
  | done result => exact .pure result y
  | remark said _ ih =>
    exact (Exchange.log _ even).bind (fun _ => ih) fun _ => tolerant_unread.program _

/-! ## What exchanges -/

theorem composes_exchange {y : StoreM H β} (even : Even Unread y) :
    Composes (H := H) fun x => Even Unread x ∧ Exchange x y where
  pure a := ⟨.pure a, .pure a y⟩
  bind first next :=
    ⟨tolerant_unread.composes.bind first.1 fun σ => (next σ).1,
      first.2.bind (fun σ => (next σ).2) fun σ => (next σ).1⟩
  note notice := ⟨tolerant_unread.note notice, .log _ even⟩

namespace Blueprint

variable {config : Config} {place place' : Address} {typeName typeName' : String}
  {blueprint blueprint' : Blueprint H}

/-- Building does not see the journal. -/
theorem even_build {J : List (Event H) → List (Event H) → Prop} (tolerant : Tolerant J)
    (config : Config) (place : Address) (typeName : String) (blueprint : Blueprint H) :
    Even J (blueprint.build config place typeName) :=
  tolerant.composes.build config place typeName blueprint fun program _ =>
    tolerant.program program

/-- States may be built in either order if the programs that make their behaviours exchange. -/
theorem exchange_build (exchange : ∀ program, blueprint.Makes program →
      ∀ program', blueprint'.Makes program' → Exchange program.run program'.run) :
    Exchange (blueprint.build config place typeName) (blueprint'.build config place' typeName') := by
  have even := even_build tolerant_unread config place' typeName' blueprint'
  refine ((composes_exchange even).build config place typeName blueprint
    fun program made => ⟨tolerant_unread.program program, ?_⟩).2
  exact ((composes_exchange (tolerant_unread.program program)).build config place' typeName' blueprint'
    fun program' made' => ⟨tolerant_unread.program program', (exchange _ made _ made').symm⟩).2.symm

end Blueprint

end Statechart
