import Statechart.Proofs.Exchanges
import Statechart.Proofs.Expansion

/-!
# Building in another order

Inner states are built by one operation each, in the order of the rows.  That they are raised by these
operations says that all of them succeed one after another; journals are not compared.  Operations that
exchange raise the same states in every order, and operations of which each yields a state that is
related to what another one yields raise states that are related one by one.
-/
namespace Statechart

variable {H : Host} {α β : Type}

/-- Carried out one after another the operations succeed with these results. -/
inductive Raised {α : Type} : List (StoreM H (Except Fault α)) → Store H → List α → Store H → Prop
  | nil {σ σ' : Store H} (twins : Store.Twins Unread σ σ') : Raised [] σ [] σ'
  | cons {x : StoreM H (Except Fault α)} {xs : List (StoreM H (Except Fault α))}
    {σ σ₁ σ₂ σ' : Store H} {a : α} {as : List α} (twins : Store.Twins Unread σ σ₁)
    (run : x.run σ₁ = (.ok a, σ₂)) (rest : Raised xs σ₂ as σ') : Raised (x :: xs) σ (a :: as) σ'

/-- Where the one operation succeeds the other does so too, with a result that is related. -/
def Yields (Q : α → β → Prop) (x : StoreM H (Except Fault α)) (y : StoreM H (Except Fault β)) : Prop :=
  ∀ σ a σ', x.run σ = (.ok a, σ') →
    ∃ b τ', y.run σ = (.ok b, τ') ∧ Q a b ∧ Store.Twins Unread σ' τ'

namespace Raised

variable {x : StoreM H (Except Fault α)} {xs ys : List (StoreM H (Except Fault α))}
  {σ σ' τ : Store H} {as : List α}

theorem of_twins (h : Raised xs σ as σ') (twins : Store.Twins Unread τ σ) : Raised xs τ as σ' := by
  cases h with
  | nil same => exact .nil (twins.trans same)
  | cons same run rest => exact .cons (twins.trans same) run rest

theorem run_eq_ok {a : α} (h : (x.run σ).1 = .ok a) : x.run σ = (.ok a, σ.after x) :=
  Prod.ext h rfl

/-- Operations that exchange succeed in every order, each with its own result. -/
theorem perm (reordered : xs.Perm ys) (exchange : xs.Pairwise Exchange)
    (even : ∀ x ∈ xs, Even Unread x) (h : Raised xs σ as σ') :
    ∃ bs, Raised ys σ bs σ' ∧ bs.Perm as := by
  induction reordered generalizing σ as with
  | nil => exact ⟨as, h, .refl as⟩
  | cons x _ ih =>
    cases h with
    | cons twins run rest =>
      obtain ⟨bs, raised, same⟩ := ih exchange.of_cons (List.forall_mem_cons.1 even).2 rest
      exact ⟨_ :: bs, .cons twins run raised, same.cons _⟩
  | swap x y l =>
    rcases h with _ | ⟨twins, run, _ | ⟨twins', run', rest⟩⟩
    case cons.cons σ₁ σ₂ b τ₂ σ₃ a as =>
    obtain ⟨same, same', left⟩ := (List.pairwise_cons.1 exchange).1 x List.mem_cons_self σ₁
    obtain ⟨later, left'⟩ := even x (by simp) σ₂ τ₂ twins'
    have after_y : σ₁.after y = σ₂ := congrArg Prod.snd run
    have after_x : τ₂.after x = σ₃ := congrArg Prod.snd run'
    rw [after_y] at same' left
    rw [after_x] at left'
    have first : (x.run σ₁).1 = .ok a := by rw [← same', later, run']
    have second : (y.run (σ₁.after x)).1 = .ok b := by rw [same, run]
    exact ⟨a :: b :: as, .cons twins (run_eq_ok first) (.cons (.refl _) (run_eq_ok second)
      (rest.of_twins (left.symm.trans left'))), .swap _ _ _⟩
  | trans first _ ih ih' =>
    obtain ⟨bs, raised, same⟩ := ih exchange even h
    obtain ⟨cs, raised', same'⟩ := ih' (first.pairwise exchange fun h => h.symm)
      (fun x mem => even x (first.mem_iff.2 mem)) raised
    exact ⟨cs, raised', same'.trans same⟩

/-- Operations that yield related results one by one raise related states. -/
theorem yields {Q : α → β → Prop} {ys : List (StoreM H (Except Fault β))} (h : Raised xs σ as σ')
    (each : List.Forall₂ (Yields Q) xs ys) : ∃ bs, Raised ys σ bs σ' ∧ List.Forall₂ Q as bs := by
  induction h generalizing ys with
  | nil twins =>
    cases each
    exact ⟨[], .nil twins, .nil⟩
  | cons twins run rest ih =>
    cases each with
    | cons first others =>
      obtain ⟨b, τ', run', related, left⟩ := first _ _ _ run
      obtain ⟨bs, raised, all⟩ := ih others
      exact ⟨b :: bs, .cons twins run' (raised.of_twins left.symm), .cons related all⟩

end Raised

namespace Blueprint

open State

variable {config : Config} {place owner : Address} {name typeName : String}
  {make : Program H H.Behavior} {rows : List (Row (Blueprint H))} {s : State H} {σ σ' : Store H}
  {made : List (State H)}

theorem buildRow_eq (config : Config) (owner : Address) (row : Row (Blueprint H)) :
    buildRow config owner row = row.target.build config (owner.inner row.name) row.typeName := by
  cases row
  rw [buildRow]

theorem even_buildRow (config : Config) (owner : Address) (row : Row (Blueprint H)) :
    Even Unread (buildRow config owner row) := by
  rw [buildRow_eq]
  exact even_build tolerant_unread config _ row.typeName row.target

/-- The rows of a table raise its inner states, the first row of every name a new one. -/
theorem raised_of_buildRows (config : Config) (owner : Address) (rows : List (Row (Blueprint H)))
    {states built : List (State H)}
    (run : (buildRows config owner states rows).run σ = (.ok built, σ')) :
    ∃ made, built = states ++ made ∧
      Raised ((Table.builders (states.map State.name) rows).map (buildRow config owner)) σ made σ' := by
  induction rows generalizing states σ with
  | nil =>
    simp only [buildRows, StoreM.run_pure] at run
    obtain ⟨⟨⟩, rfl⟩ := run
    exact ⟨[], by simp, .nil (.refl _)⟩
  | cons row rest ih =>
    rcases found : built? states row.name with _ | state
    · simp only [buildRows, found, StoreM.run_bind] at run
      rcases rowRun : (buildRow config owner row).run σ with ⟨fault | s, σ₁⟩
      · rw [rowRun] at run
        cases run
      · rw [rowRun] at run
        have named : s.name = row.name := name_of_buildRow rowRun
        obtain ⟨made, rfl, raised⟩ := ih run
        rw [List.map_append, List.map_singleton, named] at raised
        rw [Table.builders, if_neg (not_mem_of_built? found)]
        exact ⟨s :: made, by simp, .cons (.refl σ) rowRun raised⟩
    · rw [Table.builders, if_pos (mem_of_built? found)]
      simp only [buildRows, found] at run
      split at run
      · obtain ⟨made, same, raised⟩ := ih run
        exact ⟨made, same, raised.of_twins (.logged _ σ)⟩
      · exact ih run

/-- A table whose rows can raise its inner states builds them. -/
theorem buildRows_of_raised (config : Config) (owner : Address) (rows : List (Row (Blueprint H)))
    (states : List (State H))
    (raised : Raised ((Table.builders (states.map State.name) rows).map (buildRow config owner)) σ
      made σ') :
    ∃ τ', (buildRows config owner states rows).run σ = (.ok (states ++ made), τ') ∧
      Store.Twins Unread σ' τ' := by
  induction rows generalizing states σ made with
  | nil =>
    cases raised with
    | nil twins =>
      rw [buildRows, List.append_nil]
      exact ⟨σ, rfl, twins.symm⟩
  | cons row rest ih =>
    rcases found : built? states row.name with _ | state
    · rw [Table.builders, if_neg (not_mem_of_built? found), List.map_cons] at raised
      rcases raised with _ | ⟨twins, run, raised⟩
      case cons σ₁ σ₂ s made =>
      have named : s.name = row.name := name_of_buildRow run
      obtain ⟨same, left⟩ := even_buildRow config owner row σ σ₁ twins
      have after_row : σ₁.after (buildRow config owner row) = σ₂ := congrArg Prod.snd run
      rw [run] at same
      rw [after_row] at left
      have goes_on : Raised ((Table.builders ((states ++ [s]).map State.name) rest).map
          (buildRow config owner)) (σ.after (buildRow config owner row)) made σ' := by
        rw [List.map_append, List.map_singleton, named]
        exact raised.of_twins left
      obtain ⟨τ', all, ends⟩ := ih _ goes_on
      refine ⟨τ', ?_, ends⟩
      simp only [buildRows, found, StoreM.run_bind, Raised.run_eq_ok same, all]
      rw [List.append_assoc, List.singleton_append]
    · rw [Table.builders, if_pos (mem_of_built? found)] at raised
      simp only [buildRows, found]
      split
      · exact ih _ (raised.of_twins (Store.Twins.logged _ σ).symm)
      · exact ih _ raised

/-- Warnings of shared tags are put on record only. -/
theorem twins_warn (place : Address) (labels : List String) (σ : Store H) :
    Store.Twins Unread σ
      (σ.after (labels.forM fun label => Store.note (.tagShared place.name label))) := by
  induction labels generalizing σ with
  | nil => exact .refl σ
  | cons label rest ih =>
    exact (Store.Twins.logged (.notice (.tagShared place.name label)) σ).trans (ih _)

/-- What a table with rows has built has been raised by them. -/
theorem raised_of_build (filled : rows ≠ [])
    (run : ((Blueprint.mk make rows).build config place typeName).run σ = (.ok s, σ')) :
    Table.violations config.strict rows = [] ∧ ∃ row made, Table.initial? rows = some row ∧
      s = assemble ⟨place, typeName, false, none, (make.run.run σ).1, []⟩
        (rows.map fun row => (row.tag, row.name)) row.name made ∧
      Raised ((Table.builders [] rows).map (buildRow config place)) (σ.after make.run) made σ' ∧
      made.map State.name = (Table.builders [] rows).map Row.name ∧
      ∀ child ∈ made, child.WellBuilt := by
  obtain ⟨valid, row, made, found, built, rfl⟩ := exists_of_build filled run
  obtain ⟨again, same, raised⟩ := raised_of_buildRows config place rows built
  obtain ⟨again', same', names_eq, inner⟩ := buildRows_builds config place rows [] _ _ _ built
  obtain rfl : made = again := same
  obtain rfl : made = again' := same'
  refine ⟨valid, row, made, found, rfl, raised.of_twins (twins_warn place _ _), names_eq,
    fun child mem => ?_⟩
  obtain ⟨next, here, named⟩ := exists_builder names_eq mem
  exact (inner next here child mem named.symm).wellBuilt

/-- A table without violations whose rows can raise its inner states builds a state of them. -/
theorem build_of_raised (typeName : String) {row : Row (Blueprint H)} (filled : rows ≠ [])
    (valid : Table.violations config.strict rows = []) (found : Table.initial? rows = some row)
    (raised : Raised ((Table.builders [] rows).map (buildRow config place)) (σ.after make.run) made
      σ') :
    ∃ τ', ((Blueprint.mk make rows).build config place typeName).run σ =
        (.ok (assemble ⟨place, typeName, false, none, (make.run.run σ).1, []⟩
          (rows.map fun row => (row.tag, row.name)) row.name made), τ') ∧
      Store.Twins Unread σ' τ' := by
  have more : rows.isEmpty = false := by simpa using filled
  have fine : (Table.violations config.strict rows).isEmpty = true := by rw [valid]; rfl
  obtain ⟨τ', run, ends⟩ := buildRows_of_raised config place rows []
    (raised.of_twins (twins_warn place (Table.duplicates rows) _).symm)
  refine ⟨τ', ?_, ends⟩
  simp only [Store.after] at run
  simp only [build, StoreM.run_bind, more, fine, Bool.false_eq_true, Bool.not_true, if_false, run,
    found, List.nil_append, StoreM.run_pure]

end Blueprint

end Statechart
