import Statechart.Proofs.Lasting

/-!
# Who makes remarks

Remarks are made by programs of the host.  While a tree is built these are the programs that make its
behaviours.  Main statement: whatever is done to a machine, all remarks from then on are made by
callbacks and observers.  So a remark that only the making of behaviours leaves is not made again: no
behaviour is ever made anew.  On the stage there is such a remark.
-/
namespace Statechart

variable {H : Host} {α β : Type} {p : H.Remark → Prop}

/-- The program makes the remark on one of its ways. -/
inductive Program.Utters (said : H.Remark) : Program H α → Prop
  | here (next : Program H α) : Utters said (.remark said next)
  | read {next : H.Shared → Program H α} (shared : H.Shared) (later : Utters said (next shared)) :
    Utters said (.read next)
  | write (shared : H.Shared) {next : Program H α} (later : Utters said next) :
    Utters said (.write shared next)
  | remark (other : H.Remark) {next : Program H α} (later : Utters said next) :
    Utters said (.remark other next)
  | post (state : Address) (command : Command) {next : Bool → Program H α} (accepted : Bool)
    (later : Utters said (next accepted)) : Utters said (.post state command next)
  | pending (state : Address) {next : Bool → Program H α} (waiting : Bool)
    (later : Utters said (next waiting)) : Utters said (.pending state next)
  | look (scope : Address) {next : Scope → Program H α} (content : Scope)
    (later : Utters said (next content)) : Utters said (.look scope next)
  | declare (scope : Address) (name : String) (value : Value) {next : Bool → Program H α} (free : Bool)
    (later : Utters said (next free)) : Utters said (.declare scope name value next)

/-- What is said by two programs in a row is said by one of them. -/
theorem Program.Utters.of_bind {said : H.Remark} {program : Program H α} {next : α → Program H β}
    (h : (program >>= next).Utters said) : program.Utters said ∨ ∃ a, (next a).Utters said := by
  change (program.bind next).Utters said at h
  induction program with
  | done result => exact .inr ⟨result, h⟩
  | read rest ih =>
    cases h with
    | read shared later => exact (ih shared later).imp_left (.read shared)
  | write shared rest ih =>
    cases h with
    | write _ later => exact (ih later).imp_left (.write shared)
  | remark other rest ih =>
    cases h with
    | here => exact .inl (.here rest)
    | remark _ later => exact (ih later).imp_left (.remark other)
  | post state command rest ih =>
    cases h with
    | post _ _ accepted later => exact (ih accepted later).imp_left (.post state command accepted)
  | pending state rest ih =>
    cases h with
    | pending _ waiting later => exact (ih waiting later).imp_left (.pending state waiting)
  | look scope rest ih =>
    cases h with
    | look _ content later => exact (ih content later).imp_left (.look scope content)
  | declare scope name value rest ih =>
    cases h with
    | declare _ _ _ free later => exact (ih free later).imp_left (.declare scope name value free)

/-- A callback or an observer makes the remark, on some occasion. -/
inductive Spoken [Conduct H] (said : H.Remark) : Prop
  | entry (view : View) (behavior : H.Behavior) (utters : (Conduct.entry view behavior).Utters said)
  | step (view : View) (behavior : H.Behavior) (utters : (Conduct.step view behavior).Utters said)
  | exit (view : View) (behavior : H.Behavior) (utters : (Conduct.exit view behavior).Utters said)
  | notify (change : PathChange) (observer : H.Observer)
    (utters : (Conduct.notify change observer).Utters said)

namespace Store

variable {σ σ' σ₁ σ₂ σ₃ : Store H}

/-- On the way from one store to the other only such remarks were made. -/
def Remarks (p : H.Remark → Prop) (σ σ' : Store H) : Prop :=
  ∃ events : List (Event H), σ'.journal = events.reverse ++ σ.journal ∧
    ∀ said, .remark said ∈ events → p said

theorem Remarks.of_since (h : Remarks p σ σ') : ∀ said, .remark said ∈ since σ σ' → p said := by
  obtain ⟨events, journal_eq, only⟩ := h
  rwa [since_eq journal_eq]

/-- Where the journal stays as it is no remark is made. -/
theorem remarks_of_journal (p : H.Remark → Prop) (same : σ'.journal = σ.journal) : Remarks p σ σ' :=
  ⟨[], same, by simp⟩

theorem Remarks.refl (σ : Store H) : Remarks p σ σ := remarks_of_journal p rfl

theorem Remarks.trans (h : Remarks p σ₁ σ₂) (k : Remarks p σ₂ σ₃) : Remarks p σ₁ σ₃ := by
  obtain ⟨xs, eq, only⟩ := h
  obtain ⟨ys, eq', only'⟩ := k
  refine ⟨xs ++ ys, by rw [eq', eq, List.reverse_append, List.append_assoc], fun said mem => ?_⟩
  exact (List.mem_append.1 mem).elim (only said) (only' said)

/-- A remark that may be made, and every event that is none. -/
theorem remarks_cons {event : Event H} (may : ∀ said, event = .remark said → p said)
    (same : σ'.journal = event :: σ.journal) : Remarks p σ σ' :=
  ⟨[event], same, fun said mem => may said (List.mem_singleton.1 mem).symm⟩

theorem remarks_log {event : Event H} (may : ∀ said, event = .remark said → p said) :
    Along (Remarks p) (log event) := fun _ => remarks_cons may rfl

theorem remarks_post (p : H.Remark → Prop) (state : Address) (command : Command) :
    Along (Remarks p) (post state command) := by
  intro σ
  rcases found : σ.mailboxes.get? state with _ | box
  · rw [after, run_post, found]
    exact .refl σ
  · rcases refused : box.refusal? with _ | waiting
    · simp only [after, run_post, found, refused]
      exact remarks_cons (by simp) rfl
    · simp only [after, run_post, found, refused]
      exact (remarks_log (by simp) σ).trans (remarks_cons (by simp) rfl)

theorem remarks_declare (p : H.Remark → Prop) (owner : Address) (name : String) (value : Value) :
    Along (Remarks p) (declare owner name value) := by
  intro σ
  rcases found : σ.scopes.get? owner with _ | scope <;>
    simp only [after, declare, found, StoreM.run_bind, StoreM.run_get, StoreM.run_modify,
      StoreM.run_pure] <;>
    exact remarks_of_journal p rfl

theorem remarks_openScope (p : H.Remark → Prop) (owner : Address) :
    Along (Remarks p) (openScope owner) := by
  intro σ
  rcases found : σ.scopes.get? owner with _ | scope <;>
    simp only [after, openScope, found, StoreM.run_modify] <;> exact remarks_of_journal p rfl

/-- That only such remarks are made passes on to what is made of operations. -/
theorem composes_remarks (p : H.Remark → Prop) : Composes (H := H) fun op => Along (Remarks p) op where
  pure _ σ := .refl σ
  bind first next σ := (first σ).trans (next σ _)
  note _ := remarks_log (by simp)

end Store

open Store

/-- A program makes the remarks that it utters, and no others. -/
theorem Program.remarks (program : Program H α) (may : ∀ said, program.Utters said → p said) :
    Along (Remarks p) program.run := by
  have composes := composes_remarks p
  induction program with
  | done result => exact composes.pure result
  | read next ih => exact fun σ => ih σ.shared (fun said utters => may said (.read _ utters)) σ
  | write shared next ih =>
    exact composes.bind (fun σ => remarks_of_journal p rfl) fun _ =>
      ih fun said utters => may said (.write shared utters)
  | remark said next ih =>
    refine composes.bind (remarks_log ?_) fun _ => ih fun other utters => may other (.remark said utters)
    rintro _ ⟨⟩
    exact may said (.here next)
  | post state command next ih =>
    exact composes.bind (remarks_post p state command) fun _ =>
      ih _ fun said utters => may said (.post state command _ utters)
  | pending state next ih =>
    exact fun σ => ih (σ.isPending state) (fun said utters => may said (.pending state _ utters)) σ
  | look scope next ih =>
    exact fun σ => ih (σ.scope scope) (fun said utters => may said (.look scope _ utters)) σ
  | declare scope name value next ih =>
    exact composes.bind (remarks_declare p scope name value) fun _ =>
      ih _ fun said utters => may said (.declare scope name value _ utters)

variable [Conduct H]

/-- All that is done to a tree makes remarks only by callbacks and observers. -/
theorem operates_remarks : Operates (H := H) (fun _ => True) fun op => Along (Remarks Spoken) op where
  toComposes := composes_remarks Spoken
  drain step state _ σ := by
    rw [Store.after, run_drain]
    exact remarks_cons (by simp) rfl
  entry view behavior := (Conduct.entry view behavior).remarks fun _ => .entry view behavior
  step view behavior := (Conduct.step view behavior).remarks fun _ => .step view behavior
  exit view behavior := (Conduct.exit view behavior).remarks fun _ => .exit view behavior
  notify change observer := (Conduct.notify change observer).remarks fun _ => .notify change observer
  ended _ := remarks_log (by simp)
  clock next σ := next σ σ
  handTo state command _ σ := by
    rcases found : σ.mailboxes.get? state with _ | box
    · rw [Store.after, run_handTo, found]
      exact .refl σ
    · simp only [Store.after, run_handTo, found]
      exact remarks_cons (by simp) rfl

/-- Whatever is done to a machine, all remarks are made by callbacks and observers. -/
theorem Machine.remarks_run (machine : Machine H) (moves : List (Move H)) :
    Remarks Spoken machine.store (machine.run moves).2.store :=
  run_induction (motive := fun later => Remarks Spoken machine.store later.store)
    (fun move _ later made => made.trans (operates_remarks.move (remarks_openScope _)
      (remarks_declare _) (fun _ _ _ _ => remarks_of_journal _ rfl) (remarks_post _) later move))
    (.refl _)

/-! ## The stage -/

namespace Script

/-- The program does not report that a behaviour has been made. -/
def Tacit (program : Play α) : Prop := ∀ tag name, ¬ program.Utters (Remark.made tag name)

namespace Tacit

theorem pure (a : α) : Tacit (pure a) := fun _ _ said => nomatch said

theorem bind {program : Play α} {next : α → Play β} (first : Tacit program)
    (rest : ∀ a, Tacit (next a)) : Tacit (program >>= next) := by
  intro tag name said
  rcases said.of_bind with said | ⟨a, said⟩
  · exact first tag name said
  · exact rest a tag name said

theorem say {remark : Remark} (other : ∀ tag name, remark ≠ .made tag name) : Tacit (say remark) := by
  intro tag name said
  cases said with
  | here => exact other tag name rfl
  | remark _ later => nomatch later

theorem desk : Tacit desk := by
  intro tag name said
  cases said with
  | read shared later => nomatch later

theorem setDesk (value : Desk) : Tacit (setDesk value) := by
  intro tag name said
  cases said with
  | write _ later => nomatch later

theorem scopeInSight (view : View) : Tacit (scopeInSight view) := by
  rw [Script.scopeInSight]
  split
  · exact .pure _
  · intro tag name said
    cases said with
    | look _ content later => nomatch later

theorem readInSight (view : View) (name typeName : String) : Tacit (readInSight view name typeName) :=
  (scopeInSight view).bind fun _ => .pure _

theorem postThrough (injector : String) (order : Order) : Tacit (postThrough injector order) := by
  refine desk.bind fun _ => (setDesk _).bind fun _ => ?_
  split
  · exact .pure _
  · intro tag name said
    cases said with
    | post _ _ accepted later => nomatch later

theorem pendingBehind (injector : String) : Tacit (pendingBehind injector) := by
  refine desk.bind fun _ => ?_
  split
  · exact .pure _
  · intro tag name said
    cases said with
    | pending _ waiting later => nomatch later

theorem bumpInSight (view : View) (name typeName : String) (amount : Int) :
    Tacit (bumpInSight view name typeName amount) := by
  refine (readInSight view name typeName).bind fun content => ?_
  split
  · exact .pure _
  · exact desk.bind fun _ => (setDesk _).bind fun _ => .pure _
  · exact desk.bind fun _ => .pure _

theorem observe (view : View) (actor : Actor) (act : Act) : Tacit (act.observe view actor) := by
  cases act with
  | args typeName => exact desk.bind fun _ => .pure _
  | inspect => exact (scopeInSight view).bind fun _ => .pure _
  | lookup name typeName =>
    exact (readInSight view name typeName).bind fun _ => desk.bind fun _ => .pure _
  | has name => exact (scopeInSight view).bind fun _ => .pure _
  | bump name typeName amount => exact bumpInSight view name typeName amount
  | post injector order => exact (postThrough injector order).bind fun _ => .pure _
  | pending injector => exact (pendingBehind injector).bind fun _ => .pure _
  | _ => exact .pure _

theorem report (view : View) (actor : Actor) (act : Act) : Tacit (act.report view actor) := by
  refine (observe view actor act).bind fun shown => ?_
  split
  · exact .pure _
  · exact (say (by simp)).bind fun _ => .pure _

theorem perform (view : View) (count : Nat) (act : Act) (actor : Actor) :
    Tacit (act.perform view count actor) := by
  induction act generalizing actor with
  | count => exact (say (by simp)).bind fun _ => .pure _
  | fail | go | stop | echo => exact .pure _
  | follow set =>
    rw [Act.perform]
    split
    · exact .pure _
    · split <;> exact .pure _
  | when condition act ih =>
    rw [Act.perform]
    split
    · exact ih actor
    · exact .pure _
  | attempt act ih =>
    rw [Act.perform]
    refine (ih actor).bind fun flow => ?_
    split
    · exact (say (by simp)).bind fun _ => .pure _
    · exact .pure _
  | _ => exact (report view actor _).bind fun _ => .pure _

theorem performAll (view : View) (count : Nat) (acts : List Act) (actor : Actor) :
    Tacit (Act.performAll view count acts actor) := by
  induction acts generalizing actor with
  | nil => exact .pure _
  | cons act acts ih =>
    rw [Act.performAll]
    refine (perform view count act actor).bind fun flow => ?_
    split
    · exact ih _
    · exact .pure _

theorem play (phase : Phase) (view : View) (actor : Actor) : Tacit (actor.play phase view) := by
  rw [Actor.play]
  split
  · exact .pure _
  · refine (say (by simp)).bind fun _ => (performAll _ _ _ _).bind fun flow => ?_
    split <;> exact .pure _

theorem playQuietly (phase : Phase) (view : View) (actor : Actor) :
    Tacit (actor.playQuietly phase view) :=
  (play phase view actor).bind fun _ => .pure _

theorem watch (change : PathChange) (watcher : Watcher) : Tacit (watcher.watch change) := by
  cases watcher with
  | log name => exact say (by simp)
  | post injector order => exact (postThrough injector order).bind fun _ => say (by simp)

end Tacit

/-- No callback and no watcher of the stage reports that a behaviour has been made. -/
theorem not_spoken_made (tag name : String) : ¬ Spoken (H := stage) (Remark.made tag name) := by
  rintro (⟨view, actor, said⟩ | ⟨view, actor, said⟩ | ⟨view, actor, said⟩ | ⟨change, watcher, said⟩)
  · exact Tacit.playQuietly .entry view actor tag name said
  · exact Tacit.play .step view actor tag name said
  · exact Tacit.playQuietly .exit view actor tag name said
  · exact Tacit.watch change watcher tag name said

end Script

end Statechart
