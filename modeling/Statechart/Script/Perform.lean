import Statechart.Machine.Build
import Statechart.Machine.Variables
import Statechart.Script.Stage

/-!
# Performing scripts

Each act as a program of the stage, and the callbacks of an actor.  A callback is counted and put
on record, then its acts are carried out in order until one ends it.
-/
namespace Statechart.Script

/-- How an act leaves its callback. -/
inductive Flow
  | next
  /-- The callback ends, with a request or without. -/
  | finish (request : Option Tag)
  | fault (fault : Fault)

/-- A program of the stage. -/
abbrev Play (α : Type) : Type := Program stage α

/-- What scripts share. -/
def desk : Play Desk := Program.shared

/-- Change what scripts share. -/
def setDesk (value : Desk) : Play Unit := Program.setShared (H := stage) value

/-- Put a remark on record. -/
def say (remark : Remark) : Play Unit := Program.say (H := stage) remark

/-- The scope in sight. -/
def scopeInSight (view : View) : Play (Option Scope) :=
  match view.scope with
  | none => pure none
  | some scope => .look scope fun content => pure (some content)

/-- Read a variable as of a type. -/
def readInSight (view : View) (name typeName : String) : Play (Except Fault ValueContent) := do
  pure (readVariable view.name name typeName (← scopeInSight view))

/-- Read the command as a member of a set. -/
def readCommand (view : View) (set : CommandSet) : Except Fault Tag :=
  match set.read? view.command with
  | none => .error (.invalidConfiguration view.name [.missingNone set.family])
  | some tag => .ok tag

/-- Post a command through an injector, if one of the name is registered. -/
def postThrough (injector : String) (order : Order) : Play (Option Bool) := do
  let (command, changed) := (← desk).realizeOrder order
  setDesk changed
  match changed.injectors.get? injector with
  | none => pure none
  | some state => .post state command fun accepted => pure (some accepted)

/-- Ask whether a command waits behind an injector, if one of the name is registered. -/
def pendingBehind (injector : String) : Play (Option Bool) := do
  match (← desk).injectors.get? injector with
  | none => pure none
  | some state => .pending state fun waiting => pure (some waiting)

/-- All that a callback sees, as inspections show it. -/
def inspectView (view : View) (scope : Option Scope) : String :=
  Text.record "CycleContext"
    [("name", Text.quote view.name),
      ("command", Text.optional (view.command.map Command.inspect)),
      ("scope", Text.optional (scope.map Scope.inspect))]

/-- A condition holds, on the call of a number. -/
def Condition.holds (view : View) (count : Nat) : Condition → Bool
  | .tag wanted => view.command.any fun command => command.tag.agrees wanted
  | .nth number => count = number
  | .every number => count % number = 0
  | .command present => view.command.isSome = present

/-- Add to the cell in a variable. -/
def bumpInSight (view : View) (name typeName : String) (amount : Int) :
    Play (Except Fault Shown) := do
  match ← readInSight view name typeName with
  | .error fault => pure (.error fault)
  | .ok (.cell handle) =>
    let (sum, changed) := (← desk).bump handle amount
    setDesk changed
    pure (.ok (.integer sum))
  | .ok content => pure (.ok (showContent (← desk).cells content))

namespace Act

/-- What an act sees, for the acts that only look. -/
def observe (view : View) (actor : Actor) : Act → Play (Except Fault Shown)
  | .command set => pure ((readCommand view set).map fun tag => .text tag.label)
  | .available family => pure (.ok (.truth (view.command.any fun c => c.tag.family = family)))
  | .args typeName => do
    let content := view.command.bind (·.argsAs? typeName)
    pure (.ok (.ofOption (showContent (← desk).cells) content))
  | .argsType => pure (.ok (.ofOption .text (view.command.bind Command.argsType)))
  | .raw => pure (.ok (.ofOption .text (view.command.map Command.inspect)))
  | .inspect => do pure (.ok (.text (inspectView view (← scopeInSight view))))
  | .lookup name typeName => do
    let content ← readInSight view name typeName
    let cells := (← desk).cells
    pure (content.map (showContent cells))
  | .has name => do pure (.ok (.truth ((← scopeInSight view).any (·.contains name))))
  | .bump name typeName amount => bumpInSight view name typeName amount
  | .calls => pure (.ok (.integers actor.calls.toList))
  | .post injector order => do pure (.ok (.ofOption .truth (← postThrough injector order)))
  | .pending injector => do pure (.ok (.ofOption .truth (← pendingBehind injector)))
  | _ => pure (.ok .nothing)

/-- Look, and put what is seen on record. -/
def report (view : View) (actor : Actor) (act : Act) : Play Flow := do
  match ← act.observe view actor with
  | .error fault => pure (.fault fault)
  | .ok shown => do
    say (.acted view.name act.name shown)
    pure .next

/-- Carry out an act, on the call of a number. -/
def perform (view : View) (count : Nat) : Act → Actor → Play (Flow × Actor)
  | .count, actor => do
    let counter := actor.counter + 1
    say (.acted view.name Act.count.name (.integer counter.toInt))
    pure (.next, { actor with counter := counter })
  | .fail fault, actor => pure (.fault fault, actor)
  | .go tag, actor => pure (.finish (some tag), actor)
  | .stop, actor => pure (.finish none, actor)
  | .echo, actor =>
    pure (match view.command.map Command.tag with
      | none => .next
      | some request => .finish (some request), actor)
  | .follow set, actor =>
    match readCommand view set with
    | .error fault => pure (.fault fault, actor)
    | .ok tag =>
      if some tag = set.noneTag? then pure (.next, actor) else pure (.finish (some tag), actor)
  | .when condition act, actor =>
    if condition.holds view count then perform view count act actor else pure (.next, actor)
  | .attempt act, actor => do
    match ← perform view count act actor with
    | (.fault fault, actor) =>
      say (.acted view.name (Act.attempt act).name (.fault fault))
      pure (.next, actor)
    | outcome => pure outcome
  | act, actor => do pure (← report view actor act, actor)

/-- Carry out acts in order until one ends the callback. -/
def performAll (view : View) (count : Nat) : List Act → Actor → Play (Flow × Actor)
  | [], actor => pure (.next, actor)
  | act :: acts, actor => do
    match ← perform view count act actor with
    | (.next, actor) => performAll view count acts actor
    | outcome => pure outcome

end Act

namespace Actor

/-- The acts of a callback. -/
def acts (phase : Phase) (actor : Actor) : List Act :=
  match phase with
  | .entry => actor.part.entry
  | .step => actor.part.step
  | .exit => actor.part.exit

/-- A callback of an actor: the request that its acts end with, if any. -/
def play (phase : Phase) (view : View) (actor : Actor) :
    Play (Except Fault (Option Tag) × Actor) :=
  match actor.kind with
  | .blank => pure (.ok none, actor)
  | _ => do
    let actor := { actor with calls := actor.calls.record phase }
    say (.began view.name phase)
    match ← Act.performAll view (actor.calls.of phase) (actor.acts phase) actor with
    | (.next, actor) => pure (.ok none, actor)
    | (.finish request, actor) => pure (.ok request, actor)
    | (.fault fault, actor) => pure (.error fault, actor)

/-- A callback whose request is of no meaning. -/
def playQuietly (phase : Phase) (view : View) (actor : Actor) :
    Play (Except Fault Unit × Actor) := do
  let (result, actor) ← actor.play phase view
  pure (result.map fun _ => (), actor)

end Actor

/-- What a watcher does about a change. -/
def Watcher.watch (change : PathChange) : Watcher → Play Unit
  | .log name => say (.saw name change.oldPath change.newPath)
  | .post injector order => do say (.relayed injector (← postThrough injector order))

instance : Conduct stage where
  entry view actor := Actor.playQuietly .entry view actor
  step view actor := Actor.play .step view actor
  exit view actor := Actor.playQuietly .exit view actor
  notify change watcher := Watcher.watch change watcher

/-- A machine of scripted behaviours, as a script writes it: the kind and part of a state, and
the rows of its table. -/
abbrev Cast : Type := Blueprint stage

/-- A state whose behaviour plays a part. -/
def Cast.ofPart (kind : Kind) (part : Part) (rows : List (Row Cast)) : Cast :=
  .mk (pure (Actor.new kind part)) (if kind = .blank then [] else rows)

/-- The same state, as the target of a row: that it is made is put on record. -/
def Cast.announced (tag name : String) : Cast → Cast
  | .mk make rows => .mk (do say (.made tag name); make) rows

end Statechart.Script
