import StoryMachine.Content.Hierarchy
import StoryMachine.Story.Load
import StoryMachine.Story.Tags

/-!
# What a host can do

Besides continuing and choosing, a host reads and sets variables, observes them, binds
functions, jumps to places, calls functions of the story, and saves and loads its state.
Most of this has to wait while a line is in progress.
-/

namespace StoryMachine

/-- What a story is waiting for. -/
inductive Status where
  | errored
  | awaitingExternal
  | continuing
  | idle
  | awaitingChoice
  | done
  deriving DecidableEq, Repr, Inhabited

/-- A state to come back to, with the content it belongs to. -/
structure Snapshot where
  key : Nat
  state : State
  deriving Inhabited

namespace Story

/-- What the story is waiting for. -/
def status (s : Story) : Status :=
  if s.state.hasError then .errored
  else if s.pending.isSome then .awaitingExternal
  else if s.lineOpen then .continuing
  else if s.state.canContinue then .idle
  else if !s.visibleChoices.isEmpty then .awaitingChoice
  else .done

/-- A copy of the state. -/
def snapshot (s : Story) : Snapshot :=
  ⟨s.content.key, s.state⟩

/-- The value of a global variable. -/
def globalValue? (s : Story) (name : String) : Option Value :=
  s.state.vars.get? name

/-- The number of visits to the container at a path. -/
def visitsAt (s : Story) (path : String) : Except StoryError Int :=
  s.state.visitsAt s.tree path

/-- The outline of the content, with a mark at the place of execution. -/
def outline (s : Story) : String :=
  s.tree.outline (s.state.cursor.bind (Cursor.node? · s.tree))

/-- Install the handler for problems. -/
def installHandler (s : Story) : Story :=
  { s with hasHandler := true }

/-- Forget the problems recorded. -/
def resetErrors (s : Story) : Story :=
  { s with state := s.state.clearMessages }

/-- Let knots stand in for functions that are not bound, or not. -/
def allowFallbacks (s : Story) (allow : Bool) : Story :=
  { s with fallbacks := allow }

/-- The events since they were last taken, in order. -/
def takeEvents (s : Story) : List Event × Story :=
  (s.events.reverse, { s with events := [] })

end Story

namespace Flow

/-! ## Variables -/

/-- Set a global variable, and tell its observers. -/
def setVariable (name : String) (v : Value) : Flow Unit := do
  tryState fun s => return ((), { s with vars := ← s.vars.set name v })
  modify fun s => s.logAll (s.notifications (name, v))

/-- Tell an observer of the changes of a variable. -/
def observe (name observer : String) : Flow Unit := do
  whenIdle .observe
  if !(← state).vars.declares name then throw (.request (.unobservable name))
  modify fun s =>
    let present := (s.observers.get? name).getD []
    { s with observers := s.observers.insert name (present ++ [observer]) }

/-- Stop telling an observer, of one variable or of all. -/
def unobserve (observer : String) (name : Option String) : Flow Unit := do
  whenIdle .unobserve
  modify fun s =>
    let concerns := fun n => name.all (n == ·)
    let left := s.observers.map fun n os =>
      if concerns n then os.filter (· != observer) else os
    { s with observers := left.filter fun _ os => !os.isEmpty }

/-! ## Functions of the host -/

/-- Bind a function. -/
def bind (name : String) (f : HostFunction) (lookaheadSafe : Bool) : Flow Unit := do
  whenIdle .bind
  if (← get).bindings.contains name then throw (.request (.alreadyBound name))
  modify fun s =>
    { s with bindings := s.bindings.insert name ⟨f, 0, lookaheadSafe⟩ }

/-- Take back the binding of a function. -/
def unbind (name : String) : Flow Unit := do
  whenIdle .unbind
  if !(← get).bindings.contains name then throw (.request (.notBound name))
  modify fun s => { s with bindings := s.bindings.erase name }

/-- Give the result of the call that the line waits for. -/
def resolve (result : Option Value) : Flow Unit := do
  if (← get).pending.isNone then throw (.request .nothingPending)
  modify fun s => { s with pending := none }
  push (match result with
    | some v => .value v
    | none => .void)

/-! ## Jumps and calls -/

/-- End the flow, whatever is running. -/
def resetCallStack : Flow Unit := do
  whenIdle .resetCallStack
  modifyState State.forceEnd

/-- Refuse to jump out of a running function. -/
def refuseInFunction (path : String) : Flow Unit := do
  let t ← tree
  let stack := (← state).callStack
  if stack.top.kind = .function then
    let place := match stack.top.cursor with
      | some c => "(" ++ (t.path c.container).render ++ ")"
      | none => ""
    throw (.flow (.insideFunction place path (stack.trace t)))

/-- Jump to a path, with arguments for a knot that takes them. Unless the call stack is
kept, everything that is running ends. -/
def choosePath (path : String) (reset : Bool) (arguments : List Value) : Flow Unit := do
  whenIdle .choosePath
  if reset then resetCallStack else refuseInFunction path
  orFail fun s => s.pushArguments arguments
  jumpTo (Path.parse path) true

/-- Take the result of a function called by the host: the top of what it has left on the
evaluation stack. -/
def finishCall : Flow (Option Value) := do
  let t ← tree
  let stack := (← state).callStack
  if !stack.inHostCall then throw (.flow (.unfinishedFunction (stack.trace t)))
  let result ← withState fun s =>
    let left := s.evaluation.length - stack.top.evaluationHeight
    ((s.evaluation.take left).head?, { s with evaluation := s.evaluation.drop left })
  tryState fun s => return ((), { s with callStack := ← s.callStack.popKind .hostCall })
  return result.bind Token.value?

/-- Continue as long as possible; give the texts behind `text`, and the error that ended
this. -/
def collectLines (text : String) : (budget : Nat) → Flow (String × Option StoryError)
  | 0 => return (text, none)
  | budget + 1 => do
    if (← get).canContinue then
      match ← attempt next with
      | .ok line => collectLines (text ++ line) budget
      | .error e => return (text, some e)
    else return (text, none)

/-- Start a function of the story for the host. -/
def startCall (knot : NodeId) (arguments : List Value) : Flow Unit := do
  modifyState fun s =>
    { s with
      output := .empty
      callStack := s.callStack.push .hostCall s.evaluation.length 0 }.setCursor
        (some (.start knot))
  orFail fun s => s.pushArguments arguments

/-- Find the function to call, when one can be called. -/
def findFunction (name : String) : Flow NodeId := do
  whenIdle .evaluate
  if (Text.trim name).isEmpty then throw (.request .functionBlank)
  match (← tree).knot? name with
  | some knot => return knot
  | none => throw (.request (.functionMissing name))

/-- Give up a call, with the line that it has left open, and go back to the state in front of
it. -/
def abandonCall (before : State) : Flow Unit :=
  modify fun s => { s with state := before, lineState := none, pending := none, lineOpen := false }

/-- Call a function of the story, and give the text it puts out and its result. If it
cannot finish, the state is as before. -/
def evaluate (name : String) (arguments : List Value) :
    Flow (String × Except StoryError (Option Value)) := do
  match ← attempt (findFunction name) with
  | .error e => return ("", .error e)
  | .ok knot =>
    let before ← state
    match ← attempt (startCall knot arguments) with
    | .error e =>
      abandonCall before
      return ("", .error e)
    | .ok _ =>
      let (text, failure) ← collectLines "" lineBudget
      if let some e := failure then
        abandonCall before
        return (text, .error e)
      if let some call := (← get).pending then
        abandonCall before
        return (text, .error (.request (.functionSuspended name call.name)))
      modifyState fun s => { s with output := before.output }
      return (text, ← attempt finishCall)

/-! ## States -/

/-- The state as text. -/
def save : Flow String := do
  whenIdle .save
  let t ← tree
  return (← state).toText t

/-- Go on from a state saved as text. -/
def load (text : String) : Flow Unit := do
  whenIdle .load
  let t ← tree
  tryState fun s => return ((), ← s.ofText t text)

/-- Go back to a state taken from a story over the same content. -/
def restore (snapshot : Snapshot) : Flow Unit := do
  whenIdle .restore
  if (← get).content.key ≠ snapshot.key then throw (.request .foreignState)
  modifyState fun _ => snapshot.state

end Flow

end StoryMachine
