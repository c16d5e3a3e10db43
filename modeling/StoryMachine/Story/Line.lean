import StoryMachine.Story.Step

/-!
# Lines

The story is continued line by line. A line end in the output need not end the line, as
glue may still take it back: the machine keeps the state at the line end (`lineState`) and
looks ahead. As soon as more text or a tag comes, the line has ended, and the story goes
back to that state. If the line end disappears, the state kept is dropped.

A line may be left open: by a limit of time, or by a call whose result the host has to
give. It is then gone on with by the next continue.

Problems are recorded in the state. At the end of a continue they are reported to the
handler, if there is one; otherwise errors make the continue fail, and warnings stay
available until the next one.
-/

namespace StoryMachine

/-- What has become of a line end behind which the machine looked ahead. -/
inductive LineChange where
  | unchanged
  | extended
  | removed
  deriving DecidableEq, Repr

/-- Compare the output at a line end, of a text and a number of tags, with the output
now. Only blanks behind the line end change nothing. Lengths are counted in bytes. -/
def LineChange.between (old new : String) (oldTags newTags : Nat) : LineChange :=
  let bytes := new.toUTF8
  let size := old.utf8ByteSize
  let behind := (bytes.extract size bytes.size).data.toList
  if old.isEmpty || bytes[size - 1]? != some '\n'.toUInt8 then .removed
  else if oldTags < newTags then .extended
  else if behind.all fun b => b == ' '.toUInt8 || b == '\t'.toUInt8 then .unchanged
  else .extended

namespace Story

/-- Go back to the state at the line end, with the messages recorded since. -/
def restoreLineState (s : Story) : Story :=
  match s.lineState with
  | some kept => { s with state := kept.carryMessages s.state, lineState := none }
  | none => s

/-- What has become of the line end at the state kept. -/
def lineChange (kept now : State) : LineChange :=
  .between kept.output.text now.output.text kept.output.tags.length now.output.tags.length

/-- Keep the state if the output ends in a line end and there is more to come; there is no
need for it if there is not. -/
def keepLineState (s : Story) : Story :=
  if s.state.output.endsInLineEnd then
    if !s.state.canContinue then { s with lineState := none }
    else if s.lineState.isNone then { s with lineState := some s.state }
    else s
  else s

/-- See whether the line behind which the machine looks ahead has ended. If so, go back to
its end. -/
def watchLine (s : Story) : Bool × Story :=
  match s.lineState with
  | none => (false, s.keepLineState)
  | some kept =>
    let change := lineChange kept s.state
    if change = .extended ∨ s.metUnsafeCall then (true, s.restoreLineState)
    else if change = .removed then (false, { s with lineState := none }.keepLineState)
    else (false, s.keepLineState)

end Story

namespace Flow

/-- Run a computation and give its outcome; its changes stay if it fails. -/
def attempt {α : Type} (x : Flow α) : Flow (Except StoryError α) := fun s =>
  match x s with
  | .ok a s => .ok (.ok a) s
  | .error e s => .ok (.error e) s

/-- Record an error and end the flow. -/
def recordError (e : StoryError) : Flow Unit := do
  let t ← tree
  modifyState fun s => s.fail t e

/-- Execute one node. Where there is nothing to go on with, an invisible choice is taken. -/
def plainStep : Flow Unit := do
  step
  let s ← get
  if s.pending.isNone && !s.state.canContinue && !s.state.callStack.inHostCall then
    followInvisibleChoice

/-- Execute one node, with what has to be seen to behind it. True if the line has ended.
Neither a call that waits for the host nor a string ends a line. -/
def lineStep : Flow Bool := do
  plainStep
  let s ← get
  if s.pending.isSome || s.state.output.inString then return false
  modifyGet Story.watchLine

/-- Execute nodes until the line has ended, nothing is left to execute, or a call waits
for the host. `budget` bounds the number of nodes; a line that exceeds it stays open. -/
def runLine : (budget : Nat) → Flow Bool
  | 0 => do
    modify fun s => { s with lineOpen := true }
    return false
  | budget + 1 => do
    match ← attempt lineStep with
    | .error e =>
      recordError e
      return false
    | .ok ended =>
      if (← get).pending.isSome then
        modify fun s => { s with lineOpen := true }
        return false
      else if ended then return true
      else if !(← state).canContinue then return false
      else runLine budget

end Flow

/-- The story at the start of a line: nothing is put out yet, and changes of variables are
watched. Warnings that have been available are forgotten. -/
def Story.freshLine (s : Story) : Story :=
  let state := if s.warningsShown then s.state.clearWarnings else s.state
  { s with
    state := { state with safeExit := false, output := .empty, vars := state.vars.watch }
    warningsShown := false }

/-- Begin a line. -/
def Flow.beginLine (limited : Bool) : Flow Unit := do
  modify fun s => { s with lineOpen := limited }
  if !(← get).state.canContinue then throw (.flow .cannotContinue)
  modify Story.freshLine

/-- The way in which a flow without choices has run out of content. -/
def deadEnd (s : CallStack) : DeadEnd :=
  if s.canPopKind .tunnel then .tunnel
  else if s.canPopKind .function then .function
  else if !s.canPop then .flow
  else .other

/-- Record what is wrong with the end of the content, if the flow has come to it. -/
def State.checkEnd (s : State) (t : ContentTree) : State :=
  if s.canContinue then s
  else
    let s := if s.callStack.canPopThread then s.fail t (.flow .openThread) else s
    if s.choices.isEmpty && !s.safeExit && !s.hasError then
      s.fail t (.flow (.deadEnd (deadEnd s.callStack)))
    else s

namespace Story

/-- The events that tell the observers of a variable of its value. -/
def notifications (s : Story) (change : String × Value) : List Event :=
  ((s.observers.get? change.1).getD []).map fun observer =>
    .changed observer change.1 change.2

/-- Tell the observers of the variables assigned in the line, and stop watching. -/
def tellObservers (s : Story) : Story :=
  { s.logAll (s.state.vars.changes.flatMap s.notifications) with
    state := { s.state with vars := s.state.vars.unwatch } }

/-- End the line in progress, at the state kept if there is one. -/
def closeLine (s : Story) : Story :=
  let s := s.restoreLineState
  let state := { s.state.checkEnd s.tree with safeExit := false }
  { { s with state, metUnsafeCall := false }.tellObservers with lineOpen := false }

/-- End the line if it has come to its end. -/
def endLine (ended : Bool) (s : Story) : Story :=
  if s.pending.isNone && (ended || !s.state.canContinue) then s.closeLine else s

end Story

namespace Flow

/-- A number of things with its noun. -/
def counted (n : Nat) (noun : String) : String :=
  Decimal.ofNat n ++ " " ++ noun ++ if n = 1 then "" else "s"

/-- The error that sums up the issues recorded, under the kind of the first error. -/
def summary (s : State) : StoryError :=
  let counts :=
    (if s.errors.isEmpty then [] else [counted s.errors.length "error"]) ++
    (if s.warnings.isEmpty then [] else [counted s.warnings.length "warning"])
  let first := (s.errors ++ s.warnings).head?.getD "unknown"
  let kind := (s.firstError.map StoryError.kind).getD .structural
  .issues kind ("Ink had " ++ String.intercalate " and " counts ++
    ". It is strongly suggested that you assign an error handler with set_error_handler. " ++
    "The first issue was: " ++ first)

/-- Report the issues recorded, to the handler or by failing. -/
def reportIssues : Flow Unit := do
  let s ← get
  if s.state.hasError || s.state.hasWarning then
    if s.hasHandler then
      modify fun s =>
        s.logAll (s.state.errors.map .error ++ s.state.warnings.map .warning)
      modifyState State.clearWarnings
    else if s.state.hasError then throw (summary s.state)
    else modify fun s => { s with warningsShown := true }

/-- The number of nodes that a continue may execute: more than any line has. -/
def nodeBudget : Nat := 1000000000000

/-- Begin a line, unless one is in progress. -/
def openLine (limited : Bool) : Flow Unit := do
  if !(← get).lineOpen then beginLine limited
  modify fun s => { s with metUnsafeCall := false }

/-- Continue the line in progress, or begin one. `nodes` bounds the number of nodes that are
executed. -/
def continueLine (limited : Bool) (nodes : Nat) : Flow Unit := do
  openLine limited
  let ended ← runLine nodes
  modify (Story.endLine ended)
  reportIssues

/-- Refuse to continue while the story waits for the host. -/
def refuseWaiting : Flow Unit := do
  match (← get).pending with
  | some call => throw (.request (.waiting call.name))
  | none => return ()

/-- Continue with a limit of time, which leaves the line open for more if it runs out; no
limit runs to the end of the line. -/
def continueFor (limited : Bool) : Flow Unit := do
  refuseWaiting
  continueLine limited nodeBudget

/-- Continue with a limit of time that runs out behind the first node and `more` others. -/
def continueSlice (more : Nat) : Flow Unit := do
  refuseWaiting
  continueLine true (more + 1)

/-- The text of the line. -/
def currentText : Flow String := do
  whenIdle .readText
  return (← state).output.text

/-- The tags of the line. -/
def currentTags : Flow (List String) := do
  whenIdle .readTags
  return (← state).output.tags

/-- Continue to the end of the line, and give its text. A line that waits for the host has
no text yet. -/
def next : Flow String := do
  continueFor false
  if (← get).pending.isSome then return "" else currentText

/-- Continue to the end of the line, and give its text and its tags. -/
def nextTagged : Flow (String × List String) := do
  let text ← next
  if (← get).pending.isSome then return (text, []) else return (text, ← currentTags)

/-- The number of lines that may be continued in one go. -/
def lineBudget : Nat := 1000000000000

/-- Continue as long as possible, and give the texts behind `text`. -/
def nextLines (text : String) : (budget : Nat) → Flow String
  | 0 => return text
  | budget + 1 => do
    if (← get).canContinue then nextLines (text ++ (← next)) budget else return text

/-- Continue as long as possible, and give the text of all lines. -/
def nextAll : Flow String := do
  whenIdle .continueMaximally
  nextLines "" lineBudget

end Flow

end StoryMachine
