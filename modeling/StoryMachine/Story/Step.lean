import StoryMachine.Story.Choosing

/-!
# Steps

A step executes one node: it enters the containers down to the first leaf, carries the leaf
out or puts it where content goes, and moves on. Behind the end of the content a function
returns, or a thread gives way to the one it was started from; the machine then moves on
behind the place that was left.
-/

namespace StoryMachine

namespace Flow

/-- Enter the containers that a place leads into, each at its start, and give the first
place that is not a container with content. `depth` bounds the number of containers. -/
def enterContainers (t : ContentTree) : Nat → Cursor → Flow Cursor
  | 0, c => return c
  | depth + 1, c => do
    match (c.node? t).filter t.isContainer with
    | none => return c
    | some id =>
      modifyState fun s => s.enter t id true
      if (t.content id).isEmpty then return c
      else enterContainers t depth (.start id)

/-- Put content on the evaluation stack or out, as the frame says. A reference to a
variable gets the scope that the variable has in the current frame. -/
def putContent (token : Token) : Flow Unit := do
  let s ← state
  let token := match token with
    | .value (.reference name scope) =>
      if scope = unknownScope then .value (.reference name (s.callStack.scopeOf name))
      else token
    | token => token
  if s.inExpression then push token else emit token

/-- Follow a divert that has been carried out; whether that leads to a place. -/
def followDivert : Flow Bool := do
  match (← state).diverted with
  | none => return false
  | some c =>
    let t ← tree
    modifyState fun s => ({ s with diverted := none }.setCursor (some c)).enterByJump t
    return true

/-- Leave the frame or the thread whose content has run out; whether that leads back to a
place. A function that returns nothing leaves this to be seen where its value is
expected. -/
def leaveFinished : Flow Bool := do
  let stack := (← state).callStack
  if stack.canPopKind .function then
    tryState fun s => return ((), ← s.popFrame)
    if (← state).inExpression then push .void
    return (← state).cursor.isSome
  else if stack.canPopThread then
    tryState fun s => return ((), { s with callStack := ← s.callStack.popThread })
    return (← state).cursor.isSome
  else
    modifyState State.leaveHostCall
    return false

/-- Move on in the innermost frame, or where a divert leads to; whether there is a place to
go on at. -/
def moveHere : Flow Bool := do
  modifyState fun s => s.setPrevious s.cursor
  if ← followDivert then return true
  let t ← tree
  withState fun s => s.advance t

/-- Leave frames and threads until there is a place to go on at. Each of them is dropped;
their number is given by `frames`. -/
def unwind : (frames : Nat) → Flow Unit
  | 0 => return ()
  | frames + 1 => do
    if ← leaveFinished then
      if !(← moveHere) then unwind frames

/-- Move on to the next place. -/
def nextContent : Flow Unit := do
  if !(← moveHere) then
    let stack := (← state).callStack
    unwind ((stack.threads.map Thread.depth).foldr (· + ·) 0)

/-- Carry out a leaf, or put it where content goes, unless it has ended the flow. -/
def executeAt (id : NodeId) (i : Instruction) : Flow Unit := do
  let carriedOut ← execute id i
  if (← state).cursor.isNone then return ()
  match i with
  | .choicePoint c => performChoicePoint id c
  | _ =>
    if !carriedOut then
      match Token.ofInstruction? i with
      | some token => putContent token
      | none => return ()

/-- Move to the leaf that the place `c` leads to, and give it. -/
def reachLeaf (c : Cursor) : Flow (Option (NodeId × Instruction)) := do
  let t ← tree
  let c ← enterContainers t t.size c
  modifyState fun s => s.setCursor (some c)
  return (c.node? t).bind fun id => (t.leaf? id).map (id, ·)

/-- Carry out a leaf, if there is one. -/
def executeLeaf : Option (NodeId × Instruction) → Flow Unit
  | some (id, i) => executeAt id i
  | none => return ()

/-- Move on behind a leaf, unless it has ended the flow. A thread starts behind the command
that starts it. -/
def leaveLeaf (leaf : Option (NodeId × Instruction)) : Flow Unit := do
  if (← state).cursor.isNone then return ()
  nextContent
  match leaf with
  | some (_, .command .startThread) =>
    modifyState fun s => { s with callStack := s.callStack.pushThread }
  | _ => return ()

/-- Execute one node. -/
def step : Flow Unit := do
  match (← state).cursor with
  | none => return ()
  | some c =>
    let leaf ← reachLeaf c
    executeLeaf leaf
    leaveLeaf leaf

end Flow

end StoryMachine
