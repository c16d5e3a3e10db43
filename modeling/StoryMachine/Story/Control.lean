import StoryMachine.Shuffle
import StoryMachine.Story.External

/-!
# Commands and diverts

What the machine does at an instruction that is not content. `Flow.execute` carries out the
instruction at a node and says whether there was something to carry out.
-/

namespace StoryMachine

namespace Flow

/-! ## Diverts -/

/-- Note the place that a target leads to as the one to go on at. -/
def divertTo (p : Path) : Flow Unit := do
  let (cursor, warning) ← ofExcept ((← tree).cursorAt p)
  warnIfSome warning
  modifyState fun s => { s with diverted := cursor }

/-- The value of a variable. -/
def readVariable? (name : String) : Flow (Option Value) := do
  let s ← get
  return s.state.vars.read? s.content.lists s.state.callStack name

/-- Go where the variable of a divert points to. -/
def divertThrough (name : String) : Flow Unit := do
  match ← readVariable? name with
  | some (.target p) => divertTo p
  | some (.int 0) => throw (.type (.emptyTarget name))
  | some v => throw (.type (.notTarget name v.render))
  | none => throw (.address (.variableTarget name))

/-- Push the frame that a divert pushes. -/
def pushFrame (kind : DivertKind) : Flow Unit :=
  let enter := fun k => modifyState fun s =>
    { s with callStack := s.callStack.push k 0 s.output.length }
  match kind with
  | .function => enter .function
  | .tunnel => enter .tunnel
  | _ => return ()

/-- Carry out a divert whose condition holds. -/
def takeDivert (id : NodeId) (d : Divert) : Flow Unit := do
  match d.destination, d.kind with
  | .variable name, kind =>
    divertThrough name
    pushFrame kind
  | .path p, .external count => callExternal p.render count
  | .path p, kind =>
    match (← tree).divertCursor? id p with
    | some c => modifyState fun s => { s with diverted := some c }
    | none => throw (.address (.divert d.render))
    pushFrame kind

/-- Carry out a divert. -/
def performDivert (id : NodeId) (d : Divert) : Flow Unit := do
  if d.conditional then
    let condition ← pop
    if ← ofExcept condition.truth then takeDivert id d
  else takeDivert id d

/-! ## Returns -/

/-- What a frame of this kind waits for. -/
def returnOf : FrameKind → Return
  | .tunnel => .tunnel
  | .function => .function
  | .hostCall => .hostCall

/-- Pop the target that overrides the place a tunnel returns to. -/
def popOverride : Flow (Option Path) := do
  match ← pop with
  | .value (.target p) => return some p
  | .void => return none
  | _ => throw (.flow .tunnelOverride)

/-- Return from a frame of the given kind. A function that the host called is left
instead. -/
def performReturn (kind : FrameKind) : Flow Unit := do
  let override ← if kind = .tunnel then popOverride else pure none
  let stack := (← state).callStack
  if stack.inHostCall then
    modifyState State.leaveHostCall
  else if stack.top.kind ≠ kind ∨ ¬ stack.canPop then
    let expected := if stack.canPop then returnOf stack.top.kind else .flowEnd
    throw (.flow (.wrongReturn (returnOf kind) expected))
  else
    tryState fun s => return ((), ← s.popFrame)
    match override with
    | some p => divertTo p
    | none => return ()

/-! ## Strings and tags -/

/-- Begin a string. -/
def beginString : Flow Unit := do
  emit (.command .beginString)
  if !(← state).inExpression then throw (.flow .stringOutsideExpression)
  modifyState fun s => s.setInExpression false

/-- The texts of tag tokens. -/
def tagToken? : Token → Option Token
  | .tag text => some (.tag text)
  | _ => none

/-- End a string: what was put out since it began becomes a text on the evaluation stack,
except for tag tokens, which stay in the output. -/
def endString : Flow Unit :=
  modifyState fun s =>
    let (behind, front) := Output.splitAtCommand .beginString s.output.newest
    let kept := behind.filterMap tagToken?
    let s := { s with output := ⟨kept ++ front⟩ }
    (s.setInExpression true).push (.text (Output.joined behind))

/-- End a tag. In a string it becomes a tag token on the evaluation stack, for the choice
whose text is being made; otherwise the command stays in the output. -/
def endTag : Flow Unit := do
  let s ← state
  if s.output.inString then
    let (behind, front) := Output.splitAtCommand .beginTag s.output.newest
    let isCommand := fun (t : Token) => match t with
      | .command _ => true
      | _ => false
    if behind.any isCommand then throw (.flow .commandInTag)
    modifyState fun s =>
      { s with output := ⟨front⟩ }.push (.tag (Text.clean (Output.joined behind)))
  else emit (.command .endTag)

/-! ## Counts -/

/-- The number of visits to a container. -/
def visitsOf (id : NodeId) : Flow Int := do
  let t ← tree
  withState fun s => s.visitsOrWarn t id

/-- The number of turns since the last visit to a container. -/
def turnsSinceOf (id : NodeId) : Flow Int := do
  let t ← tree
  withState fun s => s.turnsSinceOrWarn t id

/-- Pop the target that a count is asked for. -/
def popCountTarget (c : Command) : Flow Path := do
  match ← pop with
  | .value (.target p) => return p
  | .value (.int n) => throw (.type (.countTarget c.name (Value.int n).render true))
  | other => throw (.type (.countTarget c.name other.render false))

/-- Push the count that a command asks for of the container at a target. -/
def pushCount (c : Command) (count : NodeId → Flow Int) (unknown : Int) : Flow Unit := do
  let p ← popCountTarget c
  let t ← tree
  let n ← match (t.find p).exactContainer? t with
    | some id => count id
    | none => do
      warn ("Failed to find container for " ++ c.name ++ " lookup at " ++ p.render)
      pure unknown
  pushInt (Int32.ofInt n)

/-- The container of the place of execution, or an error. -/
def currentContainer (fault : FlowFault) : Flow NodeId := do
  match (← state).cursor with
  | some c => return c.container
  | none => throw (.flow fault)

/-! ## Random numbers -/

/-- The word that the next random draw gives. -/
def nextWord : Flow UInt32 := do
  let s ← state
  return Random.draw (Random.seedOf (s.seed + s.drawn)) 0

/-- Push a random whole number between two bounds. -/
def pushRandom : Flow Unit := do
  let most := (← popInt .randomMost).toInt
  let least := (← popInt .randomLeast).toInt
  let range := most - least + 1
  if range ≤ 0 ∨ 0x80000000 ≤ range then throw (.type (.randomRange least most))
  let word ← nextWord
  pushInt (Int32.ofInt ((word.toNat : Int) % range + least))
  modifyState fun s => { s with drawn := s.drawn + 1 }

/-- Set the seed of random draws and shuffles. -/
def setSeed : Flow Unit := do
  let seed ← popInt .seed
  modifyState fun s => { s with seed := seed, drawn := 0 }
  push .void

/-- Push the element of a shuffled sequence that comes next. -/
def pushShuffled : Flow Unit := do
  match ← pop with
  | .value (.int size) =>
    if size ≤ 0 then throw (.flow .shuffleSize)
    let id ← currentContainer .shuffleOutside
    match ← pop with
    | .value (.int count) =>
      let path := ((← tree).path id).render
      match Shuffle.index? path (← state).seed count size with
      | some i => pushInt (Int32.ofNat i)
      | none => throw (.flow .shuffleExhausted)
    | _ => throw (.flow .shuffleCount)
  | _ => throw (.flow .shuffleSize)

/-! ## Lists -/

/-- Push the item of a definition with a given rank. -/
def pushListOfRank : Flow Unit := do
  let rank ← popInt .listRank
  match ← pop with
  | .value (.text name) =>
    match (← get).content.lists.find? name with
    | none => throw (.address (.list name))
    | some d =>
      match d.itemOfRank? rank with
      | some i => push (.value (.list (.single i rank)))
      | none => push (.value (.list .empty))
  | other => throw (.type (.listName other.render))

/-- Push the items of a list with ranks between two bounds. -/
def pushListRange : Flow Unit := do
  let most ← popValue .rangeMost
  let least ← popValue .rangeLeast
  let list ← popList .rangeList
  push (.value (.list (list.between least.lowerBound most.upperBound)))

/-- The list of one item, remembering its definition for when the item is gone. -/
def rememberingItem (i : Item) (rank : Int32) : ListValue :=
  ⟨.singleton i rank, i.origin.map ([·])⟩

/-- Push a random item of a list. -/
def pushListRandom : Flow Unit := do
  let list ← popList .randomList
  if list.isEmpty then push (.value (.list .empty))
  else
    let word ← nextWord
    match list.descending[word.toNat % list.size]? with
    | some (i, rank) =>
      modifyState fun s => { s with drawn := word.toInt32 }
      push (.value (.list (rememberingItem i rank)))
    | none => push (.value (.list .empty))

/-! ## Commands -/

/-- Put out the value on top of the evaluation stack, if there is one. -/
def putOut : Flow Unit := do
  if (← state).evaluation.isEmpty then return ()
  match ← pop with
  | .void => return ()
  | t => emit (.text t.render)

/-- End the thread, or the flow if it is the only one. -/
def finishThread : Flow Unit := do
  if (← state).callStack.canPopThread then
    tryState fun s => return ((), { s with callStack := ← s.callStack.popThread })
  else
    modifyState fun s => { s with safeExit := true }.setCursor none

/-- Carry out a command. Starting a thread is left to the step it occurs in. -/
def performCommand : Command → Flow Unit
  | .evalStart => do
    if (← state).inExpression then throw (.flow .insideExpression)
    modifyState fun s => s.setInExpression true
  | .evalOutput => putOut
  | .evalEnd => do
    if !(← state).inExpression then throw (.flow .outsideExpression)
    modifyState fun s => s.setInExpression false
  | .duplicate => do
    match (← state).evaluation with
    | t :: _ => push t
    | [] => throw (.flow .nothingToDuplicate)
  | .popValue => do
    let _ ← pop
  | .popFunction => performReturn .function
  | .popTunnel => performReturn .tunnel
  | .beginString => beginString
  | .endString => endString
  | .noOp => return ()
  | .choiceCount => do pushInt (Int32.ofNat (← state).choices.length)
  | .turns => do pushInt (Int32.ofInt ((← state).turn + 1))
  | .turnsSince => pushCount .turnsSince turnsSinceOf (-1)
  | .readCount => pushCount .readCount visitsOf 0
  | .random => pushRandom
  | .seedRandom => setSeed
  | .visitIndex => do
    let id ← currentContainer .visitOutside
    pushInt (Int32.ofInt ((← visitsOf id) - 1))
  | .shuffleIndex => pushShuffled
  | .startThread => return ()
  | .done => finishThread
  | .finish => modifyState State.forceEnd
  | .listFromInt => pushListOfRank
  | .listRange => pushListRange
  | .listRandom => pushListRandom
  | .beginTag => emit (.command .beginTag)
  | .endTag => endTag

/-! ## Variables and operators -/

/-- Assign the value on top of the evaluation stack. -/
def performAssignment (a : Assignment) : Flow Unit := do
  match ← pop with
  | .value v =>
    let lists := (← get).content.lists
    tryState fun s => do
      let (vars, callStack) ← s.vars.assign lists s.callStack a v
      return ((), { s with vars, callStack })
  | other => throw (.type (.assigned other.render a.name))

/-- Push the value of a variable, zero with a warning if there is none. -/
def pushVariable (name : String) : Flow Unit := do
  match ← readVariable? name with
  | some v => push (.value v)
  | none =>
    warn ("Variable not found: '" ++ name ++ "'. Using default value of 0 (false). This can " ++
      "happen with temporary variables if the declaration hasn't yet been hit. Globals are " ++
      "always given a default value on load if a value doesn't exist in the save state.")
    pushInt 0

/-- Push the number of visits to the container that a path at the node `id` leads to. -/
def pushReadCount (id : NodeId) (p : Path) : Flow Unit := do
  match (← tree).targetContainer? id p with
  | some container => pushInt (Int32.ofInt (← visitsOf container))
  | none => throw (.address (.readCount p.render))

/-- Apply an operator to its operands on the evaluation stack. -/
def performOperator (o : Operator) : Flow Unit := do
  let tokens ← tryState fun s => s.popMany o.arity
  let operands ← ofExcept (Token.operands o tokens)
  let result ← ofExcept (o.apply (← get).content.lists operands)
  push (.value result)

/-- Carry out the instruction at a node; false if it is content. -/
def execute (id : NodeId) (i : Instruction) : Flow Bool := do
  match i with
  | .divert d => performDivert id d; return true
  | .command c => performCommand c; return true
  | .assign a => performAssignment a; return true
  | .readVariable name => pushVariable name; return true
  | .readCount p => pushReadCount id p; return true
  | .operator o => performOperator o; return true
  | _ => return false

end Flow

end StoryMachine
