import StoryMachine.Output
import StoryMachine.Variables

/-!
# States

All that changes while a story runs is in its `State`, an immutable value: keeping an
older state is all it takes to come back to it.
-/

namespace StoryMachine

/-- What a choice offers and where it leads to.

* `index` : a number kept from a saved state, without meaning of its own;
* `source` : path of the choice point;
* `target` : path of the container to go on in;
* `threadNumber` : number of the thread that generated the choice. -/
structure Offer where
  text : String
  index : Nat
  tags : List String
  source : String
  target : Path
  isInvisible : Bool
  threadNumber : Nat
  deriving Inhabited

/-- An offer in a list for a reader. -/
def Offer.render (o : Offer) : String :=
  Decimal.ofNat (o.index + 1) ++ ": " ++ o.text

/-- A choice that has been generated: the offer, and the thread to go on with when it is
chosen. -/
structure Choice extends Offer where
  thread : Thread
  deriving Inhabited

/-- The running state of a story.

* `evaluation` : the evaluation stack, its top first;
* `choices` : the choices generated, in order;
* `diverted` : where a divert just carried out leads to;
* `visits`, `turns` : by container path, the number of visits and the turn of the last one;
* `turn` : the number of choices made and jumps, from minus one on;
* `drawn` : the number that goes with the seed into the next random draw;
* `safeExit` : the flow has ended on purpose;
* `errors`, `warnings` : the messages recorded, in order, and the first error. -/
structure State where
  callStack : CallStack
  vars : Variables
  evaluation : List Token
  output : Output
  choices : List Choice
  diverted : Option Cursor
  visits : Table Int
  turns : Table Int
  turn : Int
  seed : Int32
  drawn : Int32
  safeExit : Bool
  errors : List String
  warnings : List String
  firstError : Option StoryError
  deriving Inhabited

namespace State

/-- The state at the start of a story, with its random seed. -/
def start (seed : Int32) : State where
  callStack := .start
  vars := .empty
  evaluation := []
  output := .empty
  choices := []
  diverted := none
  visits := .empty
  turns := .empty
  turn := -1
  seed := seed
  drawn := 0
  safeExit := false
  errors := []
  warnings := []
  firstError := none

/-- The place of execution. -/
def cursor (s : State) : Option Cursor :=
  s.callStack.top.cursor

/-- Move to a place. -/
def setCursor (s : State) (c : Option Cursor) : State :=
  { s with callStack := s.callStack.modifyTop fun f => { f with cursor := c } }

@[simp]
theorem cursor_setCursor (s : State) (c : Option Cursor) : (s.setCursor c).cursor = c := rfl

/-- The place executed before. -/
def previous (s : State) : Option Cursor :=
  s.callStack.current.previous

/-- Note the place executed before. -/
def setPrevious (s : State) (c : Option Cursor) : State :=
  { s with callStack :=
      { s.callStack with current := { s.callStack.current with previous := c } } }

@[simp]
theorem previous_setPrevious (s : State) (c : Option Cursor) :
    (s.setPrevious c).previous = c := rfl

/-- Whether an expression is being evaluated. -/
def inExpression (s : State) : Bool :=
  s.callStack.top.inExpression

/-- Begin or end the evaluation of an expression. -/
def setInExpression (s : State) (b : Bool) : State :=
  { s with callStack := s.callStack.modifyTop fun f => { f with inExpression := b } }

/-- Whether an error has been recorded. -/
def hasError (s : State) : Bool :=
  !s.errors.isEmpty

/-- Whether a warning has been recorded. -/
def hasWarning (s : State) : Bool :=
  !s.warnings.isEmpty

/-- Whether there is something to execute and no error. -/
def canContinue (s : State) : Bool :=
  s.cursor.isSome && !s.hasError

/-! ## Messages -/

/-- A message with its severity and the place of execution. -/
def located (s : State) (t : ContentTree) (severity message : String) : String :=
  match s.cursor with
  | some c => "RUNTIME " ++ severity ++ ": (" ++ (c.path t).render ++ "): " ++ message
  | none => "RUNTIME " ++ severity ++ ": " ++ message

/-- Record a warning. -/
def warn (s : State) (t : ContentTree) (message : String) : State :=
  { s with warnings := s.warnings ++ [s.located t "WARNING" message] }

/-- Record several warnings. -/
def warnAll (s : State) (t : ContentTree) (messages : List String) : State :=
  messages.foldl (fun s m => s.warn t m) s

/-- End the flow: one thread of one frame that is nowhere, and no choices. -/
def forceEnd (s : State) : State :=
  let ended := { s with callStack := s.callStack.reset, choices := [], safeExit := true }
  (ended.setCursor none).setPrevious none

@[simp]
theorem cursor_forceEnd (s : State) : s.forceEnd.cursor = none := rfl

/-- Record an error and end the flow. -/
def fail (s : State) (t : ContentTree) (e : StoryError) : State :=
  forceEnd { s with
    errors := s.errors ++ [s.located t "ERROR" e.detail]
    firstError := s.firstError.or (some e) }

/-- Take over the messages of a later state. -/
def carryMessages (s later : State) : State :=
  { s with
    errors := later.errors, warnings := later.warnings, firstError := later.firstError }

/-- Forget the warnings. -/
def clearWarnings (s : State) : State :=
  { s with warnings := [] }

/-- Forget all messages. -/
def clearMessages (s : State) : State :=
  { s with errors := [], warnings := [], firstError := none }

/-! ## The evaluation stack -/

/-- Push a token on the evaluation stack. -/
def push (s : State) (t : Token) : State :=
  { s with evaluation := t :: s.evaluation }

/-- Pop a token from the evaluation stack. -/
def pop (s : State) : Except StoryError (Token × State) :=
  match s.evaluation with
  | t :: rest => .ok (t, { s with evaluation := rest })
  | [] => .error (.flow .evaluationEmpty)

/-- Pop tokens from the evaluation stack, in the order they were pushed. -/
def popMany (s : State) (count : Nat) : Except StoryError (List Token × State) :=
  let popped := s.evaluation.take count
  if popped.length < count then .error (.flow .evaluationShort)
  else .ok (popped.reverse, { s with evaluation := s.evaluation.drop count })

/-- Push the arguments of a call by the host. Targets and references cannot be passed; the
arguments in front of one have been pushed. -/
def pushArguments (s : State) : List Value → State × Option StoryError
  | [] => (s, none)
  | v :: rest =>
    match v with
    | .target _ | .reference .. => (s, some (.request (.argumentKind v.kind)))
    | v => pushArguments (s.push (.value v)) rest

/-! ## Output -/

/-- The frame's mark where the text of a running function began. -/
def functionStart (s : State) : Option Nat :=
  if s.callStack.top.kind = .function then s.callStack.top.outputStart else none

/-- Note that the running functions have put out text: their frames, from the innermost
one on, lose the mark where it begins. -/
def markText (s : State) : State :=
  let clear := fun (f : Frame) => { f with outputStart := none }
  let thread := s.callStack.current
  let isFunction := fun (f : Frame) => decide (f.kind = .function)
  if isFunction thread.top then
    let below := (thread.below.takeWhile isFunction).map clear ++
      thread.below.dropWhile isFunction
    { s with callStack :=
        { s.callStack with current := { thread with top := clear thread.top, below := below } } }
  else s

/-- Put out a text that has no line ends at its edges. -/
def emitText (s : State) (text : String) : State :=
  let (output, ended) := s.output.pushText s.functionStart text
  let s := { s with output := output }
  if ended then s.markText else s

/-- Put out a token. The line ends at the edges of a text are put out on their own. -/
def emit (s : State) (t : Token) : State :=
  match t with
  | .value (.text text) =>
    match Text.outerLines text with
    | some parts => parts.foldl emitText s
    | none => s.emitText text
  | .glue => { s with output := s.output.pushGlue }
  | t => { s with output := s.output.add t }

/-! ## Counts -/

/-- The name that a container's counts stand under. -/
def countKey (t : ContentTree) (id : NodeId) : String :=
  (t.path id).render

/-- Note that a container is entered, at its start or elsewhere. -/
def enter (s : State) (t : ContentTree) (id : NodeId) (atStart : Bool) : State :=
  match t.container? id with
  | none => s
  | some c =>
    if c.flags.startOnly && !atStart then s
    else
      let key := countKey t id
      { s with
        visits := if c.flags.visits then
            s.visits.insert key ((s.visits.get? key).getD 0 + 1) else s.visits
        turns := if c.flags.turns then s.turns.insert key s.turn else s.turns }

/-- The number of visits to a container, if it counts them. -/
def visits? (s : State) (t : ContentTree) (id : NodeId) : Option Int :=
  match t.container? id with
  | some c => if c.flags.visits then some ((s.visits.get? (countKey t id)).getD 0) else none
  | none => none

/-- The number of turns since the last visit to a container, minus one if there was none,
if it notes them. -/
def turnsSince? (s : State) (t : ContentTree) (id : NodeId) : Option Int :=
  match t.container? id with
  | some c =>
    if c.flags.turns then
      match s.turns.get? (countKey t id) with
      | some turn => some (s.turn - turn)
      | none => some (-1)
    else none
  | none => none

/-- The number of visits to a container, with a warning if it does not count them. -/
def visitsOrWarn (s : State) (t : ContentTree) (id : NodeId) : Int × State :=
  match s.visits? t id with
  | some n => (n, s)
  | none =>
    (0, s.warn t ("Read count for target (" ++ (t.path id).render ++
      ") unknown. The story may need to be compiled with countAllVisits flag (-c)."))

/-- The number of turns since the last visit to a container, with a warning if it does not
note them. -/
def turnsSinceOrWarn (s : State) (t : ContentTree) (id : NodeId) : Int × State :=
  match s.turnsSince? t id with
  | some n => (n, s)
  | none =>
    (-1, s.warn t ("TURNS_SINCE() for target (" ++ (t.path id).render ++
      ") unknown. The story may need to be compiled with countAllVisits flag (-c)."))

/-- The number of visits saved under the text of a path, which has to lead to a
container. -/
def visitsAt (s : State) (t : ContentTree) (path : String) : Except StoryError Int :=
  match (t.find (Path.parse path)).exactContainer? t with
  | some _ => .ok ((s.visits.get? path).getD 0)
  | none => .error (.address (.content path))

/-! ## Choices -/

/-- Generate a choice: an offer, and a copy of the current thread to go on with. -/
def offer (s : State) (o : Offer) : State :=
  let (thread, callStack) := s.callStack.fork
  { s with
    callStack
    choices := s.choices ++ [{ o with threadNumber := thread.index, thread }] }

/-- Go on with a copy of the current thread alone. -/
def resumeCopy (s : State) : State :=
  let (thread, callStack) := s.callStack.fork
  { s with callStack := callStack.resume thread }

/-! ## Frames -/

/-- Drop the innermost frame. The text of a function loses its spacing at the end. -/
def popFrame (s : State) : Except StoryError State := do
  let f := s.callStack.top
  let output :=
    if f.kind = .function then s.output.trimFrom (f.outputStart.getD 0) else s.output
  return { s with output := output, callStack := ← s.callStack.pop }

/-- Leave a function that the host called, if one is running. -/
def leaveHostCall (s : State) : State :=
  if s.callStack.inHostCall then { s.setCursor none with safeExit := true } else s

/-- Move to a path, dropping the choices. Where the path is followed in part only, the
place reached counts, with a warning. -/
def jump (s : State) (t : ContentTree) (p : Path) (countTurn : Bool) :
    State × Option StoryError :=
  let s := { s with choices := [] }
  match t.cursorAt p with
  | .error e => (s, some e)
  | .ok (cursor, warning) =>
    let s := s.warnAll t warning.toList
    let cursor := cursor.map fun c => if c.index = -1 then { c with index := 0 } else c
    let s := s.setCursor cursor
    (if countTurn then { s with turn := s.turn + 1 } else s, none)

/-- The containers that are open at the place executed before. -/
def openBefore (s : State) (t : ContentTree) : List NodeId :=
  match s.previous with
  | none => []
  | some c =>
    match (c.node? t).filter t.isContainer with
    | some id => t.ancestry id
    | none => t.ancestry c.container

/-- Enter the ancestors of the node `child` that were not open before, from the innermost
one on. `atStart` holds as long as every container entered is entered at its start. -/
def enterAncestors (t : ContentTree) (openBefore : List NodeId) :
    State → NodeId → Bool → List NodeId → State
  | s, _, _, [] => s
  | s, child, atStart, id :: rest =>
    match t.container? id with
    | none => s
    | some c =>
      if openBefore.contains id && !c.flags.startOnly then s
      else
        let atStart := c.content.head? == some child && atStart
        enterAncestors t openBefore (s.enter t id atStart) id atStart rest

/-- Count the visits to the containers that a jump has entered. -/
def enterByJump (s : State) (t : ContentTree) : State :=
  match s.cursor with
  | none => s
  | some c =>
    if c.index = -1 then s
    else
      match c.node? t with
      | none => s
      | some id => enterAncestors t (s.openBefore t) s id true (t.ancestry id).tail

/-- The place behind a place in the order of content. Behind the last element of a
container comes what follows the container in the content of its parent. -/
def nextCursor? (t : ContentTree) (c : Cursor) : Option Cursor :=
  let next := c.index + 1
  if 0 ≤ next ∧ next < (t.content c.container).length then some ⟨c.container, next⟩
  else
    match t.parent? c.container with
    | none => none
    | some parent =>
      if parent < c.container then
        match (t.content parent).idxOf? c.container with
        | none => none
        | some i => nextCursor? t ⟨parent, i⟩
      else none
termination_by c.container

/-- Move to the place behind the present one; whether there is one. -/
def advance (s : State) (t : ContentTree) : Bool × State :=
  let next := s.cursor.bind (nextCursor? t)
  (next.isSome, s.setCursor next)

end State

end StoryMachine
