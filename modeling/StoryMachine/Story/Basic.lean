import StoryMachine.State.Codec

/-!
# Stories

A `Story` is the content of a story with its running state and with what the host has
attached to it: functions the story may call, observers of variables, and a handler for
problems. What reaches the host while the story runs is logged as events.

What runs is a `Flow`: it changes a story and may fail. The changes made in front of a
failure stay, as the error is recorded where it happened.
-/

namespace StoryMachine

/-- A function of the host: its answer from the number of the call, counted from one on,
and the arguments. -/
abbrev HostFunction := Nat → List Value → Option Value

/-- A function of the host bound to a name.

* `calls` : how often it has been called;
* `lookaheadSafe` : it may be called in a step that is taken back later. -/
structure Binding where
  function : HostFunction
  calls : Nat
  lookaheadSafe : Bool
  deriving Inhabited

/-- A call of a function that is not bound, whose result the host still has to give. -/
structure PendingCall where
  name : String
  arguments : List Value
  deriving Inhabited

/-- What reaches the host while a story runs. -/
inductive Event where
  | error (message : String)
  | warning (message : String)
  | changed (observer name : String) (value : Value)
  | called (name : String) (arguments : List Value)
  deriving Inhabited

/-- A story that runs.

* `lineState` : the state at the line end behind which the machine is looking ahead;
* `metUnsafeCall` : looking ahead has met a call that must not be taken back;
* `lineOpen` : a line is being produced and will be gone on with;
* `pending` : the call whose result the line waits for;
* `fallbacks` : a function that is not bound is replaced by a knot of its name;
* `observers` : by variable, who is told of its changes;
* `hasHandler` : problems are reported instead of failing a call;
* `warningsShown` : the recorded warnings have been available to the host;
* `events` : what has reached the host, the newest event first. -/
structure Story where
  content : Content
  state : State
  lineState : Option State
  metUnsafeCall : Bool
  lineOpen : Bool
  pending : Option PendingCall
  bindings : Table Binding
  fallbacks : Bool
  observers : Table (List String)
  hasHandler : Bool
  warningsShown : Bool
  events : List Event
  deriving Inhabited

/-- A computation on a story. -/
abbrev Flow := EStateM StoryError Story

namespace Story

/-- The content tree. -/
def tree (s : Story) : ContentTree :=
  s.content.tree

/-- A story that has not run yet. -/
def unstarted (content : Content) (seed : Int32) : Story where
  content := content
  state := .start seed
  lineState := none
  metUnsafeCall := false
  lineOpen := false
  pending := none
  bindings := .empty
  fallbacks := false
  observers := .empty
  hasHandler := false
  warningsShown := false
  events := []

/-- Log an event. -/
def log (s : Story) (e : Event) : Story :=
  { s with events := e :: s.events }

/-- Log several events, in order. -/
def logAll (s : Story) (es : List Event) : Story :=
  es.foldl log s

/-- Whether the story can produce more text. -/
def canContinue (s : Story) : Bool :=
  s.pending.isNone && s.state.canContinue

/-- Whether no line is in progress. -/
def lineComplete (s : Story) : Bool :=
  !s.lineOpen

/-- The error of an activity that has to wait for the end of the line. -/
def busy? (s : Story) (a : Activity) : Option StoryError :=
  match s.pending with
  | some call => some (.request (.busyWaiting a call.name))
  | none => if s.lineOpen then some (.request (.busyLine a)) else none

end Story

namespace Flow

/-- The content tree. -/
def tree : Flow ContentTree :=
  return (← get).tree

/-- The running state. -/
def state : Flow State :=
  return (← get).state

/-- Change the running state. -/
def modifyState (f : State → State) : Flow Unit :=
  modify fun s => { s with state := f s.state }

theorem tree_run (s : Story) : tree.run s = .ok s.tree s := rfl

theorem state_run (s : Story) : state.run s = .ok s.state s := rfl

theorem modifyState_run (f : State → State) (s : Story) :
    (modifyState f).run s = .ok () { s with state := f s.state } := rfl

/-- Change the running state, with a result. -/
def withState {α : Type} (f : State → α × State) : Flow α :=
  modifyGet fun s => let (a, state) := f s.state; (a, { s with state })

theorem withState_run {α : Type} (f : State → α × State) (s : Story) :
    (withState f).run s = .ok (f s.state).1 { s with state := (f s.state).2 } := rfl

/-- Change the running state, or fail and leave it. -/
def tryState {α : Type} (f : State → Except StoryError (α × State)) : Flow α := do
  match f (← state) with
  | .ok (a, new) =>
    modifyState fun _ => new
    return a
  | .error e => throw e

theorem tryState_run_ok {α : Type} {f : State → Except StoryError (α × State)} {s : Story}
    {a : α} {new : State} (h : f s.state = .ok (a, new)) :
    (tryState f).run s = .ok a { s with state := new } := by
  have hstate : state s = .ok s.state s := rfl
  simp only [tryState, EStateM.run, bind, EStateM.bind, hstate, h]
  rfl

theorem tryState_run_error {α : Type} {f : State → Except StoryError (α × State)} {s : Story}
    {e : StoryError} (h : f s.state = .error e) : (tryState f).run s = .error e s := by
  have hstate : state s = .ok s.state s := rfl
  simp only [tryState, EStateM.run, bind, EStateM.bind, hstate, h]
  rfl

/-- Change the running state, and then possibly fail. -/
def orFail (f : State → State × Option StoryError) : Flow Unit := do
  match ← withState fun s => let (s, e) := f s; (e, s) with
  | some e => throw e
  | none => return ()

/-- The result of a computation that changes nothing. -/
def ofExcept {α : Type} : Except StoryError α → Flow α
  | .ok a => return a
  | .error e => throw e

/-- Record a warning. -/
def warn (message : String) : Flow Unit := do
  let t ← tree
  modifyState fun s => s.warn t message

/-- Record a warning, if there is one. -/
def warnIfSome : Option String → Flow Unit
  | some message => warn message
  | none => return ()

/-- Fail if an activity has to wait for the end of the line. -/
def whenIdle (a : Activity) : Flow Unit := do
  match (← get).busy? a with
  | some e => throw e
  | none => return ()

/-- Pop a token from the evaluation stack. -/
def pop : Flow Token :=
  tryState State.pop

theorem pop_run_cons {t : Token} {rest : List Token} {s : Story}
    (h : s.state.evaluation = t :: rest) :
    pop.run s = .ok t { s with state := { s.state with evaluation := rest } } :=
  tryState_run_ok (by simp [State.pop, h])

/-- Push a token on the evaluation stack. -/
def push (t : Token) : Flow Unit :=
  modifyState fun s => s.push t

theorem push_run (t : Token) (s : Story) :
    (push t).run s = .ok () { s with state := s.state.push t } := rfl

/-- Push a whole number on the evaluation stack. -/
def pushInt (n : Int32) : Flow Unit :=
  push (.int n)

/-- Put out a token. -/
def emit (t : Token) : Flow Unit :=
  modifyState fun s => s.emit t

/-- Pop a whole number, or fail for the given cause. -/
def popInt (cause : TypeFault) : Flow Int32 := do
  match ← pop with
  | .value (.int n) => return n
  | _ => throw (.type cause)

/-- Pop a value, or fail for the given cause. -/
def popValue (cause : TypeFault) : Flow Value := do
  match ← pop with
  | .value v => return v
  | _ => throw (.type cause)

/-- Pop a list, or fail for the given cause. -/
def popList (cause : TypeFault) : Flow ListValue := do
  match ← pop with
  | .value (.list l) => return l
  | _ => throw (.type cause)

end Flow

end StoryMachine
