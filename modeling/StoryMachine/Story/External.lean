import StoryMachine.Story.Basic

/-!
# Functions of the host

A divert may call a function of the host by name. If the function is bound, it is called
and its answer pushed. If it is not bound, a knot of that name may stand in for it;
otherwise the line waits until the host gives the answer.

A call that must not be taken back is not made while the machine looks ahead: the machine
notes that it met one, and the line ends at the state kept for that. In a string it
cannot end, and the call is an error.
-/

namespace StoryMachine

namespace Flow

/-- Pop values for the arguments of a call, and give them in the order they were pushed;
`popped` holds those popped so far. -/
def popArguments (name : String) (popped : List Value) : Nat → Flow (List Value)
  | 0 => return popped
  | count + 1 => do
    match ← pop with
    | .value v => popArguments name (v :: popped) count
    | _ => throw (.type (.externalArguments name))

/-- Divert to a knot as to a function. -/
def callKnot (knot : NodeId) : Flow Unit :=
  modifyState fun s =>
    { s with
      callStack := s.callStack.push .function 0 s.output.length
      diverted := some (.start knot) }

/-- Call a bound function and push its answer. -/
def callBound (name : String) (b : Binding) (arguments : List Value) : Flow Unit := do
  let call := b.calls + 1
  modify fun s =>
    { s with bindings := s.bindings.insert name { b with calls := call } }.log
      (.called name arguments)
  match b.function call arguments with
  | some v => push (.value v)
  | none => push .void

/-- Call a function of the host. -/
def callExternal (name : String) (count : Nat) : Flow Unit := do
  let s ← get
  let binding := s.bindings.get? name
  let standIn := if binding.isNone && s.fallbacks then s.tree.knot? name else none
  if let some knot := standIn then
    callKnot knot
  else if (binding.map Binding.lookaheadSafe) != some true && s.lineState.isSome then
    if s.state.output.inString then throw (.flow (.unsafeInString name))
    modify fun s => { s with metUnsafeCall := true }
  else
    let arguments ← popArguments name [] count
    match binding with
    | some b => callBound name b arguments
    | none => modify fun s => { s with pending := some ⟨name, arguments⟩ }

end Flow

namespace Story

/-- The divert at a place that calls a function of the host. -/
def externalDivert? (t : ContentTree) (id : NodeId) : Option Divert :=
  match t.leaf? id with
  | some (.divert d) => if d.isExternal then some d else none
  | _ => none

/-- Whether a call of this name would wait for the host. -/
def isMissing (s : Story) (name : String) : Bool :=
  !s.bindings.contains name && !(s.fallbacks && (s.tree.knot? name).isSome)

/-- The names of the functions that the story may call and would wait for, in order. -/
def missingBindings (s : Story) : List String :=
  let names := (List.range s.tree.size).filterMap fun id =>
    (externalDivert? s.tree id).map Divert.functionName
  (SortedMap.ofList ((names.filter s.isMissing).map (·, ())) : Table Unit).keys

end Story

end StoryMachine
