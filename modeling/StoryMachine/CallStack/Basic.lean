import StoryMachine.Content.Lookup

/-!
# Call stacks

The flow of a story is a stack of threads, and each thread a stack of frames: the place of
execution, whether an expression is being evaluated, and the temporary variables. A frame
is pushed by a tunnel, a function, or a call of the host. There is always a thread, and
every thread has a frame, by type.

A new thread starts as a copy of the current one. Threads are numbered as they are made,
so that a choice can say which thread it came from.
-/

namespace StoryMachine

/-- What pushed a frame, and so which return may pop it. -/
inductive FrameKind where
  | tunnel
  | function
  | hostCall
  deriving DecidableEq, Repr, Inhabited

/-- A level of a thread.

* `evaluationHeight` : height of the evaluation stack when the host called the function;
* `outputStart` : length of the output when the function was called, until the function
  has put out text. -/
structure Frame where
  kind : FrameKind
  cursor : Option Cursor
  inExpression : Bool
  temporaries : Table Value
  evaluationHeight : Nat
  outputStart : Option Nat
  deriving Inhabited

namespace Frame

/-- A frame without temporaries. -/
def new (kind : FrameKind) (cursor : Option Cursor) : Frame where
  kind := kind
  cursor := cursor
  inExpression := false
  temporaries := .empty
  evaluationHeight := 0
  outputStart := some 0

end Frame

/-- A thread: its frames, innermost first, and the place executed before the current
one. -/
structure Thread where
  top : Frame
  below : List Frame
  previous : Option Cursor
  index : Nat
  deriving Inhabited

namespace Thread

/-- The frames, outermost first. -/
def frames (t : Thread) : List Frame :=
  (t.top :: t.below).reverse

/-- Number of frames. -/
def depth (t : Thread) : Nat :=
  t.below.length + 1

theorem length_frames (t : Thread) : t.frames.length = t.depth := by
  simp [frames, depth]

/-- The thread of the given frames, innermost first, if there is one. -/
def ofFrames? (previous : Option Cursor) (index : Nat) : List Frame → Option Thread
  | [] => none
  | top :: below => some { top, below, previous, index }

/-- The frame of a number, counted from the outermost one on. -/
def frame? (t : Thread) (i : Nat) : Option Frame :=
  if i = t.below.length then some t.top
  else if i < t.below.length then t.below[t.below.length - 1 - i]?
  else none

theorem frame?_eq_getElem? (t : Thread) (i : Nat) : t.frame? i = t.frames[i]? := by
  unfold frame? frames
  split
  · next h => simp [h]
  · split
    · next h =>
      rw [List.getElem?_reverse (by simp; omega), List.length_cons,
        show t.below.length + 1 - 1 - i = (t.below.length - 1 - i) + 1 by omega,
        List.getElem?_cons_succ]
    · simp; omega

/-- Change the frame of a number, counted from the outermost one on. -/
def modifyFrame (t : Thread) (i : Nat) (f : Frame → Frame) : Thread :=
  if i = t.below.length then { t with top := f t.top }
  else if i < t.below.length then
    { t with below := t.below.modify (t.below.length - 1 - i) f }
  else t

end Thread

/-- The threads of a story, the current one first, and the number of threads made. -/
structure CallStack where
  current : Thread
  others : List Thread
  made : Nat
  deriving Inhabited

namespace CallStack

/-- The thread that a flow starts with. -/
def startThread : Thread where
  top := .new .tunnel (some (.start ContentTree.rootId))
  below := []
  previous := none
  index := 0

/-- The call stack at the start of a story. -/
def start : CallStack :=
  ⟨startThread, [], 0⟩

/-- The threads, the oldest one first. -/
def threads (s : CallStack) : List Thread :=
  (s.current :: s.others).reverse

/-- The innermost frame of the current thread. -/
def top (s : CallStack) : Frame :=
  s.current.top

/-- Change the innermost frame of the current thread. -/
def modifyTop (s : CallStack) (f : Frame → Frame) : CallStack :=
  { s with current := { s.current with top := f s.current.top } }

/-- Number of frames of the current thread. -/
def depth (s : CallStack) : Nat :=
  s.current.depth

/-- Start over with one thread of one frame; the count of threads goes on. -/
def reset (s : CallStack) : CallStack :=
  { s with current := startThread, others := [] }

/-- Whether the innermost frame is a call of the host. -/
def inHostCall (s : CallStack) : Bool :=
  s.top.kind = .hostCall

/-- Whether the current thread can end with another one going on. -/
def canPopThread (s : CallStack) : Bool :=
  !s.others.isEmpty && !s.inHostCall

/-- End the current thread. -/
def popThread (s : CallStack) : Except StoryError CallStack :=
  match s.others with
  | next :: rest =>
    if s.inHostCall then .error (.flow .popThread)
    else .ok { s with current := next, others := rest }
  | [] => .error (.flow .popThread)

/-- A copy of the current thread under a new number. -/
def fork (s : CallStack) : Thread × CallStack :=
  ({ s.current with index := s.made + 1 }, { s with made := s.made + 1 })

/-- Start a new thread as a copy of the current one. -/
def pushThread (s : CallStack) : CallStack :=
  let (thread, s) := s.fork
  { s with current := thread, others := s.current :: s.others }

theorem threads_pushThread (s : CallStack) :
    s.pushThread.threads = s.threads ++ [s.fork.1] := by
  simp [pushThread, threads, fork]

/-- Go on with one thread alone. -/
def resume (s : CallStack) (t : Thread) : CallStack :=
  { s with current := t, others := [] }

/-- The oldest thread of a number. -/
def thread? (s : CallStack) (index : Nat) : Option Thread :=
  s.threads.find? fun t => t.index == index

/-- Whether there is a frame to return to. -/
def canPop (s : CallStack) : Bool :=
  !s.current.below.isEmpty

/-- Whether there is a frame to return to from a frame of the given kind. -/
def canPopKind (s : CallStack) (k : FrameKind) : Bool :=
  s.canPop && s.top.kind = k

/-- Drop the innermost frame. -/
def pop (s : CallStack) : Except StoryError CallStack :=
  match s.current.below with
  | next :: rest => .ok { s with current := { s.current with top := next, below := rest } }
  | [] => .error (.flow .popFrame)

/-- Drop the innermost frame, which has to be of the given kind. -/
def popKind (s : CallStack) (k : FrameKind) : Except StoryError CallStack :=
  if s.top.kind = k then s.pop else .error (.flow .popFrame)

/-- Push a frame at the place of the current one. -/
def push (s : CallStack) (k : FrameKind) (evaluationHeight outputStart : Nat) : CallStack :=
  let frame := { Frame.new k s.top.cursor with
    evaluationHeight := evaluationHeight, outputStart := some outputStart }
  { s with current := { s.current with top := frame, below := s.top :: s.current.below } }

theorem pop_push (s : CallStack) (k : FrameKind) (evaluationHeight outputStart : Nat) :
    (s.push k evaluationHeight outputStart).pop = .ok s := rfl

theorem depth_push (s : CallStack) (k : FrameKind) (evaluationHeight outputStart : Nat) :
    (s.push k evaluationHeight outputStart).depth = s.depth + 1 := by
  simp [push, depth, Thread.depth]

/-- The frame that a scope stands for: scopes from one on number the frames from the
outermost one on, and the scope still unknown is that of the innermost frame. -/
def scopeFrame? (s : CallStack) (scope : Int) : Option Frame :=
  if scope = unknownScope then some s.top
  else if 1 ≤ scope then s.current.frame? (scope - 1).toNat
  else none

/-- Change the frame that a scope stands for. -/
def modifyScopeFrame (s : CallStack) (scope : Int) (f : Frame → Frame) : CallStack :=
  if scope = unknownScope then s.modifyTop f
  else if 1 ≤ scope then
    { s with current := s.current.modifyFrame (scope - 1).toNat f }
  else s

/-- The temporary variable of a scope. -/
def temporary? (s : CallStack) (name : String) (scope : Int) : Option Value := do
  (← s.scopeFrame? scope).temporaries.get? name

/-- Put a temporary variable into the frame of a scope. -/
def putTemporary (s : CallStack) (scope : Int) (name : String) (value : Value) : CallStack :=
  s.modifyScopeFrame scope fun f =>
    { f with temporaries := f.temporaries.insert name value }

/-- Set the temporary variable of a scope, which has to exist unless it is declared. -/
def setTemporary (s : CallStack) (name : String) (value : Value) (isDeclaration : Bool)
    (scope : Int) : Except StoryError CallStack :=
  match s.scopeFrame? scope with
  | none => .error (.address (.temporaryContext name))
  | some frame =>
    match frame.temporaries.get? name with
    | some old => .ok (s.putTemporary scope name (old.inheritOrigins value))
    | none =>
      if isDeclaration then .ok (s.putTemporary scope name value)
      else .error (.address (.temporaryUnknown name))

/-- The scope of a variable: that of the innermost frame if it has a temporary of this
name, otherwise the global scope. -/
def scopeOf (s : CallStack) (name : String) : Int :=
  if s.top.temporaries.contains name then s.depth else globalScope

/-- The mark of a frame in a trace. -/
def frameLine (t : ContentTree) (f : Frame) : String :=
  (if f.kind = .function then "  [FUNCTION] " else "  [TUNNEL] ") ++
    match f.cursor with
    | some c => "<SOMEWHERE IN " ++ (t.path c.container).render ++ ">\n"
    | none => ""

/-- The lines of a thread in a trace. -/
def threadLines (t : ContentTree) (count number : Nat) (thread : Thread) : String :=
  "=== THREAD " ++ Decimal.ofNat number ++ "/" ++ Decimal.ofNat count ++ " " ++
    (if number = count then "(current) " else "") ++ "===\n" ++
    String.join (thread.frames.map (frameLine t))

/-- The threads and frames for a reader. -/
def trace (s : CallStack) (t : ContentTree) : String :=
  let count := s.others.length + 1
  String.join (s.threads.mapIdx fun i thread => threadLines t count (i + 1) thread)

end CallStack

end StoryMachine
