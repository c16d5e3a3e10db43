import StoryMachine.CallStack.Basic
import StoryMachine.Content.Encode

/-!
# Saved call stacks

A frame is saved with the path of its container and its index there, a thread with its
frames from the outermost one on and the path of the place executed before. Reading looks
the paths up again. A container that is not found to the end of its path is replaced by
the last one reached, with a warning.
-/

namespace StoryMachine

namespace FrameKind

/-- The number a kind of frame is saved as. -/
def toInt : FrameKind → Int
  | .tunnel => 0
  | .function => 1
  | .hostCall => 2

/-- The kind of frame saved as `n`. -/
def ofInt (n : Int) : Except StoryError FrameKind :=
  if n = 0 then .ok .tunnel
  else if n = 1 then .ok .function
  else if n = 2 then .ok .hostCall
  else .error (.decode (.frameKind n))

theorem ofInt_toInt (k : FrameKind) : ofInt k.toInt = .ok k := by
  cases k <;> rfl

end FrameKind

/-- What reading yields besides its result: the warnings, in order. -/
abbrev WithWarnings (α : Type) := α × List String

namespace Frame

/-- A frame as JSON. -/
def toJson (t : ContentTree) (f : Frame) : Json :=
  .object <|
    (match f.cursor with
      | some c => [("cPath", .str (t.path c.container).render), ("idx", .int c.index)]
      | none => []) ++
    [("exp", .bool f.inExpression), ("type", .int f.kind.toInt)] ++
    (if f.temporaries.isEmpty then []
      else [("temp", Json.ofTable Value.toJson f.temporaries)])

/-- The warning that a saved place was replaced. -/
def replaced (path : String) (reached : Path) : String :=
  "When loading state, exact internal story location couldn't be found: '" ++ path ++
    "', so it was approximated to '" ++ reached.render ++
    "' to recover. Has the story changed since this save data was created?"

/-- Read the place of a frame. -/
def cursorOfJson (t : ContentTree) (j : Json) :
    Except StoryError (WithWarnings (Option Cursor)) := do
  match (j.field? "cPath").bind Json.str? with
  | none => return (none, [])
  | some path =>
    let found := t.find (Path.parse path)
    match (j.field? "idx").bind Json.int64? with
    | none => throw (.decode .cursorIndex)
    | some n =>
      match found.container? t with
      | none => throw (.address (.lost path))
      | some c =>
        let warnings :=
          if found.approximate then [replaced path (t.path found.node)] else []
        return (some ⟨c, wrap32 n⟩, warnings)

/-- Read a frame. -/
def ofJson (t : ContentTree) (j : Json) : Except StoryError (WithWarnings Frame) := do
  if j.obj?.isNone then throw (.decode .frame)
  match (j.field? "type").bind Json.int64? with
  | none => throw (.decode .frameKindMissing)
  | some n =>
    let kind ← FrameKind.ofInt n
    let (cursor, warnings) ← cursorOfJson t j
    let inExpression := ((j.field? "exp").bind Json.bool?).getD false
    let temporaries ← match (j.field? "temp").bind Json.obj? with
      | some fields => Value.tableOfJson fields
      | none => pure .empty
    return ({ new kind cursor with inExpression, temporaries }, warnings)

/-- Read frames. -/
def listOfJson (t : ContentTree) : List Json → Except StoryError (WithWarnings (List Frame))
  | [] => .ok ([], [])
  | j :: rest => do
    let (frame, warnings) ← ofJson t j
    let (frames, more) ← listOfJson t rest
    return (frame :: frames, warnings ++ more)

end Frame

namespace Thread

/-- A thread as JSON. -/
def toJson (t : ContentTree) (thread : Thread) : Json :=
  .object <|
    [("callstack", Json.array (Frame.toJson t) thread.frames),
     ("threadIndex", .nat thread.index)] ++
    (match thread.previous.bind (Cursor.node? · t) with
      | some id => [("previousContentObject", .str (t.path id).render)]
      | none => [])

/-- Read a thread. -/
def ofJson (t : ContentTree) (j : Json) : Except StoryError (WithWarnings Thread) := do
  match (j.field? "threadIndex").bind Json.nat? with
  | none => throw (.decode .threadIndex)
  | some index =>
    match (j.field? "callstack").bind Json.arr? with
    | none => throw (.decode .threadWithoutFrames)
    | some items =>
      let (frames, warnings) ← Frame.listOfJson t items
      match frames.reverse with
      | [] => throw (.decode .emptyThread)
      | top :: below =>
        match (j.field? "previousContentObject").bind Json.str? with
        | none => return (⟨top, below, none, index⟩, warnings)
        | some path =>
          let (previous, warning) ← t.cursorAt (Path.parse path)
          return (⟨top, below, previous, index⟩, warnings ++ warning.toList)

/-- Read threads. -/
def listOfJson (t : ContentTree) :
    List Json → Except StoryError (WithWarnings (List Thread))
  | [] => .ok ([], [])
  | j :: rest => do
    if j.obj?.isNone then throw (.decode .thread)
    let (thread, warnings) ← ofJson t j
    let (threads, more) ← listOfJson t rest
    return (thread :: threads, warnings ++ more)

end Thread

namespace CallStack

/-- A call stack as JSON. -/
def toJson (t : ContentTree) (s : CallStack) : Json :=
  .object [("threads", Json.array (Thread.toJson t) s.threads), ("threadCounter", .nat s.made)]

/-- Read a call stack. -/
def ofJson (t : ContentTree) (j : Json) : Except StoryError (WithWarnings CallStack) := do
  match (j.field? "threads").bind Json.arr? with
  | none => throw (.decode .noThreads)
  | some items =>
    let (threads, warnings) ← Thread.listOfJson t items
    match threads.reverse with
    | [] => throw (.decode .noThreads)
    | current :: others =>
      match (j.field? "threadCounter").bind Json.nat? with
      | none => throw (.decode .threadCounter)
      | some made => return (⟨current, others, made⟩, warnings)

end CallStack

end StoryMachine
