import StoryMachine.State.Basic

/-!
# Saved states

A state is saved as a JSON object. The thread of a choice is saved with it only if it is
not one of the live threads; on reading, a live thread of the number that the choice names
comes first. Messages are not saved: reading keeps those of the state it replaces, and adds
a warning for each place that had to be approximated.

Reading looks at the parts in a fixed order, and the first one that is wrong is the error.
-/

namespace StoryMachine

/-- The version of saved states that is written. -/
def saveVersion : Int := 8

/-- The oldest version of saved states that is read. -/
def oldestSaveVersion : Int := 8

namespace Offer

/-- An offer as JSON. -/
def toJson (o : Offer) : Json :=
  .object <|
    [("text", .str o.text), ("index", .nat o.index), ("originalChoicePath", .str o.source),
     ("originalThreadIndex", .nat o.threadNumber), ("targetPath", .str o.target.render)] ++
    (if o.tags.isEmpty then [] else [("tags", Json.strings o.tags)])

/-- The field that a saved offer has to have. -/
def neededField (t : Json) (name : String) : Except StoryError Json :=
  match t.field? name with
  | some f => .ok f
  | none => .error (badToken t)

/-- Read an offer. Whether it was invisible is not saved. -/
def ofJson (t : Json) : Except StoryError Offer := do
  let text ← fieldString t (← neededField t "text")
  let index ← fieldNat t (← neededField t "index")
  let source ← fieldString t (← neededField t "originalChoicePath")
  let threadNumber ← fieldNat t (← neededField t "originalThreadIndex")
  let target ← fieldString t (← neededField t "targetPath")
  let tags ← match t.field? "tags" with
    | some tags => fieldStrings t tags
    | none => pure []
  return { text, index, tags, source, target := Path.parse target, isInvisible := false
           threadNumber }

end Offer

/-- Counts as JSON. -/
def countsToJson (counts : Table Int) : Json :=
  Json.ofTable .int counts

/-- Read counts. -/
def countsOfJson (fields : List (String × Json)) : Except StoryError (Table Int) := do
  return .ofList (← fields.mapM fun f =>
    match f.2.int64? with
    | some n => pure (f.1, wrap32 n)
    | none => throw (.decode (.count f.1 f.2)))

namespace State

/-- The saved threads of the choices whose threads are not live. -/
def choiceThreads (s : State) (t : ContentTree) : List (String × Json) :=
  s.choices.filterMap fun c =>
    if (s.callStack.thread? c.thread.index).isSome then none
    else some (Decimal.ofNat c.thread.index, c.thread.toJson t)

/-- A state as JSON. -/
def toJson (s : State) (t : ContentTree) : Json :=
  let threads := s.choiceThreads t
  .object <|
    [("callstackThreads", s.callStack.toJson t),
     ("outputStream", Json.array Token.toJson s.output.tokens)] ++
    (if threads.isEmpty then [] else [("choiceThreads", .object threads)]) ++
    [("currentChoices", Json.array Offer.toJson (s.choices.map Choice.toOffer)),
     ("variablesState", s.vars.toJson),
     ("evalStack", Json.array Token.toJson s.evaluation.reverse)] ++
    (match s.diverted with
      | some c => [("currentDivertTarget", .str (c.path t).render)]
      | none => []) ++
    [("visitCounts", countsToJson s.visits), ("turnIndices", countsToJson s.turns),
     ("turnIdx", .int s.turn), ("storySeed", .int s.seed.toInt),
     ("previousRandom", .int s.drawn.toInt), ("inkSaveVersion", .int saveVersion),
     ("inkFormatVersion", .int formatVersion)]

/-- A state as text. -/
def toText (s : State) (t : ContentTree) : String :=
  (s.toJson t).render

/-- The object that a saved state has to hold under a name. -/
def objectField (j : Json) (name : String) : Except StoryError Json :=
  match j.field? name with
  | some (.obj fields) => .ok (.obj fields)
  | _ => .error (.decode (.stateField name))

/-- The fields of the object that a saved state has to hold under a name. -/
def objectFields (j : Json) (name : String) : Except StoryError (List (String × Json)) :=
  match (j.field? name).bind Json.obj? with
  | some fields => .ok fields
  | none => .error (.decode (.stateField name))

/-- The array that a saved state has to hold under a name. -/
def arrayField (j : Json) (name : String) : Except StoryError (List Json) :=
  match (j.field? name).bind Json.arr? with
  | some items => .ok items
  | none => .error (.decode (.stateField name))

/-- The whole number that a saved state has to hold under a name. -/
def intField (j : Json) (name : String) : Except StoryError Int :=
  match (j.field? name).bind Json.int64? with
  | some n => .ok (wrap32 n)
  | none => .error (.decode (.stateField name))

/-- The thread of a saved offer: the live thread of its number, or else the one saved with
it. -/
def threadOf (t : ContentTree) (stack : CallStack) (saved : Option Json) (o : Offer) :
    Except StoryError (WithWarnings Thread) :=
  match stack.thread? o.threadNumber with
  | some live => .ok (live, [])
  | none =>
    match saved.bind (Json.field? · (Decimal.ofNat o.threadNumber)) with
    | some (.obj fields) => Thread.ofJson t (.obj fields)
    | _ => .error (.decode (.choiceThread o.threadNumber o.text))

/-- The choices of saved offers. -/
def giveThreads (t : ContentTree) (stack : CallStack) (saved : Option Json) :
    List Offer → Except StoryError (WithWarnings (List Choice))
  | [] => .ok ([], [])
  | o :: rest => do
    let (thread, warnings) ← threadOf t stack saved o
    let (choices, more) ← giveThreads t stack saved rest
    return ({ o with thread } :: choices, warnings ++ more)

/-- Read a saved state over the state `s`, which keeps its messages and its defaults. -/
def ofFields (s : State) (t : ContentTree) (j : Json) : Except StoryError State := do
  let (callStack, stackWarnings) ← CallStack.ofJson t (← objectField j "callstackThreads")
  let output ← (← arrayField j "outputStream").mapM Token.ofJson
  let offers ← (← arrayField j "currentChoices").mapM Offer.ofJson
  let (choices, choiceWarnings) ← giveThreads t callStack (j.field? "choiceThreads") offers
  let vars ← s.vars.ofJson (← objectField j "variablesState")
  let evaluation ← (← arrayField j "evalStack").mapM Token.ofJson
  let (diverted, divertWarning) ← match (j.field? "currentDivertTarget").bind Json.str? with
    | some path => t.cursorAt (Path.parse path)
    | none => pure (none, none)
  let visits ← countsOfJson (← objectFields j "visitCounts")
  let turns ← countsOfJson (← objectFields j "turnIndices")
  let turn ← intField j "turnIdx"
  let seed ← intField j "storySeed"
  let drawn := ((j.field? "previousRandom").bind Json.int64?).getD 0
  let loaded : State :=
    { s with
      callStack, vars, choices, diverted, visits, turns, turn
      evaluation := evaluation.reverse
      output := .ofTokens output
      seed := Int32.ofInt seed
      drawn := Int32.ofInt drawn
      safeExit := false }
  return loaded.warnAll t (stackWarnings ++ choiceWarnings ++ divertWarning.toList)

/-- Read a saved state over the state `s`, if its version is supported. -/
def ofJson (s : State) (t : ContentTree) (j : Json) : Except StoryError State := do
  if j.obj?.isNone then throw (.decode .stateNotObject)
  match (j.field? "inkSaveVersion").bind Json.int64? with
  | none => throw (.decode .saveVersionMissing)
  | some n =>
    let version := wrap32 n
    if version < oldestSaveVersion then throw (.version (.saveOlder version oldestSaveVersion))
    s.ofFields t j

/-- Read a saved state from its text. -/
def ofText (s : State) (t : ContentTree) (text : String) : Except StoryError State :=
  match Json.read? text with
  | none => .error (.decode .notJson)
  | some j => s.ofJson t j

end State

end StoryMachine
