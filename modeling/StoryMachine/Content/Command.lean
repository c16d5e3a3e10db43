/-!
# Commands

A command acts on the evaluation stack, the call stack or the output instead of being
content. In a story it is written as a short word; in messages it has a name.
-/

namespace StoryMachine

/-- The commands. -/
inductive Command where
  | evalStart
  | evalOutput
  | evalEnd
  | duplicate
  | popValue
  | popFunction
  | popTunnel
  | beginString
  | endString
  | noOp
  | choiceCount
  | turns
  | turnsSince
  | readCount
  | random
  | seedRandom
  | visitIndex
  | shuffleIndex
  | startThread
  | done
  | finish
  | listFromInt
  | listRange
  | listRandom
  | beginTag
  | endTag
  deriving DecidableEq, Repr, Inhabited

namespace Command

/-- The commands with the word they are written as and their name. -/
def table : List (Command × String × String) :=
  [(.evalStart, "ev", "EvalStart"), (.evalOutput, "out", "EvalOutput"),
   (.evalEnd, "/ev", "EvalEnd"), (.duplicate, "du", "Duplicate"),
   (.popValue, "pop", "PopEvaluatedValue"), (.popFunction, "~ret", "PopFunction"),
   (.popTunnel, "->->", "PopTunnel"), (.beginString, "str", "BeginString"),
   (.endString, "/str", "EndString"), (.noOp, "nop", "NoOp"),
   (.choiceCount, "choiceCnt", "ChoiceCount"), (.turns, "turn", "Turns"),
   (.turnsSince, "turns", "TurnsSince"), (.readCount, "readc", "ReadCount"),
   (.random, "rnd", "Random"), (.seedRandom, "srnd", "SeedRandom"),
   (.visitIndex, "visit", "VisitIndex"), (.shuffleIndex, "seq", "SequenceShuffleIndex"),
   (.startThread, "thread", "StartThread"), (.done, "done", "Done"), (.finish, "end", "End"),
   (.listFromInt, "listInt", "ListFromInt"), (.listRange, "range", "ListRange"),
   (.listRandom, "lrnd", "ListRandom"), (.beginTag, "#", "BeginTag"),
   (.endTag, "/#", "EndTag")]

/-- The command written as `w`. -/
def ofWord? (w : String) : Option Command :=
  (table.find? fun e => e.2.1 == w).map Prod.fst

/-- The word that a command is written as. -/
def word (c : Command) : String :=
  ((table.find? fun e => e.1 == c).map fun e => e.2.1).getD ""

/-- The name of a command in messages. -/
def name (c : Command) : String :=
  ((table.find? fun e => e.1 == c).map fun e => e.2.2).getD ""

instance : ToString Command := ⟨name⟩

/-- No two commands are written alike. -/
theorem ofWord?_word (c : Command) : ofWord? c.word = some c := by
  cases c <;> rfl

end Command

end StoryMachine
