import StoryMachine.Player.Arguments
import StoryMachine.Player.Command
import StoryMachine.Player.Console
import StoryMachine.Random
import StoryMachine.Story.Host
import StoryMachine.Text.Quoted

/-!
# Playing

The player continues the story as far as it goes, writing its lines, and then asks for a
choice, or makes one at random. It offers no functions to the story: a call that waits for
one gets no value. It stops at the end of the story, at the end of the input, when it is
told to, and as soon as the story has reported an error.
-/

namespace StoryMachine.Player

/-- What ends the player before its time. -/
inductive Failure where
  | story (e : StoryError)
  | read (file : String) (f : FileFault)
  | write (file : String) (f : FileFault)

/-- An error of the story with its kind. -/
def describe (e : StoryError) : String :=
  e.kind.name ++ match e with
    | .version f =>
      " \x7b found: " ++ Decimal.ofInt f.found ++ ", message: " ++ Text.quoted e.detail ++
        " \x7d"
    | e => "(" ++ Text.quoted e.detail ++ ")"

/-- The message of a file that could not be used. -/
def describeFile (verb file : String) (f : FileFault) : String :=
  "could not " ++ verb ++ " file `" ++ file ++ "`\n\nCaused by:\n    " ++ f.message

/-- The wording of a failure. -/
def Failure.message : Failure → String
  | story e => describe e
  | read file f => describeFile "read" file f
  | write file f => describeFile "write" file f

/-- A story being played.

* `auto` : choices are made at random;
* `seed`, `drawn` : the seed of these choices and the number of the next draw;
* `failed` : the story has reported an error. -/
structure Game where
  story : Story
  auto : Bool
  seed : UInt64
  drawn : Nat
  failed : Bool

/-- Playing on a console. -/
abbrev Play (m : Type → Type) := StateT Game (ExceptT Failure m)

variable {m : Type → Type} [Monad m] [Console m]

namespace Play

/-- Do something on the console. -/
def onConsole {α : Type} (x : m α) : Play m α :=
  StateT.lift (ExceptT.lift x)

/-- Write text. -/
def write (s : String) : Play m Unit :=
  onConsole (Console.write s)

/-- Write a line of text. -/
def writeLine (s : String) : Play m Unit :=
  write (s ++ "\n")

/-- Write a line of diagnostics. -/
def reportLine (s : String) : Play m Unit :=
  onConsole (Console.report (s ++ "\n"))

/-- Complain about what was typed, or about what the story asks for. -/
def complain (about : String) : Play m Unit :=
  reportLine ("<" ++ about ++ ">")

/-- Report a problem of the story. -/
def tell : Event → Play m Unit
  | .error message => do
    reportLine message
    modify fun g => { g with failed := true }
  | .warning message => reportLine message
  | _ => return ()

/-- Go on with a story, and report the problems it has met. -/
def setStory (s : Story) : Play m Unit := do
  let (events, s) := s.takeEvents
  modify fun g => { g with story := s }
  events.forM tell

/-- Run a part of the story. -/
def run {α : Type} (x : Flow α) : Play m (Except StoryError α) := do
  match x (← get).story with
  | .ok a s =>
    setStory s
    return .ok a
  | .error e s =>
    setStory s
    return .error e

/-- Run a part of the story that must not fail. -/
def runOrFail {α : Type} (x : Flow α) : Play m α := do
  match ← run x with
  | .ok a => return a
  | .error e => throw (.story e)

/-- Read a file that must be there. -/
def readFile (name : String) : Play m String := do
  match ← onConsole (Console.readFile name) with
  | .ok content => return content
  | .error f => throw (.read name f)

/-- Write a file. -/
def writeFile (name content : String) : Play m Unit := do
  match ← onConsole (Console.writeFile name content) with
  | .ok _ => return ()
  | .error f => throw (.write name f)

/-! ## Lines -/

/-- More lines, questions and turns than a game has. -/
def limit : Nat := 1000000000000

/-- Continue the story by a line, and write it with its tags. -/
def playLine : Play m Unit := do
  write (← runOrFail Flow.next)
  if (← get).story.pending.isNone then
    let tags ← runOrFail Flow.currentTags
    if !tags.isEmpty then writeLine ("# tags: " ++ String.intercalate ", " tags)

/-- Continue the story as far as it goes; `budget` bounds the number of lines. -/
def playLines : (budget : Nat) → Play m Unit
  | 0 => return ()
  | budget + 1 => do
    if (← get).story.canContinue then
      playLine
      playLines budget

/-! ## Choices -/

/-- Show the options, numbered from one on. -/
def showOptions (choices : List Choice) : Play m Unit := do
  writeLine ""
  choices.forM fun c => writeLine c.toOffer.render

/-- The number of draws tried for one choice. -/
def drawTries : Nat := 1000000

/-- Choose at random. -/
def pick (choices : List Choice) : Play m Command := do
  let g ← get
  let (option, drawn) := Random.below g.seed choices.length g.drawn drawTries
  set { g with drawn := drawn }
  showOptions choices
  writeLine ("?> " ++ Decimal.ofNat (option + 1))
  return .choose option

/-- Ask what to do until there is an answer; `budget` bounds the number of questions. -/
def ask (choices : List Choice) : (budget : Nat) → Play m Command
  | 0 => return .stop
  | budget + 1 => do
    showOptions choices
    write "?> "
    match ← onConsole Console.readLine with
    | none => return .stop
    | some line =>
      match Reply.ofLine choices.length line with
      | .obey command => return command
      | .again => ask choices budget
      | .complain about =>
        complain about
        ask choices budget

/-- Do what is asked for; whether to go on. -/
def obey : Command → Play m Bool
  | .choose option => do
    runOrFail (Flow.choose option)
    return true
  | .stop => return false
  | .load file => do
    let saved ← readFile file
    runOrFail (Flow.load saved)
    writeLine "Ok."
    return true
  | .save file => do
    let saved ← runOrFail Flow.save
    writeFile file saved
    writeLine "Ok."
    return true
  | .go path => do
    match ← run (Flow.choosePath path true []) with
    | .ok _ => return true
    | .error e =>
      complain ("error diverting to '" ++ path ++ "': " ++ e.message)
      return true
  | .help => do
    writeLine Command.overview
    return true

/-! ## Turns -/

/-- Answer the call that the story waits for, if there is one, with no value. -/
def answerCall : Play m Bool := do
  match (← get).story.pending with
  | none => return false
  | some call =>
    complain ("external function '" ++ call.name ++ "' is not bound, returning nothing")
    runOrFail (Flow.resolve none)
    return true

/-- Play up to the next choice and make it; whether to go on. -/
def playTurn : Play m Bool := do
  playLines limit
  if ← answerCall then return true
  let choices := (← get).story.visibleChoices
  if choices.isEmpty then return false
  let command ← if (← get).auto then pick choices else ask choices limit
  obey command

/-- Play until the end; `budget` bounds the number of turns. -/
def playTurns : (budget : Nat) → Play m Unit
  | 0 => return ()
  | budget + 1 => do
    if !(← get).failed then
      if ← playTurn then playTurns budget

end Play

/-- A text without the mark of its byte order. -/
def withoutMark (s : String) : String :=
  match s.toList with
  | '\uFEFF' :: rest => String.ofList rest
  | _ => s

/-- Open the story that is to be played. `storySeed` is the random seed it starts with, and
`pickSeed` that of the choices if the arguments give none. -/
def open? (a : Arguments) (storySeed : Int32) (pickSeed : UInt64) :
    m (Except Failure Game) := do
  match ← Console.readFile a.file with
  | .error f => return .error (.read a.file f)
  | .ok content =>
    match Story.ofText 0 (withoutMark content) storySeed with
    | .error e => return .error (.story e)
    | .ok story =>
      let story := story.installHandler.allowFallbacks !a.noFallbacks
      return .ok ⟨story, a.auto, a.seed.getD pickSeed, 0, false⟩

/-- Play a story, and give what ended it before its time. -/
def play (a : Arguments) (storySeed : Int32) (pickSeed : UInt64) :
    m (Option Failure) := do
  match ← open? a storySeed pickSeed with
  | .error f => return some f
  | .ok game =>
    match ← ((Play.playTurns Play.limit).run' game).run with
    | .error f => return some f
    | .ok _ => return none

/-- How the player is called. -/
def usage : String :=
  "Usage: loomplayer [OPTIONS] <JSON_FILENAME>\n\n" ++
  "Options:\n" ++
  "  -a                 Choose options randomly\n" ++
  "  -e                 Forbid external function fallbacks\n" ++
  "  -s, --seed <SEED>  Seed for the random choices made in auto play\n" ++
  "  -h, --help         Print help\n" ++
  "  -V, --version      Print version\n"

/-- The name and version of the player. -/
def versionLine : String :=
  "loomplayer 0.3.0\n"

/-- Do what the arguments ask for, and give the exit code. -/
def run (r : Request) (storySeed : Int32) (pickSeed : UInt64) : m UInt32 := do
  match r with
  | .help =>
    Console.write usage
    return 0
  | .version =>
    Console.write versionLine
    return 0
  | .wrong =>
    Console.report usage
    return 2
  | .play a =>
    match ← play a storySeed pickSeed with
    | none => return 0
    | some f =>
      Console.report ("Error: " ++ f.message ++ "\n")
      return 1

end StoryMachine.Player
