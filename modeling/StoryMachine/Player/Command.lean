import StoryMachine.Decimal.Integer
import StoryMachine.Text.Blank

/-!
# What is typed to the player

At a choice the player takes the number of an option, or a command: to save or load a state,
to go to a path, to show the commands, or to stop.
-/

namespace StoryMachine.Player

/-- What the player is told to do at a choice; options are counted from zero on. -/
inductive Command where
  | choose (option : Nat)
  | stop
  | help
  | load (file : String)
  | save (file : String)
  | go (path : String)
  deriving DecidableEq, Repr

/-- What a typed line comes to: a command, or asking again, possibly with a complaint. -/
inductive Reply where
  | obey (c : Command)
  | again
  | complain (about : String)
  deriving DecidableEq, Repr

/-- A command with the one word it takes, or a complaint about any other number of words. -/
def withWord (make : String → Command) (about : String) : List String → Reply
  | [word] => .obey (make word)
  | _ => .complain about

/-- Read words that are not a number. The case of a command does not count. -/
def Reply.ofWords : List String → Reply
  | [] => .again
  | word :: rest =>
    match String.ofList (word.toList.map Char.toLower) with
    | "exit" => .obey .stop
    | "quit" => .obey .stop
    | "help" => .obey .help
    | "load" => withWord .load "incorrect filename" rest
    | "save" => withWord .save "incorrect filename" rest
    | "->" => withWord .go "incorrect divert" rest
    | _ => .complain "unrecognized option or command"

/-- Read a line typed at a choice among so many options, which are numbered from one on. -/
def Reply.ofLine (options : Nat) (line : String) : Reply :=
  match Decimal.unsigned? Decimal.max64 (Text.trim line).toList with
  | some n =>
    if 1 ≤ n ∧ n ≤ options then .obey (.choose (n - 1)) else .complain "option out of range"
  | none => .ofWords (Text.words line)

/-- The commands, as they are shown. -/
def Command.overview : String :=
  "Commands:\n\tload <filename>\n\tsave <filename>\n\t-> <divert_path>\n\tquit\n\t"

end StoryMachine.Player
