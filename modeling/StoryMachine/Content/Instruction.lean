import StoryMachine.Content.Command
import StoryMachine.Value.Operator

/-!
# Instructions

The leaves of a content tree. A leaf is content that goes to the output or to the
evaluation stack, or an instruction that the machine carries out: a divert, a choice
point, an access to a variable, an operator or a command.
-/

namespace StoryMachine

/-- What a divert does to the call stack, or that it calls a function of the host with a
number of arguments. -/
inductive DivertKind where
  | jump
  | function
  | tunnel
  | external (arguments : Nat)
  deriving DecidableEq, Repr, Inhabited

/-- Where a divert goes: to a path, or to the target that a variable holds. -/
inductive Destination where
  | path (p : Path)
  | variable (name : String)
  deriving DecidableEq, Repr, Inhabited

/-- A jump to another place in the content. A conditional one takes a condition from the
evaluation stack. -/
structure Divert where
  kind : DivertKind
  destination : Destination
  conditional : Bool
  deriving DecidableEq, Repr, Inhabited

namespace Divert

/-- The path of a divert that does not go through a variable. -/
def path? (d : Divert) : Option Path :=
  match d.destination with
  | .path p => some p
  | .variable _ => none

/-- The variable of a divert that goes through one. -/
def variableName? (d : Divert) : Option String :=
  match d.destination with
  | .path _ => none
  | .variable name => some name

/-- The name of the host function that a divert calls; empty if it goes through a
variable. -/
def functionName (d : Divert) : String :=
  match d.path? with
  | some p => p.render
  | none => ""

/-- Whether a divert calls a function of the host. -/
def isExternal (d : Divert) : Bool :=
  match d.kind with
  | .external _ => true
  | _ => false

/-- The number of arguments for a function of the host. -/
def arguments (d : Divert) : Nat :=
  match d.kind with
  | .external n => n
  | _ => 0

/-- The text of a divert in messages. -/
def render (d : Divert) : String :=
  match d.destination with
  | .variable name => "Divert(variable: " ++ name ++ ")"
  | .path p =>
    let mark := if d.conditional then "?" else ""
    let call := match d.kind with
      | .function => " function"
      | .tunnel => " tunnel"
      | _ => ""
    "Divert" ++ mark ++ call ++ " -> " ++ p.render

end Divert

/-- A flag word holds the flag of `bit`, which is a power of two. -/
def hasFlag (flags bit : Int) : Bool :=
  flags / bit % 2 == 1

/-- The word of one flag. -/
def flagWord (set : Bool) (bit : Int) : Int :=
  if set then bit else 0

/-- Generates a choice when it is reached. The flags say what the choice takes from the
evaluation stack and when it is offered. -/
structure ChoicePoint where
  hasCondition : Bool
  hasStartText : Bool
  hasChoiceOnlyText : Bool
  isInvisible : Bool
  onceOnly : Bool
  path : Path
  deriving DecidableEq, Repr, Inhabited

namespace ChoicePoint

/-- The choice point of a flag word and the path it leads to. -/
def ofFlags (flags : Int) (path : Path) : ChoicePoint where
  hasCondition := hasFlag flags 1
  hasStartText := hasFlag flags 2
  hasChoiceOnlyText := hasFlag flags 4
  isInvisible := hasFlag flags 8
  onceOnly := hasFlag flags 16
  path := path

/-- The flag word of a choice point. -/
def flags (c : ChoicePoint) : Int :=
  flagWord c.hasCondition 1 + flagWord c.hasStartText 2 + flagWord c.hasChoiceOnlyText 4 +
    flagWord c.isInvisible 8 + flagWord c.onceOnly 16

/-- The text of a choice point in messages. -/
def render (c : ChoicePoint) : String :=
  "Choice: -> " ++ c.path.render

end ChoicePoint

/-- Takes a value from the evaluation stack into a variable, which it may declare. -/
structure Assignment where
  name : String
  isDeclaration : Bool
  isGlobal : Bool
  deriving DecidableEq, Repr, Inhabited

/-- The text of an assignment in messages. -/
def Assignment.render (a : Assignment) : String :=
  "VarAssign to " ++ a.name

/-- A leaf of a content tree. -/
inductive Instruction where
  | value (v : Value)
  | command (c : Command)
  | divert (d : Divert)
  | choicePoint (c : ChoicePoint)
  | operator (o : Operator)
  | readVariable (name : String)
  | readCount (path : Path)
  | assign (a : Assignment)
  | tag (text : String)
  | glue
  | void
  deriving Inhabited

namespace Instruction

/-- The text of an instruction in messages. -/
def render : Instruction → String
  | .value v => v.render
  | .command c => c.name
  | .divert d => d.render
  | .choicePoint c => c.render
  | .operator o => "Native '" ++ o.symbol ++ "'"
  | .readVariable name => "var(" ++ name ++ ")"
  | .readCount path => "read_count(" ++ path.render ++ ")"
  | .assign a => a.render
  | .tag text => "# " ++ text
  | .glue => "Glue"
  | .void => "Void"

end Instruction

end StoryMachine
