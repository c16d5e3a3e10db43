import StoryMachine.Content.Instruction

/-!
# Tokens

What stands in the output and on the evaluation stack: values, and the few other
instructions that are content rather than being carried out.
-/

namespace StoryMachine

/-- An element of the output or of the evaluation stack. -/
inductive Token where
  | value (v : Value)
  | command (c : Command)
  | tag (text : String)
  | glue
  | void
  deriving Inhabited

namespace Token

/-- The token of a text. -/
def text (s : String) : Token :=
  .value (.text s)

/-- The token of a whole number. -/
def int (n : Int32) : Token :=
  .value (.int n)

/-- The text that a token holds. -/
def text? : Token → Option String
  | .value (.text s) => some s
  | _ => none

/-- The value that a token holds. -/
def value? : Token → Option Value
  | .value v => some v
  | _ => none

/-- Whether a token is the given command. -/
def isCommand (c : Command) : Token → Bool
  | .command d => d == c
  | _ => false

/-- The text of a token in messages. -/
def render : Token → String
  | .value v => v.render
  | .command c => c.name
  | .tag text => "# " ++ text
  | .glue => "Glue"
  | .void => "Void"

instance : ToString Token := ⟨render⟩

/-- Whether a token counts as true in a condition; only values do. -/
def truth : Token → Except StoryError Bool
  | .value v => v.truth
  | _ => .ok false

/-- The token that an instruction is as content. -/
def ofInstruction? : Instruction → Option Token
  | .value v => some (.value v)
  | .command c => some (.command c)
  | .tag text => some (.tag text)
  | .glue => some .glue
  | .void => some .void
  | _ => none

/-- The values of operands of an operator. -/
def operands (o : Operator) : List Token → Except StoryError (List Value)
  | [] => .ok []
  | .value v :: rest => return v :: (← operands o rest)
  | .void :: _ => .error (.type .voidOperand)
  | t :: _ => .error (.type (.operand o.symbol t.render))

end Token

end StoryMachine
