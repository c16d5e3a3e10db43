import StoryMachine.Decimal.Shortest
import StoryMachine.Fault
import StoryMachine.ListValue.Basic
import StoryMachine.Path

/-!
# Values

A story computes with values of seven kinds: truth values, whole numbers of 32 bits,
single-precision numbers, texts, lists, targets of diverts, and references to variables.

A reference names a variable and the scope it lives in: zero is the global scope, a
positive number the frame of that number, counted from the outermost one, and minus one a
scope yet to be determined.
-/

namespace StoryMachine

/-- A story value. -/
inductive Value where
  | bool (b : Bool)
  | int (n : Int32)
  | float (x : Float32)
  | text (s : String)
  | list (l : ListValue)
  | target (p : Path)
  | reference (name : String) (scope : Int)
  deriving Inhabited

/-- The scope of a reference that has not been determined yet. -/
def unknownScope : Int := -1

/-- The scope of the global variables. -/
def globalScope : Int := 0

namespace Value

/-- Equality of values of one kind; numbers compare as numbers do, so no number that is
not one equals itself. -/
def same : Value → Value → Bool
  | .bool a, .bool b => a == b
  | .int a, .int b => a == b
  | .float a, .float b => a == b
  | .text a, .text b => a == b
  | .list a, .list b => a == b
  | .target a, .target b => a == b
  | .reference a i, .reference b j => a == b && i == j
  | _, _ => false

instance : BEq Value := ⟨same⟩

/-- The kind of a value. -/
def kind : Value → Kind
  | .bool _ => .bool
  | .int _ => .int
  | .float _ => .float
  | .text _ => .text
  | .list _ => .list
  | .target _ => .target
  | .reference .. => .reference

/-- A single-precision number in decimal: the fewest digits that identify it, written out,
with a point only if there is a fraction. -/
def floatText (x : Float32) : String :=
  match Decimal.ofFloat32 x with
  | .nan => "NaN"
  | .infinite negative => if negative then "-inf" else "inf"
  | .finite negative m q =>
    (if negative then "-" else "") ++
      (if m = 0 then "0" else (Decimal.shortest Decimal.binary32 .up m q).positional)

/-- The text of a truth value. -/
def boolText (b : Bool) : String :=
  if b then "true" else "false"

/-- The text of a value in output and messages. -/
def render : Value → String
  | .bool b => boolText b
  | .int n => Decimal.ofInt n.toInt
  | .float x => floatText x
  | .text s => s
  | .list l => l.render
  | .target p => "DivertTargetValue(" ++ p.render ++ ")"
  | .reference name _ => "VariablePointerValue(" ++ name ++ ")"

instance : ToString Value := ⟨render⟩

/-- Whether a value counts as true in a condition. Targets and references are no
conditions. -/
def truth : Value → Except StoryError Bool
  | .bool b => .ok b
  | .int n => .ok (n != 0)
  | .float x => .ok (x != 0)
  | .text s => .ok !s.isEmpty
  | .list l => .ok !l.isEmpty
  | .target p => .error (.type (.conditionTarget p.render))
  | .reference name _ => .error (.type (.conditionVariable name))

/-- A new value for a list variable: a list without items takes over the definitions of
the old list. -/
def inheritOrigins (old new : Value) : Value :=
  match old, new with
  | .list a, .list b => if b.isEmpty then .list ⟨b.items, a.origins⟩ else new
  | _, _ => new

/-- The lower bound of ranks that a value stands for. -/
def lowerBound : Value → Int32
  | .int n => n
  | .list l => l.minRank
  | _ => 0

/-- The upper bound of ranks that a value stands for. -/
def upperBound : Value → Int32
  | .int n => n
  | .list l => (l.max?.map Prod.snd).getD Int32.maxValue
  | _ => Int32.maxValue

end Value

end StoryMachine
