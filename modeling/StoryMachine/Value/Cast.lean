import StoryMachine.Decimal.Reading
import StoryMachine.Value.Basic

/-!
# Casts

`Value.cast` converts a value to another kind. A truth value, a number and a list have a
value of every kind up to text, a list through its last item. A text becomes a number if
it reads as one, with white space around it, and nothing at all if it does not. Other
conversions are errors.

`toInt`, `toFloat`, `toBool` and `toText` are narrower: they accept only what is a number
or a truth value already, and a text as text.
-/

namespace StoryMachine.Value

/-- The whole number of 32 bits next to `x` towards zero; beyond the range it is the last
one in it, and zero if `x` is no number. -/
def truncate (x : Float32) : Int32 :=
  x.toInt32

/-- The number of a truth value. -/
def ofBool (b : Bool) : Int32 :=
  if b then 1 else 0

/-- The whole number of 32 bits that a text reads as. -/
def readInt? (s : String) : Option Int32 :=
  (Decimal.signed? 32 (Text.trim s).toList).map Int32.ofInt

/-- The single-precision number that a text reads as. -/
def readFloat? (s : String) : Option Float32 :=
  Decimal.float32? (Text.trim s).toList

/-- The text of the last item of a list; empty without items. -/
def lastItemText (l : ListValue) : String :=
  (l.max?.map fun e => e.1.fullName).getD ""

/-- Convert a value to another kind; nothing if it is a text that does not read as the
number asked for. -/
def cast (v : Value) (goal : Kind) : Except StoryError (Option Value) :=
  if v.kind = goal then .ok (some v)
  else match v, goal with
    | .bool b, .int => .ok (some (.int (ofBool b)))
    | .bool b, .float => .ok (some (.float (Decimal.singleOfInt (ofBool b))))
    | .bool b, .text => .ok (some (.text (boolText b)))
    | .int n, .bool => .ok (some (.bool (n != 0)))
    | .int n, .float => .ok (some (.float (Decimal.singleOfInt n)))
    | .int n, .text => .ok (some (.text (Decimal.ofInt n.toInt)))
    | .float x, .bool => .ok (some (.bool (x != 0)))
    | .float x, .int => .ok (some (.int (truncate x)))
    | .float x, .text => .ok (some (.text (floatText x)))
    | .text s, .int => .ok ((readInt? s).map .int)
    | .text s, .float => .ok ((readFloat? s).map .float)
    | .list l, .int => .ok (some (.int l.maxRank))
    | .list l, .float => .ok (some (.float (Decimal.singleOfInt l.maxRank)))
    | .list l, .text => .ok (some (.text (lastItemText l)))
    | v, goal => .error (.type (.cast v.render v.kind goal))

/-- Convert an operand to another kind; a text that does not read as a number is an
error. -/
def coerce (v : Value) (goal : Kind) : Except StoryError Value := do
  match ← v.cast goal with
  | some w => return w
  | none => throw (.type (.convert v.render v.kind goal))

/-- A truth value or a number as a whole number. -/
def toInt : Value → Except StoryError Int32
  | .bool b => .ok (ofBool b)
  | .int n => .ok n
  | .float x => .ok (truncate x)
  | v => .error (.type (.coerce v.kind "int"))

/-- A truth value or a number as a single-precision number. -/
def toFloat : Value → Except StoryError Float32
  | .bool b => .ok (Decimal.singleOfInt (ofBool b))
  | .int n => .ok (Decimal.singleOfInt n)
  | .float x => .ok x
  | v => .error (.type (.coerce v.kind "float"))

/-- A truth value or a whole number as a truth value. -/
def toBool : Value → Except StoryError Bool
  | .bool b => .ok b
  | .int n => .ok (n != 0)
  | v => .error (.type (.coerce v.kind "boolean"))

/-- A truth value, a number or a text as a text. -/
def toText : Value → Except StoryError String
  | .text s => .ok s
  | .bool b => .ok (boolText b)
  | .int n => .ok (Decimal.ofInt n.toInt)
  | .float x => .ok (floatText x)
  | v => .error (.type (.coerce v.kind "string"))

end StoryMachine.Value
