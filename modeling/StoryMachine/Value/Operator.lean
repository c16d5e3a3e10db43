import StoryMachine.ListValue.Definition
import StoryMachine.Value.Cast

/-!
# Operators

An operator takes one or two operands. If one of two operands is a list, the rules of
lists apply: a number next to a list shifts ranks or stands for the item of that rank, and
*and* and *or* look only at truth. Otherwise the operands are brought to the greatest of
their kinds, at least that of whole numbers, and the rules of that kind apply.
-/

namespace StoryMachine

/-- The operators. -/
inductive Operator where
  | add
  | subtract
  | divide
  | multiply
  | modulo
  | negate
  | equal
  | greater
  | less
  | greaterOrEqual
  | lessOrEqual
  | notEqual
  | not
  | and
  | or
  | min
  | max
  | power
  | floor
  | ceiling
  | int
  | float
  | has
  | hasNot
  | intersect
  | listMin
  | listMax
  | listAll
  | listCount
  | listValue
  | listInvert
  deriving DecidableEq, Repr, Inhabited

namespace Operator

/-- The operators with their symbols and numbers of operands. -/
def table : List (Operator × String × Nat) :=
  [(.add, "+", 2), (.subtract, "-", 2), (.divide, "/", 2), (.multiply, "*", 2),
   (.modulo, "%", 2), (.negate, "_", 1), (.equal, "==", 2), (.greater, ">", 2),
   (.less, "<", 2), (.greaterOrEqual, ">=", 2), (.lessOrEqual, "<=", 2),
   (.notEqual, "!=", 2), (.not, "!", 1), (.and, "&&", 2), (.or, "||", 2), (.min, "MIN", 2),
   (.max, "MAX", 2), (.power, "POW", 2), (.floor, "FLOOR", 1), (.ceiling, "CEILING", 1),
   (.int, "INT", 1), (.float, "FLOAT", 1), (.has, "?", 2), (.hasNot, "!?", 2),
   (.intersect, "^", 2), (.listMin, "LIST_MIN", 1), (.listMax, "LIST_MAX", 1),
   (.listAll, "LIST_ALL", 1), (.listCount, "LIST_COUNT", 1), (.listValue, "LIST_VALUE", 1),
   (.listInvert, "LIST_INVERT", 1)]

/-- The operator of a symbol. -/
def ofSymbol? (s : String) : Option Operator :=
  (table.find? fun e => e.2.1 == s).map Prod.fst

/-- The symbol of an operator. -/
def symbol (o : Operator) : String :=
  ((table.find? fun e => e.1 == o).map fun e => e.2.1).getD ""

/-- No two operators are written alike. -/
theorem ofSymbol?_symbol (o : Operator) : ofSymbol? o.symbol = some o := by
  cases o <;> rfl

/-- The number of operands of an operator. -/
def arity (o : Operator) : Nat :=
  ((table.find? fun e => e.1 == o).map fun e => e.2.2).getD 0

/-- The error of an operator that the operands' kind does not have. -/
def unavailable (o : Operator) (kind : Kind) : StoryError :=
  .type (.unavailable o.symbol kind)

/-- Apply to one whole number. -/
def onInt (o : Operator) (x : Int32) : Except StoryError Value :=
  match o with
  | .negate => .ok (.int (-x))
  | .not => .ok (.bool (x == 0))
  | .floor | .ceiling | .int => .ok (.int x)
  | .float => .ok (.float (Decimal.singleOfInt x))
  | _ => .error (o.unavailable .int)

/-- The result of a division of whole numbers, which fails at zero, and where the quotient
leaves the range. -/
def divided (o : Operator) (x y result : Int32) : Except StoryError Value :=
  if y = 0 ∨ (x = Int32.minValue ∧ y = -1) then .error (.type (.divisionByZero o.symbol))
  else .ok (.int result)

/-- Apply to two whole numbers. -/
def onInts (o : Operator) (x y : Int32) : Except StoryError Value :=
  match o with
  | .add => .ok (.int (x + y))
  | .subtract => .ok (.int (x - y))
  | .multiply => .ok (.int (x * y))
  | .divide => o.divided x y (x / y)
  | .modulo => o.divided x y (x % y)
  | .equal => .ok (.bool (x == y))
  | .greater => .ok (.bool (decide (y < x)))
  | .less => .ok (.bool (decide (x < y)))
  | .greaterOrEqual => .ok (.bool (decide (y ≤ x)))
  | .lessOrEqual => .ok (.bool (decide (x ≤ y)))
  | .notEqual => .ok (.bool (x != y))
  | .and => .ok (.bool (x != 0 && y != 0))
  | .or => .ok (.bool (x != 0 || y != 0))
  | .min => .ok (.int (if y < x then y else x))
  | .max => .ok (.int (if x < y then y else x))
  | .power => .ok (.float ((Decimal.singleOfInt x).pow (Decimal.singleOfInt y)))
  | _ => .error (o.unavailable .int)

/-- Apply to one single-precision number. -/
def onFloat (o : Operator) (x : Float32) : Except StoryError Value :=
  match o with
  | .negate => .ok (.float (-x))
  | .not => .ok (.bool (x == 0))
  | .floor => .ok (.float x.floor)
  | .ceiling => .ok (.float x.ceil)
  | .int => .ok (.int (Value.truncate x))
  | .float => .ok (.float x)
  | _ => .error (o.unavailable .float)

/-- The lesser of two single-precision numbers: the other one if one is no number, and the
second one if they are equal, as zeros of two signs are. -/
def lesser (x y : Float32) : Float32 :=
  if y.isNaN || decide (x < y) then x else y

/-- The greater of two single-precision numbers: the other one if one is no number, and the
second one if they are equal, as zeros of two signs are. -/
def greaterOf (x y : Float32) : Float32 :=
  if y.isNaN || decide (y < x) then x else y

/-- Apply to two single-precision numbers. -/
def onFloats (o : Operator) (x y : Float32) : Except StoryError Value :=
  match o with
  | .add => .ok (.float (x + y))
  | .subtract => .ok (.float (x - y))
  | .multiply => .ok (.float (x * y))
  | .divide => .ok (.float (x / y))
  | .modulo => .ok (.float (Decimal.remainder32 x y))
  | .equal => .ok (.bool (x == y))
  | .greater => .ok (.bool (decide (y < x)))
  | .less => .ok (.bool (decide (x < y)))
  | .greaterOrEqual => .ok (.bool (decide (y ≤ x)))
  | .lessOrEqual => .ok (.bool (decide (x ≤ y)))
  | .notEqual => .ok (.bool (x != y))
  | .and => .ok (.bool (x != 0 && y != 0))
  | .or => .ok (.bool (x != 0 || y != 0))
  | .min => .ok (.float (lesser x y))
  | .max => .ok (.float (greaterOf x y))
  | .power => .ok (.float (x.pow y))
  | _ => .error (o.unavailable .float)

/-- Apply to two texts. -/
def onTexts (o : Operator) (x y : String) : Except StoryError Value :=
  match o with
  | .add => .ok (.text (x ++ y))
  | .equal => .ok (.bool (x == y))
  | .notEqual => .ok (.bool (x != y))
  | .has => .ok (.bool (x.contains y))
  | .hasNot => .ok (.bool !x.contains y)
  | _ => .error (o.unavailable .text)

/-- Apply to one list. -/
def onList (o : Operator) (defs : ListDefinitions) (l : ListValue) : Except StoryError Value :=
  match o with
  | .not => .ok (.int (Value.ofBool l.isEmpty))
  | .listInvert => .ok (.list (l.inverse defs))
  | .listAll => .ok (.list (l.all defs))
  | .listMin => .ok (.list l.minList)
  | .listMax => .ok (.list l.maxList)
  | .listCount => .ok (.int (Int32.ofNat l.size))
  | .listValue => .ok (.int l.maxRank)
  | _ => .error (o.unavailable .list)

/-- Apply to two lists. -/
def onLists (o : Operator) (a b : ListValue) : Except StoryError Value :=
  match o with
  | .add => .ok (.list (a.union b))
  | .subtract => .ok (.list (a.without b))
  | .has => .ok (.bool (a.includes b))
  | .hasNot => .ok (.bool !a.includes b)
  | .intersect => .ok (.list (a.intersect b))
  | .equal => .ok (.bool (a.sameItems b))
  | .notEqual => .ok (.bool !a.sameItems b)
  | .greater => .ok (.bool (a.greater b))
  | .less => .ok (.bool (a.less b))
  | .greaterOrEqual => .ok (.bool (a.greaterOrEqual b))
  | .lessOrEqual => .ok (.bool (a.lessOrEqual b))
  | .and => .ok (.bool (!a.isEmpty && !b.isEmpty))
  | .or => .ok (.bool (!a.isEmpty || !b.isEmpty))
  | _ => .error (o.unavailable .list)

/-- Apply to two targets, which can only be compared. -/
def onTargets (o : Operator) (p q : Path) : Except StoryError Value :=
  match o with
  | .equal => .ok (.bool (p == q))
  | .notEqual => .ok (.bool (p != q))
  | _ => .error (o.unavailable .target)

/-- Apply to one operand. -/
def apply1 (o : Operator) (defs : ListDefinitions) (v : Value) : Except StoryError Value := do
  match ← v.coerce (Kind.max .int v.kind) with
  | .int x => o.onInt x
  | .float x => o.onFloat x
  | .list l => o.onList defs l
  | w => throw (o.unavailable w.kind)

/-- Apply to two operands none of which is a list. -/
def applyPlain (o : Operator) (v w : Value) : Except StoryError Value := do
  let kind := Kind.max (Kind.max .int v.kind) w.kind
  let a ← v.coerce kind
  let b ← w.coerce kind
  match a, b with
  | .int x, .int y => o.onInts x y
  | .float x, .float y => o.onFloats x y
  | .text x, .text y => o.onTexts x y
  | .target p, .target q => o.onTargets p q
  | a, _ => throw (o.unavailable a.kind)

/-- The list that an operand next to the list `l` stands for: a number is the item of that
rank in the definition of the last item of `l`. -/
def asList (defs : ListDefinitions) (l : ListValue) : Value → Except StoryError ListValue
  | .list m => .ok m
  | .int n =>
    match l.definitionOfMax? defs with
    | none => .error (.type (.rankWithoutList n.toInt))
    | some d =>
      match d.itemOfRank? n with
      | some i => .ok (.single i n)
      | none => .error (.type (.rankMissing n.toInt d.name))
  | v => .error (.type (.mixed v.kind))

/-- Apply to two operands one of which is a list. The list that a number refers to is the
second operand if that is a list. -/
def applyMixed (o : Operator) (defs : ListDefinitions) (v w : Value) :
    Except StoryError Value :=
  match o, v, w with
  | .add, .list l, .int n => .ok (.list (l.shift defs (· + n)))
  | .subtract, .list l, .int n => .ok (.list (l.shift defs (· - n)))
  | _, _, _ =>
    let bothLists := v.kind == .list && w.kind == .list
    if !bothLists && (o == .and || o == .or) then do
      let x ← v.truth
      let y ← w.truth
      return .bool (if o == .and then x && y else x || y)
    else do
      let context := match v, w with
        | _, .list l => l
        | .list l, _ => l
        | _, _ => .empty
      let a ← asList defs context v
      let b ← asList defs context w
      o.onLists a b

/-- Apply to two operands. -/
def apply2 (o : Operator) (defs : ListDefinitions) (v w : Value) : Except StoryError Value :=
  if v.kind = .list ∨ w.kind = .list then o.applyMixed defs v w else o.applyPlain v w

/-- Apply to the operands, whose number has to be that of the operator. -/
def apply (o : Operator) (defs : ListDefinitions) (operands : List Value) :
    Except StoryError Value :=
  if o.arity ≠ operands.length then .error (.flow (.operandCount o.symbol))
  else match operands with
    | [v] => o.apply1 defs v
    | [v, w] => o.apply2 defs v w
    | _ => .error (.flow (.operandCount o.symbol))

end Operator

end StoryMachine
