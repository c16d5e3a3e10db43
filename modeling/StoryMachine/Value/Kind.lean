/-!
# Kinds of values

The kinds a story value can have. Their order is the order of coercion: an operator brings
its operands to the greatest of their kinds.
-/

namespace StoryMachine

/-- The kind of a value. -/
inductive Kind where
  | bool
  | int
  | float
  | text
  | list
  | target
  | reference
  deriving DecidableEq, Repr, Inhabited

namespace Kind

/-- Every kind, in the order of coercion. -/
def all : List Kind := [.bool, .int, .float, .text, .list, .target, .reference]

/-- The place of a kind in the order of coercion. -/
def rank : Kind → Nat
  | .bool => 0
  | .int => 1
  | .float => 2
  | .text => 3
  | .list => 4
  | .target => 5
  | .reference => 6

/-- The name of a kind in messages. -/
def name : Kind → String
  | .bool => "Bool"
  | .int => "Int"
  | .float => "Float"
  | .text => "String"
  | .list => "List"
  | .target => "DivertTarget"
  | .reference => "VariablePointer"

instance : ToString Kind := ⟨name⟩

/-- The later of two kinds in the order of coercion. -/
def max (a b : Kind) : Kind :=
  if a.rank ≤ b.rank then b else a

end Kind

end StoryMachine
