import StoryMachine.SortedMap

/-!
# JSON values

A JSON value as the machine reads and writes it. Numbers are of two kinds, told apart by
how they are written: whole numbers that 64 bits hold, and floating-point numbers. The
fields of an object stand in the order of their names, each name once.
-/

namespace StoryMachine

/-- A JSON value. -/
inductive Json where
  | null
  | bool (b : Bool)
  | int (n : Int)
  | float (x : Float)
  | str (s : String)
  | arr (items : List Json)
  | obj (fields : List (String × Json))
  deriving Inhabited

namespace Json

/-- The object with the given fields, where a later field of a name replaces an earlier
one. -/
def object (fields : List (String × Json)) : Json :=
  .obj (Entries.ofList fields)

/-- The object that holds a table. -/
def ofTable {α : Type} (write : α → Json) (t : Table α) : Json :=
  .obj (t.entries.map fun e => (e.1, write e.2))

/-- The array of strings. -/
def strings (ss : List String) : Json :=
  .arr (ss.map .str)

/-- The array that a list is written as. -/
def array {α : Type} (write : α → Json) (xs : List α) : Json :=
  .arr (xs.map write)

/-- A natural number. -/
def nat (n : Nat) : Json :=
  .int n

/-- The field `name`, if the value is an object that has it. -/
def field? (j : Json) (name : String) : Option Json :=
  match j with
  | .obj fields => Entries.get? name fields
  | _ => none

/-- The whole number, if 64 bits hold it in two's complement. -/
def int64? : Json → Option Int
  | .int n => if n < 0x8000000000000000 then some n else none
  | _ => none

/-- The whole number, if it is not negative. -/
def nat? : Json → Option Nat
  | .int n => if 0 ≤ n then some n.toNat else none
  | _ => none

/-- The truth value. -/
def bool? : Json → Option Bool
  | .bool b => some b
  | _ => none

/-- The string. -/
def str? : Json → Option String
  | .str s => some s
  | _ => none

/-- The items of an array. -/
def arr? : Json → Option (List Json)
  | .arr items => some items
  | _ => none

/-- The fields of an object. -/
def obj? : Json → Option (List (String × Json))
  | .obj fields => some fields
  | _ => none

end Json

end StoryMachine
