/-!
# Whole numbers in decimal

`natural?` reads digits, `signed?` and `unsigned?` read a number with an optional sign and
refuse one outside their range. An unsigned number may carry a plus sign, never a minus;
leading zeros are allowed everywhere.
-/

namespace StoryMachine.Decimal

/-- The value of a decimal digit. -/
def digit? (c : Char) : Option Nat :=
  if '0' ≤ c ∧ c ≤ '9' then some (c.toNat - '0'.toNat) else none

/-- The character of a digit below ten. -/
def digitChar (d : Nat) : Char :=
  Char.ofNat ('0'.toNat + d % 10)

/-- The value of a sequence of digits, most significant first. -/
def ofDigits (ds : List Nat) : Nat :=
  ds.foldl (fun n d => 10 * n + d) 0

/-- Read a non-empty sequence of digits that takes up all of `cs`. -/
def natural? (cs : List Char) : Option Nat :=
  if cs.isEmpty then none else (cs.mapM digit?).map ofDigits

/-- Read a number of at most `most`, with an optional plus sign. -/
def unsigned? (most : Nat) (cs : List Char) : Option Nat := do
  let n ← match cs with
    | '+' :: rest => natural? rest
    | cs => natural? cs
  if n ≤ most then some n else none

/-- Read a number with an optional sign that `bits` bits hold in two's complement. -/
def signed? (bits : Nat) (cs : List Char) : Option Int := do
  let n : Int ← match cs with
    | '-' :: rest => (natural? rest).map fun n => -(n : Int)
    | '+' :: rest => (natural? rest).map Int.ofNat
    | cs => (natural? cs).map Int.ofNat
  let bound : Int := Nat.pow 2 (bits - 1)
  if -bound ≤ n ∧ n < bound then some n else none

/-- The digits of `n`, most significant first; zero has one digit. -/
def digits (n : Nat) : List Nat :=
  if n < 10 then [n] else digits (n / 10) ++ [n % 10]

/-- `n` in decimal. -/
def ofNat (n : Nat) : String :=
  String.ofList ((digits n).map digitChar)

/-- `n` in decimal, with a minus sign if it is negative. -/
def ofInt (n : Int) : String :=
  if n < 0 then "-" ++ ofNat n.natAbs else ofNat n.natAbs

/-- Greatest value of 64 bits. -/
def max64 : Nat := 0xFFFFFFFFFFFFFFFF

end StoryMachine.Decimal
