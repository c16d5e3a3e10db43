import StoryMachine.Decimal.Shortest
import StoryMachine.Json.Basic

/-!
# JSON numbers

A number without fraction and power of ten that 64 bits hold is whole; every other number
is floating point, and so is negative zero. A floating-point number is read by collecting
digits into a significand of 64 bits as long as it takes them, which is then multiplied or
divided once by a power of ten: the result can differ from the nearest value in its last
place. A number beyond the range is refused.

Floating-point numbers are written with the fewest digits that identify them, always with
a fraction or a power of ten, so that they are read as floating point again.
-/

namespace StoryMachine.Json

open Decimal

/-- The digits of a number read so far: a significand that 64 bits hold and the power of
ten it is to be multiplied by. -/
structure Significand where
  value : Nat
  exponent : Int

namespace Significand

/-- Take digits of the whole part. From the first digit that does not fit, digits only
raise the exponent. -/
def takeWhole (s : Significand) : List Nat → Significand
  | [] => s
  | d :: ds =>
    if 10 * s.value + d ≤ max64 then takeWhole ⟨10 * s.value + d, s.exponent⟩ ds
    else ⟨s.value, s.exponent + (ds.length + 1 : Nat)⟩

/-- Take digits of the fraction. From the first digit that does not fit, digits are
ignored. -/
def takeFraction (s : Significand) : List Nat → Significand
  | [] => s
  | d :: ds =>
    if 10 * s.value + d ≤ max64 then takeFraction ⟨10 * s.value + d, s.exponent - 1⟩ ds
    else s

end Significand

/-- Greatest power of ten below the range of double precision. -/
def maxPower : Nat := 308

/-- Ten to the power `k`, rounded to double precision. -/
def powerOfTen (k : Nat) : Float :=
  nearest64 (Nat.pow 10 k) 1

/-- Divide `x` by ten to the power `k`, in steps if the power is out of range. Three steps
bring every significand to zero. -/
def divideByPower : Nat → Float → Nat → Float
  | 0, x, _ => x
  | steps + 1, x, k =>
    if k ≤ maxPower then x / powerOfTen k
    else if x == 0 then x
    else divideByPower steps (x / powerOfTen maxPower) (k - maxPower)

/-- The floating-point number of a significand, unless it is out of range. -/
def Significand.toFloat? (s : Significand) : Option Float :=
  let x := nearest64 s.value 1
  if s.exponent < 0 then some (divideByPower 4 x (-s.exponent).toNat)
  else if s.exponent ≤ maxPower then
    let y := x * powerOfTen s.exponent.toNat
    if y.isInf then none else some y
  else if x == 0 then some x
  else none

/-- The value of a number made of digits only. -/
def wholeNumber? (negative : Bool) (s : Significand) : Option Json := do
  if s.exponent = 0 ∧ ¬ negative then return .int s.value
  if s.exponent = 0 ∧ s.value ≠ 0 ∧ s.value ≤ 0x8000000000000000 then return .int (-s.value)
  let x ← s.toFloat?
  return .float (if negative then -x else x)

/-- Split off the digits at the front of `cs`. -/
def takeDigits (cs : List Char) : List Nat × List Char :=
  (cs.takeWhile (fun c => (digit? c).isSome) |>.filterMap digit?,
    cs.dropWhile fun c => (digit? c).isSome)

/-- Read the power of ten at the front of `cs`, if a letter announces one. -/
def readPower? : List Char → Option (Option Int × List Char)
  | [] => some (none, [])
  | c :: rest =>
    if c = 'e' ∨ c = 'E' then
      let (negative, rest) := match rest with
        | '-' :: more => (true, more)
        | '+' :: more => (false, more)
        | more => (false, more)
      let (ds, rest) := takeDigits rest
      if ds.isEmpty then none
      else some (some (if negative then -(ofDigits ds : Int) else ofDigits ds), rest)
    else some (none, c :: rest)

/-- Read the fraction at the front of `cs`, if a point announces one. -/
def readFraction? : List Char → Option (Option (List Nat) × List Char)
  | '.' :: rest =>
    let (ds, rest) := takeDigits rest
    if ds.isEmpty then none else some (some ds, rest)
  | rest => some (none, rest)

/-- Read the number at the front of `cs` whose sign has been read. A leading zero stands
alone in front of the point. -/
def readUnsigned? (negative : Bool) (cs : List Char) : Option (Json × List Char) := do
  let (ds, rest) := takeDigits cs
  if ds.isEmpty || (ds.head? == some 0 && ds.length != 1) then none
  let (fraction, rest) ← readFraction? rest
  let (power, rest) ← readPower? rest
  let whole := Significand.takeWhole ⟨0, 0⟩ ds
  if fraction.isNone && power.isNone then
    return (← wholeNumber? negative whole, rest)
  let s := whole.takeFraction (fraction.getD [])
  let x ← Significand.toFloat? ⟨s.value, s.exponent + power.getD 0⟩
  return (.float (if negative then -x else x), rest)

/-- Read the number at the front of `cs`. -/
def readNumber? : List Char → Option (Json × List Char)
  | '-' :: rest => readUnsigned? true rest
  | rest => readUnsigned? false rest

/-- Decimals are written out from the first of these powers of ten on, up to below the
second one. -/
def plainRange : Int × Int := (-5, 16)

/-- A positive decimal as JSON writes it: written out in the plain range, otherwise with a
signed power of ten, and always recognisable as floating point. -/
def decimalText (d : Numeral) : String :=
  let first := d.pointAt - 1
  if plainRange.1 ≤ first ∧ first < plainRange.2 then
    if 0 ≤ d.exponent then d.positional ++ ".0" else d.positional
  else d.scientific

/-- A floating-point number as JSON writes it. The values that JSON cannot write become
null. -/
def floatText (x : Float) : String :=
  match ofFloat x with
  | .finite negative m q =>
    (if negative then "-" else "") ++
      (if m = 0 then "0.0" else decimalText (shortest binary64 .even m q))
  | _ => "null"

end StoryMachine.Json
