import StoryMachine.Decimal.Integer
import StoryMachine.Decimal.Binary

/-!
# Shortest decimals of binary values

The shortest decimal of a positive value is the one with the fewest digits among those
that read back to it, that is, among those in the interval of reals that round to it; of
several with that many digits it is the nearest to the value. `shortest` finds it on exact
numbers: from coarse to fine, it looks at the two neighbours of the value on the grid of
the multiples of a power of ten, and stops at the first grid with a neighbour in the
interval.
-/

namespace StoryMachine.Decimal

/-- A decimal: a whole number times a power of ten. -/
structure Numeral where
  coefficient : Nat
  exponent : Int
  deriving Repr, DecidableEq

/-- Which of two equally near decimals is taken. -/
inductive Tie where
  | up
  | even

/-- A value and the bounds of the reals that round to it, over one denominator. The
bounds themselves belong to them if `closed`. -/
structure Interval where
  low : Nat
  value : Nat
  high : Nat
  den : Nat
  closed : Bool

/-- The reals that round to `m · 2 ^ q` in the format `f`, in quarters of the last place.
Below the smallest significand of full length the neighbouring value is half as far. -/
def Format.interval (f : Format) (m : Nat) (q : Int) : Interval :=
  let quarter := scaleDown 1 1 (2 - q)
  let near := m == 1 <<< f.fractionBits && decide (f.least < q)
  { low := (if near then 4 * m - 1 else 4 * m - 2) * quarter.1
    value := 4 * m * quarter.1
    high := (4 * m + 2) * quarter.1
    den := quarter.2
    closed := m % 2 == 0 }

namespace Interval

/-- The same interval in units of ten to the power `k`. -/
def inUnits (i : Interval) (k : Int) : Interval :=
  let up := Nat.pow 10 (-k).toNat
  { i with
    low := i.low * up
    value := i.value * up
    high := i.high * up
    den := i.den * Nat.pow 10 k.toNat }

/-- Whether the whole number `c` lies in the interval. -/
def contains (i : Interval) (c : Nat) : Bool :=
  let x := c * i.den
  if i.closed then i.low ≤ x && x ≤ i.high else i.low < x && x < i.high

/-- The whole number of the interval next to its value, if one of its two neighbours
lies in it. -/
def nearest (tie : Tie) (i : Interval) : Option Nat :=
  let below := i.value / i.den
  let above := below + 1
  match i.contains below, i.contains above with
  | false, false => none
  | true, false => some below
  | false, true => some above
  | true, true =>
    let down := i.value - below * i.den
    let up := above * i.den - i.value
    if down < up then some below
    else if up < down then some above
    else match tie with
      | .up => some above
      | .even => some (if below % 2 == 0 then below else above)

/-- A power of ten that no point of the interval exceeds. -/
def topExponent (i : Interval) : Int :=
  if i.den ≤ i.high then (digits (i.high / i.den)).length
  else 1 - (digits (i.den / i.high)).length

/-- Search `steps` grids, from that of ten to the power `k` on towards finer ones. -/
def search (tie : Tie) (i : Interval) : Nat → Int → Option Numeral
  | 0, _ => none
  | steps + 1, k =>
    match (i.inUnits k).nearest tie with
    | some c => some ⟨c, k⟩
    | none => i.search tie steps (k - 1)

end Interval

/-- Grids to look at: seventeen digits always suffice for 64 bits, and the first grid may
be two powers of ten above the first digit. -/
def gridSteps : Nat := 20

/-- The shortest decimal of `m · 2 ^ q`. -/
def shortest (f : Format) (tie : Tie) (m : Nat) (q : Int) : Numeral :=
  let i := f.interval m q
  (i.search tie gridSteps i.topExponent).getD ⟨0, 0⟩

namespace Numeral

/-- The digits of the coefficient. -/
def digitChars (d : Numeral) : List Char :=
  (digits d.coefficient).map digitChar

/-- Number of digits in front of the decimal point; not positive below one tenth. -/
def pointAt (d : Numeral) : Int :=
  d.digitChars.length + d.exponent

/-- The decimal written out, with a point only if there is a fraction. -/
def positional (d : Numeral) : String :=
  let ds := d.digitChars
  if 0 ≤ d.exponent then
    String.ofList (ds ++ List.replicate d.exponent.toNat '0')
  else if 0 < d.pointAt then
    String.ofList (ds.take d.pointAt.toNat ++ '.' :: ds.drop d.pointAt.toNat)
  else
    String.ofList ('0' :: '.' :: (List.replicate (-d.pointAt).toNat '0' ++ ds))

/-- The decimal with one digit in front of the point and a signed power of ten. -/
def scientific (d : Numeral) : String :=
  let power := d.pointAt - 1
  let lead := d.digitChars.take 1
  let fraction := d.digitChars.drop 1
  String.ofList (if fraction.isEmpty then lead else lead ++ '.' :: fraction) ++
    (if power < 0 then "e-" else "e+") ++ ofNat power.natAbs

end Numeral

end StoryMachine.Decimal
