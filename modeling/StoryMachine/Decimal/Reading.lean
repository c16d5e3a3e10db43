import StoryMachine.Decimal.Integer
import StoryMachine.Decimal.Binary

/-!
# Reading single-precision values

`float32?` reads a decimal with an optional sign, an optional fraction and an optional
power of ten, or one of the words for infinity and for no number, and gives the nearest
value. The fraction or the whole part may be empty, not both.
-/

namespace StoryMachine.Decimal

/-- Powers of ten at and above which every single-precision value is infinite. -/
def overflowExponent : Int := 60

/-- Powers of ten at and below which every single-precision value is zero. -/
def underflowExponent : Int := -80

/-- The value nearest to `coefficient · 10 ^ exponent`. Magnitudes far outside the range
are settled by the exponent alone. -/
def scaled32 (negative : Bool) (coefficient : Nat) (exponent : Int) : Float32 :=
  let top := (digits coefficient).length + exponent
  if coefficient = 0 || top ≤ underflowExponent then nearest32 negative 0 1
  else if overflowExponent ≤ top then nearest32 negative (Nat.pow 10 overflowExponent.toNat) 1
  else if 0 ≤ exponent then nearest32 negative (coefficient * Nat.pow 10 exponent.toNat) 1
  else nearest32 negative coefficient (Nat.pow 10 (-exponent).toNat)

/-- Read what may follow the letter of a power of ten. -/
def exponent? : List Char → Option Int
  | '-' :: rest => (natural? rest).map fun n => -(n : Int)
  | '+' :: rest => (natural? rest).map Int.ofNat
  | cs => (natural? cs).map Int.ofNat

/-- Read a decimal without its sign. -/
def magnitude32? (negative : Bool) (cs : List Char) : Option Float32 := do
  let isDigit := fun c => (digit? c).isSome
  let whole := cs.takeWhile isDigit
  let rest := cs.dropWhile isDigit
  let (fraction, rest) := match rest with
    | '.' :: more => (more.takeWhile isDigit, more.dropWhile isDigit)
    | rest => ([], rest)
  let coefficient ← natural? (whole ++ fraction)
  let power ← match rest with
    | [] => some 0
    | c :: more => if c = 'e' ∨ c = 'E' then exponent? more else none
  return scaled32 negative coefficient (power - fraction.length)

/-- Read a single-precision value without its sign; the words count in any case. -/
def unsigned32? (negative : Bool) (cs : List Char) : Option Float32 :=
  let word := String.ofList (cs.map Char.toLower)
  if word = "inf" ∨ word = "infinity" then
    some (Float32.ofBits (if negative then 0xFF800000 else 0x7F800000))
  else if word = "nan" then some (Float32.ofBits 0x7FC00000)
  else magnitude32? negative cs

/-- Read a single-precision value. -/
def float32? : List Char → Option Float32
  | '-' :: rest => unsigned32? true rest
  | '+' :: rest => unsigned32? false rest
  | cs => unsigned32? false cs

end StoryMachine.Decimal
