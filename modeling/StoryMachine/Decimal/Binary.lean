/-!
# Binary floating point, exactly

A finite value of a binary format is `± m · 2 ^ q` with whole `m` and `q`. `Format.decode`
takes the bits of a value apart into these parts and `Format.roundRatio` goes the other
way, from an exact ratio to the bits of the nearest value, a tie going to the even one.
Everything between is arithmetic on whole numbers, so nothing is rounded twice.
-/

namespace StoryMachine.Decimal

/-- A binary format: significands below `2 ^ precision`, an exponent field of `width`
bits, and `2 ^ least` as the distance between its smallest values. -/
structure Format where
  precision : Nat
  width : Nat
  least : Int

/-- The format of 32 bits. -/
def binary32 : Format := ⟨24, 8, -149⟩

/-- The format of 64 bits. -/
def binary64 : Format := ⟨53, 11, -1074⟩

/-- What the bits of a floating-point value stand for; a finite value is the significand
times two to the exponent. -/
inductive Binary where
  | nan
  | infinite (negative : Bool)
  | finite (negative : Bool) (significand : Nat) (exponent : Int)
  deriving Repr, DecidableEq

namespace Format

/-- Number of bits in front of which the exponent field stands. -/
def fractionBits (f : Format) : Nat :=
  f.precision - 1

/-- The bits of positive infinity. -/
def infinityBits (f : Format) : Nat :=
  (1 <<< f.width - 1) <<< f.fractionBits

/-- Take the bits of a value apart. -/
def decode (f : Format) (bits : Nat) : Binary :=
  let magnitude := bits % (1 <<< (f.width + f.fractionBits))
  let negative := (bits >>> (f.width + f.fractionBits)) % 2 == 1
  let field := magnitude >>> f.fractionBits
  let fraction := magnitude % (1 <<< f.fractionBits)
  if field = 1 <<< f.width - 1 then
    if fraction = 0 then .infinite negative else .nan
  else if field = 0 then
    .finite negative fraction f.least
  else
    .finite negative (fraction + 1 <<< f.fractionBits) (f.least + field - 1)

end Format

/-- `num / den` rounded to a whole number, a tie going to the even one. -/
def roundHalfEven (num den : Nat) : Nat :=
  let q := num / den
  let r := num % den
  if 2 * r < den then q
  else if den < 2 * r then q + 1
  else if q % 2 = 0 then q else q + 1

/-- `num / den` times two to the power `-q`, as a numerator and a denominator. -/
def scaleDown (num den : Nat) (q : Int) : Nat × Nat :=
  if 0 ≤ q then (num, den <<< q.toNat) else (num <<< (-q).toNat, den)

namespace Format

/-- The exponent at which `num / den` has a significand of full length, or the least one
if it is too small for that. -/
def exponentFor (f : Format) (num den : Nat) : Int :=
  let guess : Int := (num.log2 : Int) - den.log2 - f.precision
  let scaled := scaleDown num den guess
  let q := if scaled.1 / scaled.2 < 1 <<< f.precision then guess else guess + 1
  max q f.least

/-- The bits of the value of `f` nearest to `num / den`; beyond the greatest finite value
these are the bits of infinity. -/
def roundRatio (f : Format) (num den : Nat) : Nat :=
  if num = 0 then 0
  else
    let q := f.exponentFor num den
    let scaled := scaleDown num den q
    let bits := roundHalfEven scaled.1 scaled.2 + (q - f.least).toNat <<< f.fractionBits
    min bits f.infinityBits

end Format

/-- The parts of a single-precision value. -/
def ofFloat32 (x : Float32) : Binary :=
  binary32.decode x.toBits.toNat

/-- The parts of a double-precision value. -/
def ofFloat (x : Float) : Binary :=
  binary64.decode x.toBits.toNat

/-- The single-precision value nearest to `num / den`, negated on demand. -/
def nearest32 (negative : Bool) (num den : Nat) : Float32 :=
  let bits := binary32.roundRatio num den
  Float32.ofBits (UInt32.ofNat (if negative then bits + 0x80000000 else bits))

/-- The single-precision value nearest to a whole number of 32 bits. -/
def singleOfInt (n : Int32) : Float32 :=
  nearest32 (n < 0) n.toInt.natAbs 1

/-- The double-precision value nearest to `num / den`. -/
def nearest64 (num den : Nat) : Float :=
  Float.ofBits (UInt64.ofNat (binary64.roundRatio num den))

/-- The single-precision value nearest to a double-precision one. -/
def toSingle (x : Float) : Float32 :=
  match ofFloat x with
  | .nan => Float32.ofBits 0x7FC00000
  | .infinite negative => Float32.ofBits (if negative then 0xFF800000 else 0x7F800000)
  | .finite negative m q =>
    let scaled := scaleDown m 1 (-q)
    nearest32 negative scaled.1 scaled.2

/-- The remainder of `x` by `y` that has the sign of `x` and a magnitude below that of
`y`, computed on the exact values. A zero or non-finite operand leaves no number, except
that a finite value keeps itself under an infinite divisor. -/
def remainder32 (x y : Float32) : Float32 :=
  match ofFloat32 x, ofFloat32 y with
  | .finite negative m q, .finite _ n r =>
    if n = 0 then Float32.ofBits 0x7FC00000
    else
      let low := min q r
      let rest := m <<< (q - low).toNat % (n <<< (r - low).toNat)
      let scaled := scaleDown rest 1 (-low)
      nearest32 negative scaled.1 scaled.2
  | .finite .., .infinite _ => x
  | _, _ => Float32.ofBits 0x7FC00000

end StoryMachine.Decimal
