/-!
# Random draws

Every draw of a story is a function of a seed: the seed is spread over a key of eight
words, and the words drawn are the key stream of ChaCha with twelve rounds under that
key, from block zero on. `draw seed i` is the `i`-th word; nothing is remembered between
draws but the number of the next one.
-/

namespace StoryMachine.Random

/-- One step of the generator that spreads a seed. -/
def spread (s : UInt64) : UInt64 :=
  s * 6364136223846793005 + 11634580027462260723

/-- `x` turned right by `n` bits. -/
def turnRight (x : UInt32) (n : UInt32) : UInt32 :=
  (x >>> (n % 32)) ||| (x <<< ((32 - n % 32) % 32))

/-- `x` turned left by `n` bits. -/
def turnLeft (x : UInt32) (n : UInt32) : UInt32 :=
  turnRight x (32 - n)

/-- The word that a state of the spreading generator gives: its high bits folded, and
turned by the highest ones. -/
def spreadWord (s : UInt64) : UInt32 :=
  turnRight (((s >>> 18) ^^^ s) >>> 27).toUInt32 (s >>> 59).toUInt32

/-- The words of the key, `n` of them, behind the state `s`. -/
def keyWords : Nat → UInt64 → List UInt32
  | 0, _ => []
  | n + 1, s => spreadWord (spread s) :: keyWords n (spread s)

/-- The key of a seed. -/
def key (seed : UInt64) : List UInt32 :=
  keyWords 8 seed

/-- The words that every block starts with. -/
def constants : List UInt32 :=
  [0x61707865, 0x3320646e, 0x79622d32, 0x6b206574]

/-- The block to be scrambled: constants, key, number of the block, no nonce. -/
def block (key : List UInt32) (number : UInt64) : Array UInt32 :=
  (constants ++ key ++ [number.toUInt32, (number >>> 32).toUInt32, 0, 0]).toArray

/-- Mix the words at four places. -/
def quarterRound (v : Array UInt32) (a b c d : Nat) : Array UInt32 :=
  let at' := fun i => v.getD i 0
  let xa := at' a + at' b
  let xd := turnLeft (at' d ^^^ xa) 16
  let xc := at' c + xd
  let xb := turnLeft (at' b ^^^ xc) 12
  let ya := xa + xb
  let yd := turnLeft (xd ^^^ ya) 8
  let yc := xc + yd
  let yb := turnLeft (xb ^^^ yc) 7
  (((v.setIfInBounds a ya).setIfInBounds b yb).setIfInBounds c yc).setIfInBounds d yd

/-- The places mixed in a double round: the columns, then the diagonals. -/
def doubleRoundPlaces : List (Nat × Nat × Nat × Nat) :=
  [(0, 4, 8, 12), (1, 5, 9, 13), (2, 6, 10, 14), (3, 7, 11, 15),
   (0, 5, 10, 15), (1, 6, 11, 12), (2, 7, 8, 13), (3, 4, 9, 14)]

/-- Two rounds. -/
def doubleRound (v : Array UInt32) : Array UInt32 :=
  doubleRoundPlaces.foldl (fun v p => quarterRound v p.1 p.2.1 p.2.2.1 p.2.2.2) v

/-- The words of a block: twelve rounds, then the start added. -/
def stream (key : List UInt32) (number : UInt64) : Array UInt32 :=
  let start := block key number
  let mixed := Nat.repeat doubleRound 6 start
  Array.zipWith (· + ·) mixed start

/-- The `i`-th word drawn from a seed. -/
def draw (seed : UInt64) (i : Nat) : UInt32 :=
  (stream (key seed) (UInt64.ofNat (i / 16))).getD (i % 16) 0

/-- The `i`-th pair of words drawn from a seed, the low word first. -/
def drawWide (seed : UInt64) (i : Nat) : Nat :=
  (draw seed (2 * i)).toNat + 0x100000000 * (draw seed (2 * i + 1)).toNat

/-- The seed that a whole number of 32 bits stands for, its sign carried on. -/
def seedOf (n : Int32) : UInt64 :=
  n.toInt64.toUInt64

/-- A number below `n` from the `i`-th pair on, and the pair behind the one used. Pairs in
the incomplete last share of the range are passed over; at most `tries` of them. -/
def below (seed : UInt64) (n : Nat) (i : Nat) : Nat → Nat × Nat
  | 0 => (0, i)
  | tries + 1 =>
    let product := drawWide seed i * n
    let zone := n <<< (63 - n.log2) - 1
    if product % 0x10000000000000000 ≤ zone then (product / 0x10000000000000000, i + 1)
    else below seed n (i + 1) tries

end StoryMachine.Random
