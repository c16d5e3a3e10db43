import StoryMachine.Decimal.Integer

/-!
# Arguments of the player

The player is given the name of a story file and options: `-a` makes the choices at random,
`-e` forbids knots to stand in for functions of the host, and `-s` or `--seed` gives the
seed of the choices. Short options may stand together, the last of them with its value. Each
may be given once. Behind `--` everything is a file name.

Arguments are read from left to right, and the first one that is wrong, or that asks for
help or the version, decides.
-/

namespace StoryMachine.Player

/-- What the player is asked to do.

* `auto` : choose at random;
* `noFallbacks` : no knot stands in for a function of the host;
* `seed` : the seed of random choices. -/
structure Arguments where
  file : String
  auto : Bool
  noFallbacks : Bool
  seed : Option UInt64
  deriving DecidableEq, Repr

/-- What the arguments come to. -/
inductive Request where
  | play (a : Arguments)
  | help
  | version
  | wrong
  deriving DecidableEq, Repr

/-- The arguments read so far.

* `awaitsSeed` : the next argument is the seed;
* `onlyNames` : no more options are read. -/
structure Given where
  file : Option String
  auto : Bool
  noFallbacks : Bool
  seed : Option UInt64
  awaitsSeed : Bool
  onlyNames : Bool

namespace Given

/-- No arguments. -/
def nothing : Given :=
  ⟨none, false, false, none, false, false⟩

/-- A file name is given. -/
def withFile (g : Given) (name : String) : Except Request Given :=
  if g.file.isSome then .error .wrong else .ok { g with file := some name }

/-- The seed is given. -/
def withSeed (g : Given) (text : List Char) : Except Request Given :=
  match Decimal.unsigned? Decimal.max64 text with
  | some n =>
    if g.seed.isSome then .error .wrong
    else .ok { g with seed := some (.ofNat n), awaitsSeed := false }
  | none => .error .wrong

/-- Read short options that stand together. What follows `s` is its value, with or without
an equals sign in front of it. -/
def readShort (g : Given) : List Char → Except Request Given
  | [] => .ok g
  | 'a' :: rest =>
    if g.auto then .error .wrong else readShort { g with auto := true } rest
  | 'e' :: rest =>
    if g.noFallbacks then .error .wrong else readShort { g with noFallbacks := true } rest
  | 'h' :: _ => .error .help
  | 'V' :: _ => .error .version
  | 's' :: rest =>
    match rest with
    | [] => .ok { g with awaitsSeed := true }
    | '=' :: value => g.withSeed value
    | value => g.withSeed value
  | _ => .error .wrong

/-- Read an option with a long name. -/
def readLong (g : Given) (option : List Char) : Except Request Given :=
  let name := String.ofList (option.takeWhile (· ≠ '='))
  let value := option.dropWhile (· ≠ '=')
  match name, value with
  | "seed", [] => .ok { g with awaitsSeed := true }
  | "seed", _ :: value => g.withSeed value
  | "help", [] => .error .help
  | "version", [] => .error .version
  | _, _ => .error .wrong

/-- Read an argument that may be an option. A lone `-` is a file name. -/
def readOption (g : Given) (argument : String) : Except Request Given :=
  match argument.toList with
  | ['-', '-'] => .ok { g with onlyNames := true }
  | '-' :: '-' :: option => g.readLong option
  | '-' :: c :: rest => g.readShort (c :: rest)
  | _ => g.withFile argument

/-- Read an argument. -/
def read (g : Given) (argument : String) : Except Request Given :=
  if g.awaitsSeed then g.withSeed argument.toList
  else if g.onlyNames then g.withFile argument
  else g.readOption argument

/-- What the arguments come to when all of them have been read. -/
def request (g : Given) : Request :=
  match g.file with
  | some file =>
    if g.awaitsSeed then .wrong else .play ⟨file, g.auto, g.noFallbacks, g.seed⟩
  | none => .wrong

end Given

/-- Read the arguments. -/
def Request.ofArguments (arguments : List String) : Request :=
  match arguments.foldlM Given.read Given.nothing with
  | .ok g => g.request
  | .error r => r

end StoryMachine.Player
