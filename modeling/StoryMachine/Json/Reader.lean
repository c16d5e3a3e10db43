import StoryMachine.Json.Number
import StoryMachine.Text.Hex

/-!
# Reading JSON

`Json.read?` reads a text that holds one JSON value, with space, tab and line ends around
its parts. Of two fields of one name the later one counts. Refused are control characters
in strings, surrogates that are not a pair, and more than `maxNesting` nested arrays and
objects.
-/

namespace StoryMachine.Json

/-- Greatest depth of nested arrays and objects. -/
def maxNesting : Nat := 127

/-- The characters allowed between the parts of a text. -/
def isSeparator (c : Char) : Bool :=
  c == ' ' || c == '\t' || c == '\n' || c == '\r'

/-- Drop the separators at the front. -/
def skip (cs : List Char) : List Char :=
  cs.dropWhile isSeparator

/-- The value of four hexadecimal digits. -/
def hexUnit? (a b c d : Char) : Option Nat := do
  return (← Text.hexDigit? a) * 0x1000 + (← Text.hexDigit? b) * 0x100 +
    (← Text.hexDigit? c) * 0x10 + (← Text.hexDigit? d)

/-- Whether a 16-bit unit is the first half of a pair. -/
def isLeadUnit (u : Nat) : Bool :=
  0xD800 ≤ u && u < 0xDC00

/-- Whether a 16-bit unit is the second half of a pair. -/
def isTrailUnit (u : Nat) : Bool :=
  0xDC00 ≤ u && u < 0xE000

/-- The character of a pair of 16-bit units. -/
def pairChar (lead trail : Nat) : Char :=
  Char.ofNat (0x10000 + (lead - 0xD800) * 0x400 + (trail - 0xDC00))

/-- The character that a backslash in front of `c` stands for. -/
def escaped? : Char → Option Char
  | '"' => some '"'
  | '\\' => some '\\'
  | '/' => some '/'
  | 'b' => some '\x08'
  | 'f' => some '\x0c'
  | 'n' => some '\n'
  | 'r' => some '\r'
  | 't' => some '\t'
  | _ => none

/-- Read the rest of a string behind its opening quote. `done` holds the characters read,
last one first. -/
def readString? (done : List Char) : List Char → Option (String × List Char)
  | [] => none
  | '"' :: rest => some (String.ofList done.reverse, rest)
  | '\\' :: 'u' :: a :: b :: c :: d :: rest =>
    match hexUnit? a b c d with
    | none => none
    | some u =>
      if isTrailUnit u then none
      else if isLeadUnit u then
        match rest with
        | '\\' :: 'u' :: e :: f :: g :: h :: rest =>
          match hexUnit? e f g h with
          | none => none
          | some v => if isTrailUnit v then readString? (pairChar u v :: done) rest else none
        | _ => none
      else readString? (Char.ofNat u :: done) rest
  | '\\' :: c :: rest =>
    match escaped? c with
    | none => none
    | some e => readString? (e :: done) rest
  | c :: rest => if c.toNat < 0x20 || c == '\\' then none else readString? (c :: done) rest

/-- Read items up to the closing character, with commas between them. The first item has
been announced; every item takes up a character, so `fuel` need not exceed the length of
the text. -/
def readItems? {α : Type} (close : Char) (item : List Char → Option (α × List Char))
    (done : List α) : Nat → List Char → Option (List α × List Char)
  | 0, _ => none
  | fuel + 1, cs =>
    match item (skip cs) with
    | none => none
    | some (x, rest) =>
      match skip rest with
      | ',' :: rest => readItems? close item (x :: done) fuel rest
      | c :: rest => if c = close then some ((x :: done).reverse, rest) else none
      | [] => none

/-- Read items up to the closing character, possibly none. -/
def readSequence? {α : Type} (close : Char) (item : List Char → Option (α × List Char))
    (cs : List Char) : Option (List α × List Char) :=
  match skip cs with
  | c :: rest =>
    if c = close then some ([], rest) else readItems? close item [] (rest.length + 1) (c :: rest)
  | [] => none

/-- Read a field whose value `item` reads. -/
def readField? (item : List Char → Option (Json × List Char)) :
    List Char → Option ((String × Json) × List Char)
  | '"' :: rest => do
    let (name, rest) ← readString? [] rest
    match skip rest with
    | ':' :: rest =>
      let (value, rest) ← item (skip rest)
      return ((name, value), rest)
    | _ => none
  | _ => none

/-- Read `word` at the front of `cs`. -/
def readWord? (word : String) (value : Json) (cs : List Char) : Option (Json × List Char) :=
  if word.toList.isPrefixOf cs then some (value, cs.drop word.length) else none

/-- Read the value at the front of the text, with `depth` levels of nesting left. -/
def readValue? : Nat → List Char → Option (Json × List Char)
  | _, 'n' :: rest => readWord? "null" .null ('n' :: rest)
  | _, 't' :: rest => readWord? "true" (.bool true) ('t' :: rest)
  | _, 'f' :: rest => readWord? "false" (.bool false) ('f' :: rest)
  | _, '"' :: rest => (readString? [] rest).map fun r => (.str r.1, r.2)
  | depth + 1, '[' :: rest => (readSequence? ']' (readValue? depth) rest).map fun r =>
      (.arr r.1, r.2)
  | depth + 1, '{' :: rest => (readSequence? '}' (readField? (readValue? depth)) rest).map
      fun r => (.object r.1, r.2)
  | _, cs => readNumber? cs

/-- Read a text that holds one JSON value. -/
def read? (s : String) : Option Json := do
  let (value, rest) ← readValue? maxNesting (skip s.toList)
  if (skip rest).isEmpty then some value else none

end StoryMachine.Json
