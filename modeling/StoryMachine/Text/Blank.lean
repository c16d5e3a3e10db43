/-!
# Blanks, white space and words

Two classes of characters are told apart. *Blanks* are the space and the tab, which the
output of a story collapses. *White space* is the Unicode property of that name, which is
what surrounds a number or separates the words of a typed command.
-/

namespace StoryMachine.Text

/-- A space or a tab. -/
def isBlank (c : Char) : Bool :=
  c == ' ' || c == '\t'

/-- A blank or a line end. -/
def isSpacing (c : Char) : Bool :=
  isBlank c || c == '\n'

/-- First and last code points of the ranges of the Unicode property `White_Space`. -/
def whiteSpaceRanges : List (Nat × Nat) :=
  [(0x09, 0x0D), (0x20, 0x20), (0x85, 0x85), (0xA0, 0xA0), (0x1680, 0x1680),
   (0x2000, 0x200A), (0x2028, 0x2029), (0x202F, 0x202F), (0x205F, 0x205F), (0x3000, 0x3000)]

/-- Whether `c` has the Unicode property `White_Space`. -/
def isWhiteSpace (c : Char) : Bool :=
  whiteSpaceRanges.any fun r => r.1 ≤ c.toNat && c.toNat ≤ r.2

/-- `cs` without the characters satisfying `p` at its two ends. -/
def trimWhere (p : Char → Bool) (cs : List Char) : List Char :=
  (((cs.dropWhile p).reverse).dropWhile p).reverse

/-- `s` without the white space at its two ends. -/
def trim (s : String) : String :=
  String.ofList (trimWhere isWhiteSpace s.toList)

/-- `s` without the blanks at its two ends. -/
def trimBlanks (s : String) : String :=
  String.ofList (trimWhere isBlank s.toList)

/-- The runs of characters between white space, in order. -/
def words (s : String) : List String :=
  go [] s.toList
where
  /-- `run` holds the word being read, last character first. -/
  go (run : List Char) : List Char → List String
    | [] => close run
    | c :: rest =>
      if isWhiteSpace c then close run ++ go [] rest else go (c :: run) rest
  close (run : List Char) : List String :=
    if run.isEmpty then [] else [String.ofList run.reverse]

/-- Whether every character of `s` is a blank; so is the empty string. -/
def allBlank (s : String) : Bool :=
  s.toList.all isBlank

/-- The pieces of `cs` between occurrences of `sep`: one more than there are separators. -/
def splitOn (sep : Char) (cs : List Char) : List (List Char) :=
  go [] cs
where
  /-- `piece` holds the piece being read, last character first. -/
  go (piece : List Char) : List Char → List (List Char)
    | [] => [piece.reverse]
    | c :: rest => if c = sep then piece.reverse :: go [] rest else go (c :: piece) rest

/-- `cs` cut at the first `sep`, if there is one. -/
def cutAt (sep : Char) (cs : List Char) : Option (List Char × List Char) :=
  match cs.dropWhile (· ≠ sep) with
  | [] => none
  | _ :: after => some (cs.takeWhile (· ≠ sep), after)

theorem isSpacing_of_isBlank {c : Char} (h : isBlank c = true) : isSpacing c = true := by
  simp [isSpacing, h]

end StoryMachine.Text
