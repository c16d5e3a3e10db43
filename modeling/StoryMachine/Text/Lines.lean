import StoryMachine.Text.Blank

/-!
# Lines of output

The text a story has put out is read through `clean`: on every line the blanks at the
ends are dropped and an inner run of blanks becomes one space. Before text enters the
output it goes through `outerParts`, which splits the line ends at its two edges from
the text between them, so that each can be kept or dropped on its own.
-/

namespace StoryMachine.Text

/-- Scan a line: `atStart` while the line has shown blanks only, `gap` when blanks were
seen since its last character. A gap is written as one space in front of the next
character, unless the line starts with it. -/
def cleanFrom (atStart gap : Bool) : List Char → List Char
  | [] => []
  | c :: rest =>
    if isBlank c then cleanFrom atStart true rest
    else if c = '\n' then '\n' :: cleanFrom true false rest
    else if gap && !atStart then ' ' :: c :: cleanFrom false false rest
    else c :: cleanFrom false false rest

/-- On every line, drop the blanks at the ends and turn inner runs of blanks into one
space. -/
def clean (s : String) : String :=
  String.ofList (cleanFrom true false s.toList)

/-- The part of `cs` in front of its first line end. -/
def beforeLineEnd (cs : List Char) : List Char :=
  cs.takeWhile (· ≠ '\n')

/-- The part of `cs` behind its last line end. -/
def afterLineEnds (cs : List Char) : List Char :=
  (cs.reverse.takeWhile (· ≠ '\n')).reverse

/-- `cs` as a list of one part, or of none if it is empty. -/
def nonEmptyPart (cs : List Char) : List (List Char) :=
  if cs.isEmpty then [] else [cs]

/-- The parts that the leading run `lead` of a text contributes: with a line end in it,
the blanks in front of the first one and one line end. -/
def leadingParts (lead : List Char) : List (List Char) :=
  if lead.contains '\n' then nonEmptyPart (beforeLineEnd lead) ++ [['\n']] else []

/-- The parts that the trailing run `trail` of a text contributes: with a line end in
it, one line end and the blanks behind the last one. -/
def trailingParts (trail : List Char) : List (List Char) :=
  if trail.contains '\n' then ['\n'] :: nonEmptyPart (afterLineEnds trail) else []

/-- Split the line ends at the two edges of `cs` from the text between them; nothing if
there is no line end at either edge. The line ends of an edge, with the blanks between
them, count as one. -/
def outerParts (cs : List Char) : Option (List (List Char)) :=
  let lead := cs.takeWhile isSpacing
  let rest := (cs.dropWhile isSpacing).reverse
  let trail := (rest.takeWhile isSpacing).reverse
  let core := (rest.dropWhile isSpacing).reverse
  if lead.contains '\n' || trail.contains '\n' then
    let inner :=
      if core.isEmpty then [] else [afterLineEnds lead ++ core ++ beforeLineEnd trail]
    some (leadingParts lead ++ inner ++ trailingParts trail)
  else
    none

/-- `outerParts` on strings. -/
def outerLines (s : String) : Option (List String) :=
  (outerParts s.toList).map fun parts => parts.map String.ofList

end StoryMachine.Text
