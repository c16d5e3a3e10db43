import StoryMachine.Content.Token
import StoryMachine.Text.Lines

/-!
# Output

The output of the line being produced is a sequence of tokens. Its text is that of the
text tokens outside tags, its tags are the texts between tag commands and the texts of tag
tokens; every text token counts for one of the two.

What is pushed decides what is kept:

* glue takes back the line ends in front of it, and a line end behind it is dropped until
  other text comes, which uses the glue up;
* a line end is also dropped at the start of a function's text, at the start of the output
  and behind another line end;
* the end of a function's text loses its blanks and line ends when the function returns.

Commands stand as borders in the output: nothing in front of one is taken back.
-/

namespace StoryMachine

/-- The tokens of the line being produced, the newest one first. -/
structure Output where
  newest : List Token
  deriving Inhabited

/-- Whether a text is a line end. -/
def isLineEnd (s : String) : Bool :=
  s == "\n"

/-- Whether a text is more than blanks and not a line end. -/
def isVisible (s : String) : Bool :=
  !isLineEnd s && !Text.allBlank s

namespace Output

/-- No output. -/
def empty : Output := ⟨[]⟩

/-- The tokens, the oldest one first. -/
def tokens (o : Output) : List Token :=
  o.newest.reverse

/-- The output of the given tokens, the oldest one first. -/
def ofTokens (ts : List Token) : Output :=
  ⟨ts.reverse⟩

/-- Number of tokens. -/
def length (o : Output) : Nat :=
  o.newest.length

/-- The output with one token more. -/
def add (o : Output) (t : Token) : Output :=
  ⟨t :: o.newest⟩

@[simp]
theorem tokens_empty : empty.tokens = [] := rfl

@[simp]
theorem tokens_ofTokens (ts : List Token) : (ofTokens ts).tokens = ts := by
  simp [ofTokens, tokens]

@[simp]
theorem tokens_add (o : Output) (t : Token) : (o.add t).tokens = o.tokens ++ [t] := by
  simp [add, tokens]

@[simp]
theorem length_tokens (o : Output) : o.tokens.length = o.length := by
  simp [tokens, length]

/-- Whether a string is being evaluated. -/
def inString (o : Output) : Bool :=
  o.newest.any (Token.isCommand .beginString)

/-- The texts of the tokens outside tags. -/
def textsFrom (inTag : Bool) : List Token → List String
  | [] => []
  | .command .beginTag :: rest => textsFrom true rest
  | .command .endTag :: rest => textsFrom false rest
  | .value (.text s) :: rest =>
    if inTag then textsFrom inTag rest else s :: textsFrom inTag rest
  | _ :: rest => textsFrom inTag rest

/-- The text of the line. -/
def text (o : Output) : String :=
  Text.clean (String.join (textsFrom false o.tokens))

/-- A tag that has been collected, as a list; an empty one is none. -/
def collected (tag : String) : List String :=
  if tag.isEmpty then [] else [Text.clean tag]

/-- The tags in tokens, where `tag` is the text collected so far. A tag begun inside
another one ends that. -/
def tagsFrom (inTag : Bool) (tag : String) : List Token → List String
  | [] => collected tag
  | .command .beginTag :: rest =>
    if inTag then collected tag ++ tagsFrom true "" rest else tagsFrom true tag rest
  | .command .endTag :: rest => collected tag ++ tagsFrom false "" rest
  | .value (.text s) :: rest => tagsFrom inTag (if inTag then tag ++ s else tag) rest
  | .tag s :: rest => if s.isEmpty then tagsFrom inTag tag rest else s :: tagsFrom inTag tag rest
  | _ :: rest => tagsFrom inTag tag rest

/-- The tags of the line. -/
def tags (o : Output) : List String :=
  tagsFrom false "" o.tokens

/-- Whether tokens, the newest one first, end in a line end with nothing but blanks behind
it. Commands are borders; other tokens that are no text do not count. -/
def endsLine : List Token → Bool
  | [] => false
  | .command _ :: _ => false
  | .value (.text s) :: rest => isLineEnd s || (!isVisible s && endsLine rest)
  | _ :: rest => endsLine rest

/-- Whether the output ends in a line end with nothing but blanks behind it. -/
def endsInLineEnd (o : Output) : Bool :=
  endsLine o.newest

/-- Whether there is a text in the output. -/
def hasText (o : Output) : Bool :=
  o.newest.any fun t => t.text?.isSome

/-- Take back the line ends at the end, with the blanks behind the oldest of them. -/
def dropLineEnds : List Token → List Token
  | [] => []
  | .command c :: rest => .command c :: rest
  | .value (.text s) :: rest =>
    if isVisible s then .value (.text s) :: rest
    else if isLineEnd s || endsLine rest then dropLineEnds rest
    else .value (.text s) :: rest
  | t :: rest => t :: dropLineEnds rest

/-- Take the glue at the end out. -/
def dropGlue : List Token → List Token
  | [] => []
  | .command c :: rest => .command c :: rest
  | .glue :: rest => dropGlue rest
  | t :: rest => t :: dropGlue rest

/-- Take the blanks and line ends out of the `count` newest tokens, up to the last text
that is more. -/
def dropSpacing : Nat → List Token → List Token
  | 0, ts => ts
  | _, [] => []
  | _, .command c :: rest => .command c :: rest
  | count + 1, .value (.text s) :: rest =>
    if isVisible s then .value (.text s) :: rest else dropSpacing count rest
  | count + 1, t :: rest => t :: dropSpacing count rest

/-- Trim the end of a function's text, which began when the output had `start` tokens. -/
def trimFrom (o : Output) (start : Nat) : Output :=
  ⟨dropSpacing (o.newest.length - start) o.newest⟩

/-- What trims new text: glue in front of it, and the start of a function's text. -/
structure Trimming where
  glue : Bool
  function : Bool
  deriving DecidableEq, Repr

/-- What trims text pushed behind tokens, the newest one first. The search for glue ends
where a string begins; a string begun after the function was called keeps its text. -/
def trimming (functionStart : Option Nat) : List Token → Trimming
  | [] => ⟨false, functionStart.isSome⟩
  | .glue :: _ => ⟨true, functionStart.isSome⟩
  | .command .beginString :: rest =>
    match functionStart with
    | some start => ⟨false, rest.length < start⟩
    | none => ⟨false, false⟩
  | _ :: rest => trimming functionStart rest

/-- What becomes of a text that is pushed: the output with it, and whether it ends the
trimming at the start of the function's text. -/
def pushText (o : Output) (functionStart : Option Nat) (s : String) : Output × Bool :=
  let trim := trimming functionStart o.newest
  if trim.glue || trim.function then
    if isLineEnd s then (o, false)
    else if isVisible s then
      ((if trim.glue then ⟨dropGlue o.newest⟩ else o : Output).add (.text s), trim.function)
    else (o.add (.text s), false)
  else if isLineEnd s && (o.endsInLineEnd || !o.hasText) then (o, false)
  else (o.add (.text s), false)

/-- Push glue. -/
def pushGlue (o : Output) : Output :=
  ⟨.glue :: dropLineEnds o.newest⟩

/-- Drop the newest tokens. -/
def drop (o : Output) (count : Nat) : Output :=
  ⟨o.newest.drop count⟩

/-- The texts of tokens, the newest one first, joined in the order of the output. -/
def joined (ts : List Token) : String :=
  String.join (ts.reverse.filterMap Token.text?)

/-- The tokens behind the last occurrence of a command, the newest one first, and those
in front of it. -/
def splitAtCommand (c : Command) : List Token → List Token × List Token
  | [] => ([], [])
  | t :: rest =>
    if t.isCommand c then ([], rest)
    else
      let (behind, front) := splitAtCommand c rest
      (t :: behind, front)

end Output

end StoryMachine
