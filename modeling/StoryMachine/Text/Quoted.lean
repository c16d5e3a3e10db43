import StoryMachine.Text.Hex
import StoryMachine.Text.Hidden

/-!
# Quoted texts

`Text.quoted` writes a text between quotes so that everything in it shows: a quote and a
backslash get a backslash in front of them, and what is hidden is written by a letter or by
its code point.
-/

namespace StoryMachine.Text

/-- A character as it stands in a quoted text. -/
def quotedChar (c : Char) : List Char :=
  if c = '"' ∨ c = '\\' then ['\\', c]
  else if c = '\n' then ['\\', 'n']
  else if c = '\r' then ['\\', 'r']
  else if c = '\t' then ['\\', 't']
  else if c.toNat = 0 then ['\\', '0']
  else if isHidden c then ['\\', 'u', '\x7b'] ++ hexDigits c.toNat ++ ['\x7d']
  else [c]

/-- A text in quotes, with everything in it showing. -/
def quoted (s : String) : String :=
  "\"" ++ String.ofList (s.toList.flatMap quotedChar) ++ "\""

end StoryMachine.Text
