import StoryMachine.Json.Number
import StoryMachine.Text.Hex

/-!
# Writing JSON

`Json.render` writes a value without separators. In strings the quote, the backslash and
the control characters are escaped, and nothing else.
-/

namespace StoryMachine.Json

/-- A character as it stands in a string. -/
def escape (c : Char) : List Char :=
  if c = '"' then ['\\', '"']
  else if c = '\\' then ['\\', '\\']
  else if c = '\x08' then ['\\', 'b']
  else if c = '\x0c' then ['\\', 'f']
  else if c = '\n' then ['\\', 'n']
  else if c = '\r' then ['\\', 'r']
  else if c = '\t' then ['\\', 't']
  else if c.toNat < 0x20 then
    ['\\', 'u', '0', '0', Text.hexDigit (c.toNat / 16), Text.hexDigit (c.toNat % 16)]
  else [c]

/-- A string with its quotes. -/
def quote (s : String) : String :=
  "\"" ++ String.ofList (s.toList.flatMap escape) ++ "\""

mutual

/-- The value as text, without separators. -/
def render : Json → String
  | .null => "null"
  | .bool b => if b then "true" else "false"
  | .int n => Decimal.ofInt n
  | .float x => floatText x
  | .str s => quote s
  | .arr items => "[" ++ renderItems items ++ "]"
  | .obj fields => "\x7b" ++ renderFields fields ++ "\x7d"

/-- The items of an array, with commas between them. -/
def renderItems : List Json → String
  | [] => ""
  | [item] => item.render
  | item :: rest => item.render ++ "," ++ renderItems rest

/-- The fields of an object, with commas between them. -/
def renderFields : List (String × Json) → String
  | [] => ""
  | [(name, value)] => quote name ++ ":" ++ value.render
  | (name, value) :: rest => quote name ++ ":" ++ value.render ++ "," ++ renderFields rest

end

end StoryMachine.Json
