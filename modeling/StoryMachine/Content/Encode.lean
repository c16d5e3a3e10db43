import StoryMachine.Content.Decode

/-!
# Writing content

Content is written in the form it is read in. Floating-point values always show a fraction
or a power of ten, so that they are read as such again; the values JSON cannot write are
written as the nearest ones that it can.
-/

namespace StoryMachine

namespace Value

/-- The greatest finite value. -/
def maxFinite : Float32 :=
  Float32.ofBits 0x7F7FFFFF

/-- The finite value that is written for `x`. -/
def toFinite (x : Float32) : Float32 :=
  match Decimal.ofFloat32 x with
  | .nan => 0
  | .infinite negative => if negative then -maxFinite else maxFinite
  | .finite .. => x

/-- A single-precision value as a JSON number: the number that its shortest decimal reads
as. -/
def floatJson (x : Float32) : Json :=
  let text := floatText (toFinite x)
  let pointed := if text.toList.contains '.' then text else text ++ ".0"
  match Json.readNumber? pointed.toList with
  | some (n, _) => n
  | none => .null

/-- A list as JSON. Its definitions are written only if it has no items. -/
def listJson (l : ListValue) : Json :=
  let items := Json.object (l.items.entries.map fun e => (e.1.fullName, .int e.2.toInt))
  match l.isEmpty, l.emptyOrigins with
  | true, some (name :: rest) =>
    .object [("list", items), ("origins", Json.strings (name :: rest))]
  | _, _ => .object [("list", items)]

/-- A value as JSON. -/
def toJson : Value → Json
  | .bool b => .bool b
  | .int n => .int n.toInt
  | .float x => floatJson x
  | .text s => .str (if s = "\n" then s else "^" ++ s)
  | .list l => listJson l
  | .target p => .object [("^->", .str p.render)]
  | .reference name scope => .object [("^var", .str name), ("ci", .int scope)]

end Value

namespace Divert

/-- The field that a divert is told by. -/
def field (d : Divert) : String :=
  match d.kind with
  | .jump => "->"
  | .function => "f()"
  | .tunnel => "->t->"
  | .external _ => "x()"

/-- A divert as JSON. -/
def toJson (d : Divert) : Json :=
  let target := match d.destination with
    | .path p => p.render
    | .variable name => name
  .object <|
    [(d.field, .str target)] ++
    (if d.variableName?.isSome then [("var", .bool true)] else []) ++
    (if d.conditional then [("c", .bool true)] else []) ++
    (if 0 < d.arguments then [("exArgs", .nat d.arguments)] else [])

end Divert

/-- An assignment as JSON. -/
def Assignment.toJson (a : Assignment) : Json :=
  .object <|
    [(if a.isGlobal then "VAR=" else "temp=", .str a.name)] ++
    (if a.isDeclaration then [] else [("re", .bool true)])

/-- An operator as JSON; the mark of a text is written differently. -/
def Operator.toJson (o : Operator) : Json :=
  .str (if o.symbol = "^" then "L^" else o.symbol)

/-- An instruction as JSON. -/
def Instruction.toJson : Instruction → Json
  | .value v => v.toJson
  | .command c => .str c.word
  | .divert d => d.toJson
  | .choicePoint c => .object [("*", .str c.path.render), ("flg", .int c.flags)]
  | .operator o => o.toJson
  | .readVariable name => .object [("VAR?", .str name)]
  | .readCount path => .object [("CNT?", .str path.render)]
  | .assign a => a.toJson
  | .tag text => .object [("#", .str text)]
  | .glue => .str "<>"
  | .void => .str "void"

/-- A token as JSON. -/
def Token.toJson : Token → Json
  | .value v => v.toJson
  | .command c => .str c.word
  | .tag text => .object [("#", .str text)]
  | .glue => .str "<>"
  | .void => .str "void"

namespace Block

/-- The last element of a container: its flags and name and the containers reached by name
only, or null without any of these. -/
def terminator (name : Option String) (flags : CountFlags) (named : List (String × Json)) :
    Json :=
  if named.isEmpty && flags.word = 0 && name.isNone then .null
  else .object <|
    named ++ (if 0 < flags.word then [("#f", .int flags.word)] else []) ++
    (match name with
      | some n => [("#n", .str n)]
      | none => [])

mutual

/-- A block as JSON. The name of a container is left out where it is written in front of
it. -/
def toJson (nameWritten : Bool) : Block → Json
  | .leaf i => i.toJson
  | .container name flags content named =>
    .arr (contentJson content ++
      [terminator (if nameWritten then none else name) flags (namedJson named)])

/-- The content of a container as JSON. -/
def contentJson : List Block → List Json
  | [] => []
  | b :: rest => toJson false b :: contentJson rest

/-- The containers that only their names lead to, as JSON. -/
def namedJson : List (String × Block) → List (String × Json)
  | [] => []
  | (name, b) :: rest => (name, toJson true b) :: namedJson rest

end

end Block

/-- The list definitions as JSON. -/
def ListDefinitions.toJson (ds : ListDefinitions) : Json :=
  Json.ofTable (fun d => Json.ofTable (fun rank => .int rank.toInt) d.items) ds.lists

/-- The content of a story as JSON, in the version of the format that is written. -/
def Content.toJson (c : Content) : Json :=
  .object [("inkVersion", .int formatVersion), ("root", c.tree.root.toJson false),
    ("listDefs", c.lists.toJson)]

/-- The content of a story as text. -/
def Content.toText (c : Content) : String :=
  c.toJson.render

end StoryMachine
