import StoryMachine.Content.Lookup
import StoryMachine.Content.Token
import StoryMachine.Json.Reader

/-!
# Reading content

A container is written as an array. Its last element is null or an object with its count
flags, its name, and the containers that only their names lead to. Every other JSON value
is an instruction: a number or truth value is itself, a string a text or the word of a
command or operator, and an object is told by the names of its fields, of which the first
one in a fixed order counts.
-/

namespace StoryMachine

/-- The error of a token that stands for nothing. -/
def badToken (t : Json) : StoryError :=
  .decode (.token t)

/-- The string that a field of the token `t` has to hold. -/
def fieldString (t : Json) (field : Json) : Except StoryError String :=
  match field.str? with
  | some s => .ok s
  | none => .error (badToken t)

/-- The strings that a field of the token `t` has to hold. -/
def fieldStrings (t : Json) (field : Json) : Except StoryError (List String) :=
  match field.arr? with
  | some items => items.mapM (fieldString t)
  | none => .error (badToken t)

/-- The whole number that a field of the token `t` has to hold. -/
def fieldInt (t : Json) (field : Json) : Except StoryError Int :=
  match field.int64? with
  | some n => .ok n
  | none => .error (badToken t)

/-- The natural number that a field of the token `t` has to hold. -/
def fieldNat (t : Json) (field : Json) : Except StoryError Nat :=
  match field.nat? with
  | some n => .ok n
  | none => .error (badToken t)

namespace Instruction

/-- Read a number. A whole number has to fit 32 bits if it fits 64, and counts as floating
point if it does not. -/
def ofNumber (t : Json) : Except StoryError Instruction :=
  match t with
  | .int n =>
    if 0x8000000000000000 ≤ n then .ok (.value (.float (Decimal.toSingle (Decimal.nearest64 n.toNat 1))))
    else if -0x80000000 ≤ n ∧ n < 0x80000000 then .ok (.value (.int (Int32.ofInt n)))
    else .error (badToken t)
  | .float x => .ok (.value (.float (Decimal.toSingle x)))
  | _ => .error (badToken t)

/-- Read a string: a text is marked by `^`, except for a lone line end. -/
def ofString (s : String) : Except StoryError Instruction :=
  match s.toList with
  | '^' :: text => .ok (.value (.text (String.ofList text)))
  | _ =>
    if s = "\n" then .ok (.value (.text "\n"))
    else if s = "<>" then .ok .glue
    else match Command.ofWord? s with
      | some c => .ok (.command c)
      | none =>
        match Operator.ofSymbol? (if s = "L^" then "^" else s) with
        | some o => .ok (.operator o)
        | none => if s = "void" then .ok .void else .error (badToken (.str s))

/-- The fields that make a divert, with what it does. -/
def divertFields : List (String × DivertKind) :=
  [("->", .jump), ("f()", .function), ("->t->", .tunnel), ("x()", .external 0)]

/-- Read a divert whose field of `divertFields` has been found. -/
def ofDivert (t : Json) (target : Json) (kind : DivertKind) :
    Except StoryError Instruction := do
  let target ← fieldString t target
  let destination :=
    if (t.field? "var").isSome then Destination.variable target
    else Destination.path (Path.parse target)
  let kind ← match kind, t.field? "exArgs" with
    | .external _, some n => DivertKind.external <$> fieldNat t n
    | kind, _ => pure kind
  return .divert { kind, destination, conditional := (t.field? "c").isSome }

/-- Read a reference to a variable. -/
def ofReference (t name : Json) : Except StoryError Instruction := do
  let name ← fieldString t name
  let scope ← match t.field? "ci" with
    | some n => wrap32 <$> fieldInt t n
    | none => pure unknownScope
  return .value (.reference name scope)

/-- Read a choice point. -/
def ofChoicePoint (t path : Json) : Except StoryError Instruction := do
  let path ← fieldString t path
  let flags ← match t.field? "flg" with
    | some n => fieldInt t n
    | none => pure 0
  return .choicePoint (.ofFlags flags (Path.parse path))

/-- Read an assignment. -/
def ofAssignment (t name : Json) (isGlobal : Bool) : Except StoryError Instruction := do
  let name ← fieldString t name
  return .assign { name, isDeclaration := (t.field? "re").isNone, isGlobal }

/-- Read the items of a list. -/
def listItems (t : Json) : List (String × Json) → Except StoryError (List (Item × Int32))
  | [] => .ok []
  | (name, rank) :: rest => do
    let rank ← fieldInt t rank
    return (Item.parse name, Int32.ofInt rank) :: (← listItems t rest)

/-- Read a list. -/
def ofList (t items : Json) : Except StoryError Instruction := do
  match items.obj? with
  | none => throw (badToken t)
  | some fields =>
    let origins ← match t.field? "origins" with
      | some names => some <$> fieldStrings t names
      | none => pure none
    return .value (.list ⟨.ofList (← listItems t fields), origins⟩)

/-- Read an object. -/
def ofObject (t : Json) : Except StoryError Instruction := do
  if let some path := t.field? "^->" then
    return .value (.target (Path.parse (← fieldString t path)))
  if let some name := t.field? "^var" then
    return ← ofReference t name
  if let some (target, kind) := divertFields.findSome? fun f => (t.field? f.1).map (·, f.2) then
    return ← ofDivert t target kind
  if let some path := t.field? "*" then
    return ← ofChoicePoint t path
  if let some name := t.field? "VAR?" then
    return .readVariable (← fieldString t name)
  if let some path := t.field? "CNT?" then
    return .readCount (Path.parse (← fieldString t path))
  if let some name := t.field? "VAR=" then
    return ← ofAssignment t name true
  if let some name := t.field? "temp=" then
    return ← ofAssignment t name false
  if let some text := t.field? "#" then
    return .tag (← fieldString t text)
  if let some items := t.field? "list" then
    return ← ofList t items
  throw (badToken t)

/-- Read an instruction. -/
def ofJson (t : Json) : Except StoryError Instruction :=
  match t with
  | .null | .arr _ => .error (badToken t)
  | .bool b => .ok (.value (.bool b))
  | .int _ | .float _ => ofNumber t
  | .str s => ofString s
  | .obj _ => ofObject t

end Instruction

/-- Read a token of the output or of the evaluation stack. -/
def Token.ofJson (t : Json) : Except StoryError Token := do
  match Token.ofInstruction? (← Instruction.ofJson t) with
  | some token => return token
  | none => throw (badToken t)

/-- Read a value. -/
def Value.ofJson (t : Json) : Except StoryError Value := do
  match ← Instruction.ofJson t with
  | .value v => return v
  | _ => throw (badToken t)

/-- Read values by name. -/
def Value.tableOfJson (fields : List (String × Json)) : Except StoryError (Table Value) := do
  return .ofList (← fields.mapM fun f => do return (f.1, ← Value.ofJson f.2))

namespace Block

/-- Read the name and the flags of a container from its last element. -/
def ofTerminator (items : List Json) : Except StoryError (Option String × CountFlags) := do
  match items.getLast? with
  | none => throw (.decode .unterminated)
  | some .null => return (none, .ofWord 0)
  | some (.obj fields) =>
    let flags ← match (Json.obj fields).field? "#f" with
      | none => pure 0
      | some f =>
        match f.int64? with
        | some n => pure n
        | none => throw (.decode (.countFlags f))
    let name ← match (Json.obj fields).field? "#n" with
      | none => pure none
      | some n =>
        match n.str? with
        | some s => pure (some s)
        | none => throw (.decode (.containerName n))
    return (name, .ofWord flags)
  | some other => throw (.decode (.terminator other))

mutual

/-- Read a block. -/
def ofJson : Json → Except StoryError Block
  | .arr items => do
    let (name, flags) ← ofTerminator items
    let content ← contentOfJson items
    let named ← namedOfJson items
    return .container name flags content named
  | t => return .leaf (← Instruction.ofJson t)

/-- Read the content of a container: every element but the last. -/
def contentOfJson : List Json → Except StoryError (List Block)
  | [] => .ok []
  | [_] => .ok []
  | t :: next :: rest => do
    let b ← ofJson t
    return b :: (← contentOfJson (next :: rest))

/-- Read the containers that only their names lead to, from the last element. -/
def namedOfJson : List Json → Except StoryError (List (String × Block))
  | [] => .ok []
  | [.obj fields] => fieldsOfJson fields
  | _ :: rest => namedOfJson rest

/-- Read the fields of a last element that hold containers. -/
def fieldsOfJson : List (String × Json) → Except StoryError (List (String × Block))
  | [] => .ok []
  | (name, t) :: rest =>
    if name = "#f" ∨ name = "#n" then fieldsOfJson rest
    else match t with
      | .arr items => do
        let b ← ofJson (.arr items)
        return (name, b.rename name) :: (← fieldsOfJson rest)
      | _ => .error (.decode (.namedContent name))

end

end Block

/-- Read a content tree, whose root has to be a container. -/
def ContentTree.ofJson (t : Json) : Except StoryError ContentTree := do
  if t.arr?.isNone then throw (.decode .rootNotContainer)
  return .ofBlock (← Block.ofJson t)

/-- Read the ranks of a list definition. -/
def ListDefinition.ofJson (name : String) (t : Json) : Except StoryError ListDefinition := do
  match t.obj? with
  | none => throw (.decode (.listDefinition name))
  | some fields =>
    let items ← fields.mapM fun f =>
      match f.2.int64? with
      | some n => pure (f.1, Int32.ofInt n)
      | none => throw (.decode (.listItem name f.1))
    return ⟨name, .ofList items⟩

/-- Read the list definitions of a story. -/
def ListDefinitions.ofJson (t : Json) : Except StoryError ListDefinitions := do
  match t.obj? with
  | none => throw (.decode .listDefinitions)
  | some fields => return .ofList (← fields.mapM fun f => ListDefinition.ofJson f.1 f.2)

/-- The version of the story format that is written. -/
def formatVersion : Int := 21

/-- The oldest version of the story format that is read. -/
def oldestFormatVersion : Int := 18

/-- The part of a story that never changes. `key` tells apart contents that were loaded
separately, even from the same text. -/
structure Content where
  key : Nat
  version : Int
  tree : ContentTree
  lists : ListDefinitions
  deriving Inhabited

/-- Read the content of a story. -/
def Content.ofJson (key : Nat) (t : Json) : Except StoryError Content := do
  match (t.field? "inkVersion").bind Json.int64? with
  | none => throw (.decode .versionMissing)
  | some n =>
    let version := wrap32 n
    if formatVersion < version then throw (.version (.storyNewer version))
    if version < oldestFormatVersion then throw (.version (.storyOlder version))
    match t.field? "root" with
    | none => throw (.decode .rootMissing)
    | some root =>
      let lists ← match t.field? "listDefs" with
        | some defs => ListDefinitions.ofJson defs
        | none => pure .empty
      let tree ← ContentTree.ofJson root
      return { key, version, tree, lists }

/-- Read the content of a story from its text. -/
def Content.ofText (key : Nat) (text : String) : Except StoryError Content :=
  match Json.read? text with
  | none => .error (.decode .notJson)
  | some t => Content.ofJson key t

end StoryMachine
