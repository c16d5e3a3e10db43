import StoryMachine.Content.Tree

/-!
# The outline of a tree

`ContentTree.outline` writes the tree for a reader: a line per leaf, containers in
brackets with what is in them indented, and a mark at one node.
-/

namespace StoryMachine

namespace Block

/-- The blanks in front of a line. -/
def indentation (level : Nat) : String :=
  String.ofList (List.replicate (4 * level) ' ')

/-- The mark of the node pointed at. -/
def mark (pointed : Option NodeId) (id : NodeId) : String :=
  if pointed = some id then "  <---" else ""

/-- The text of a leaf; a text stands in quotes, with its line ends escaped. -/
def leafText : Instruction → String
  | .value (.text s) =>
    "\"" ++ String.ofList (s.toList.flatMap fun c => if c = '\n' then ['\\', 'n'] else [c]) ++ "\""
  | i => i.render

mutual

/-- The outline of a block laid out from `self` on. -/
def outline (pointed : Option NodeId) (level : Nat) (self : NodeId) : Block → String
  | .leaf i => indentation level ++ leafText i
  | .container name flags content named =>
    let label := match (Block.container name flags content named).validName? with
      | some n => " (" ++ n ++ ")"
      | none => ""
    let first := self + 1
    let behind := first + sizeOfList content
    indentation level ++ "[" ++ label ++ mark pointed self ++ "\n" ++
      outlineContent pointed (level + 1) first content ++
      (if named.isEmpty then ""
        else indentation (level + 1) ++ "-- named: --\n" ++
          outlineNamed pointed (level + 1) behind named) ++
      indentation level ++ "]"

/-- The lines of the content of a container, with commas between them. -/
def outlineContent (pointed : Option NodeId) (level : Nat) (start : NodeId) :
    List Block → String
  | [] => ""
  | b :: rest =>
    let comma := if rest.isEmpty then "" else ","
    let leafMark := match b with
      | .leaf _ => mark pointed start
      | .container .. => ""
    outline pointed level start b ++ comma ++ leafMark ++ "\n" ++
      outlineContent pointed level (start + b.size) rest

/-- The lines of the containers that only their names lead to. -/
def outlineNamed (pointed : Option NodeId) (level : Nat) (start : NodeId) :
    List (String × Block) → String
  | [] => ""
  | (_, b) :: rest =>
    outline pointed level start b ++ "\n" ++ outlineNamed pointed level (start + b.size) rest

end

end Block

/-- The outline of a tree, with a mark at the node pointed at. -/
def ContentTree.outline (t : ContentTree) (pointed : Option NodeId) : String :=
  t.root.outline pointed 0 ContentTree.rootId

end StoryMachine
