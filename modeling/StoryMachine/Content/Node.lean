import StoryMachine.Content.Block

/-!
# Nodes

The nodes of a content tree stand in an array, a container in front of everything in it,
and are known by their places in it. `Block.nodes` lays a block out in this way: a
container, its content in order, and then the containers reached by name only. Every node
knows its parent and its path from the root. The step to a child is its name, if it has
one that is not empty, and otherwise its place in the content.
-/

namespace StoryMachine

/-- The place of a node in the array of nodes. -/
abbrev NodeId := Nat

/-- A container node. `named` holds every child that a name leads to. -/
structure Container where
  name : Option String
  flags : CountFlags
  content : List NodeId
  named : Table NodeId
  deriving Inhabited

namespace Container

/-- The name, unless it is empty. -/
def validName? (c : Container) : Option String :=
  c.name.filter fun n => !n.isEmpty

/-- The children that are not part of the content, by name. -/
def namedOnly (c : Container) : List (String × NodeId) :=
  c.named.entries.filter fun e => !c.content.contains e.2

end Container

/-- What a node is. -/
inductive NodeKind where
  | container (c : Container)
  | leaf (i : Instruction)
  deriving Inhabited

/-- A node with its parent and its path from the root. -/
structure Node where
  parent : Option NodeId
  path : Path
  kind : NodeKind
  deriving Inhabited

namespace Block

/-- The places of the blocks laid out one behind the other from `start` on. -/
def places (start : NodeId) : List Block → List NodeId
  | [] => []
  | b :: rest => start :: places (start + b.size) rest

/-- The places of the named blocks laid out one behind the other from `start` on. -/
def namedPlaces (start : NodeId) : List (String × Block) → List (String × NodeId)
  | [] => []
  | (name, b) :: rest => (name, start) :: namedPlaces (start + b.size) rest

/-- The places of the blocks that have a name, with their names. -/
def validNames (start : NodeId) : List Block → List (String × NodeId)
  | [] => []
  | b :: rest =>
    match b.validName? with
    | some name => (name, start) :: validNames (start + b.size) rest
    | none => validNames (start + b.size) rest

/-- The step from a container to the block at `index` of its content. -/
def stepTo (b : Block) (index : Nat) : Step :=
  match b.validName? with
  | some name => .name name
  | none => .index index

mutual

/-- The nodes of a block that is laid out from `self` on. -/
def nodesAt (parent : Option NodeId) (path : Path) (self : NodeId) : Block → List Node
  | .leaf i => [⟨parent, path, .leaf i⟩]
  | .container name flags content named =>
    let first := self + 1
    let behind := first + sizeOfList content
    let node : Container :=
      { name, flags
        content := places first content
        named := .ofList (validNames first content ++ namedPlaces behind named) }
    ⟨parent, path, .container node⟩ ::
      (contentNodes self path 0 first content ++ namedNodes self path behind named)

/-- The nodes of the content of a container, from the block at `index` on. -/
def contentNodes (parent : NodeId) (path : Path) (index : Nat) (start : NodeId) :
    List Block → List Node
  | [] => []
  | b :: rest =>
    nodesAt (some parent) (path.push (b.stepTo index)) start b ++
      contentNodes parent path (index + 1) (start + b.size) rest

/-- The nodes of the containers of a container that only their names lead to. -/
def namedNodes (parent : NodeId) (path : Path) (start : NodeId) :
    List (String × Block) → List Node
  | [] => []
  | (name, b) :: rest =>
    nodesAt (some parent) (path.push (.name name)) start b ++
      namedNodes parent path (start + b.size) rest

end

/-- The nodes of a block that is the root. -/
def nodes (b : Block) : List Node :=
  b.nodesAt none .root 0

end Block

end StoryMachine
