import StoryMachine.Content.Node

/-!
# Content trees

A content tree is the root block of a story with its nodes laid out. Everything else about
it is computed from these: children by step, ancestors, and the order of content.

The climbs and descents of this library go from a node to its parent, which stands in
front of it, or to a child, which stands behind it; each checks the direction of its step,
and so ends.
-/

namespace StoryMachine

/-- The content of a story. -/
structure ContentTree where
  root : Block
  nodes : Array Node
  nodes_eq : nodes = root.nodes.toArray

namespace ContentTree

/-- The tree of a root block. -/
def ofBlock (root : Block) : ContentTree :=
  ⟨root, root.nodes.toArray, rfl⟩

instance : Inhabited ContentTree := ⟨ofBlock default⟩

/-- The place of the root. -/
def rootId : NodeId := 0

/-- Number of nodes. -/
def size (t : ContentTree) : Nat :=
  t.nodes.size

/-- The node at a place. -/
def node? (t : ContentTree) (id : NodeId) : Option Node :=
  t.nodes[id]?

/-- The container at a place. -/
def container? (t : ContentTree) (id : NodeId) : Option Container :=
  match t.node? id with
  | some ⟨_, _, .container c⟩ => some c
  | _ => none

/-- The instruction at a place. -/
def leaf? (t : ContentTree) (id : NodeId) : Option Instruction :=
  match t.node? id with
  | some ⟨_, _, .leaf i⟩ => some i
  | _ => none

/-- Whether there is a container at a place. -/
def isContainer (t : ContentTree) (id : NodeId) : Bool :=
  (t.container? id).isSome

/-- The parent of a node. -/
def parent? (t : ContentTree) (id : NodeId) : Option NodeId :=
  (t.node? id).bind Node.parent

/-- The path of a node from the root. -/
def path (t : ContentTree) (id : NodeId) : Path :=
  match t.node? id with
  | some n => n.path
  | none => .root

/-- The content of the container at a place. -/
def content (t : ContentTree) (id : NodeId) : List NodeId :=
  match t.container? id with
  | some c => c.content
  | none => []

/-- The node that a step leads to from a container. -/
def child? (t : ContentTree) (id : NodeId) (s : Step) : Option NodeId := do
  let c ← t.container? id
  match s with
  | .index i => c.content[i]?
  | .name n => if s.isParent then t.parent? id else c.named.get? n

/-- A node with its ancestors, up to the root. -/
def ancestry (t : ContentTree) (id : NodeId) : List NodeId :=
  match t.parent? id with
  | some p => if p < id then id :: ancestry t p else [id]
  | none => [id]
termination_by id

/-- The container at the top of the tree that a name leads to. -/
def knot? (t : ContentTree) (name : String) : Option NodeId := do
  let root ← t.container? rootId
  let id ← root.named.get? name
  if t.isContainer id then some id else none

end ContentTree

end StoryMachine
