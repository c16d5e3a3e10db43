import StoryMachine.Content.Encode
import StoryMachine.Proofs.PathText

/-!
# Normal content

Writing content and reading it again changes little. An item of unknown definition comes
back as one of a definition named by a question mark; the definitions of a list are kept
only while it has no items, and never as a list of none; counting at the start only is
forgotten where nothing is counted; and a number that is not finite is replaced by a finite
one. The `normal` functions make exactly these changes, and nothing else about a tree
changes by them.

* `Value.normal`, `Instruction.normal`, `Block.normal`, `Node.normal` : the changes;
* `Block.nodes_normal` : the nodes of normal content, one by one;
* `ContentTree.follow_normal`, `ContentTree.divertCursor?_normal`,
  `ContentTree.targetContainer?_normal` : paths lead to the same places.
-/

namespace StoryMachine

/-! ## Normal forms -/

/-- Counting at the start only means nothing if nothing is counted. -/
def CountFlags.normal (f : CountFlags) : CountFlags :=
  if f.visits || f.turns then f else ⟨false, false, false⟩

/-- The list with every definition known, and without definitions that its items tell or
that are none. -/
def ListValue.normal (l : ListValue) : ListValue :=
  ⟨.ofList (l.items.entries.map fun e => (e.1.normal, e.2)),
    if l.isEmpty then l.emptyOrigins.filter fun names => !names.isEmpty else none⟩

/-- The value with its list normal and its number finite. -/
def Value.normal : Value → Value
  | .float x => .float (toFinite x)
  | .list l => .list l.normal
  | v => v

/-- The instruction with its value normal. -/
def Instruction.normal : Instruction → Instruction
  | .value v => .value v.normal
  | i => i

namespace Block

mutual

/-- The block with all instructions and flags in it normal. -/
def normal : Block → Block
  | .leaf i => .leaf i.normal
  | .container name flags content named =>
    .container name flags.normal (normalList content) (normalNamed named)

/-- Normal blocks. -/
def normalList : List Block → List Block
  | [] => []
  | b :: rest => b.normal :: normalList rest

/-- Normal blocks with their names. -/
def normalNamed : List (String × Block) → List (String × Block)
  | [] => []
  | (name, b) :: rest => (name, b.normal) :: normalNamed rest

end

end Block

/-- The node with its instruction or its flags normal. -/
def Node.normal (n : Node) : Node :=
  match n.kind with
  | .container c => { n with kind := .container { c with flags := c.flags.normal } }
  | .leaf i => { n with kind := .leaf i.normal }

/-! ## The nodes of normal content -/

namespace Block

mutual

theorem size_normal : ∀ b : Block, b.normal.size = b.size
  | .leaf _ => by rw [normal, size, size]
  | .container _ _ content named => by
    rw [normal, size, size, sizeOfList_normal content, sizeOfNamed_normal named]

theorem sizeOfList_normal : ∀ bs : List Block, sizeOfList (normalList bs) = sizeOfList bs
  | [] => by rw [normalList]
  | b :: rest => by
    rw [normalList, sizeOfList, sizeOfList, size_normal b, sizeOfList_normal rest]

theorem sizeOfNamed_normal :
    ∀ bs : List (String × Block), sizeOfNamed (normalNamed bs) = sizeOfNamed bs
  | [] => by rw [normalNamed]
  | (_, b) :: rest => by
    rw [normalNamed, sizeOfNamed, sizeOfNamed, size_normal b, sizeOfNamed_normal rest]

end

theorem validName?_normal (b : Block) : b.normal.validName? = b.validName? := by
  cases b with
  | leaf i => rw [normal]; rfl
  | container name flags content named => rw [normal]; cases name <;> rfl

theorem stepTo_normal (b : Block) (index : Nat) : b.normal.stepTo index = b.stepTo index := by
  rw [stepTo, stepTo, validName?_normal]

theorem places_normal (start : NodeId) (bs : List Block) :
    places start (normalList bs) = places start bs := by
  induction bs generalizing start with
  | nil => rw [normalList]
  | cons b rest ih => rw [normalList, places, places, size_normal, ih]

theorem namedPlaces_normal (start : NodeId) (bs : List (String × Block)) :
    namedPlaces start (normalNamed bs) = namedPlaces start bs := by
  induction bs generalizing start with
  | nil => rw [normalNamed]
  | cons e rest ih => rw [normalNamed, namedPlaces, namedPlaces, size_normal, ih]

theorem validNames_normal (start : NodeId) (bs : List Block) :
    validNames start (normalList bs) = validNames start bs := by
  induction bs generalizing start with
  | nil => rw [normalList]
  | cons b rest ih => rw [normalList, validNames, validNames, validName?_normal, size_normal, ih]

mutual

theorem nodesAt_normal (parent : Option NodeId) (path : Path) (self : NodeId) :
    ∀ b : Block, nodesAt parent path self b.normal = (nodesAt parent path self b).map Node.normal
  | .leaf i => by rw [normal, nodesAt, nodesAt]; rfl
  | .container name flags content named => by
    rw [normal, nodesAt, nodesAt]
    simp only [sizeOfList_normal, places_normal, validNames_normal, namedPlaces_normal,
      List.map_cons, List.map_append, contentNodes_normal, namedNodes_normal]
    rfl

theorem contentNodes_normal (parent : NodeId) (path : Path) (index : Nat) (start : NodeId) :
    ∀ bs : List Block, contentNodes parent path index start (normalList bs) =
      (contentNodes parent path index start bs).map Node.normal
  | [] => by rw [normalList, contentNodes]; rfl
  | b :: rest => by
    rw [normalList, contentNodes, contentNodes, stepTo_normal, size_normal, nodesAt_normal,
      contentNodes_normal, List.map_append]

theorem namedNodes_normal (parent : NodeId) (path : Path) (start : NodeId) :
    ∀ bs : List (String × Block), namedNodes parent path start (normalNamed bs) =
      (namedNodes parent path start bs).map Node.normal
  | [] => by rw [normalNamed, namedNodes]; rfl
  | (name, b) :: rest => by
    rw [normalNamed, namedNodes, namedNodes, size_normal, nodesAt_normal, namedNodes_normal,
      List.map_append]

end

/-- The nodes of normal content stand where they stood, and only what they hold is
normal. -/
theorem nodes_normal (b : Block) : b.normal.nodes = b.nodes.map Node.normal :=
  nodesAt_normal none .root 0 b

end Block

/-! ## Places in normal content -/

namespace ContentTree

/-- The tree of the normal root block. -/
def normal (t : ContentTree) : ContentTree :=
  ofBlock t.root.normal

variable (t : ContentTree)

theorem node?_normal (id : NodeId) : t.normal.node? id = (t.node? id).map Node.normal := by
  rw [node?, node?, t.nodes_eq]
  show t.root.normal.nodes.toArray[id]? = _
  rw [Block.nodes_normal]
  simp

theorem container?_normal (id : NodeId) : t.normal.container? id =
    (t.container? id).map fun c => { c with flags := c.flags.normal } := by
  rw [container?, container?, node?_normal]
  rcases t.node? id with _ | ⟨_, _, _ | _⟩ <;> rfl

theorem isContainer_normal (id : NodeId) : t.normal.isContainer id = t.isContainer id := by
  rw [isContainer, isContainer, container?_normal, Option.isSome_map]

theorem parent?_normal (id : NodeId) : t.normal.parent? id = t.parent? id := by
  rw [parent?, parent?, node?_normal]
  rcases t.node? id with _ | ⟨_, _, _ | _⟩ <;> rfl

theorem child?_normal (id : NodeId) (s : Step) : t.normal.child? id s = t.child? id s := by
  unfold child?
  rw [container?_normal, parent?_normal]
  cases t.container? id <;> rfl

theorem follow_normal (more : Bool) (id : NodeId) (steps : List Step) :
    t.normal.follow more id steps = t.follow more id steps := by
  induction steps generalizing id with
  | nil => rfl
  | cons s rest ih =>
    rw [follow, follow, child?_normal]
    cases t.child? id s with
    | none => rfl
    | some next => simp only [isContainer_normal, ih]

theorem resolve_normal (source : NodeId) (p : Path) :
    t.normal.resolve source p = t.resolve source p := by
  unfold resolve find findFrom
  simp only [isContainer_normal, parent?_normal, follow_normal]

theorem foundContainer?_normal (f : Found) : f.container? t.normal = f.container? t := by
  rw [Found.container?, Found.container?, isContainer_normal]

/-- A divert leads to the same place in normal content. -/
theorem divertCursor?_normal (source : NodeId) (p : Path) :
    t.normal.divertCursor? source p = t.divertCursor? source p := by
  unfold divertCursor?
  simp only [resolve_normal, foundContainer?_normal]

/-- A path leads to the same container in normal content. -/
theorem targetContainer?_normal (source : NodeId) (p : Path) :
    t.normal.targetContainer? source p = t.targetContainer? source p := by
  unfold targetContainer?
  rw [resolve_normal, foundContainer?_normal]

end ContentTree

end StoryMachine
