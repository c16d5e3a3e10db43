import StoryMachine.Content.Tree

/-!
# Looking up content

A lookup follows the steps of a path from a node. If a step leads nowhere, the lookup is
*approximate* and gives the last node it reached.

A *cursor* is a place of execution: a container and the index of an element of its
content. A negative index stands for the container itself. A path that ends in an index
points into its parent container, any other path at a container.
-/

namespace StoryMachine

/-- The outcome of a lookup. -/
structure Found where
  node : NodeId
  approximate : Bool
  deriving DecidableEq, Repr, Inhabited

namespace Found

/-- The node, if the whole path led to it. -/
def complete? (f : Found) : Option NodeId :=
  if f.approximate then none else some f.node

/-- The node, if it is a container, however it was found. -/
def container? (f : Found) (t : ContentTree) : Option NodeId :=
  if t.isContainer f.node then some f.node else none

/-- The node, if the whole path led to it and it is a container. -/
def exactContainer? (f : Found) (t : ContentTree) : Option NodeId :=
  if f.approximate then none else f.container? t

end Found

namespace ContentTree

/-- Follow steps from a node. Only the last step may lead to a leaf; with `more`, steps
that lead nowhere are still to come behind the last one. -/
def follow (t : ContentTree) (more : Bool) (id : NodeId) : List Step → Found
  | [] => ⟨id, more⟩
  | s :: rest =>
    match t.child? id s with
    | none => ⟨id, true⟩
    | some next =>
      if (more || !rest.isEmpty) && !t.isContainer next then ⟨id, true⟩
      else t.follow more next rest

/-- Follow a path from a node, whether or not it is relative. -/
def findFrom (t : ContentTree) (id : NodeId) (p : Path) : Found :=
  t.follow false id p.steps

/-- Follow a path from the root. -/
def find (t : ContentTree) (p : Path) : Found :=
  t.findFrom rootId p

/-- Follow the steps of a path from number `start` to in front of number `stop`, from the
root. Steps that the path does not have lead nowhere. -/
def findPart (t : ContentTree) (p : Path) (start stop : Nat) : Found :=
  t.follow (start < stop && p.length < stop) rootId ((p.steps.take stop).drop start)

/-- The node that a path means at the node `source`. An absolute path starts at the root. A
relative one starts at the node if that is a container, and otherwise at its parent, which
the first parent step leads to. -/
def resolve (t : ContentTree) (source : NodeId) (p : Path) : Found :=
  if !p.relative then t.find p
  else if t.isContainer source then t.findFrom source p
  else
    match t.parent? source with
    | none => ⟨source, true⟩
    | some parent =>
      match p.steps with
      | s :: rest => t.follow false parent (if s.isParent then rest else s :: rest)
      | [] => ⟨parent, false⟩

end ContentTree

/-- A place of execution. -/
structure Cursor where
  container : NodeId
  index : Int
  deriving DecidableEq, Repr, Inhabited

/-- The whole number of 32 bits in two's complement that agrees with `n`. -/
def wrap32 (n : Int) : Int :=
  n.bmod 0x100000000

namespace Cursor

/-- The place of the first element of a container. -/
def start (container : NodeId) : Cursor :=
  ⟨container, 0⟩

/-- The node at a place: an element, or the container itself if the index is negative or
there are no elements. -/
def node? (c : Cursor) (t : ContentTree) : Option NodeId :=
  match t.container? c.container with
  | none => none
  | some k =>
    if c.index < 0 || k.content.isEmpty then some c.container else k.content[c.index.toNat]?

/-- The path of a place. -/
def path (c : Cursor) (t : ContentTree) : Path :=
  if c.index < 0 then t.path c.container
  else (t.path c.container).push (.index c.index.toNat)

/-- A place in messages; no place at all is null. -/
def describe (t : ContentTree) : Option Cursor → String
  | some c =>
    "Pointer -> " ++ (t.path c.container).render ++ " -- index " ++ Decimal.ofInt c.index
  | none => "Pointer (null)"

end Cursor

namespace ContentTree

/-- The warning that a path was followed in part only. -/
def approximated (p : Path) (reached : Path) : String :=
  "Failed to find content at path '" ++ p.render ++ "', so it was approximated to: '" ++
    reached.render ++ "'."

/-- The place that an absolute path addresses, and a warning if it was followed in part
only. A path that does not even lead away from the root is an error, unless it is an index
into it; the empty path addresses no place. -/
def cursorAt (t : ContentTree) (p : Path) :
    Except StoryError (Option Cursor × Option String) :=
  match p.last? with
  | none => .ok (none, none)
  | some last =>
    let (steps, index) : List Step × Int := match last with
      | .index i => (p.steps.dropLast, wrap32 i)
      | .name _ => (p.steps, -1)
    let found := t.follow false rootId steps
    if found.node = rootId ∧ steps ≠ [] then
      .error (.address (.noApproximation p.render))
    else
      let cursor := (found.container? t).map fun c => ⟨c, index⟩
      let warning :=
        if found.approximate then some (approximated p (t.path found.node)) else none
      .ok (cursor, warning)

/-- The place that a divert at the node `source` leads to by a path. Where the path cannot
be followed to its end, the last container reached stands for it. -/
def divertCursor? (t : ContentTree) (source : NodeId) (p : Path) : Option Cursor :=
  match p.last? with
  | none => none
  | some (.index i) => ((t.resolve source p.parent).container? t).map fun c => ⟨c, wrap32 i⟩
  | some (.name _) => ((t.resolve source p).container? t).map Cursor.start

/-- The container that a path at the node `source` leads to. Where the path cannot be
followed to its end, the last container reached stands for it. -/
def targetContainer? (t : ContentTree) (source : NodeId) (p : Path) : Option NodeId :=
  (t.resolve source p).container? t

end ContentTree

end StoryMachine
