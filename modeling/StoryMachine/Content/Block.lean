import StoryMachine.Content.Instruction

/-!
# Blocks

A block is a piece of content as it is written: an instruction, or a container with
blocks in order and further containers that only their names lead to. A container counts
its visits and the turn of its last visit as its flags say.
-/

namespace StoryMachine

/-- What a container counts. -/
structure CountFlags where
  visits : Bool
  turns : Bool
  startOnly : Bool
  deriving DecidableEq, Repr, Inhabited

namespace CountFlags

/-- The flags of a flag word. -/
def ofWord (flags : Int) : CountFlags where
  visits := hasFlag flags 1
  turns := hasFlag flags 2
  startOnly := hasFlag flags 4

/-- The flag word. Counting at the start only means nothing if nothing is counted. -/
def word (f : CountFlags) : Int :=
  let flags := flagWord f.visits 1 + flagWord f.turns 2 + flagWord f.startOnly 4
  if flags = 4 then 0 else flags

end CountFlags

/-- A piece of content. The containers reached by name only stand in the order of their
names. -/
inductive Block where
  | leaf (i : Instruction)
  | container (name : Option String) (flags : CountFlags) (content : List Block)
      (named : List (String × Block))
  deriving Inhabited

namespace Block

/-- The name of a container, unless it is empty. -/
def validName? : Block → Option String
  | .container (some name) .. => if name.isEmpty then none else some name
  | _ => none

/-- A container under another name. -/
def rename (name : String) : Block → Block
  | .container _ flags content named => .container (some name) flags content named
  | .leaf i => .leaf i

mutual

/-- Number of nodes of a block. -/
def size : Block → Nat
  | .leaf _ => 1
  | .container _ _ content named => 1 + sizeOfList content + sizeOfNamed named

/-- Number of nodes of the blocks. -/
def sizeOfList : List Block → Nat
  | [] => 0
  | b :: rest => b.size + sizeOfList rest

/-- Number of nodes of the named blocks. -/
def sizeOfNamed : List (String × Block) → Nat
  | [] => 0
  | (_, b) :: rest => b.size + sizeOfNamed rest

end

end Block

end StoryMachine
