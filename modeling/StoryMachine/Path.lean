import StoryMachine.Decimal.Integer
import StoryMachine.Text.Blank

/-!
# Paths

A path addresses a node of a content tree by the steps that lead to it: the place of a
child in the ordered content, or a name. The name `^` goes to the parent. A relative path
is written with a point in front. The empty text is the path to the root.

* `Path.parse` and `Path.render` : between paths and their text;
* `Path.append` : the path reached from another one, where parent steps take back steps.
-/

namespace StoryMachine

/-- A step of a path. -/
inductive Step where
  | index (i : Nat)
  | name (n : String)
  deriving DecidableEq, Repr, Inhabited

namespace Step

/-- The step to the parent. -/
def parent : Step := .name "^"

/-- Whether the step goes to the parent. -/
def isParent (s : Step) : Bool :=
  s = parent

/-- Read a step: what reads as an index is one, all else is a name. -/
def parse (cs : List Char) : Step :=
  match Decimal.unsigned? Decimal.max64 cs with
  | some i => .index i
  | none => .name (String.ofList cs)

/-- The text of a step. -/
def render : Step → String
  | .index i => Decimal.ofNat i
  | .name n => n

end Step

/-- The address of a node. -/
structure Path where
  steps : List Step
  relative : Bool
  deriving DecidableEq, Repr

namespace Path

/-- The path to the root. -/
def root : Path := ⟨[], false⟩

/-- The relative path from a node to itself. -/
def self : Path := ⟨[], true⟩

instance : Inhabited Path := ⟨root⟩

/-- Read a path. -/
def parse (s : String) : Path :=
  match s.toList with
  | [] => root
  | '.' :: cs => ⟨(Text.splitOn '.' cs).map Step.parse, true⟩
  | cs => ⟨(Text.splitOn '.' cs).map Step.parse, false⟩

/-- The text of a path. -/
def render (p : Path) : String :=
  (if p.relative then "." else "") ++ String.intercalate "." (p.steps.map Step.render)

instance : ToString Path := ⟨render⟩

/-- Number of steps. -/
def length (p : Path) : Nat :=
  p.steps.length

/-- The last step. -/
def last? (p : Path) : Option Step :=
  p.steps.getLast?

/-- The path behind the first step. -/
def tail (p : Path) : Path :=
  match p.steps with
  | _ :: s :: rest => ⟨s :: rest, false⟩
  | _ => self

/-- The path in front of the last step. -/
def parent (p : Path) : Path :=
  ⟨p.steps.dropLast, p.relative⟩

/-- The absolute path that takes a step more. -/
def push (p : Path) (s : Step) : Path :=
  ⟨p.steps ++ [s], false⟩

/-- The absolute path that `q` leads to from `p`: every parent step at the front of `q`
takes back a step of `p`. -/
def append (p q : Path) : Path :=
  let up := (q.steps.takeWhile Step.isParent).length
  ⟨p.steps.take (p.steps.length - up) ++ q.steps.drop up, false⟩

end Path

end StoryMachine
