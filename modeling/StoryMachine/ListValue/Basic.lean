import StoryMachine.SortedMap
import StoryMachine.ListValue.Item

/-!
# List values

A list value is a set of items with their ranks. Items may come from several definitions.
A list without items can still know the definitions it belongs to, so that the operations
that need them go on working when the last item is gone.

The order of a list is that of its ranks, then of the items. Comparisons look only at the
least and the greatest rank of each side.
-/

namespace StoryMachine

/-- A list value: ranks by item, and the definitions a list without items belongs to. -/
structure ListValue where
  items : SortedMap Item Int32
  emptyOrigins : Option (List String) := none
  deriving Inhabited

namespace ListValue

/-- The list without items that belongs to no definition. -/
def empty : ListValue := ⟨.empty, none⟩

instance : BEq ListValue :=
  ⟨fun a b => a.items == b.items && a.emptyOrigins == b.emptyOrigins⟩

/-- The list with one item. -/
def single (i : Item) (rank : Int32) : ListValue :=
  ⟨.singleton i rank, none⟩

/-- The list without items that belongs to one definition. -/
def ofOrigin (name : String) : ListValue :=
  ⟨.empty, some [name]⟩

/-- Whether there is no item. -/
def isEmpty (l : ListValue) : Bool :=
  l.items.isEmpty

/-- Number of items. -/
def size (l : ListValue) : Nat :=
  l.items.size

/-- Whether `i` is in the list. -/
def has (l : ListValue) (i : Item) : Bool :=
  l.items.contains i

/-- Put `i` in the list. -/
def insert (l : ListValue) (i : Item) (rank : Int32) : ListValue :=
  { l with items := l.items.insert i rank }

/-- The items in the order of their ranks, items of equal rank in their own order. -/
def ordered (l : ListValue) : List (Item × Int32) :=
  l.items.entries.mergeSort fun a b => decide (a.2 ≤ b.2)

/-- The item that comes last. -/
def max? (l : ListValue) : Option (Item × Int32) :=
  l.ordered.getLast?

/-- The item that comes first. -/
def min? (l : ListValue) : Option (Item × Int32) :=
  l.ordered.head?

/-- The greatest rank; zero without items. -/
def maxRank (l : ListValue) : Int32 :=
  (l.max?.map Prod.snd).getD 0

/-- The least rank; zero without items. -/
def minRank (l : ListValue) : Int32 :=
  (l.min?.map Prod.snd).getD 0

/-- The names of the definitions the list belongs to: those of its items, each once and in
order, or what is remembered of a list without items. -/
def origins (l : ListValue) : Option (List String) :=
  if l.isEmpty then l.emptyOrigins
  else some (l.items.keys.filterMap Item.origin).eraseReps

/-- The list, remembering its definitions for when its items are gone. -/
def keepOrigins (l : ListValue) : ListValue :=
  ⟨l.items, l.origins⟩

/-- The items of both lists, with the ranks of the second where they share an item. -/
def union (a b : ListValue) : ListValue :=
  ⟨b.items.entries.foldl (fun m e => m.insert e.1 e.2) a.items, a.origins⟩

/-- The items of the first list that are in the second. -/
def intersect (a b : ListValue) : ListValue :=
  ⟨a.items.filter fun i _ => b.has i, none⟩

/-- Whether the lists share an item. -/
def meets (a b : ListValue) : Bool :=
  a.items.keys.any b.has

/-- The items of the first list that are not in the second; the definitions of the first
list are remembered. -/
def without (a b : ListValue) : ListValue :=
  ⟨a.items.filter fun i _ => !b.has i, a.origins⟩

/-- Whether every item of `b` is in `a`. A list without items contains nothing and is
contained in nothing. -/
def includes (a b : ListValue) : Bool :=
  !b.isEmpty && !a.isEmpty && b.items.keys.all a.has

/-- Whether an item of this name is in the list, whatever its definition. -/
def hasNamed (l : ListValue) (name : String) : Bool :=
  l.items.keys.any fun i => i.name == name

/-- Every item of `a` outranks every item of `b`, and `a` has one. -/
def greater (a b : ListValue) : Bool :=
  match a.min?, b.max? with
  | none, _ => false
  | some _, none => true
  | some (_, low), some (_, high) => decide (high < low)

/-- Neither the least nor the greatest rank of `a` is below that of `b`, and `a` has an
item. -/
def greaterOrEqual (a b : ListValue) : Bool :=
  if a.isEmpty then false
  else if b.isEmpty then true
  else decide (b.minRank ≤ a.minRank) && decide (b.maxRank ≤ a.maxRank)

/-- Every item of `b` outranks every item of `a`, and `b` has one. -/
def less (a b : ListValue) : Bool :=
  match a.max?, b.min? with
  | _, none => false
  | none, some _ => true
  | some (_, high), some (_, low) => decide (high < low)

/-- Neither the least nor the greatest rank of `a` is above that of `b`, and `b` has an
item. -/
def lessOrEqual (a b : ListValue) : Bool :=
  if b.isEmpty then false
  else if a.isEmpty then true
  else decide (a.maxRank ≤ b.maxRank) && decide (a.minRank ≤ b.minRank)

/-- Whether the lists have the same items, whatever the ranks. -/
def sameItems (a b : ListValue) : Bool :=
  a.size == b.size && b.items.keys.all a.has

/-- The list of the item that comes last. -/
def maxList (l : ListValue) : ListValue :=
  match l.max? with
  | some (i, rank) => single i rank
  | none => empty

/-- The list of the item that comes first. -/
def minList (l : ListValue) : ListValue :=
  match l.min? with
  | some (i, rank) => single i rank
  | none => empty

/-- The items whose ranks lie between the bounds. -/
def between (l : ListValue) (low high : Int32) : ListValue :=
  if l.isEmpty then empty
  else ⟨l.items.filter fun _ rank => decide (low ≤ rank) && decide (rank ≤ high), l.origins⟩

/-- The items with the greatest rank first, items of equal rank in their own order: the
order in which a random item is picked. -/
def descending (l : ListValue) : List (Item × Int32) :=
  l.items.entries.mergeSort fun a b => decide (b.2 ≤ a.2)

/-- The names of the items in order, with commas between them. -/
def render (l : ListValue) : String :=
  String.intercalate ", " (l.ordered.map fun e => e.1.name)

instance : ToString ListValue := ⟨render⟩

end ListValue

end StoryMachine
