import StoryMachine.Fault
import StoryMachine.ListValue.Basic

/-!
# List definitions

A definition gives ranks to the items of one list. A story knows several definitions, and
with them the lists of single items that a bare item name or a full name stands for. Where
a bare name occurs in several definitions, the last of them counts.
-/

namespace StoryMachine

/-- A named enumeration: the ranks of its items. -/
structure ListDefinition where
  name : String
  items : Table Int32
  deriving Inhabited

namespace ListDefinition

/-- The item of this definition with the given name. -/
def item (d : ListDefinition) (name : String) : Item :=
  ⟨some d.name, name⟩

/-- The items with their ranks. -/
def entries (d : ListDefinition) : List (Item × Int32) :=
  d.items.entries.map fun e => (d.item e.1, e.2)

/-- The rank of an item name. -/
def rank? (d : ListDefinition) (name : String) : Option Int32 :=
  d.items.get? name

/-- Whether an item belongs to this definition. -/
def owns (d : ListDefinition) (i : Item) : Bool :=
  i.origin == some d.name && d.items.contains i.name

/-- The item of the given rank. -/
def itemOfRank? (d : ListDefinition) (rank : Int32) : Option Item :=
  (d.items.entries.find? fun e => e.2 == rank).map fun e => d.item e.1

end ListDefinition

/-- The definitions of a story by name, and the single-item lists by bare and full item
name. -/
structure ListDefinitions where
  lists : Table ListDefinition
  singles : Table ListValue
  deriving Inhabited

namespace ListDefinitions

/-- No definitions. -/
def empty : ListDefinitions := ⟨.empty, .empty⟩

/-- Note the list of one item under its bare and its full name. -/
def noteItem (singles : Table ListValue) (e : Item × Int32) : Table ListValue :=
  let list := ListValue.single e.1 e.2
  (singles.insert e.1.name list).insert e.1.fullName list

/-- Add a definition. -/
def add (ds : ListDefinitions) (d : ListDefinition) : ListDefinitions :=
  ⟨ds.lists.insert d.name d, d.entries.foldl noteItem ds.singles⟩

/-- The definitions in the given order. -/
def ofList (defs : List ListDefinition) : ListDefinitions :=
  defs.foldl add empty

/-- The definition of a name. -/
def find? (ds : ListDefinitions) (name : String) : Option ListDefinition :=
  ds.lists.get? name

/-- The list of the one item that a bare or full name stands for. -/
def single? (ds : ListDefinitions) (name : String) : Option ListValue :=
  ds.singles.get? name

end ListDefinitions

namespace ListValue

/-- The definitions that the list belongs to, as far as they are known. -/
def definitions (l : ListValue) (ds : ListDefinitions) : List ListDefinition :=
  (l.origins.getD []).filterMap ds.find?

/-- The definition of the item that comes last. -/
def definitionOfMax? (l : ListValue) (ds : ListDefinitions) : Option ListDefinition := do
  let (item, _) ← l.max?
  ds.find? (← item.origin)

/-- Every item of the definitions that the list belongs to. -/
def all (l : ListValue) (ds : ListDefinitions) : ListValue :=
  ⟨.ofList ((l.definitions ds).flatMap ListDefinition.entries), none⟩

/-- Every item of the definitions that the list belongs to, but its own. -/
def inverse (l : ListValue) (ds : ListDefinitions) : ListValue :=
  ⟨(l.all ds).items.filter fun i _ => !l.has i, none⟩

/-- The list with every item replaced by that of its definition whose rank is the item's
rank changed by `change`; an item without such a replacement is dropped. -/
def shift (l : ListValue) (ds : ListDefinitions) (change : Int32 → Int32) : ListValue :=
  let moved := l.items.entries.filterMap fun e => do
    let d ← ds.find? (← e.1.origin)
    let i ← d.itemOfRank? (change e.2)
    return (i, change e.2)
  ⟨.ofList moved, none⟩

/-- The item that a bare name stands for among `ds`, which has to be the only one. -/
def resolveBare (name : String) : Option (Item × Int32) → List ListDefinition →
    Except StoryError (Option (Item × Int32))
  | found, [] => .ok found
  | found, d :: ds =>
    match d.rank? name with
    | none => resolveBare name found ds
    | some rank =>
      if found.isSome then .error (.request (.itemAmbiguous name d.name))
      else resolveBare name (some (d.item name, rank)) ds

/-- The item of the given name with its rank, among the definitions the list belongs to. -/
def resolve (l : ListValue) (i : Item) (ds : ListDefinitions) :
    Except StoryError (Option (Item × Int32)) :=
  let known := l.definitions ds
  match i.origin with
  | none => resolveBare i.name none known
  | some origin =>
    match known.find? fun d => d.name == origin with
    | none => .ok none
    | some d =>
      match d.rank? i.name with
      | none => .error (.request (.itemUndefined i.fullName))
      | some rank => .ok (some (i, rank))

/-- Add an item by name, with the rank that its definition gives it. -/
def addItem (l : ListValue) (i : Item) (ds : ListDefinitions) : Except StoryError ListValue := do
  match ← l.resolve i ds with
  | some (item, rank) => return l.insert item rank
  | none => throw (.request (.itemUnknown i.fullName))

end ListValue

end StoryMachine
