import Mathlib.Data.List.Infix
import StoryMachine.Content.Tree
import StoryMachine.Proofs.Maps

/-!
# The blocks of a tree and their places

A content tree lays its root block out in an array of nodes. `ContentTree.Stands` says which
block stands at which place, with its parent and its path: the root block in front, and every
block in a container behind the blocks that come before it there. What holds of the tree block
by block is proved by induction on it, and carried over to the array: a block stands at every
place, and the node at a place tells which.

* `ContentTree.Stands.node?_eq` : the node where a block stands;
* `ContentTree.exists_stands` : at every place stands a block;
* `ContentTree.Stands.everywhere` : what holds of all containers holds of one;
* `ContentTree.child_of_mem_content` : an element of a container stands behind it, and has it as
  its parent.
-/

namespace StoryMachine

namespace Block

/-! ## Layout -/

mutual

theorem length_nodesAt (parent : Option NodeId) (path : Path) (self : NodeId) :
    ∀ b : Block, (nodesAt parent path self b).length = b.size
  | .leaf _ => by rw [nodesAt, size]; rfl
  | .container _ _ content named => by
    rw [nodesAt, size, List.length_cons, List.length_append, length_contentNodes self path 0 _ content,
      length_namedNodes self path _ named]
    omega

theorem length_contentNodes (parent : NodeId) (path : Path) (index : Nat) (start : NodeId) :
    ∀ bs : List Block, (contentNodes parent path index start bs).length = sizeOfList bs
  | [] => by rw [contentNodes, sizeOfList]; rfl
  | b :: rest => by
    rw [contentNodes, sizeOfList, List.length_append, length_nodesAt _ _ _ b,
      length_contentNodes parent path _ _ rest]

theorem length_namedNodes (parent : NodeId) (path : Path) (start : NodeId) :
    ∀ bs : List (String × Block), (namedNodes parent path start bs).length = sizeOfNamed bs
  | [] => by rw [namedNodes, sizeOfNamed]; rfl
  | (_, b) :: rest => by
    rw [namedNodes, sizeOfNamed, List.length_append, length_nodesAt _ _ _ b,
      length_namedNodes parent path _ rest]

end

theorem sizeOfList_concat (bs : List Block) (b : Block) :
    sizeOfList (bs ++ [b]) = sizeOfList bs + b.size := by
  induction bs with
  | nil => simp [sizeOfList]
  | cons first rest ih => rw [List.cons_append, sizeOfList, sizeOfList, ih, Nat.add_assoc]

theorem sizeOfNamed_concat (bs : List (String × Block)) (name : String) (b : Block) :
    sizeOfNamed (bs ++ [(name, b)]) = sizeOfNamed bs + b.size := by
  induction bs with
  | nil => simp [sizeOfNamed]
  | cons first rest ih => rw [List.cons_append, sizeOfNamed, sizeOfNamed, ih, Nat.add_assoc]

theorem size_pos (b : Block) : 0 < b.size := by
  cases b with
  | leaf => rw [size]; exact Nat.zero_lt_one
  | container => rw [size]; omega

/-- What the node of a block is that is laid out from `self` on. -/
def kindAt (self : NodeId) : Block → NodeKind
  | .leaf i => .leaf i
  | .container name flags content named =>
    .container
      { name, flags
        content := places (self + 1) content
        named := .ofList (validNames (self + 1) content ++
          namedPlaces (self + 1 + sizeOfList content) named) }

theorem nodesAt_eq_cons (parent : Option NodeId) (path : Path) (self : NodeId) (b : Block) :
    ∃ inner, nodesAt parent path self b = ⟨parent, path, b.kindAt self⟩ :: inner := by
  cases b with
  | leaf i => exact ⟨[], by rw [nodesAt]; rfl⟩
  | container name flags content named => exact ⟨_, by rw [nodesAt]; rfl⟩

/-- An element of the content is laid out behind the elements in front of it. -/
theorem nodesAt_prefix_contentNodes (parent : NodeId) (path : Path) {bs : List Block} {i : Nat}
    {b : Block} (h : bs[i]? = some b) (index : Nat) (start : NodeId) :
    nodesAt (some parent) (path.push (b.stepTo (index + i))) (start + sizeOfList (bs.take i)) b <+:
      (contentNodes parent path index start bs).drop (sizeOfList (bs.take i)) := by
  induction bs generalizing i index start with
  | nil => cases h
  | cons first rest ih =>
    cases i with
    | zero =>
      cases h
      rw [contentNodes, List.take_zero, sizeOfList, List.drop_zero]
      exact List.prefix_append _ _
    | succ i =>
      have hrest := ih h (index + 1) (start + first.size)
      rw [contentNodes, List.take_succ_cons, sizeOfList,
        ← length_nodesAt (some parent) (path.push (first.stepTo index)) start first,
        List.drop_length_add_append, length_nodesAt, ← Nat.add_assoc, ← Nat.add_assoc,
        Nat.add_right_comm index]
      exact hrest

/-- A named container is laid out behind the ones in front of it. -/
theorem nodesAt_prefix_namedNodes (parent : NodeId) (path : Path) {bs : List (String × Block)}
    {i : Nat} {name : String} {b : Block} (h : bs[i]? = some (name, b)) (start : NodeId) :
    nodesAt (some parent) (path.push (.name name)) (start + sizeOfNamed (bs.take i)) b <+:
      (namedNodes parent path start bs).drop (sizeOfNamed (bs.take i)) := by
  induction bs generalizing i start with
  | nil => cases h
  | cons first rest ih =>
    obtain ⟨firstName, first⟩ := first
    cases i with
    | zero =>
      cases h
      rw [namedNodes, List.take_zero, sizeOfNamed, List.drop_zero]
      exact List.prefix_append _ _
    | succ i =>
      have hrest := ih h (start + first.size)
      rw [namedNodes, List.take_succ_cons, sizeOfNamed,
        ← length_nodesAt (some parent) (path.push (.name firstName)) start first,
        List.drop_length_add_append, length_nodesAt, ← Nat.add_assoc]
      exact hrest

/-! ## The children of a container -/

theorem getElem?_places (start : NodeId) (bs : List Block) (i : Nat) :
    (places start bs)[i]? = bs[i]?.map fun _ => start + sizeOfList (bs.take i) := by
  induction bs generalizing i start with
  | nil => rfl
  | cons b rest ih =>
    cases i with
    | zero => rfl
    | succ i =>
      rw [places, List.getElem?_cons_succ, List.getElem?_cons_succ, ih, List.take_succ_cons,
        sizeOfList, Nat.add_assoc]

theorem mem_validNames {bs : List Block} {i : Nat} {b : Block} {name : String}
    (h : bs[i]? = some b) (hname : b.validName? = some name) (start : NodeId) :
    (name, start + sizeOfList (bs.take i)) ∈ validNames start bs := by
  induction bs generalizing i start with
  | nil => cases h
  | cons first rest ih =>
    cases i with
    | zero =>
      cases h
      rw [validNames, hname]
      exact List.mem_cons_self
    | succ i =>
      have hrest := ih h (start + first.size)
      rw [List.take_succ_cons, sizeOfList, ← Nat.add_assoc, validNames]
      split
      · exact List.mem_cons_of_mem _ hrest
      · exact hrest

theorem mem_namedPlaces {bs : List (String × Block)} {i : Nat} {b : Block} {name : String}
    (h : bs[i]? = some (name, b)) (start : NodeId) :
    (name, start + sizeOfNamed (bs.take i)) ∈ namedPlaces start bs := by
  induction bs generalizing i start with
  | nil => cases h
  | cons first rest ih =>
    obtain ⟨firstName, first⟩ := first
    cases i with
    | zero =>
      cases h
      exact List.mem_cons_self
    | succ i =>
      have hrest := ih h (start + first.size)
      rw [List.take_succ_cons, sizeOfNamed, ← Nat.add_assoc]
      exact List.mem_cons_of_mem _ hrest

theorem map_fst_validNames (start : NodeId) (bs : List Block) :
    (validNames start bs).map Prod.fst = bs.filterMap validName? := by
  induction bs generalizing start with
  | nil => rfl
  | cons b rest ih =>
    rw [validNames, List.filterMap_cons]
    cases b.validName? with
    | some name => exact congrArg (name :: ·) (ih _)
    | none => exact ih _

theorem map_fst_namedPlaces (start : NodeId) (bs : List (String × Block)) :
    (namedPlaces start bs).map Prod.fst = bs.map Prod.fst := by
  induction bs generalizing start with
  | nil => rfl
  | cons e rest ih => rw [namedPlaces, List.map_cons, List.map_cons, ih]

/-- The names of the children of a container: those of its elements that have one, and those of
the containers that only their names lead to. -/
def childNames (content : List Block) (named : List (String × Block)) : List String :=
  content.filterMap validName? ++ named.map Prod.fst

/-- If no name occurs twice, it leads to the child that has it. -/
theorem get?_named {content : List Block} {named : List (String × Block)}
    (h : (childNames content named).Nodup) {self : NodeId} {name : String} {child : NodeId}
    (hmem : (name, child) ∈ validNames (self + 1) content ++
      namedPlaces (self + 1 + sizeOfList content) named) :
    (SortedMap.ofList (validNames (self + 1) content ++
      namedPlaces (self + 1 + sizeOfList content) named)).get? name = some child := by
  have hdistinct : (validNames (self + 1) content ++
      namedPlaces (self + 1 + sizeOfList content) named).Pairwise fun a b => a.1 ≠ b.1 := by
    rw [← List.pairwise_map (f := Prod.fst) (R := (· ≠ ·)), List.map_append, map_fst_validNames,
      map_fst_namedPlaces]
    exact h
  exact Entries.get?_of_mem (Entries.pairwise_ofList _) ((Entries.perm_ofList hdistinct).mem_iff.mpr hmem)

/-! ## All containers of a block -/

mutual

/-- `P` holds of the content and the named containers of every container in the block. -/
def Everywhere (P : List Block → List (String × Block) → Prop) : Block → Prop
  | .leaf _ => True
  | .container _ _ content named =>
    P content named ∧ EverywhereList P content ∧ EverywhereNamed P named

/-- `P` holds of every container in the blocks. -/
def EverywhereList (P : List Block → List (String × Block) → Prop) : List Block → Prop
  | [] => True
  | b :: rest => b.Everywhere P ∧ EverywhereList P rest

/-- `P` holds of every container in the named blocks. -/
def EverywhereNamed (P : List Block → List (String × Block) → Prop) :
    List (String × Block) → Prop
  | [] => True
  | (_, b) :: rest => b.Everywhere P ∧ EverywhereNamed P rest

end

variable {P Q : List Block → List (String × Block) → Prop}

mutual

theorem Everywhere.mono (h : ∀ content named, P content named → Q content named) :
    ∀ {b : Block}, b.Everywhere P → b.Everywhere Q
  | .leaf _, _ => by rw [Everywhere]; trivial
  | .container _ _ content named, hb => by
    rw [Everywhere] at hb ⊢
    exact ⟨h content named hb.1, Everywhere.list_mono h hb.2.1, Everywhere.named_mono h hb.2.2⟩

theorem Everywhere.list_mono (h : ∀ content named, P content named → Q content named) :
    ∀ {bs : List Block}, EverywhereList P bs → EverywhereList Q bs
  | [], _ => by rw [EverywhereList]; trivial
  | _ :: _, hbs => by
    rw [EverywhereList] at hbs ⊢
    exact ⟨Everywhere.mono h hbs.1, Everywhere.list_mono h hbs.2⟩

theorem Everywhere.named_mono (h : ∀ content named, P content named → Q content named) :
    ∀ {bs : List (String × Block)}, EverywhereNamed P bs → EverywhereNamed Q bs
  | [], _ => by rw [EverywhereNamed]; trivial
  | _ :: _, hbs => by
    rw [EverywhereNamed] at hbs ⊢
    exact ⟨Everywhere.mono h hbs.1, Everywhere.named_mono h hbs.2⟩

end

section

variable [∀ content named, Decidable (P content named)]

mutual

/-- What can be decided of one container can be decided of all of them. -/
def decideEverywhere : ∀ b : Block, Decidable (b.Everywhere P)
  | .leaf _ => .isTrue trivial
  | .container _ _ content named =>
    have := decideEverywhereList content
    have := decideEverywhereNamed named
    inferInstanceAs (Decidable (P content named ∧ EverywhereList P content ∧ EverywhereNamed P named))

/-- What can be decided of one container can be decided of those in blocks. -/
def decideEverywhereList : ∀ bs : List Block, Decidable (EverywhereList P bs)
  | [] => .isTrue trivial
  | b :: rest =>
    have := decideEverywhere b
    have := decideEverywhereList rest
    inferInstanceAs (Decidable (b.Everywhere P ∧ EverywhereList P rest))

/-- What can be decided of one container can be decided of those in named blocks. -/
def decideEverywhereNamed : ∀ bs : List (String × Block), Decidable (EverywhereNamed P bs)
  | [] => .isTrue trivial
  | (_, b) :: rest =>
    have := decideEverywhere b
    have := decideEverywhereNamed rest
    inferInstanceAs (Decidable (b.Everywhere P ∧ EverywhereNamed P rest))

end

instance (b : Block) : Decidable (b.Everywhere P) :=
  decideEverywhere b

end

theorem Everywhere.of_content {bs : List Block} (h : EverywhereList P bs) {i : Nat} {b : Block}
    (hb : bs[i]? = some b) : b.Everywhere P := by
  induction bs generalizing i with
  | nil => cases hb
  | cons first rest ih =>
    rw [EverywhereList] at h
    cases i with
    | zero =>
      cases hb
      exact h.1
    | succ i => exact ih h.2 hb

theorem Everywhere.of_named {bs : List (String × Block)} (h : EverywhereNamed P bs) {i : Nat}
    {name : String} {b : Block} (hb : bs[i]? = some (name, b)) : b.Everywhere P := by
  induction bs generalizing i with
  | nil => cases hb
  | cons first rest ih =>
    obtain ⟨firstName, first⟩ := first
    rw [EverywhereNamed] at h
    cases i with
    | zero =>
      cases hb
      exact h.1
    | succ i => exact ih h.2 hb

end Block

namespace ContentTree

open Block

/-- The block stands at a place of the tree, with its parent and its path. -/
inductive Stands (t : ContentTree) : Option NodeId → Path → NodeId → Block → Prop
  | root : Stands t none .root rootId t.root
  | content {parent : Option NodeId} {path : Path} {id : Nat} {name : Option String}
      {flags : CountFlags} {content : List Block} {named : List (String × Block)} {i : Nat}
      {b : Block} (h : Stands t parent path id (.container name flags content named))
      (hb : content[i]? = some b) :
      Stands t (some id) (path.push (b.stepTo i)) (id + 1 + sizeOfList (content.take i)) b
  | named {parent : Option NodeId} {path : Path} {id : Nat} {name : Option String}
      {flags : CountFlags} {content : List Block} {named : List (String × Block)} {i : Nat}
      {key : String} {b : Block} (h : Stands t parent path id (.container name flags content named))
      (hb : named[i]? = some (key, b)) :
      Stands t (some id) (path.push (.name key))
        (id + 1 + sizeOfList content + sizeOfNamed (named.take i)) b

variable {t : ContentTree} {parent : Option NodeId} {path : Path} {id : Nat} {b : Block}

namespace Stands

/-- A block is laid out where it stands. -/
theorem nodesAt_prefix (h : t.Stands parent path id b) :
    nodesAt parent path id b <+: t.nodes.toList.drop id := by
  induction h with
  | root =>
    rw [t.nodes_eq, rootId, List.drop_zero]
    exact List.prefix_rfl
  | @content _ path id _ _ content named i b _ hb ih =>
    have hself := ih.drop 1
    rw [nodesAt, List.drop_succ_cons, List.drop_zero, List.drop_drop] at hself
    have hinner := nodesAt_prefix_contentNodes id path hb 0 (id + 1)
    rw [Nat.zero_add] at hinner
    have hcontent := ((List.prefix_append _ _).trans hself).drop (sizeOfList (content.take i))
    rw [List.drop_drop] at hcontent
    exact hinner.trans hcontent
  | @named _ path id _ _ content named i key b _ hb ih =>
    have hself := ih.drop 1
    rw [nodesAt, List.drop_succ_cons, List.drop_zero, List.drop_drop] at hself
    have hinner := nodesAt_prefix_namedNodes id path hb (id + 1 + sizeOfList content)
    have hnamed := hself.drop (sizeOfList content)
    rw [← length_contentNodes id path 0 (id + 1) content, List.drop_left, List.drop_drop,
      length_contentNodes] at hnamed
    have hbehind := hnamed.drop (sizeOfNamed (named.take i))
    rw [List.drop_drop] at hbehind
    exact hinner.trans hbehind

/-- The node where a block stands. -/
theorem node?_eq (h : t.Stands parent path id b) :
    t.node? id = some ⟨parent, path, b.kindAt id⟩ := by
  obtain ⟨inner, hinner⟩ := nodesAt_eq_cons parent path id b
  obtain ⟨behind, hbehind⟩ := h.nodesAt_prefix
  have hhead : (t.nodes.toList.drop id)[0]? = some ⟨parent, path, b.kindAt id⟩ := by
    rw [← hbehind, hinner]
    rfl
  rw [List.getElem?_drop, Nat.add_zero, Array.getElem?_toList] at hhead
  exact hhead

theorem add_size_le (h : t.Stands parent path id b) : id + b.size ≤ t.size := by
  have hle := h.nodesAt_prefix.length_le
  have hpos := b.size_pos
  rw [length_nodesAt, List.length_drop, Array.length_toList] at hle
  rw [ContentTree.size]
  omega

theorem lt_size (h : t.Stands parent path id b) : id < t.size := by
  have hle := h.add_size_le
  have hpos := b.size_pos
  omega

theorem parent?_eq (h : t.Stands parent path id b) : t.parent? id = parent := by
  rw [parent?, h.node?_eq]
  rfl

theorem path_eq (h : t.Stands parent path id b) : t.path id = path := by
  rw [ContentTree.path, h.node?_eq]

/-- A parent stands in front of its children. -/
theorem parent_lt {self : Nat} (h : t.Stands (some self) path id b) : self < id := by
  cases h with
  | content => omega
  | named => omega

/-- What holds of all containers of the tree holds of those in a block of it. -/
theorem everywhere {P : List Block → List (String × Block) → Prop} (hP : t.root.Everywhere P)
    (h : t.Stands parent path id b) : b.Everywhere P := by
  induction h with
  | root => exact hP
  | content _ hb ih =>
    rw [Everywhere] at ih
    exact .of_content ih.2.1 hb
  | named _ hb ih =>
    rw [Everywhere] at ih
    exact .of_named ih.2.2 hb

variable {name : Option String} {flags : CountFlags} {content : List Block}
  {named : List (String × Block)}

theorem of_everywhere {P : List Block → List (String × Block) → Prop} (hP : t.root.Everywhere P)
    (h : t.Stands parent path id (.container name flags content named)) : P content named := by
  have hall := h.everywhere hP
  rw [Everywhere] at hall
  exact hall.1

theorem container?_eq (h : t.Stands parent path id (.container name flags content named)) :
    t.container? id = some
      { name, flags
        content := places (id + 1) content
        named := .ofList (validNames (id + 1) content ++
          namedPlaces (id + 1 + sizeOfList content) named) } := by
  rw [container?, h.node?_eq]
  rfl

theorem isContainer (h : t.Stands parent path id (.container name flags content named)) :
    t.isContainer id = true := by
  rw [ContentTree.isContainer, h.container?_eq]
  rfl

theorem content_eq (h : t.Stands parent path id (.container name flags content named)) :
    t.content id = places (id + 1) content := by
  rw [ContentTree.content, h.container?_eq]

end Stands

/-! ## A block at every place -/

mutual

theorem exists_stands_of_block : ∀ (b : Block) {parent : Option NodeId} {path : Path} {self : Nat},
    t.Stands parent path self b → ∀ id : Nat, self ≤ id → id < self + b.size →
      ∃ parent path b, t.Stands parent path id b
  | .leaf i, parent, path, self, h, id, hself, hid => by
    rw [Block.size] at hid
    obtain rfl : id = self := by omega
    exact ⟨parent, path, _, h⟩
  | .container name flags content named, parent, path, self, h, id, hself, hid => by
    rw [Block.size] at hid
    rcases Nat.lt_trichotomy id self with hlt | rfl | hlt
    · omega
    · exact ⟨parent, path, _, h⟩
    · by_cases hbehind : id < self + 1 + sizeOfList content
      · exact exists_stands_of_content content [] h id (by rw [sizeOfList]; omega)
          (by rw [sizeOfList]; omega)
      · exact exists_stands_of_named named [] h id (by rw [sizeOfNamed]; omega)
          (by rw [sizeOfNamed]; omega)

theorem exists_stands_of_content : ∀ (bs front : List Block) {parent : Option NodeId} {path : Path}
    {self : Nat} {name : Option String} {flags : CountFlags} {named : List (String × Block)},
    t.Stands parent path self (.container name flags (front ++ bs) named) →
    ∀ id : Nat, self + 1 + sizeOfList front ≤ id → id < self + 1 + sizeOfList front + sizeOfList bs →
      ∃ parent path b, t.Stands parent path id b
  | [], front, _, _, _, _, _, _, _, id, hself, hid => by
    rw [sizeOfList] at hid
    omega
  | b :: rest, front, _, _, self, _, _, _, h, id, hself, hid => by
    rw [sizeOfList] at hid
    by_cases hb : id < self + 1 + sizeOfList front + b.size
    · have hstands := h.content (i := front.length) (b := b) (by simp)
      rw [List.take_left'  rfl] at hstands
      exact exists_stands_of_block b hstands id hself hb
    · have hfront := sizeOfList_concat front b
      refine exists_stands_of_content rest (front ++ [b]) (by simpa using h) id ?_ ?_
      · omega
      · omega

theorem exists_stands_of_named : ∀ (bs front : List (String × Block)) {parent : Option NodeId}
    {path : Path} {self : Nat} {name : Option String} {flags : CountFlags}
    {content : List Block},
    t.Stands parent path self (.container name flags content (front ++ bs)) →
    ∀ id : Nat, self + 1 + sizeOfList content + sizeOfNamed front ≤ id →
      id < self + 1 + sizeOfList content + sizeOfNamed front + sizeOfNamed bs →
      ∃ parent path b, t.Stands parent path id b
  | [], front, _, _, _, _, _, _, _, id, hself, hid => by
    rw [sizeOfNamed] at hid
    omega
  | (key, b) :: rest, front, _, _, self, _, _, content, h, id, hself, hid => by
    rw [sizeOfNamed] at hid
    by_cases hb : id < self + 1 + sizeOfList content + sizeOfNamed front + b.size
    · have hget : (front ++ (key, b) :: rest)[front.length]? = some (key, b) := by simp
      have hstands := h.named hget
      rw [List.take_left' rfl] at hstands
      exact exists_stands_of_block b hstands id hself hb
    · have hfront := sizeOfNamed_concat front key b
      refine exists_stands_of_named rest (front ++ [(key, b)]) (by simpa using h) id ?_ ?_
      · omega
      · omega

end

/-- At every place stands a block. -/
theorem exists_stands (h : id < t.size) : ∃ parent path b, t.Stands parent path id b := by
  refine exists_stands_of_block t.root .root id (Nat.zero_le id) ?_
  rw [ContentTree.size, t.nodes_eq, List.size_toArray, Block.nodes, length_nodesAt] at h
  rwa [rootId, Nat.zero_add]

/-! ## Containers and their children -/

/-- A container is the node of a block with content. -/
theorem exists_stands_of_container {c : Container} (h : t.container? id = some c) :
    ∃ parent path name flags content named,
      t.Stands parent path id (.container name flags content named) := by
  have hid : id < t.size := by
    by_contra hle
    rw [container?, node?, Array.getElem?_eq_none (Nat.le_of_not_lt hle)] at h
    cases h
  obtain ⟨parent, path, b, hstands⟩ := exists_stands hid
  cases b with
  | leaf i =>
    rw [container?, hstands.node?_eq] at h
    cases h
  | container name flags content named => exact ⟨parent, path, name, flags, content, named, hstands⟩

/-- An element of a container stands behind it, and has it as its parent. -/
theorem child_of_mem_content {child : Nat} (h : child ∈ t.content id) :
    id < child ∧ child < t.size ∧ t.parent? child = some id := by
  cases hc : t.container? id with
  | none =>
    rw [content, hc] at h
    cases h
  | some c =>
    obtain ⟨parent, path, name, flags, content, named, hstands⟩ := exists_stands_of_container hc
    rw [hstands.content_eq] at h
    obtain ⟨i, hi⟩ := List.mem_iff_getElem?.mp h
    rw [getElem?_places] at hi
    obtain ⟨b, hb, rfl⟩ := Option.map_eq_some_iff.mp hi
    have hchild := hstands.content hb
    exact ⟨hchild.parent_lt, hchild.lt_size, hchild.parent?_eq⟩

/-- A node other than the root has a container as its parent. -/
theorem exists_parent (hid : id < t.size) (hroot : id ≠ rootId) :
    ∃ parent, t.parent? id = some parent ∧ t.isContainer parent = true := by
  obtain ⟨_, _, _, h⟩ := exists_stands hid
  have hparent := h.parent?_eq
  cases h with
  | root => exact absurd rfl hroot
  | content h => exact ⟨_, hparent, h.isContainer⟩
  | named h => exact ⟨_, hparent, h.isContainer⟩

theorem isContainer_of_leaf? {i : Instruction} (h : t.leaf? id = some i) :
    t.isContainer id = false := by
  unfold leaf? at h
  split at h
  · next hnode =>
    rw [isContainer, container?, hnode]
    rfl
  · cases h

theorem lt_size_of_leaf? {i : Instruction} (h : t.leaf? id = some i) : id < t.size := by
  by_contra hsize
  have hnone : t.node? id = none := Array.getElem?_eq_none (Nat.not_lt.mp hsize)
  rw [leaf?, hnone] at h
  cases h

end ContentTree

end StoryMachine
