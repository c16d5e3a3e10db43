import StoryMachine.Proofs.Content.Addresses

/-!
# The order of content

The content of a container is read depth first: a container comes in front of its elements, and
an element with everything in it in front of the next one. A container that a name alone leads to
stands outside this order, and is read in an order of its own.

* `ContentTree.inOrder` : a node with everything in its content, depth first;
* `ContentTree.mem_inOrder_iff` : this is what the content of containers leads to;
* `ContentTree.inOrder_sorted` : nodes stand in the array in this order, each of them once;
* `ContentTree.outermost` : the root, or the container reached by name only, that a node is read
  in.
-/

namespace StoryMachine

namespace Block

/-- A block is laid out in front of the blocks behind it. -/
theorem sizeOfList_take_le {bs : List Block} {i j : Nat} {b : Block} (hb : bs[i]? = some b)
    (hij : i < j) : sizeOfList (bs.take i) + b.size ≤ sizeOfList (bs.take j) := by
  induction bs generalizing i j with
  | nil => cases hb
  | cons first rest ih =>
    obtain ⟨j, rfl⟩ := Nat.exists_eq_add_one_of_ne_zero (Nat.ne_zero_of_lt hij)
    rw [List.take_succ_cons, sizeOfList]
    cases i with
    | zero =>
      cases hb
      rw [List.take_zero, sizeOfList]
      omega
    | succ i =>
      have hrest := ih hb (Nat.lt_of_succ_lt_succ hij)
      rw [List.take_succ_cons, sizeOfList]
      omega

end Block

namespace ContentTree

open Block

variable {t : ContentTree} {top id child : Nat}

/-! ## Depth first -/

/-- A node with everything in its content, depth first. -/
def inOrder (t : ContentTree) (id : NodeId) : List NodeId :=
  id :: (t.content id).attach.flatMap fun child => inOrder t child.1
termination_by t.size - id
decreasing_by
  have hchild := child_of_mem_content child.2
  omega

theorem inOrder_eq (t : ContentTree) (id : NodeId) :
    t.inOrder id = id :: (t.content id).flatMap t.inOrder := by
  rw [inOrder, List.flatMap_subtype fun _ _ => rfl, List.unattach_attach]

/-- A node that the content of containers leads to from another. -/
inductive InContent (t : ContentTree) (top : NodeId) : NodeId → Prop
  | self : InContent t top top
  | child {id child : NodeId} (h : InContent t top id) (hchild : child ∈ t.content id) :
      InContent t top child

theorem InContent.trans {inner : Nat} (h : t.InContent top id) (hinner : t.InContent id inner) :
    t.InContent top inner := by
  induction hinner with
  | self => exact h
  | child _ hchild ih => exact ih.child hchild

/-- What is in a container stands behind it. -/
theorem InContent.le (h : t.InContent top id) : top ≤ id := by
  induction h with
  | self => exact Nat.le_refl _
  | child _ hchild ih => exact ih.trans (child_of_mem_content hchild).1.le

theorem InContent.of_mem_inOrder {top id : Nat} (h : id ∈ t.inOrder top) : t.InContent top id := by
  rw [inOrder_eq, List.mem_cons, List.mem_flatMap] at h
  rcases h with rfl | ⟨child, hchild, hinner⟩
  · exact .self
  · have hlt := child_of_mem_content hchild
    exact (InContent.self.child hchild).trans (of_mem_inOrder hinner)
termination_by t.size - top

theorem mem_inOrder_self (t : ContentTree) (id : NodeId) : id ∈ t.inOrder id := by
  rw [inOrder_eq]
  exact List.mem_cons_self

/-- The content of a container that is read is read with it. -/
theorem inOrder_subset {top id : Nat} (h : id ∈ t.inOrder top) : t.inOrder id ⊆ t.inOrder top := by
  rw [inOrder_eq t top, List.mem_cons, List.mem_flatMap] at h
  rcases h with rfl | ⟨child, hchild, hinner⟩
  · exact List.Subset.refl _
  · have hlt := child_of_mem_content hchild
    intro node hnode
    rw [inOrder_eq t top, List.mem_cons, List.mem_flatMap]
    exact .inr ⟨child, hchild, inOrder_subset hinner hnode⟩
termination_by t.size - top

theorem mem_inOrder_of_mem_content (h : child ∈ t.content id) : child ∈ t.inOrder id := by
  rw [inOrder_eq]
  exact .tail _ (List.mem_flatMap.mpr ⟨child, h, t.mem_inOrder_self child⟩)

/-- Read are the nodes that the content of containers leads to. -/
theorem mem_inOrder_iff : id ∈ t.inOrder top ↔ t.InContent top id := by
  refine ⟨.of_mem_inOrder, fun h => ?_⟩
  induction h with
  | self => exact t.mem_inOrder_self top
  | child _ hchild ih => exact inOrder_subset ih (mem_inOrder_of_mem_content hchild)

/-! ## As laid out -/

/-- What is in a block stands where the block is laid out. -/
theorem Stands.lt_of_inContent {parent : Option NodeId} {path : Path} {b : Block}
    (h : t.Stands parent path top b) (hid : t.InContent top id) : id < top + b.size := by
  suffices hinner : ∃ parent path inner, t.Stands parent path id inner ∧
      id + inner.size ≤ top + b.size by
    obtain ⟨_, _, inner, -, hle⟩ := hinner
    have hpos := inner.size_pos
    omega
  induction hid with
  | self => exact ⟨parent, path, b, h, Nat.le_refl _⟩
  | @child id child _ hchild ih =>
    obtain ⟨parent, path, outer, houter, hle⟩ := ih
    cases outer with
    | leaf i =>
      rw [ContentTree.content, container?, houter.node?_eq] at hchild
      cases hchild
    | container name flags content named =>
      rw [houter.content_eq] at hchild
      obtain ⟨i, hi⟩ := List.mem_iff_getElem?.mp hchild
      rw [getElem?_places] at hi
      obtain ⟨inner, hinner, rfl⟩ := Option.map_eq_some_iff.mp hi
      refine ⟨_, _, inner, houter.content hinner, ?_⟩
      have htake := sizeOfList_take_le hinner (List.getElem?_eq_some_iff.mp hinner).1
      rw [List.take_length] at htake
      rw [Block.size] at hle
      omega

/-- An element with everything in it stands in front of the elements behind it. -/
theorem content_pairwise (t : ContentTree) (id : NodeId) :
    (t.content id).Pairwise fun child next => ∀ inner, t.InContent child inner → inner < next := by
  cases hc : t.container? id with
  | none =>
    rw [content, hc]
    exact .nil
  | some c =>
    obtain ⟨parent, path, name, flags, content, named, hstands⟩ := exists_stands_of_container hc
    rw [hstands.content_eq]
    refine List.pairwise_iff_getElem.mpr fun i j hi hj hij inner hinner => ?_
    have hplace : ∀ {k : Nat} (hk : k < (places (id + 1) content).length), ∃ b,
        content[k]? = some b ∧ (places (id + 1) content)[k] = id + 1 + sizeOfList (content.take k) := by
      intro k hk
      have hget := List.getElem?_eq_getElem hk
      rw [getElem?_places] at hget
      obtain ⟨b, hb, hplace⟩ := Option.map_eq_some_iff.mp hget
      exact ⟨b, hb, hplace.symm⟩
    obtain ⟨b, hb, hbplace⟩ := hplace hi
    obtain ⟨_, _, hnext⟩ := hplace hj
    rw [hbplace] at hinner
    rw [hnext]
    have htake := sizeOfList_take_le hb hij
    exact ((hstands.content hb).lt_of_inContent hinner).trans_le (by omega)

theorem nodup_content (t : ContentTree) (id : NodeId) : (t.content id).Nodup :=
  (t.content_pairwise id).imp fun h => (h _ .self).ne

/-- Nodes stand in the array in the order in which they are read. -/
theorem inOrder_sorted (t : ContentTree) (id : NodeId) : (t.inOrder id).Pairwise (· < ·) := by
  rw [inOrder_eq, List.pairwise_cons, List.pairwise_flatMap]
  refine ⟨fun inner hinner => ?_, fun child hchild => ?_, ?_⟩
  · obtain ⟨child, hchild, hinner⟩ := List.mem_flatMap.mp hinner
    exact (child_of_mem_content hchild).1.trans_le (mem_inOrder_iff.mp hinner).le
  · have hlt := child_of_mem_content hchild
    exact inOrder_sorted t child
  · refine (t.content_pairwise id).imp fun h inner hinner next hnext => ?_
    exact (h inner (mem_inOrder_iff.mp hinner)).trans_le (mem_inOrder_iff.mp hnext).le
termination_by t.size - id

/-! ## The outermost container -/

/-- The node that no content leads to and from which the content of containers leads to a node. -/
def outermost (t : ContentTree) (id : NodeId) : NodeId :=
  match t.parent? id with
  | none => id
  | some parent =>
    if parent < id then
      if id ∈ t.content parent then outermost t parent else id
    else id
termination_by id

theorem outermost_of_mem_content (h : child ∈ t.content id) : t.outermost child = t.outermost id := by
  obtain ⟨hlt, -, hparent⟩ := child_of_mem_content h
  rw [outermost, hparent]
  dsimp only
  rw [if_pos hlt, if_pos h]

theorem inContent_outermost (t : ContentTree) (id : NodeId) : t.InContent (t.outermost id) id := by
  fun_induction outermost t id with
  | case2 id parent _ _ h ih => exact ih.child h
  | _ => exact .self

/-- The outermost container is the root, or a name alone leads to it. -/
theorem outermost_spec (t : ContentTree) {id : NodeId} (h : id < t.size) :
    t.outermost id = rootId ∨
      ∃ parent, t.parent? (t.outermost id) = some parent ∧ t.outermost id ∉ t.content parent := by
  fun_induction outermost t id with
  | case1 id hparent =>
    by_cases hroot : id = rootId
    · exact .inl hroot
    · obtain ⟨parent, hsome, -⟩ := exists_parent h hroot
      rw [hparent] at hsome
      cases hsome
  | case2 id parent _ hlt _ ih => exact ih (hlt.trans h)
  | case3 id parent hparent _ hout => exact .inr ⟨parent, hparent, hout⟩
  | case4 id parent hparent hle =>
    obtain ⟨_, _, _, hstands⟩ := exists_stands h
    obtain rfl := hstands.parent?_eq.symm.trans hparent
    exact absurd hstands.parent_lt hle

theorem outermost_rootId (t : ContentTree) : t.outermost rootId = rootId :=
  Nat.le_zero.mp (t.inContent_outermost rootId).le

end ContentTree

end StoryMachine
