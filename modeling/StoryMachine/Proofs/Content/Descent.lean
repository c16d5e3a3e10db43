import Mathlib.Data.List.Chain
import Mathlib.Order.WellFounded
import StoryMachine.Proofs.Content.Order
import StoryMachine.Proofs.Story.Destinations

/-!
# Parents and children

A container leads to its children in two ways: to its elements by their places, and to further
containers by their names alone. Its table of names leads to both, but an element that shares its
name with a later one, or with a container reached by name only, is left to its place. So the table
cannot say which children there are. What is left of it without the elements can
(`Block.namedOnly_eq`): in a tree that was read these are the containers reached by name only, in
the order in which they are laid out.

With this, a descent from the root to all children, depth first, meets the nodes in the order of the
array, each of them once (`ContentTree.Stands.descent_eq`). Parents stand in front of their
children, so a climb ends, and it ends at the root.

* `ContentTree.descent` : a node with everything below it, depth first;
* `Container.ListsOnce` : what it is for a container to have a child in one place;
* `ContentTree.ancestry_spec` : the climb from a node;
* `Content.nodes_form_tree` : the tree of a story that was read.
-/

namespace StoryMachine

/-- The container has the node as an element, once and by name only not at all, or it is no element
and is reached by one name only. -/
def Container.ListsOnce (k : Container) (id : NodeId) : Prop :=
  (k.content.count id = 1 ∧ id ∉ k.namedOnly.map Prod.snd) ∨
    (id ∉ k.content ∧ (k.namedOnly.map Prod.snd).count id = 1)

namespace Block

variable {content : List Block} {named : List (String × Block)} {start id : Nat} {name : String}

/-- The table of names of a container laid out in front of `start`. -/
def nameTable (start : NodeId) (content : List Block) (named : List (String × Block)) :
    Table NodeId :=
  .ofList (validNames start content ++ namedPlaces (start + sizeOfList content) named)

theorem lt_of_mem_places (h : id ∈ places start content) : id < start + sizeOfList content := by
  obtain ⟨i, hi⟩ := List.mem_iff_getElem?.mp h
  rw [getElem?_places] at hi
  obtain ⟨b, hb, rfl⟩ := Option.map_eq_some_iff.mp hi
  have htake := sizeOfList_take_le hb (List.getElem?_eq_some_iff.mp hb).1
  rw [List.take_length] at htake
  have hpos := b.size_pos
  omega

theorem mem_places_of_mem_validNames (h : (name, id) ∈ validNames start content) :
    id ∈ places start content := by
  obtain ⟨i, b, hb, -, rfl⟩ := exists_of_mem_validNames h
  refine List.mem_of_getElem? (i := i) ?_
  rw [getElem?_places, hb]
  rfl

theorem le_of_mem_namedPlaces (h : (name, id) ∈ namedPlaces start named) : start ≤ id := by
  obtain ⟨i, b, -, rfl⟩ := exists_of_mem_namedPlaces h
  exact Nat.le_add_right _ _

/-- Containers reached by name only stand one behind the other. -/
theorem pairwise_namedPlaces (start : Nat) (named : List (String × Block)) :
    ((namedPlaces start named).map Prod.snd).Pairwise (· < ·) := by
  induction named generalizing start with
  | nil => exact .nil
  | cons e rest ih =>
    obtain ⟨name, b⟩ := e
    refine List.pairwise_cons.mpr ⟨fun id hid => ?_, ih _⟩
    obtain ⟨⟨n, place⟩, hmem, rfl⟩ := List.mem_map.mp hid
    have hle : start + b.size ≤ place := le_of_mem_namedPlaces hmem
    have hpos := b.size_pos
    exact (Nat.lt_add_of_pos_right hpos).trans_le hle

/-- With names in order, the table of names less the elements is what names alone lead to. -/
theorem namedOnly_eq (h : named.Pairwise KeyLt) :
    ((nameTable start content named).entries.filter fun e => !(places start content).contains e.2) =
      namedPlaces (start + sizeOfList content) named := by
  have hsorted : (namedPlaces (start + sizeOfList content) named).Pairwise KeyLt := by
    refine (List.pairwise_map (f := Prod.fst) (R := fun a b => compare a b = .lt)).mp ?_
    rw [map_fst_namedPlaces]
    exact List.pairwise_map.mpr h
  have hfilter := (nameTable start content named).sorted.filter
    fun e => !(places start content).contains e.2
  refine Entries.eq_of_perm hfilter hsorted ((List.perm_ext_iff_of_nodup
    (Entries.nodup_of_pairwise hfilter)
    (Entries.nodup_of_pairwise hsorted)).mpr fun ⟨name, id⟩ => ?_)
  rw [List.mem_filter]
  constructor
  · rintro ⟨hmem, hout⟩
    rcases List.mem_append.mp (Entries.mem_of_mem_ofList hmem) with hvalid | hnamed
    · simp [mem_places_of_mem_validNames hvalid] at hout
    · exact hnamed
  · intro hnamed
    refine ⟨?_, ?_⟩
    · refine Entries.mem_of_get? ?_
      show Entries.get? name (Entries.ofList _) = some id
      rw [Entries.get?_ofList_append, Entries.ofList_of_pairwise hsorted,
        Entries.get?_of_mem hsorted hnamed]
      rfl
    · have hout : id ∉ places start content := fun hin =>
        absurd (lt_of_mem_places hin) (Nat.not_lt.mpr (le_of_mem_namedPlaces hnamed))
      simpa using hout

end Block

namespace ContentTree

open Block

variable {t : ContentTree} {id child : Nat} {k : Container} {name : String}

/-! ## The table of names -/

/-- A name leads to a container behind, which has it and is a child. -/
theorem child_of_mem_named (hk : t.container? id = some k) (h : (name, child) ∈ k.named.entries) :
    id < child ∧ child < t.size ∧ t.parent? child = some id := by
  obtain ⟨parent, path, n, flags, content, named, hstands⟩ := exists_stands_of_container hk
  obtain rfl := Option.some_inj.mp (hk.symm.trans hstands.container?_eq)
  rcases List.mem_append.mp (Entries.mem_of_mem_ofList h) with hvalid | hnamed
  · obtain ⟨i, b, hb, -, rfl⟩ := exists_of_mem_validNames hvalid
    have hchild := hstands.content hb
    exact ⟨hchild.parent_lt, hchild.lt_size, hchild.parent?_eq⟩
  · obtain ⟨i, b, hb, rfl⟩ := exists_of_mem_namedPlaces hnamed
    have hchild := hstands.named hb
    exact ⟨hchild.parent_lt, hchild.lt_size, hchild.parent?_eq⟩

/-! ## Children -/

/-- The elements of a node, and behind them the containers that names alone lead to. -/
def children (t : ContentTree) (id : NodeId) : List NodeId :=
  match t.container? id with
  | some k => k.content ++ k.namedOnly.map Prod.snd
  | none => []

theorem child_of_mem_children (h : child ∈ t.children id) :
    id < child ∧ child < t.size ∧ t.parent? child = some id := by
  unfold children at h
  split at h
  · next k hk =>
    rcases List.mem_append.mp h with hcontent | hnamed
    · exact child_of_mem_content (by rwa [content, hk])
    · obtain ⟨⟨name, _⟩, hmem, rfl⟩ := List.mem_map.mp hnamed
      exact child_of_mem_named hk (List.mem_of_mem_filter hmem)
  · cases h

/-- A node with everything below it, depth first. -/
def descent (t : ContentTree) (id : NodeId) : List NodeId :=
  id :: (t.children id).attach.flatMap fun child => descent t child.1
termination_by t.size - id
decreasing_by
  have hchild := child_of_mem_children child.2
  omega

theorem descent_eq (t : ContentTree) (id : NodeId) :
    t.descent id = id :: (t.children id).flatMap t.descent := by
  rw [descent, List.flatMap_subtype fun _ _ => rfl, List.unattach_attach]

namespace Stands

variable {parent : Option NodeId} {path : Path} {n : Option String} {flags : CountFlags}
  {content : List Block} {named : List (String × Block)}

/-- The children of a container in the order in which they are laid out. -/
theorem children_eq (h : t.Stands parent path id (.container n flags content named))
    (hnamed : named.Pairwise KeyLt) : t.children id = places (id + 1) content ++
      (namedPlaces (id + 1 + sizeOfList content) named).map Prod.snd := by
  rw [children, h.container?_eq]
  exact congrArg _ (congrArg _ (namedOnly_eq hnamed))

end Stands

/-! ## Depth first -/

variable {P : Instruction → Prop}

mutual

/-- Below a block are the nodes that it is laid out in. -/
theorem descent_of_block (hformed : t.root.Formed P) : ∀ (b : Block) {parent : Option NodeId}
    {path : Path} {self : Nat}, t.Stands parent path self b →
    t.descent self = List.range' self b.size
  | .leaf i, parent, path, self, h => by
    have hnone : t.children self = [] := by
      rw [children, container?, h.node?_eq]
      rfl
    rw [descent_eq, hnone, Block.size]
    rfl
  | .container name flags content named, parent, path, self, h => by
    have hcontent := descent_of_content hformed content (self + 1)
      fun i b hb => ⟨_, _, h.content hb⟩
    have hnamed := descent_of_named hformed named (self + 1 + sizeOfList content)
      fun i key b hb => ⟨_, _, h.named hb⟩
    rw [descent_eq, h.children_eq (h.formed hformed).2.2, List.flatMap_append, hcontent, hnamed,
      List.range'_append_1, Block.size, Nat.add_assoc, Nat.add_comm 1, List.range'_succ]

theorem descent_of_content (hformed : t.root.Formed P) : ∀ (bs : List Block) (start : Nat),
    (∀ (i : Nat) b, bs[i]? = some b →
      ∃ parent path, t.Stands parent path (start + sizeOfList (bs.take i)) b) →
    (places start bs).flatMap t.descent = List.range' start (sizeOfList bs)
  | [], _, _ => rfl
  | b :: rest, start, h => by
    obtain ⟨parent, path, hb⟩ := h 0 b rfl
    rw [List.take_zero, sizeOfList, Nat.add_zero] at hb
    have hrest := descent_of_content hformed rest (start + b.size) fun i c hc => by
      have hstands := h (i + 1) c hc
      rwa [List.take_succ_cons, sizeOfList, ← Nat.add_assoc] at hstands
    rw [places, List.flatMap_cons, hrest, descent_of_block hformed b hb, sizeOfList,
      List.range'_append_1]

theorem descent_of_named (hformed : t.root.Formed P) : ∀ (bs : List (String × Block)) (start : Nat),
    (∀ (i : Nat) key b, bs[i]? = some (key, b) →
      ∃ parent path, t.Stands parent path (start + sizeOfNamed (bs.take i)) b) →
    ((namedPlaces start bs).map Prod.snd).flatMap t.descent = List.range' start (sizeOfNamed bs)
  | [], _, _ => rfl
  | (key, b) :: rest, start, h => by
    obtain ⟨parent, path, hb⟩ := h 0 key b rfl
    rw [List.take_zero, sizeOfNamed, Nat.add_zero] at hb
    have hrest := descent_of_named hformed rest (start + b.size) fun i k c hc => by
      have hstands := h (i + 1) k c hc
      rwa [List.take_succ_cons, sizeOfNamed, ← Nat.add_assoc] at hstands
    rw [namedPlaces, List.map_cons, List.flatMap_cons, hrest, sizeOfNamed,
      ← List.range'_append_1, ← descent_of_block hformed b hb]

end

/-- **A descent from the root meets the nodes in the order of the array, each of them once.** -/
theorem descent_rootId (hformed : t.root.Formed P) : t.descent rootId = List.range t.size := by
  have hsize : t.size = t.root.size := by
    rw [ContentTree.size, t.nodes_eq, List.size_toArray, Block.nodes, length_nodesAt]
  rw [descent_of_block hformed t.root .root, hsize, List.range_eq_range']
  rfl

/-! ## Parents -/

/-- A node below the root is in one place of the container around it, and of no other. -/
theorem exists_parent_listsOnce (hformed : t.root.Formed P) (hid : id < t.size)
    (hroot : id ≠ rootId) : ∃ parent k, t.parent? id = some parent ∧ parent < id ∧
      t.container? parent = some k ∧ k.ListsOnce id := by
  obtain ⟨_, _, _, h⟩ := exists_stands hid
  cases h with
  | root => exact absurd rfl hroot
  | @content parent path self name flags content named i b h hb =>
    have hchild := h.content hb
    refine ⟨self, _, hchild.parent?_eq, hchild.parent_lt, h.container?_eq, .inl ⟨?_, ?_⟩⟩
    · have hmem : self + 1 + sizeOfList (content.take i) ∈ places (self + 1) content :=
        List.mem_of_getElem? (i := i) (by rw [getElem?_places, hb]; rfl)
      have hnodup := t.nodup_content self
      rw [h.content_eq] at hnodup
      exact List.count_eq_one_of_mem hnodup hmem
    · have hlt : self + 1 + sizeOfList (content.take i) < self + 1 + sizeOfList content :=
        lt_of_mem_places (List.mem_of_getElem? (i := i) (by rw [getElem?_places, hb]; rfl))
      intro hmem
      rw [Container.namedOnly, ← nameTable, namedOnly_eq (h.formed hformed).2.2] at hmem
      obtain ⟨⟨key, place⟩, hkey, rfl⟩ := List.mem_map.mp hmem
      exact absurd hlt (Nat.not_lt.mpr (le_of_mem_namedPlaces hkey))
  | @named parent path self name flags content named i key b h hb =>
    have hchild := h.named hb
    have hmem := mem_namedPlaces hb (self + 1 + sizeOfList content)
    refine ⟨self, _, hchild.parent?_eq, hchild.parent_lt, h.container?_eq, .inr ⟨fun hin => ?_, ?_⟩⟩
    · exact absurd (lt_of_mem_places hin) (Nat.not_lt.mpr (le_of_mem_namedPlaces hmem))
    · rw [Container.namedOnly, ← nameTable, namedOnly_eq (h.formed hformed).2.2]
      exact List.count_eq_one_of_mem ((pairwise_namedPlaces _ _).imp Nat.ne_of_lt)
        (List.mem_map.mpr ⟨_, hmem, rfl⟩)

/-- A name leads to a container that has it. -/
theorem container_of_mem_named (hformed : t.root.Formed P) (hk : t.container? id = some k)
    (h : (name, child) ∈ k.named.entries) :
    ∃ k', t.container? child = some k' ∧ k'.name = some name := by
  obtain ⟨parent, path, n, flags, content, named, hstands⟩ := exists_stands_of_container hk
  obtain rfl := Option.some_inj.mp (hk.symm.trans hstands.container?_eq)
  rcases List.mem_append.mp (Entries.mem_of_mem_ofList h) with hvalid | hnamed
  · obtain ⟨i, b, hb, hname, rfl⟩ := exists_of_mem_validNames hvalid
    cases b with
    | leaf => cases hname
    | container n _ _ _ =>
      refine ⟨_, (hstands.content hb).container?_eq, ?_⟩
      cases n with
      | none => cases hname
      | some n =>
        rw [validName?] at hname
        split at hname
        · cases hname
        · exact hname
  · obtain ⟨i, b, hb, rfl⟩ := exists_of_mem_namedPlaces hnamed
    have hname := (FormedNamed.of_getElem? (hstands.formed hformed).2.1 hb).1
    cases b with
    | leaf => exact hname.elim
    | container => exact ⟨_, (hstands.named hb).container?_eq, hname⟩

/-- A container that leads to a node, by place or by name, is its parent. -/
theorem parent?_of_leads {other : Nat} (hk : t.container? other = some k)
    (h : id ∈ k.content ∨ ∃ name, k.named.get? name = some id) : t.parent? id = some other := by
  rcases h with hcontent | ⟨name, hname⟩
  · exact (child_of_mem_content (by rwa [content, hk])).2.2
  · exact (child_of_mem_named hk (SortedMap.mem_entries_iff.mpr hname)).2.2

/-! ## Climbing -/

theorem lt_size_of_parent? {parent : Nat} (h : t.parent? id = some parent) : id < t.size := by
  by_contra hsize
  have hnone : t.node? id = none := Array.getElem?_eq_none (Nat.not_lt.mp hsize)
  rw [parent?, hnone] at h
  cases h

theorem lt_of_parent? {parent : Nat} (h : t.parent? id = some parent) : parent < id := by
  obtain ⟨_, _, _, hstands⟩ := exists_stands (lt_size_of_parent? h)
  obtain rfl := hstands.parent?_eq.symm.trans h
  exact hstands.parent_lt

/-- The climb from a node goes from each node to its parent, up to the root. -/
theorem ancestry_spec (hid : id < t.size) :
    (t.ancestry id).IsChain (fun child parent => t.parent? child = some parent) ∧
      (t.ancestry id).head? = some id ∧ (t.ancestry id).getLast? = some rootId ∧
      (t.ancestry id).length ≤ id + 1 := by
  fun_induction ancestry t id with
  | case1 id parent hparent hlt ih =>
    obtain ⟨hchain, hhead, hlast, hlength⟩ := ih (hlt.trans hid)
    refine ⟨?_, rfl, ?_, ?_⟩
    · refine hchain.cons fun next hnext => ?_
      obtain rfl : parent = next := by simpa [hhead] using hnext
      exact hparent
    · rw [List.getLast?_cons, hlast]
      rfl
    · exact Nat.succ_le_succ (hlength.trans hlt)
  | case2 id parent hparent hle => exact absurd (lt_of_parent? hparent) hle
  | case3 id hparent =>
    have hroot : id = rootId := by
      by_contra hne
      obtain ⟨parent, hsome, -⟩ := exists_parent hid hne
      rw [hparent] at hsome
      cases hsome
    exact ⟨.singleton _, rfl, congrArg some hroot, Nat.le_add_left 1 id⟩

/-- A climb ends. -/
theorem wellFounded_climb (t : ContentTree) :
    WellFounded fun next id : NodeId => t.parent? id = some next :=
  Subrelation.wf (fun h => lt_of_parent? h) Nat.lt_wfRel.wf

/-- A descent ends, whichever children it goes to. -/
theorem wellFounded_descent (t : ContentTree) :
    WellFounded fun next id : NodeId => next ∈ t.children id :=
  Subrelation.wf (r := InvImage (· < ·) fun id : Nat => t.size - id)
    (fun h => by
      have hchild := child_of_mem_children h
      show t.size - _ < t.size - _
      omega) (InvImage.wf _ Nat.lt_wfRel.wf)

end ContentTree

namespace Content

open ContentTree

/-- **The nodes of a story that was read form a tree.** The root stands in front and has no parent.
Every other node has one container around it, in front of it, which has it in one place: as an
element, or under one name that leads to no element. No other container leads to it. A name leads
to a child, a container that has this name. So a climb goes from parent to parent up to the root, a
descent from the root meets every node once, and no way of climbing or descending is endless. -/
theorem nodes_form_tree {key : Nat} {j : Json} {c : Content} (hj : j.Canonical)
    (h : ofJson key j = .ok c) :
    (c.tree.isContainer rootId = true ∧ c.tree.parent? rootId = none) ∧
    (∀ id < c.tree.size, id ≠ rootId → ∃ parent k, c.tree.parent? id = some parent ∧ parent < id ∧
      c.tree.container? parent = some k ∧ k.ListsOnce id ∧
      ∀ other k', c.tree.container? other = some k' →
        (id ∈ k'.content ∨ ∃ name, k'.named.get? name = some id) → other = parent) ∧
    (∀ id k name child, c.tree.container? id = some k → k.named.get? name = some child →
      c.tree.parent? child = some id ∧
        ∃ k', c.tree.container? child = some k' ∧ k'.name = some name) ∧
    (∀ id < c.tree.size,
      (c.tree.ancestry id).IsChain (fun child parent => c.tree.parent? child = some parent) ∧
        (c.tree.ancestry id).head? = some id ∧ (c.tree.ancestry id).getLast? = some rootId ∧
        (c.tree.ancestry id).length ≤ id + 1) ∧
    c.tree.descent rootId = List.range c.tree.size ∧
    (WellFounded fun next id : NodeId => c.tree.parent? id = some next) ∧
    WellFounded fun next id : NodeId => next ∈ c.tree.children id := by
  obtain ⟨⟨root, hfield, htree⟩, -⟩ := parts_of_ofJson h
  have hformed := Block.formed_of_ofJson (Json.canonical_of_field? hj hfield)
    (root_of_ofJson htree).1
  refine ⟨⟨isContainer_rootId_of_ofJson h, Stands.root.parent?_eq⟩, fun id hid hroot => ?_,
    fun id k name child hk hchild => ?_, fun id hid => ancestry_spec hid, descent_rootId hformed,
    c.tree.wellFounded_climb, c.tree.wellFounded_descent⟩
  · obtain ⟨parent, k, hparent, hlt, hk, hlists⟩ := exists_parent_listsOnce hformed hid hroot
    refine ⟨parent, k, hparent, hlt, hk, hlists, fun other k' hk' hleads => ?_⟩
    exact Option.some_inj.mp ((parent?_of_leads hk' hleads).symm.trans hparent)
  · exact ⟨parent?_of_leads hk (.inr ⟨name, hchild⟩),
      container_of_mem_named hformed hk (SortedMap.mem_entries_iff.mpr hchild)⟩

/-- Two elements and a container reached by name only share the name *a*, and a second one is called
*b* in its place but *c* by itself. -/
def namesakesJson : Json :=
  .obj [("inkVersion", .int 21), ("root", .arr [
    .arr [.str "^one", .obj [("#n", .str "a")]], .arr [.obj [("#n", .str "a")]],
    .obj [("a", .arr [.null]), ("b", .arr [.str "^two", .obj [("#n", .str "c")]])]])]

/-- What is read from it. -/
def namesakes : Content :=
  ⟨0, 21, .ofBlock (.container none ⟨false, false, false⟩
    [.container (some "a") ⟨false, false, false⟩ [.leaf (.value (.text "one"))] [],
      .container (some "a") ⟨false, false, false⟩ [] []]
    [("a", .container (some "a") ⟨false, false, false⟩ [] []),
      ("b", .container (some "b") ⟨false, false, false⟩
        [.leaf (.value (.text "two"))] [])]), .empty⟩

/-- The name *a* leads to the container that is reached by it alone, and the elements of this name
to their places. -/
theorem namesakes_have_places : namesakesJson.Canonical ∧ ofJson 0 namesakesJson = .ok namesakes ∧
    namesakes.tree.descent rootId = [0, 1, 2, 3, 4, 5, 6] ∧
    ∃ k, namesakes.tree.container? rootId = some k ∧ k.content = [1, 3] ∧
      k.named.get? "a" = some 4 ∧ k.ListsOnce 1 ∧ k.ListsOnce 4 := by
  have hj : namesakesJson.Canonical := by decide +kernel
  have hread : ofJson 0 namesakesJson = .ok namesakes := rfl
  obtain ⟨-, hplaces, -, -, hdescent, -⟩ := nodes_form_tree hj hread
  have hsize : namesakes.tree.size = 7 := rfl
  have hroot : namesakes.tree.container? rootId =
      some ⟨none, ⟨false, false, false⟩, [1, 3], .ofList [("a", 4), ("b", 5)]⟩ := rfl
  have hlists : ∀ id : Nat, id < 7 → id ≠ rootId → namesakes.tree.parent? id = some rootId →
      Container.ListsOnce
        ⟨none, ⟨false, false, false⟩, [1, 3], .ofList [("a", 4), ("b", 5)]⟩ id := by
    intro id hid hne hparent
    obtain ⟨parent, k, hparent', -, hk, hone, -⟩ := hplaces id (hsize ▸ hid) hne
    obtain rfl := Option.some_inj.mp (hparent'.symm.trans hparent)
    rwa [Option.some_inj.mp (hk.symm.trans hroot)] at hone
  rw [hsize] at hdescent
  exact ⟨hj, hread, hdescent, _, hroot, rfl, rfl, hlists 1 (by decide) (by decide) rfl,
    hlists 4 (by decide) (by decide) rfl⟩

end Content

end StoryMachine
