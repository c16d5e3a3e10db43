import Mathlib.Algebra.Group.Int.Defs
import Mathlib.Algebra.Group.Nat.Defs
import StoryMachine.Proofs.Content.Lookups
import StoryMachine.Proofs.PathText

/-!
# Paths as addresses

In a tree whose names a path can tell, the path of a node leads back to it: no other node has
this path, and its text reads as it. The same holds of places of execution: the text of the path
of a cursor reads as a path that addresses the node at the cursor.

The steps to a node are told by the blocks around it. Each of them is the name of the block, or
its index where it has none, and at a container a name leads to the child that has it alone.

* `Step.Telling` : a name that a path can hold;
* `Block.WellNamed`, `Block.Distinct`, `Block.Indexed` : blocks that paths lead through;
* `ContentTree.Stands.leads`, `ContentTree.Stands.readable` : the path of a block;
* `ContentTree.cursorAt_path`, `ContentTree.cursorAt_path_leaf` : the path of a cursor, and that of a
  leaf;
* `ContentTree.paths_are_addresses` : nodes and cursors are known by the texts of their paths.
-/

namespace StoryMachine

/-- A name that a step can hold: it is not empty, has no point in it, is not that of the parent,
and does not read as an index. -/
structure Step.Telling (name : String) : Prop where
  nonempty : name ≠ ""
  no_point : '.' ∉ name.toList
  not_parent : name ≠ "^"
  not_index : Decimal.unsigned? Decimal.max64 name.toList = none

theorem Step.telling_iff {name : String} : Step.Telling name ↔ name ≠ "" ∧ '.' ∉ name.toList ∧
    name ≠ "^" ∧ Decimal.unsigned? Decimal.max64 name.toList = none :=
  ⟨fun h => ⟨h.nonempty, h.no_point, h.not_parent, h.not_index⟩,
    fun ⟨nonempty, no_point, not_parent, not_index⟩ =>
      ⟨nonempty, no_point, not_parent, not_index⟩⟩

instance (name : String) : Decidable (Step.Telling name) :=
  decidable_of_iff' _ Step.telling_iff

namespace Block

/-- In every container the names of the children are distinct, and a step can hold them. -/
def WellNamed (b : Block) : Prop :=
  b.Everywhere fun content named =>
    (childNames content named).Nodup ∧ ∀ name ∈ childNames content named, Step.Telling name

/-- In every container the names of the children are distinct, and none of them is that of the
parent. -/
def Distinct (b : Block) : Prop :=
  b.Everywhere fun content named =>
    (childNames content named).Nodup ∧ "^" ∉ childNames content named

theorem WellNamed.distinct {b : Block} (h : b.WellNamed) : b.Distinct :=
  Everywhere.mono (fun _ _ hnames => ⟨hnames.1, fun hmem => (hnames.2 "^" hmem).not_parent rfl⟩) h

/-- The index of every element of a container is a whole number of 32 bits, as the index of a
cursor is. -/
def Indexed (b : Block) : Prop :=
  b.Everywhere fun content _ => content.length ≤ 2 ^ 31

instance (b : Block) : Decidable b.WellNamed :=
  inferInstanceAs (Decidable (b.Everywhere _))

instance (b : Block) : Decidable b.Indexed :=
  inferInstanceAs (Decidable (b.Everywhere _))

theorem mem_childNames_of_content {content : List Block} {i : Nat} {b : Block} {name : String}
    (hb : content[i]? = some b) (hname : b.validName? = some name) (named : List (String × Block)) :
    name ∈ childNames content named :=
  List.mem_append_left _ (List.mem_filterMap.mpr ⟨b, List.mem_of_getElem? hb, hname⟩)

theorem mem_childNames_of_named {named : List (String × Block)} {i : Nat} {b : Block}
    {name : String} (hb : named[i]? = some (name, b)) (content : List Block) :
    name ∈ childNames content named :=
  List.mem_append_right _ (List.mem_map.mpr ⟨(name, b), List.mem_of_getElem? hb, rfl⟩)

end Block

namespace ContentTree

open Block

variable {t : ContentTree} {parent : Option NodeId} {path : Path} {id : NodeId} {b : Block}

/-! ## The path of a block -/

namespace Stands

variable {name : Option String} {flags : CountFlags} {content : List Block}
  {named : List (String × Block)} {i : Nat}

/-- The step to an element of a container leads to it. -/
theorem child?_content (h : t.Stands parent path id (.container name flags content named))
    (hnames : (childNames content named).Nodup) (hparent : "^" ∉ childNames content named)
    (hb : content[i]? = some b) :
    t.child? id (b.stepTo i) = some (id + 1 + sizeOfList (content.take i)) := by
  rw [stepTo]
  split
  · next n hn =>
    rw [child?_name h.container?_eq
      (ne_of_mem_of_not_mem (mem_childNames_of_content hb hn named) hparent)]
    exact get?_named hnames (List.mem_append_left _ (mem_validNames hb hn _))
  · rw [child?_index h.container?_eq, getElem?_places, hb]
    rfl

/-- The name of a container that only its name leads to leads to it. -/
theorem child?_named (h : t.Stands parent path id (.container name flags content named))
    (hnames : (childNames content named).Nodup) (hparent : "^" ∉ childNames content named)
    {key : String} (hb : named[i]? = some (key, b)) :
    t.child? id (.name key) = some (id + 1 + sizeOfList content + sizeOfNamed (named.take i)) := by
  rw [child?_name h.container?_eq
    (ne_of_mem_of_not_mem (mem_childNames_of_named hb content) hparent)]
  exact get?_named hnames (List.mem_append_right _ (mem_namedPlaces hb _))

/-- The path of a block leads to where it stands. -/
theorem leads_of_distinct (hnames : t.root.Distinct) (h : t.Stands parent path id b) :
    t.Leads rootId path.steps id := by
  induction h with
  | root => exact .here rootId
  | content h hb ih =>
    obtain ⟨hdistinct, hparent⟩ := h.of_everywhere hnames
    exact ih.concat (h.child?_content hdistinct hparent hb)
  | named h hb ih =>
    obtain ⟨hdistinct, hparent⟩ := h.of_everywhere hnames
    exact ih.concat (h.child?_named hdistinct hparent hb)

theorem leads (hnames : t.root.WellNamed) (h : t.Stands parent path id b) :
    t.Leads rootId path.steps id :=
  h.leads_of_distinct hnames.distinct

theorem relative (h : t.Stands parent path id b) : path.relative = false := by
  cases h with
  | root => rfl
  | content => rfl
  | named => rfl

/-- The steps to a block read as themselves, and none of them is empty. -/
theorem readable_steps (hnames : t.root.WellNamed) (hindexed : t.root.Indexed)
    (h : t.Stands parent path id b) : ∀ s ∈ path.steps, s.Readable ∧ s ≠ .name "" := by
  have hname : ∀ {n : String}, Step.Telling n → (Step.name n).Readable ∧ Step.name n ≠ .name "" :=
    fun hn => ⟨Step.readable_name hn.not_index hn.no_point, fun he => hn.nonempty (Step.name.inj he)⟩
  have hpush : ∀ {p : Path} {s : Step}, (∀ s ∈ p.steps, s.Readable ∧ s ≠ .name "") →
      s.Readable ∧ s ≠ .name "" → ∀ s' ∈ (p.push s).steps, s'.Readable ∧ s' ≠ .name "" := by
    intro p s hp hs s' hs'
    rcases List.mem_append.mp hs' with hs' | hs'
    · exact hp s' hs'
    · exact List.mem_singleton.mp hs' ▸ hs
  induction h with
  | root => exact fun s hs => by cases hs
  | @content _ _ _ _ _ content named i b h hb ih =>
    refine hpush ih ?_
    rw [stepTo]
    split
    · next n hn => exact hname ((h.of_everywhere hnames).2 n (mem_childNames_of_content hb hn named))
    · have hi : i < content.length := (List.getElem?_eq_some_iff.mp hb).1
      have hmost : content.length ≤ 2 ^ 31 := h.of_everywhere hindexed
      have hle : i ≤ Decimal.max64 := by
        rw [Decimal.max64]
        omega
      exact ⟨Step.readable_index hle, fun he => by cases he⟩
  | @named _ _ _ _ _ content _ _ key _ h hb ih =>
    exact hpush ih (hname ((h.of_everywhere hnames).2 key (mem_childNames_of_named hb content)))

end Stands

/-- Steps that read as themselves make an absolute path that does. -/
theorem parse_render_of_steps {steps : List Step} (h : ∀ s ∈ steps, s.Readable ∧ s ≠ .name "") :
    Path.parse (Path.render ⟨steps, false⟩) = ⟨steps, false⟩ :=
  Path.parse_render_absolute (fun s hs => (h s hs).1) fun hhead =>
    (h _ (List.mem_of_mem_head? hhead)).2 rfl

/-! ## Cursors -/

/-- Steps to a container and an index in it address this place. -/
theorem cursorAt_index {steps : List Step} (h : t.Leads rootId steps id)
    (hcontainer : t.isContainer id = true) (hroot : id = rootId → steps = []) (i : Nat) :
    t.cursorAt ⟨steps ++ [.index i], false⟩ = .ok (some ⟨id, wrap32 i⟩, none) := by
  have hback : ¬(id = rootId ∧ steps ≠ []) := fun hback => hback.2 (hroot hback.1)
  rw [cursorAt, Path.last?, List.getLast?_concat]
  dsimp only
  rw [List.dropLast_concat, follow_of_leads h, if_neg hback, Found.container?, if_pos hcontainer]
  rfl

/-- Steps to a container that end in a name address the container. -/
theorem cursorAt_name {steps : List Step} {name : String}
    (h : t.Leads rootId (steps ++ [.name name]) id) (hcontainer : t.isContainer id = true)
    (hroot : id ≠ rootId) :
    t.cursorAt ⟨steps ++ [.name name], false⟩ = .ok (some ⟨id, -1⟩, none) := by
  have hback : ¬(id = rootId ∧ steps ++ [.name name] ≠ []) := fun hback => hroot hback.1
  rw [cursorAt, Path.last?, List.getLast?_concat]
  dsimp only
  rw [follow_of_leads h, if_neg hback, Found.container?, if_pos hcontainer]
  rfl

theorem path_rootId : t.path rootId = .root :=
  Stands.root.path_eq

theorem wrap32_of_lt {n : Nat} (h : n < 2 ^ 31) : wrap32 n = n :=
  Int.bmod_eq_of_le (by omega) (by omega)

theorem node?_of_neg {c : Cursor} (hcontainer : t.isContainer c.container = true)
    (hindex : c.index < 0) : c.node? t = some c.container := by
  obtain ⟨k, hk⟩ := Option.isSome_iff_exists.mp hcontainer
  rw [Cursor.node?, hk]
  simp [hindex]

/-- The node at an element of a container. -/
theorem node?_of_getElem? {i child : Nat} (h : (t.content id)[i]? = some child) :
    Cursor.node? ⟨id, i⟩ t = some child := by
  cases hc : t.container? id with
  | none =>
    rw [content, hc] at h
    cases h
  | some k =>
    have hk : k.content[i]? = some child := by
      rw [content, hc] at h
      exact h
    have helement : ¬((i : Int) < 0 ∨ k.content.isEmpty = true) := by
      rintro (hneg | hempty)
      · omega
      · rw [List.isEmpty_iff.mp hempty] at hk
        cases hk
    rw [Cursor.node?]
    dsimp only
    rw [hc]
    dsimp only
    rw [if_neg (by simpa using helement)]
    exact hk

theorem lt_size_of_isContainer (h : t.isContainer id = true) : id < t.size := by
  obtain ⟨k, hk⟩ := Option.isSome_iff_exists.mp h
  obtain ⟨_, _, _, _, _, _, hstands⟩ := exists_stands_of_container hk
  exact hstands.lt_size

theorem Stands.steps_eq_nil (h : t.Stands parent path id b) (hroot : id = rootId) :
    path.steps = [] := by
  rw [← h.path_eq, hroot, path_rootId]
  rfl

/-- The text of the path of an element without a name addresses its index. -/
theorem Stands.cursorAt_unnamed {name : Option String} {flags : CountFlags} {content : List Block}
    {named : List (String × Block)} {i : Nat} (hnames : t.root.WellNamed) (hindexed : t.root.Indexed)
    (h : t.Stands parent path id (.container name flags content named)) (hb : content[i]? = some b)
    (hname : b.validName? = none) :
    t.cursorAt (Path.parse (path.push (b.stepTo i)).render) = .ok (some ⟨id, i⟩, none) := by
  have hstep : path.push (b.stepTo i) = ⟨path.steps ++ [.index i], false⟩ := by
    rw [stepTo, hname]
    rfl
  have hsteps := (Stands.content h hb).readable_steps hnames hindexed
  have hlt : i < 2 ^ 31 :=
    (List.getElem?_eq_some_iff.mp hb).1.trans_le (h.of_everywhere hindexed)
  rw [hstep] at hsteps ⊢
  rw [parse_render_of_steps hsteps, cursorAt_index (h.leads hnames) h.isContainer h.steps_eq_nil,
    wrap32_of_lt hlt]

/-- The text of the path of a container addresses the container, under its name or as an element
of its parent. -/
theorem cursorAt_path_container (hnames : t.root.WellNamed) (hindexed : t.root.Indexed)
    (hcontainer : t.isContainer id = true) (hroot : id ≠ rootId) :
    ∃ found, t.cursorAt (Path.parse (t.path id).render) = .ok (some found, none) ∧
      found.node? t = some id := by
  obtain ⟨parent, path, b, h⟩ := exists_stands (lt_size_of_isContainer hcontainer)
  have hleads := h.leads hnames
  have hsteps := h.readable_steps hnames hindexed
  have hnamed : ∀ (p : Path) (n : String), path = p.push (.name n) →
      ∃ found, t.cursorAt (Path.parse path.render) = .ok (some found, none) ∧
        found.node? t = some id := by
    rintro p n rfl
    refine ⟨⟨id, -1⟩, ?_, node?_of_neg hcontainer (show (-1 : Int) < 0 by decide)⟩
    exact (congrArg t.cursorAt (parse_render_of_steps hsteps)).trans
      (cursorAt_name hleads hcontainer hroot)
  rw [h.path_eq]
  cases h with
  | root => exact absurd rfl hroot
  | named => exact hnamed _ _ rfl
  | @content _ path self _ _ content named i b h hb =>
    cases hname : b.validName? with
    | some n => exact hnamed path n (by rw [stepTo, hname])
    | none =>
      refine ⟨⟨self, i⟩, h.cursorAt_unnamed hnames hindexed hb hname, node?_of_getElem? ?_⟩
      rw [h.content_eq, getElem?_places, hb]
      rfl

/-- The text of the path of an element that is no container addresses its place. -/
theorem cursorAt_path_leaf {leaf i : Nat} (hnames : t.root.WellNamed) (hindexed : t.root.Indexed)
    (h : (t.content id)[i]? = some leaf) (hleaf : t.isContainer leaf = false) :
    t.cursorAt (Path.parse (t.path leaf).render) = .ok (some ⟨id, i⟩, none) := by
  have hcontainer : t.isContainer id = true := by
    by_contra hnone
    rw [content, Option.not_isSome_iff_eq_none.mp hnone] at h
    cases h
  obtain ⟨k, hk⟩ := Option.isSome_iff_exists.mp hcontainer
  obtain ⟨parent, path, name, flags, content, named, hstands⟩ := exists_stands_of_container hk
  rw [hstands.content_eq, getElem?_places] at h
  obtain ⟨b, hb, rfl⟩ := Option.map_eq_some_iff.mp h
  have hchild := Stands.content hstands hb
  rw [hchild.path_eq]
  refine hstands.cursorAt_unnamed hnames hindexed hb ?_
  cases b with
  | leaf => rfl
  | container =>
    rw [hchild.isContainer] at hleaf
    cases hleaf

/-- The text of the path of a cursor addresses the node at the cursor. -/
theorem cursorAt_path (hnames : t.root.WellNamed) (hindexed : t.root.Indexed) {c : Cursor}
    (hcontainer : t.isContainer c.container = true) (hindex : c.index < 2 ^ 31)
    (hroot : c.index < 0 → c.container ≠ rootId) :
    ∃ found, t.cursorAt (Path.parse (c.path t).render) = .ok (some found, none) ∧
      found.node? t = c.node? t := by
  by_cases hneg : c.index < 0
  · rw [node?_of_neg hcontainer hneg, Cursor.path, if_pos hneg]
    exact cursorAt_path_container hnames hindexed hcontainer (hroot hneg)
  · obtain ⟨parent, path, b, h⟩ := exists_stands (lt_size_of_isContainer hcontainer)
    have hnat : (c.index.toNat : Int) = c.index := Int.toNat_of_nonneg (Int.not_lt.mp hneg)
    have hlt : c.index.toNat < 2 ^ 31 := by omega
    have hpath : c.path t = ⟨path.steps ++ [.index c.index.toNat], false⟩ := by
      rw [Cursor.path, if_neg hneg, h.path_eq]
      rfl
    have hsteps : ∀ s ∈ path.steps ++ [.index c.index.toNat], s.Readable ∧ s ≠ .name "" := by
      intro s hs
      rcases List.mem_append.mp hs with hs | hs
      · exact h.readable_steps hnames hindexed s hs
      · rw [List.mem_singleton.mp hs]
        exact ⟨Step.readable_index (by rw [Decimal.max64]; omega), fun he => by cases he⟩
    refine ⟨c, ?_, rfl⟩
    rw [hpath, parse_render_of_steps hsteps,
      cursorAt_index (h.leads hnames) hcontainer h.steps_eq_nil, wrap32_of_lt hlt, hnat]

/-! ## Nodes and cursors are known by their paths -/

theorem find_own_path {t : ContentTree} {id : NodeId} (hnames : t.root.WellNamed)
    (hid : id < t.size) : t.find (t.path id) = ⟨id, false⟩ := by
  obtain ⟨parent, path, b, h⟩ := exists_stands hid
  rw [h.path_eq]
  exact follow_of_leads (h.leads hnames)

theorem parse_render_path {t : ContentTree} {id : NodeId} (hnames : t.root.WellNamed)
    (hindexed : t.root.Indexed) (hid : id < t.size) :
    Path.parse (t.path id).render = t.path id := by
  obtain ⟨parent, path, b, h⟩ := exists_stands hid
  have hread := parse_render_of_steps (h.readable_steps hnames hindexed)
  rwa [← h.relative, ← h.path_eq] at hread

/-- In a tree whose names a path can tell, a node is found by its path, so that different nodes
have different paths. Where indices are whole numbers of 32 bits, paths read from their texts are
as good: the text of the path of a node reads as this path, and the text of the path of a cursor
addresses the node at the cursor, unless the cursor stands for the root as a whole. -/
theorem paths_are_addresses {t : ContentTree} (hnames : t.root.WellNamed) :
    (∀ id < t.size, t.find (t.path id) = ⟨id, false⟩) ∧
    (∀ a < t.size, ∀ b < t.size, t.path a = t.path b → a = b) ∧
    (t.root.Indexed →
      (∀ id < t.size, Path.parse (t.path id).render = t.path id) ∧
      ∀ c : Cursor, t.isContainer c.container = true → c.index < 2 ^ 31 →
        (c.index < 0 → c.container ≠ rootId) →
        ∃ found, t.cursorAt (Path.parse (c.path t).render) = .ok (some found, none) ∧
          found.node? t = c.node? t) := by
  refine ⟨fun id => find_own_path hnames, fun a ha b hb hpath => ?_, fun hindexed =>
    ⟨fun id => parse_render_path hnames hindexed, fun c => cursorAt_path hnames hindexed⟩⟩
  have hsame := find_own_path hnames hb
  rw [← hpath, find_own_path hnames ha] at hsame
  exact congrArg Found.node hsame

/-- A tree with a container of no name, one of a name among its content, and one that only its
name leads to. -/
def crossing : ContentTree :=
  .ofBlock (.container none ⟨false, false, false⟩
    [.container none ⟨false, false, false⟩ [.leaf .glue] [],
      .container (some "g") ⟨false, false, false⟩ [.leaf .void] []]
    [("k", .container (some "k") ⟨false, false, false⟩ [.leaf .glue] [])])

theorem crossing_is_addressed : crossing.root.WellNamed ∧ crossing.root.Indexed ∧
    (∀ id < crossing.size, crossing.find (crossing.path id) = ⟨id, false⟩ ∧
      Path.parse (crossing.path id).render = crossing.path id) ∧
    ∃ found, crossing.cursorAt (Path.parse (Cursor.path ⟨1, -1⟩ crossing).render) =
        .ok (some found, none) ∧
      found.node? crossing = Cursor.node? ⟨1, -1⟩ crossing := by
  have hnames : crossing.root.WellNamed := by decide +kernel
  have hindexed : crossing.root.Indexed := by decide +kernel
  obtain ⟨hfind, -, hread⟩ := paths_are_addresses hnames
  obtain ⟨hparse, hcursor⟩ := hread hindexed
  exact ⟨hnames, hindexed, fun id hid => ⟨hfind id hid, hparse id hid⟩,
    hcursor ⟨1, -1⟩ (by decide) (by decide) fun _ => by decide⟩

end ContentTree

end StoryMachine
