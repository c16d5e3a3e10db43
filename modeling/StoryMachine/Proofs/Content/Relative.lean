import StoryMachine.Proofs.Content.Addresses

/-!
# Relative paths

What a relative path means at a node can be told in two ways. The lookup walks: parent steps climb
from the node, and the steps behind them lead down from where the climb ends. The calculation puts
the path behind that of the node, where each parent step in front takes back a step, and the sum is
followed from the root. In a tree whose children are told apart by their names the two ways give the
same node, and they stop at the same node where steps lead nowhere.

The calculation takes back no more steps than the path of the node has. A path that climbs on past
the root is therefore looked up in vain, where its sum starts over from the root.

* `ContentTree.follow_append` : steps behind those to a container are followed from there;
* `Path.append_of_down`, `Path.push_append_parent` : what is put behind a path;
* `ContentTree.Stands.follow_eq_find` : steps from a container, followed from the root;
* `ContentTree.relative_paths_agree` : both ways of looking up a relative path.
-/

namespace StoryMachine

namespace Path

variable {p : Path} {s : Step} {steps : List Step} {relative : Bool}

/-- Behind a path comes all of one that does not start with a parent step. -/
theorem append_of_down (h : steps.takeWhile Step.isParent = []) :
    p.append ⟨steps, relative⟩ = ⟨p.steps ++ steps, false⟩ := by
  simp [append, h]

theorem length_push : (p.push s).length = p.length + 1 := by
  rw [push, length, List.length_append, List.length_singleton]
  rfl

/-- A parent step takes back the last step in front of it. -/
theorem push_append_parent :
    (p.push s).append ⟨.parent :: steps, relative⟩ = p.append ⟨steps, relative⟩ := by
  have hparent : Step.isParent .parent = true := rfl
  simp [append, push, List.takeWhile_cons_of_pos hparent]

end Path

namespace ContentTree

variable {t : ContentTree} {parent : Option NodeId} {path p : Path} {id a : NodeId} {b : Block}
  {front steps : List Step}

/-- Steps that lead to a container start at one. -/
theorem Leads.isContainer_start (h : t.Leads id front a) (ha : t.isContainer a = true) :
    t.isContainer id = true := by
  cases h with
  | here => exact ha
  | step h => exact isContainer_of_child? h

/-- Steps behind those that lead to a container are followed from there. -/
theorem follow_append (h : t.Leads id front a) (ha : t.isContainer a = true) (steps : List Step) :
    t.follow false id (front ++ steps) = t.follow false a steps := by
  induction h with
  | here => rfl
  | @step id next last s rest hstep hrest ih =>
    have hnext : t.isContainer next = true := hrest.isContainer_start ha
    rw [List.cons_append, follow, hstep]
    simp only [hnext, Bool.not_true, Bool.and_false, Bool.false_eq_true, if_false]
    exact ih ha

theorem child?_parent (h : t.isContainer id = true) : t.child? id .parent = t.parent? id := by
  obtain ⟨c, hc⟩ := Option.isSome_iff_exists.mp h
  rw [child?, hc]
  rfl

/-- A block whose path has steps stands in a container, and its own step is the last of them. -/
theorem Stands.exists_around (h : t.Stands parent path id b) (hpath : 0 < path.length) :
    ∃ self above front outer s, t.Stands above front self outer ∧ t.isContainer self = true ∧
      parent = some self ∧ path = front.push s := by
  cases h with
  | root => exact absurd hpath (Nat.lt_irrefl 0)
  | content h => exact ⟨_, _, _, _, _, h, h.isContainer, rfl, rfl⟩
  | named h => exact ⟨_, _, _, _, _, h, h.isContainer, rfl, rfl⟩

/-- Steps down from a container are followed from the root behind the path of the container. -/
theorem Stands.follow_down (hnames : t.root.Distinct) (h : t.Stands parent path id b)
    (hcontainer : t.isContainer id = true) (hdown : steps.takeWhile Step.isParent = [])
    (relative : Bool) : t.follow false id steps = t.find (path.append ⟨steps, relative⟩) := by
  rw [Path.append_of_down hdown]
  exact (follow_append (h.leads_of_distinct hnames) hcontainer steps).symm

/-- Steps from a container that do not climb past the root are followed from the root behind what
they leave of the path of the container. -/
theorem Stands.follow_eq_find (hnames : t.root.Distinct) (h : t.Stands parent path id b)
    (hcontainer : t.isContainer id = true) (relative : Bool)
    (hdepth : (steps.takeWhile Step.isParent).length ≤ path.length) :
    t.follow false id steps = t.find (path.append ⟨steps, relative⟩) := by
  -- each parent step leads to the container around, whose path is shorter by the step taken back
  induction steps generalizing parent path id b with
  | nil => exact h.follow_down hnames hcontainer rfl relative
  | cons s rest ih =>
    by_cases hs : s.isParent = true
    · obtain rfl : s = .parent := by simpa [Step.isParent] using hs
      rw [List.takeWhile_cons_of_pos hs, List.length_cons] at hdepth
      obtain ⟨self, above, front, outer, last, habove, hself, rfl, rfl⟩ :=
        h.exists_around (Nat.zero_lt_of_lt hdepth)
      rw [Path.length_push] at hdepth
      have hclimb : t.follow false id (.parent :: rest) = t.follow false self rest := by
        rw [follow, child?_parent hcontainer, h.parent?_eq]
        simp [hself]
      rw [hclimb, Path.push_append_parent]
      exact ih habove hself (Nat.le_of_succ_le_succ hdepth)
    · exact h.follow_down hnames hcontainer (List.takeWhile_cons_of_neg hs) relative

/-- **A relative path leads where the sum of paths does.** In a tree where the names of siblings are
distinct, and none is that of the parent, the lookup of a relative path at a node gives what the
path of the node with the relative path behind it gives when it is looked up from the root: the same
node, exactly or not. The parent steps in front of the path must not climb past the root, and at a
node that is no container there has to be one. -/
theorem relative_paths_agree (hnames : t.root.Distinct) (hid : id < t.size)
    (hrelative : p.relative = true)
    (hdepth : (p.steps.takeWhile Step.isParent).length ≤ (t.path id).length)
    (hleaf : t.isContainer id = false → p.steps.head? = some .parent) :
    t.resolve id p = t.find ((t.path id).append p) := by
  obtain ⟨parent, path, b, h⟩ := exists_stands hid
  obtain ⟨steps, relative⟩ := p
  obtain rfl : relative = true := hrelative
  rw [h.path_eq] at hdepth ⊢
  cases hcontainer : t.isContainer id with
  | true =>
    rw [resolve, hcontainer]
    exact h.follow_eq_find hnames hcontainer true hdepth
  | false =>
    obtain ⟨rest, rfl⟩ := List.head?_eq_some_iff.mp (hleaf hcontainer)
    have hparent : Step.isParent .parent = true := rfl
    rw [List.takeWhile_cons_of_pos hparent, List.length_cons] at hdepth
    obtain ⟨self, above, front, outer, s, habove, hself, rfl, rfl⟩ :=
      h.exists_around (Nat.zero_lt_of_lt hdepth)
    rw [Path.length_push] at hdepth
    rw [Path.push_append_parent, resolve, hcontainer, h.parent?_eq]
    exact habove.follow_eq_find hnames hself true (Nat.le_of_succ_le_succ hdepth)

/-- From the leaf in the container without a name the path climbs to the root, goes down to the
container that has a name, up again and down to the one that only its name leads to, and stops
there. -/
theorem crossing_relative_path : crossing.root.Distinct ∧ 2 < crossing.size ∧
    crossing.isContainer 2 = false ∧
    crossing.resolve 2 (Path.parse ".^.^.g.^.k.7") = ⟨5, true⟩ ∧
    crossing.find ((crossing.path 2).append (Path.parse ".^.^.g.^.k.7")) = ⟨5, true⟩ := by
  have hinner : ([] : List String).Nodup ∧ "^" ∉ ([] : List String) := ⟨.nil, by decide⟩
  have hnames : crossing.root.Distinct :=
    ⟨⟨by decide, by decide⟩,
      ⟨⟨hinner, ⟨trivial, trivial⟩, trivial⟩, ⟨hinner, ⟨trivial, trivial⟩, trivial⟩, trivial⟩,
      ⟨hinner, ⟨trivial, trivial⟩, trivial⟩, trivial⟩
  have hfound : crossing.resolve 2 (Path.parse ".^.^.g.^.k.7") = ⟨5, true⟩ := by decide +kernel
  have hagree : crossing.resolve 2 (Path.parse ".^.^.g.^.k.7") =
      crossing.find ((crossing.path 2).append (Path.parse ".^.^.g.^.k.7")) :=
    relative_paths_agree hnames (by decide) (by decide) (by decide +kernel)
      fun _ => by decide +kernel
  exact ⟨hnames, by decide, by decide, hfound, hagree.symm.trans hfound⟩

end ContentTree

end StoryMachine
