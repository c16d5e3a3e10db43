import StoryMachine.Proofs.Content.Lookups
import StoryMachine.Proofs.Content.NormalForm
import StoryMachine.Proofs.Story.Parts

/-!
# What the paths of instructions lead to

A divert, a choice point and a count name the place that they mean by a path. An absolute path
is followed from the root, a relative one from the container around the instruction, which a
parent step in front of it stands for as well. If all steps lead somewhere the path addresses a
node, and the instruction means this node, if it is a container. If they do not, it still means a
container: the last one that the steps lead to. Only an instruction that means no place fails.

* `ContentTree.Addresses`, `ContentTree.StopsAt` : the node that a path addresses, and the last
  container on its way;
* `ContentTree.Means`, `ContentTree.DivertMeans` : what an instruction means by a path;
* `ContentTree.targetContainer?_eq_iff`, `ContentTree.divertCursor?_eq_iff` : lookups give it;
* `Flow.takeDivert_eq`, `Flow.takeDivert_target`, `Flow.pushReadCount_eq`, `Flow.target_of_offerWith` : the instructions go
  there;
* `Content.instructions_mean_their_paths` : the instructions of a story that has been read.
-/

namespace StoryMachine

namespace ContentTree

variable {t : ContentTree} {source parent start node last : NodeId} {p : Path} {steps : List Step}

/-- The path of an instruction is followed from a node on by steps. -/
inductive Starts (t : ContentTree) (source : NodeId) : Path → NodeId → List Step → Prop
  | root (steps : List Step) : Starts t source ⟨steps, false⟩ rootId steps
  | above {parent : NodeId} (h : t.parent? source = some parent) (rest : List Step) :
    Starts t source ⟨.parent :: rest, true⟩ parent rest
  | beside {parent : NodeId} {steps : List Step} (h : t.parent? source = some parent)
    (hsteps : steps.head? ≠ some .parent) : Starts t source ⟨steps, true⟩ parent steps

/-- The path of an instruction addresses a node. -/
def Addresses (t : ContentTree) (source : NodeId) (p : Path) (node : NodeId) : Prop :=
  ∃ start steps, t.Starts source p start steps ∧ t.Leads start steps node

/-- The last container that the path of an instruction leads to. -/
def StopsAt (t : ContentTree) (source : NodeId) (p : Path) (last : NodeId) : Prop :=
  ∃ start steps, t.Starts source p start steps ∧ t.LastContainer start steps last

/-- The container that an instruction means by a path, if any: the one that the path addresses,
or where it addresses nothing the last one on its way. -/
inductive Means (t : ContentTree) (source : NodeId) (p : Path) : Option NodeId → Prop
  | container {node : NodeId} (h : t.Addresses source p node)
    (hcontainer : t.isContainer node = true) : Means t source p (some node)
  | leaf {node : NodeId} (h : t.Addresses source p node)
    (hleaf : t.isContainer node = false) : Means t source p none
  | stopped {last : NodeId} (h : ∀ node, ¬t.Addresses source p node)
    (hlast : t.StopsAt source p last) : Means t source p (some last)

/-- The place that a divert means by a path, if any: an element of the container in front of a
last step that is an index, or else the start of a container. -/
inductive DivertMeans (t : ContentTree) (source : NodeId) : Path → Option Cursor → Prop
  | element {steps : List Step} {relative : Bool} {k : Option NodeId}
    (h : t.Means source ⟨steps, relative⟩ k) (i : Nat) :
    DivertMeans t source ⟨steps ++ [.index i], relative⟩ (k.map fun k => ⟨k, wrap32 i⟩)
  | start {steps : List Step} {name : String} {relative : Bool} {k : Option NodeId}
    (h : t.Means source ⟨steps ++ [.name name], relative⟩ k) :
    DivertMeans t source ⟨steps ++ [.name name], relative⟩ (k.map Cursor.start)
  | empty (relative : Bool) : DivertMeans t source ⟨[], relative⟩ none

/-! ## Lookups -/

/-- A path has one start only. -/
theorem Starts.unique {start' : NodeId} {steps' : List Step} (h : t.Starts source p start steps)
    (h' : t.Starts source p start' steps') : start = start' ∧ steps = steps' := by
  cases h with
  | root =>
    cases h'
    exact ⟨rfl, rfl⟩
  | above hparent =>
    cases h' with
    | above hparent' => exact ⟨Option.some.inj (hparent.symm.trans hparent'), rfl⟩
    | beside _ hsteps => exact absurd rfl hsteps
  | beside hparent hsteps =>
    cases h' with
    | above => exact absurd rfl hsteps
    | beside hparent' => exact ⟨Option.some.inj (hparent.symm.trans hparent'), rfl⟩

theorem resolve_absolute (steps : List Step) :
    t.resolve source ⟨steps, false⟩ = t.follow false rootId steps :=
  rfl

/-- A relative path at a leaf is followed from the container around it. -/
theorem resolve_relative (hleaf : t.isContainer source = false)
    (hparent : t.parent? source = some parent) (steps : List Step) :
    t.resolve source ⟨steps, true⟩ = match steps with
      | s :: rest => t.follow false parent (if s.isParent then rest else s :: rest)
      | [] => ⟨parent, false⟩ := by
  rw [resolve, hleaf, hparent]
  rfl

/-- The path of a leaf is followed from where it starts, which is a container. -/
theorem exists_starts (hroot : t.isContainer rootId = true) {i : Instruction}
    (hsource : t.leaf? source = some i) (p : Path) :
    ∃ start steps, t.Starts source p start steps ∧ t.isContainer start = true ∧
      t.resolve source p = t.follow false start steps := by
  have hleaf := isContainer_of_leaf? hsource
  obtain ⟨steps, relative⟩ := p
  cases relative with
  | false => exact ⟨rootId, steps, .root steps, hroot, resolve_absolute steps⟩
  | true =>
    have hne : source ≠ rootId := by
      rintro rfl
      rw [hroot] at hleaf
      cases hleaf
    obtain ⟨parent, hparent, hcontainer⟩ := exists_parent (lt_size_of_leaf? hsource) hne
    have hresolve := resolve_relative hleaf hparent steps
    by_cases hhead : steps.head? = some .parent
    · obtain ⟨rest, rfl⟩ := List.head?_eq_some_iff.mp hhead
      exact ⟨parent, rest, .above hparent rest, hcontainer, hresolve⟩
    · refine ⟨parent, steps, .beside hparent hhead, hcontainer, hresolve.trans ?_⟩
      cases steps with
      | nil => rfl
      | cons s rest =>
        have hs : s.isParent = false := by simpa [Step.isParent] using hhead
        simp [hs]

/-- A path means one container at most. -/
theorem Means.unique {a b : Option NodeId} (ha : t.Means source p a) (hb : t.Means source p b) :
    a = b := by
  have hsame : ∀ {m n}, t.Addresses source p m → t.Addresses source p n → m = n := by
    rintro m n ⟨start, steps, hstart, hm⟩ ⟨start', steps', hstart', hn⟩
    obtain ⟨rfl, rfl⟩ := hstart.unique hstart'
    exact hm.unique hn
  cases ha with
  | container ha hcontainer =>
    cases hb with
    | container hb => exact congrArg some (hsame ha hb)
    | leaf hb hleaf =>
      rw [hsame ha hb, hleaf] at hcontainer
      cases hcontainer
    | stopped hb => exact absurd ha (hb _)
  | leaf ha hleaf =>
    cases hb with
    | container hb hcontainer =>
      rw [hsame ha hb, hcontainer] at hleaf
      cases hleaf
    | leaf => rfl
    | stopped hb => exact absurd ha (hb _)
  | stopped ha hlast =>
    cases hb with
    | container hb => exact absurd hb (ha _)
    | leaf hb => exact absurd hb (ha _)
    | stopped _ hlast' =>
      obtain ⟨start, steps, hstart, hm⟩ := hlast
      obtain ⟨start', steps', hstart', hn⟩ := hlast'
      obtain ⟨rfl, rfl⟩ := hstart.unique hstart'
      exact congrArg some (hm.unique hn)

/-- A lookup gives the container that an instruction means. -/
theorem means_targetContainer? (hroot : t.isContainer rootId = true) {i : Instruction}
    (hsource : t.leaf? source = some i) (p : Path) :
    t.Means source p (t.targetContainer? source p) := by
  obtain ⟨start, steps, hstart, hcontainer, hresolve⟩ := exists_starts hroot hsource p
  rw [targetContainer?, hresolve]
  by_cases haddressed : ∃ node, t.Leads start steps node
  · obtain ⟨node, hnode⟩ := haddressed
    have hnode' : t.Addresses source p node := ⟨start, steps, hstart, hnode⟩
    rw [follow_of_leads hnode, Found.container?]
    split
    · next h => exact .container hnode' h
    · next h => exact .leaf hnode' (Bool.eq_false_iff.mpr h)
  · rcases container?_follow hcontainer steps with ⟨leaf, hleads, -⟩ | ⟨last, hlast, hfound⟩
    · exact absurd ⟨leaf, hleads⟩ haddressed
    · rw [hfound]
      refine .stopped ?_ ⟨start, steps, hstart, hlast⟩
      rintro node ⟨start', steps', hstart', hleads⟩
      obtain ⟨rfl, rfl⟩ := hstart.unique hstart'
      exact haddressed ⟨node, hleads⟩

theorem targetContainer?_eq_iff (hroot : t.isContainer rootId = true) {i : Instruction}
    (hsource : t.leaf? source = some i) (p : Path) (k : Option NodeId) :
    t.targetContainer? source p = k ↔ t.Means source p k := by
  have hmeans := means_targetContainer? hroot hsource p
  exact ⟨fun h => h ▸ hmeans, hmeans.unique⟩

theorem divertCursor?_index (source : NodeId) (steps : List Step) (relative : Bool) (i : Nat) :
    t.divertCursor? source ⟨steps ++ [.index i], relative⟩ =
      (t.targetContainer? source ⟨steps, relative⟩).map fun k => ⟨k, wrap32 i⟩ := by
  rw [divertCursor?, Path.last?, List.getLast?_concat]
  dsimp only
  rw [Path.parent, List.dropLast_concat]
  rfl

theorem divertCursor?_name (source : NodeId) (steps : List Step) (relative : Bool) (name : String) :
    t.divertCursor? source ⟨steps ++ [.name name], relative⟩ =
      (t.targetContainer? source ⟨steps ++ [.name name], relative⟩).map Cursor.start := by
  rw [divertCursor?, Path.last?, List.getLast?_concat]
  rfl

/-- A lookup gives the place that a divert means. -/
theorem divertCursor?_eq_iff (hroot : t.isContainer rootId = true) {i : Instruction}
    (hsource : t.leaf? source = some i) (p : Path) (cursor : Option Cursor) :
    t.divertCursor? source p = cursor ↔ t.DivertMeans source p cursor := by
  have hmeans := means_targetContainer? hroot hsource
  constructor
  · rintro rfl
    obtain ⟨steps, relative⟩ := p
    rcases List.eq_nil_or_concat steps with rfl | ⟨front, s, rfl⟩
    · exact .empty relative
    · rw [List.concat_eq_append]
      cases s with
      | index i =>
        rw [divertCursor?_index]
        exact .element (hmeans _) i
      | name name =>
        rw [divertCursor?_name]
        exact .start (hmeans _)
  · intro h
    cases h with
    | element h i => rw [divertCursor?_index, (hmeans _).unique h]
    | start h => rw [divertCursor?_name, (hmeans _).unique h]
    | empty => rfl

end ContentTree

/-! ## Instructions -/

namespace Flow

variable {t : ContentTree} {source : NodeId} {p : Path} {s u : Story}

/-- A divert goes to the place that it means, and fails without one. -/
theorem takeDivert_eq {d : Divert} (hd : d.destination = .path p) (hkind : d.isExternal = false)
    (source : NodeId) (s : Story) :
    takeDivert source d s = match s.tree.divertCursor? source p with
      | none => .error (.address (.divert d.render)) s
      | some c => pushFrame d.kind { s with state := { s.state with diverted := some c } } := by
  obtain ⟨kind, destination, conditional⟩ := d
  cases hd
  cases kind with
  | external => cases hkind
  | _ =>
    show (tree >>= fun t => _) s = _
    rw [bind_ok (tree_ok s)]
    cases s.tree.divertCursor? source p <;> rfl

theorem divertTo_eq (p : Path) (s : Story) :
    divertTo p s = match s.tree.cursorAt p with
      | .error e => .error e s
      | .ok (place, warning) =>
        .ok () { s with state := { s.state.warnAll s.tree warning.toList with diverted := place } } := by
  unfold divertTo
  rw [bind_ok (tree_ok s)]
  cases s.tree.cursorAt p with
  | error => rfl
  | ok found =>
    obtain ⟨place, warning⟩ := found
    cases warning <;> rfl

/-- A divert goes to the target that is in its variable. -/
theorem takeDivert_target {d : Divert} {name : String} (hd : d.destination = .variable name)
    (hvalue : s.state.vars.read? s.content.lists s.state.callStack name = some (.target p)) :
    takeDivert source d s = match s.tree.cursorAt p with
      | .error e => .error e s
      | .ok (place, warning) => pushFrame d.kind
        { s with state := { s.state.warnAll s.tree warning.toList with diverted := place } } := by
  obtain ⟨kind, destination, conditional⟩ := d
  cases hd
  have hread : readVariable? name s = .ok (some (.target p)) s := by
    rw [← hvalue]
    rfl
  show (divertThrough name >>= fun _ => pushFrame kind) s = _
  unfold divertThrough
  rw [bind_assoc, bind_ok hread]
  show (divertTo p >>= fun _ => pushFrame kind) s = _
  have hdivert := divertTo_eq p s
  cases hplace : s.tree.cursorAt p with
  | error e =>
    rw [hplace] at hdivert
    exact bind_error hdivert
  | ok found =>
    rw [hplace] at hdivert
    exact bind_ok hdivert

/-- A count asks for the visits to the container that it means, and fails without one. -/
theorem pushReadCount_eq (source : NodeId) (p : Path) (s : Story) :
    pushReadCount source p s = match s.tree.targetContainer? source p with
      | none => .error (.address (.readCount p.render)) s
      | some k => (do pushInt (Int32.ofInt (← visitsOf k))) s := by
  unfold pushReadCount
  rw [bind_ok (tree_ok s)]
  cases s.tree.targetContainer? source p <;> rfl

/-- Take the operands of a choice point: whether its condition holds, and its texts. -/
def popOperands (c : ChoicePoint) :
    Flow (Bool × (String × List String) × (String × List String)) := do
  let holds ← popCondition c
  let only ← popTextIf c.hasChoiceOnlyText
  let start ← popTextIf c.hasStartText
  return (holds, only, start)

/-- What a choice point offers once its operands are taken. -/
def offerWith (id : NodeId) (c : ChoicePoint)
    (operands : Bool × (String × List String) × (String × List String)) : Flow (Option Offer) := do
  let t ← tree
  let target := t.targetContainer? id c.path
  let taken ← isTaken c target
  if !operands.1 || taken then return none
  match target with
  | none => throw (.address (.choiceTarget c.path.render))
  | some container =>
    return some {
      text := Text.trimBlanks (operands.2.2.1 ++ operands.2.1.1)
      index := 0
      tags := operands.2.2.2 ++ operands.2.1.2
      source := (t.path id).render
      target := t.path container
      isInvisible := c.isInvisible
      threadNumber := 0 }

theorem makeOffer_eq (id : NodeId) (c : ChoicePoint) :
    makeOffer id c = popOperands c >>= offerWith id c := by
  simp only [popOperands, bind_assoc, pure_bind]
  rfl

theorem within_popOperands {c : Content} {fx : Effects} (p : ChoicePoint) :
    Within c fx (popOperands p) :=
  within_bind (within_popCondition p) fun _ => within_bind (within_popTextIf _) fun _ =>
    within_bind (within_popTextIf _) fun _ => within_pure _

variable {c : ChoicePoint} {operands : Bool × (String × List String) × (String × List String)}

theorem content_of_popOperands (h : popOperands c s = .ok operands u) : u.content = s.content := by
  have hchanges : Changes s.content .silent s ((popOperands c).after s) :=
    within_popOperands c s rfl
  rw [after_of_ok h] at hchanges
  exact hchanges.content_eq

/-- A choice point offers the container that it means, which is not a taken one. -/
theorem target_of_offerWith {o : Offer} (h : offerWith source c operands s = .ok (some o) u) :
    ∃ k, s.tree.targetContainer? source c.path = some k ∧ o.target = s.tree.path k := by
  unfold offerWith at h
  rw [bind_ok (tree_ok s)] at h
  obtain ⟨taken, v, -, h⟩ := exists_of_bind_eq_ok h
  split at h
  · cases h
  · cases hk : s.tree.targetContainer? source c.path with
    | none =>
      rw [hk] at h
      cases h
    | some k =>
      rw [hk] at h
      cases h
      exact ⟨k, rfl, rfl⟩

theorem offerWith_of_none (h : s.tree.targetContainer? source c.path = none)
    (hholds : operands.1 = true) :
    offerWith source c operands s = .error (.address (.choiceTarget c.path.render)) s := by
  unfold offerWith
  rw [bind_ok (tree_ok s), h, bind_ok (show isTaken c none s = .ok false s from rfl), hholds]
  rfl

end Flow

/-! ## Stories -/

namespace Content

open StoryMachine.Flow

theorem isContainer_rootId_of_ofJson {key : Nat} {j : Json} {c : Content}
    (h : ofJson key j = .ok c) : c.tree.isContainer ContentTree.rootId = true := by
  obtain ⟨⟨root, -, htree⟩, -⟩ := parts_of_ofJson h
  obtain ⟨hblock, items, rfl⟩ := ContentTree.root_of_ofJson htree
  rw [Block.ofJson] at hblock
  obtain ⟨⟨name, flags⟩, -, hblock⟩ := Except.bind_eq_ok.mp hblock
  obtain ⟨content, -, hblock⟩ := Except.bind_eq_ok.mp hblock
  obtain ⟨named, -, hblock⟩ := Except.bind_eq_ok.mp hblock
  have hstands := ContentTree.Stands.root (t := c.tree)
  rw [← Except.ok.inj hblock] at hstands
  exact hstands.isContainer

/-- What the instructions of a story that has been read mean is what their paths address, as long
as all of their steps lead somewhere, and else the last container on the way. That is where they
go, and only where it is nothing do they fail. -/
theorem instructions_mean_their_paths {key : Nat} {j : Json} {c : Content}
    (h : ofJson key j = .ok c) {source : NodeId} {i : Instruction}
    (hsource : c.tree.leaf? source = some i) :
    (∀ p k, c.tree.targetContainer? source p = k ↔ c.tree.Means source p k) ∧
    (∀ p place, c.tree.divertCursor? source p = place ↔ c.tree.DivertMeans source p place) ∧
    ∀ s : Story, s.content = c →
      (∀ d p place, d.destination = .path p → d.isExternal = false →
        c.tree.DivertMeans source p place → takeDivert source d s = match place with
          | none => .error (.address (.divert d.render)) s
          | some k => pushFrame d.kind { s with state := { s.state with diverted := some k } }) ∧
      (∀ p k, c.tree.Means source p k → pushReadCount source p s = match k with
        | none => .error (.address (.readCount p.render)) s
        | some k => (do pushInt (Int32.ofInt (← visitsOf k))) s) ∧
      ∀ cp : ChoicePoint,
        (∀ o u, makeOffer source cp s = .ok (some o) u →
          ∃ k, c.tree.Means source cp.path (some k) ∧ o.target = c.tree.path k) ∧
        (c.tree.Means source cp.path none → ∀ only start u,
          popOperands cp s = .ok (true, only, start) u →
          makeOffer source cp s = .error (.address (.choiceTarget cp.path.render)) u) := by
  have hroot := isContainer_rootId_of_ofJson h
  have hmeans := ContentTree.targetContainer?_eq_iff hroot hsource
  have hdivert := ContentTree.divertCursor?_eq_iff hroot hsource
  refine ⟨hmeans, hdivert, fun s hs => ⟨fun d p place hd hkind hplace => ?_, fun p k hk => ?_,
    fun cp => ⟨fun o u hoffer => ?_, fun hnone only start u hpop => ?_⟩⟩⟩
  · rw [takeDivert_eq hd hkind, Story.tree, hs, (hdivert p place).mpr hplace]
  · rw [pushReadCount_eq, Story.tree, hs, (hmeans p k).mpr hk]
  · rw [makeOffer_eq] at hoffer
    obtain ⟨operands, v, hpop, hoffer⟩ := exists_of_bind_eq_ok hoffer
    have hv : v.content = c := (content_of_popOperands hpop).trans hs
    obtain ⟨k, hk, ho⟩ := target_of_offerWith hoffer
    rw [Story.tree, hv] at hk ho
    exact ⟨k, (hmeans _ _).mp hk, ho⟩
  · have hu : u.content = c := (content_of_popOperands hpop).trans hs
    rw [makeOffer_eq, bind_ok hpop, offerWith_of_none _ rfl]
    rw [Story.tree, hu]
    exact (hmeans _ _).mpr hnone

/-- A story with a divert to an element of a knot, and one to a stitch that the knot does not
have. -/
def strayingJson : Json :=
  .obj [("inkVersion", .int 21), ("root", .arr [.obj [("->", .str "k.1")],
    .obj [("->", .str "k.s")], .obj [("k", .arr [.str "^in", .str "\n", .null])]])]

/-- The content of this story. -/
def straying : Content :=
  ⟨0, 21, .ofBlock (.container none ⟨false, false, false⟩
    [.leaf (.divert ⟨.jump, .path ⟨[.name "k", .index 1], false⟩, false⟩),
      .leaf (.divert ⟨.jump, .path ⟨[.name "k", .name "s"], false⟩, false⟩)]
    [("k", .container (some "k") ⟨false, false, false⟩
      [.leaf (.value (.text "in")), .leaf (.value (.text "\n"))] [])]), .empty⟩

/-- The second divert goes to the start of the knot. -/
theorem straying_diverts :
    straying.tree.DivertMeans 1 ⟨[.name "k", .index 1], false⟩ (some ⟨3, 1⟩) ∧
    straying.tree.DivertMeans 2 ⟨[.name "k", .name "s"], false⟩ (some ⟨3, 0⟩) := by
  have hread : ofJson 0 strayingJson = .ok straying := rfl
  have hleaf : straying.tree.leaf? 1 =
      some (.divert ⟨.jump, .path ⟨[.name "k", .index 1], false⟩, false⟩) := rfl
  have hother : straying.tree.leaf? 2 =
      some (.divert ⟨.jump, .path ⟨[.name "k", .name "s"], false⟩, false⟩) := rfl
  obtain ⟨-, hfirst, -⟩ := instructions_mean_their_paths hread hleaf
  obtain ⟨-, hsecond, -⟩ := instructions_mean_their_paths hread hother
  exact ⟨(hfirst _ _).mp rfl, (hsecond _ _).mp rfl⟩

end Content

end StoryMachine
