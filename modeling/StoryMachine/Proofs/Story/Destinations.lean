import StoryMachine.Proofs.Content.Targets
import StoryMachine.Proofs.Story.Choosing

/-!
# Where absolute paths lead

A jump, and a divert whose target is in a variable, follow their path from the root. In front of a
last index, or else to its end, the path leads to a container, or it stops on its way, and the last
container stands for it with a warning, or it does not even lead away from the root, which is an
error. There is one way more: the steps may lead to a leaf, which an index comes behind. Then the
path gives no place, although it is not empty, and nothing says so.

* `Path.Splits` : the steps of a path that lead to a container, and the index there;
* `ContentTree.Gives`, `ContentTree.cursorAt_eq_iff` : what a path gives;
* `ContentTree.EntersLeaf` : paths that give no place;
* `Flow.jumpTo_of_cursorAt` : jumps that go there;
* `Content.paths_lead_somewhere` : the paths of a story that has been read.
-/

namespace StoryMachine

namespace Path

/-- A path is split into the steps that lead to a container, and the index of the place meant
there: the last index as a whole number of 32 bits, or -1 for the container as a whole. -/
inductive Splits : Path → List Step → Int → Prop
  | element (front : List Step) (relative : Bool) (i : Nat) :
    Splits ⟨front ++ [.index i], relative⟩ front (wrap32 i)
  | whole (front : List Step) (relative : Bool) (name : String) :
    Splits ⟨front ++ [.name name], relative⟩ (front ++ [.name name]) (-1)

theorem exists_splits {p : Path} (h : p.steps ≠ []) : ∃ steps index, p.Splits steps index := by
  obtain ⟨steps, relative⟩ := p
  rcases List.eq_nil_or_concat steps with rfl | ⟨front, s, rfl⟩
  · exact absurd rfl h
  · rw [List.concat_eq_append]
    cases s with
    | index i => exact ⟨_, _, .element front relative i⟩
    | name n => exact ⟨_, _, .whole front relative n⟩

end Path

namespace ContentTree

variable {t : ContentTree} {id next node last : NodeId} {p : Path} {steps : List Step} {index : Int}

/-- What a path gives that is followed from the root. -/
inductive Gives (t : ContentTree) (p : Path) :
    Except StoryError (Option Cursor × Option String) → Prop
  | exact {steps : List Step} {index : Int} {node : NodeId} (hp : p.Splits steps index)
    (hleads : t.Leads rootId steps node) (hcontainer : t.isContainer node = true)
    (haway : node = rootId → steps = []) : Gives t p (.ok (some ⟨node, index⟩, none))
  | nearest {steps : List Step} {index : Int} {last : NodeId} (hp : p.Splits steps index)
    (hstops : ∀ node, ¬t.Leads rootId steps node) (hlast : t.LastContainer rootId steps last)
    (haway : last ≠ rootId) :
    Gives t p (.ok (some ⟨last, index⟩, some (approximated p (t.path last))))
  | nowhere {steps : List Step} {index : Int} (hp : p.Splits steps index)
    (hlast : t.LastContainer rootId steps rootId) (hsteps : steps ≠ [])
    (hleaf : ∀ node, t.Leads rootId steps node → t.isContainer node = true) :
    Gives t p (.error (.address (.noApproximation p.render)))
  | leaf {steps : List Step} {index : Int} {node : NodeId} (hp : p.Splits steps index)
    (hleads : t.Leads rootId steps node) (hleaf : t.isContainer node = false) :
    Gives t p (.ok (none, none))

/-- The container part of a path leads to a leaf. -/
def EntersLeaf (t : ContentTree) (p : Path) : Prop :=
  ∃ steps index node, p.Splits steps index ∧ t.Leads rootId steps node ∧ t.isContainer node = false

/-- The place that a path gives is told by following the steps in front of it. -/
theorem cursorAt_of_splits (hp : p.Splits steps index) :
    t.cursorAt p =
      if (t.follow false rootId steps).node = rootId ∧ steps ≠ [] then
        .error (.address (.noApproximation p.render))
      else
        .ok (((t.follow false rootId steps).container? t).map fun c => ⟨c, index⟩,
          if (t.follow false rootId steps).approximate then
            some (approximated p (t.path (t.follow false rootId steps).node))
          else none) := by
  cases hp with
  | element front relative i =>
    rw [cursorAt, Path.last?, List.getLast?_concat]
    dsimp only
    rw [List.dropLast_concat]
  | whole front relative name =>
    rw [cursorAt, Path.last?, List.getLast?_concat]

/-- The root is a container, so that a leaf is another node. -/
theorem ne_rootId_of_leaf (hroot : t.isContainer rootId = true) (hleaf : t.isContainer node = false) :
    node ≠ rootId := by
  rintro rfl
  rw [hroot] at hleaf
  cases hleaf

/-- Steps that lead nowhere are followed to the last container on their way. -/
theorem exists_follow_of_stops (hroot : t.isContainer rootId = true)
    (hstops : ∀ node, ¬t.Leads rootId steps node) :
    ∃ last, t.LastContainer rootId steps last ∧ t.follow false rootId steps = ⟨last, true⟩ := by
  rcases hfollow : t.follow false rootId steps with ⟨found, approximate⟩
  rcases container?_follow hroot steps with ⟨leaf, hleads, -⟩ | ⟨last, hlast, hsome⟩
  · exact absurd hleads (hstops leaf)
  · have happroximate : approximate = true := by
      by_contra hexact
      rw [Bool.not_eq_true] at hexact
      subst hexact
      exact hstops found (leads_of_follow hfollow)
    have hfound : found = last := by
      rw [hfollow, Found.container?] at hsome
      split at hsome
      · exact Option.some.inj hsome
      · cases hsome
    exact ⟨last, hlast, by rw [hfound, happroximate]⟩

/-- Steps that come back to the root, or stop there, are followed to the root. -/
theorem follow_eq_rootId (hroot : t.isContainer rootId = true)
    (hlast : t.LastContainer rootId steps rootId)
    (hleaf : ∀ node, t.Leads rootId steps node → t.isContainer node = true) :
    (t.follow false rootId steps).node = rootId := by
  by_cases hleads : ∃ node, t.Leads rootId steps node
  · obtain ⟨node, hleads⟩ := hleads
    rw [follow_of_leads hleads]
    exact hlast.eq_of_leads hleads (hleaf node hleads)
  · obtain ⟨last, hlast', hfollow⟩ := exists_follow_of_stops hroot (not_exists.mp hleads)
    rw [hfollow]
    exact hlast'.unique hlast

theorem gives_cursorAt (hroot : t.isContainer rootId = true) (hp : p.steps ≠ []) :
    t.Gives p (t.cursorAt p) := by
  obtain ⟨steps, index, hsplits⟩ := Path.exists_splits hp
  rw [cursorAt_of_splits hsplits]
  by_cases hleads : ∃ node, t.Leads rootId steps node
  · obtain ⟨node, hleads⟩ := hleads
    rw [follow_of_leads hleads, Found.container?]
    cases hcontainer : t.isContainer node with
    | true =>
      by_cases haway : node = rootId ∧ steps ≠ []
      · obtain ⟨rfl, hsteps⟩ := haway
        rw [if_pos ⟨rfl, hsteps⟩]
        refine .nowhere hsplits ⟨hroot, steps, [], (List.append_nil _).symm, hleads, ?_⟩ hsteps
          fun other hother => hother.unique hleads ▸ hroot
        rintro more behind beyond hmore hnil -
        exact absurd (List.append_eq_nil_iff.mp hnil.symm).1 hmore
      · rw [if_neg haway]
        exact .exact hsplits hleads hcontainer fun h => by_contra fun hne => haway ⟨h, hne⟩
    | false =>
      rw [if_neg fun h => ne_rootId_of_leaf hroot hcontainer h.1]
      exact .leaf hsplits hleads hcontainer
  · rw [not_exists] at hleads
    obtain ⟨last, hlast, hfollow⟩ := exists_follow_of_stops hroot hleads
    have hsteps : steps ≠ [] := by
      rintro rfl
      exact hleads rootId (.here rootId)
    rw [hfollow, Found.container?, if_pos hlast.1]
    by_cases haway : last = rootId
    · subst haway
      rw [if_pos ⟨rfl, hsteps⟩]
      exact .nowhere hsplits hlast hsteps fun node hnode => absurd hnode (hleads node)
    · rw [if_neg fun h => haway h.1]
      exact .nearest hsplits hleads hlast haway

theorem cursorAt_of_gives (hroot : t.isContainer rootId = true)
    {r : Except StoryError (Option Cursor × Option String)} (h : t.Gives p r) : t.cursorAt p = r := by
  cases h with
  | @exact steps index node hp hleads hcontainer haway =>
    have hback : ¬(node = rootId ∧ steps ≠ []) := fun hback => hback.2 (haway hback.1)
    rw [cursorAt_of_splits hp, follow_of_leads hleads, if_neg hback, Found.container?,
      if_pos hcontainer]
    rfl
  | nearest hp hstops hlast haway =>
    obtain ⟨last, hlast', hfollow⟩ := exists_follow_of_stops hroot hstops
    obtain rfl := hlast'.unique hlast
    rw [cursorAt_of_splits hp, hfollow, if_neg fun h => haway h.1, Found.container?, if_pos hlast.1]
    rfl
  | nowhere hp hlast hsteps hleaf =>
    rw [cursorAt_of_splits hp, if_pos ⟨follow_eq_rootId hroot hlast hleaf, hsteps⟩]
  | leaf hp hleads hleaf =>
    have haway := ne_rootId_of_leaf hroot hleaf
    rw [cursorAt_of_splits hp, follow_of_leads hleads, if_neg fun h => haway h.1, Found.container?,
      hleaf]
    rfl

/-- A path that is not empty gives just what it is said to. -/
theorem cursorAt_eq_iff (hroot : t.isContainer rootId = true) (hp : p.steps ≠ [])
    (r : Except StoryError (Option Cursor × Option String)) : t.cursorAt p = r ↔ t.Gives p r :=
  ⟨fun h => h ▸ gives_cursorAt hroot hp, cursorAt_of_gives hroot⟩

/-- A path gives no place just where its container part leads to a leaf, and no warning then. -/
theorem cursorAt_eq_none_iff (hroot : t.isContainer rootId = true) (hp : p.steps ≠ [])
    (warning : Option String) :
    t.cursorAt p = .ok (none, warning) ↔ t.EntersLeaf p ∧ warning = none := by
  rw [cursorAt_eq_iff hroot hp]
  constructor
  · intro h
    cases h with
    | leaf hp hleads hleaf => exact ⟨⟨_, _, _, hp, hleads, hleaf⟩, rfl⟩
  · rintro ⟨⟨steps, index, node, hp, hleads, hleaf⟩, rfl⟩
    exact .leaf hp hleads hleaf

end ContentTree

/-! ## Names -/

namespace Block

variable {P : Instruction → Prop} {b : Block} {name : String} {id : NodeId}

theorem exists_of_mem_validNames {bs : List Block} {start : NodeId}
    (h : (name, id) ∈ validNames start bs) :
    ∃ (i : Nat) (b : Block), bs[i]? = some b ∧ b.validName? = some name ∧
      id = start + sizeOfList (bs.take i) := by
  induction bs generalizing start with
  | nil => cases h
  | cons first rest ih =>
    have hrest : (name, id) ∈ validNames (start + first.size) rest → ∃ (i : Nat) (b : Block),
        (first :: rest)[i]? = some b ∧ b.validName? = some name ∧
          id = start + sizeOfList ((first :: rest).take i) := by
      intro h
      obtain ⟨i, b, hb, hname, hid⟩ := ih h
      exact ⟨i + 1, b, hb, hname, by rw [List.take_succ_cons, sizeOfList, hid, Nat.add_assoc]⟩
    rw [validNames] at h
    split at h
    · next n hn =>
      rcases List.mem_cons.mp h with h | h
      · cases h
        exact ⟨0, first, rfl, hn, rfl⟩
      · exact hrest h
    · exact hrest h

theorem exists_of_mem_namedPlaces {bs : List (String × Block)} {start : NodeId}
    (h : (name, id) ∈ namedPlaces start bs) :
    ∃ (i : Nat) (b : Block), bs[i]? = some (name, b) ∧ id = start + sizeOfNamed (bs.take i) := by
  induction bs generalizing start with
  | nil => cases h
  | cons first rest ih =>
    obtain ⟨firstName, first⟩ := first
    rcases List.mem_cons.mp h with h | h
    · cases h
      exact ⟨0, first, rfl, rfl⟩
    · obtain ⟨i, b, hb, hid⟩ := ih h
      exact ⟨i + 1, b, hb, by rw [List.take_succ_cons, sizeOfNamed, hid, Nat.add_assoc]⟩

theorem FormedList.of_getElem? {bs : List Block} (h : FormedList P bs) {i : Nat}
    (hb : bs[i]? = some b) : b.Formed P := by
  induction bs generalizing i with
  | nil => cases hb
  | cons first rest ih =>
    cases i with
    | zero =>
      cases hb
      exact h.1
    | succ i => exact ih h.2 hb

theorem FormedNamed.of_getElem? {bs : List (String × Block)} (h : FormedNamed P bs) {i : Nat}
    (hb : bs[i]? = some (name, b)) : b.IsNamed name ∧ b.Formed P := by
  induction bs generalizing i with
  | nil => cases hb
  | cons first rest ih =>
    cases i with
    | zero =>
      cases hb
      exact h.1.2.2
    | succ i => exact ih h.2 hb

end Block

namespace ContentTree

variable {t : ContentTree} {id next node : NodeId} {p : Path}

open Block

theorem Stands.formed {P : Instruction → Prop} {parent : Option NodeId} {path : Path} {b : Block}
    (hformed : t.root.Formed P) (h : t.Stands parent path id b) : b.Formed P := by
  induction h with
  | root => exact hformed
  | content _ hb ih => exact FormedList.of_getElem? ih.1 hb
  | named _ hb ih => exact (FormedNamed.of_getElem? ih.2.1 hb).2

/-- Names lead to containers only, in a tree of the form of what was read. -/
theorem isContainer_of_child?_name {P : Instruction → Prop} (hformed : t.root.Formed P)
    {name : String} (h : t.child? id (.name name) = some next) : t.isContainer next = true := by
  obtain ⟨c, hc, -⟩ := Option.bind_eq_some_iff.mp h
  obtain ⟨parent, path, n, flags, content, named, hstands⟩ := exists_stands_of_container hc
  by_cases hname : name = "^"
  · subst hname
    have hparent : t.parent? id = some next := by
      rw [child?, hc] at h
      exact h
    have hne : id ≠ rootId := by
      rintro rfl
      rw [Stands.root.parent?_eq] at hparent
      cases hparent
    obtain ⟨above, habove, hcontainer⟩ := exists_parent hstands.lt_size hne
    rw [habove] at hparent
    cases hparent
    exact hcontainer
  · rw [child?_name hstands.container?_eq hname] at h
    rcases List.mem_append.mp (Entries.mem_of_mem_ofList (Entries.mem_of_get? h)) with h | h
    · obtain ⟨i, b, hb, hvalid, rfl⟩ := exists_of_mem_validNames h
      cases b with
      | leaf => cases hvalid
      | container => exact (hstands.content hb).isContainer
    · obtain ⟨i, b, hb, rfl⟩ := exists_of_mem_namedPlaces h
      have hnamed := (FormedNamed.of_getElem? (hstands.formed hformed).2.1 hb).1
      cases b with
      | leaf => cases hnamed
      | container => exact (hstands.named hb).isContainer

/-- Only an index can come behind a leaf. -/
theorem EntersLeaf.exists_index {P : Instruction → Prop} (hformed : t.root.Formed P)
    (h : t.EntersLeaf p) : ∃ front i, p.steps = front ++ [.index i] := by
  obtain ⟨steps, index, node, hp, hleads, hleaf⟩ := h
  cases hp with
  | element _ _ i => exact ⟨steps, i, rfl⟩
  | whole =>
    obtain ⟨a, -, hstep⟩ := hleads.of_concat
    rw [isContainer_of_child?_name hformed hstep] at hleaf
    cases hleaf

end ContentTree

/-! ## Flows -/

namespace State

/-- A jump that has arrived counts visits, and so stays where it is. -/
theorem cursor_enterByJump_arriving (s : State) (t : ContentTree) (place : Option Cursor)
    (warning : Option String) :
    ((s.arriving t place warning).enterByJump t).cursor = place.map Cursor.entry := by
  obtain ⟨visits, turns, hentered⟩ := (s.arriving t place warning).exists_enterByJump_eq t
  rw [hentered]
  rfl

end State

namespace Flow

/-- A jump of the host goes to its path. -/
theorem jumpTo_of_cursorAt (p : Path) (s : Story) :
    jumpTo p true s = match s.tree.cursorAt p with
      | .error e => .error e { s with state := { s.state with choices := [] } }
      | .ok (place, warning) =>
        .ok () { s with state := (s.state.arriving s.tree place warning).enterByJump s.tree } := by
  cases hplace : s.tree.cursorAt p with
  | error e => exact jumpTo_error hplace true
  | ok found => exact jumpTo_run_ok (State.jump_of_cursorAt hplace s.state)

/-- A jump that succeeds is made between lines, to the place that the path gives. -/
theorem exists_of_choosePath {s t : Story} {path : String} {reset : Bool} {arguments : List Value}
    (h : choosePath path reset arguments s = .ok () t) :
    s.Idle ∧ (reset = true ∨ s.state.callStack.top.kind ≠ .function) ∧ ∃ place warning,
      s.tree.cursorAt (Path.parse path) = .ok (place, warning) ∧
      t = { s with state := (((s.state.endedIf reset).passing arguments).arriving s.tree place
        warning).enterByJump s.tree } := by
  cases hbusy : s.busy? .choosePath with
  | some e =>
    rw [choosePath_of_jumpFails (.busy hbusy)] at h
    cases h
  | none =>
    have hidle := idle_of_busy? hbusy
    have hgoes : reset = true ∨ s.state.callStack.top.kind ≠ .function := by
      by_contra hstays
      obtain ⟨hreset, htop⟩ := not_or.mp hstays
      rw [choosePath_of_jumpFails (.insideFunction hidle (Bool.eq_false_iff.mpr hreset)
        (Decidable.not_not.mp htop) _ rfl)] at h
      cases h
    have harguments : ∀ a ∈ arguments, a.Passable := by
      rcases State.passable_or_exists arguments with hall | ⟨front, v, rest, heq, hfront, hv⟩
      · exact hall
      · rw [choosePath_of_jumpFails (.argument hidle hgoes heq hfront hv)] at h
        cases h
    rw [choosePath_eq_jumpTo hidle hgoes harguments, jumpTo_of_cursorAt] at h
    cases hplace : s.tree.cursorAt (Path.parse path) with
    | error e =>
      rw [show Story.tree { s with state := (s.state.endedIf reset).passing arguments } = s.tree
        from rfl, hplace] at h
      cases h
    | ok found =>
      obtain ⟨place, warning⟩ := found
      rw [show Story.tree { s with state := (s.state.endedIf reset).passing arguments } = s.tree
        from rfl, hplace] at h
      cases h
      exact ⟨hidle, hgoes, place, warning, rfl, rfl⟩

end Flow

/-! ## Stories -/

namespace Content

open StoryMachine.Flow

/-- In a story that has been read, a path that is not empty leads to the container that it
addresses, or with a warning to the last one on its way, or it is an error. It gives no place just
where it has an index behind a leaf. Diverts through variables and jumps of the host go to this
place, and fail with this error. -/
theorem paths_lead_somewhere {key : Nat} {j : Json} {c : Content} (h : ofJson key j = .ok c)
    {p : Path} (hp : p.steps ≠ []) :
    (∀ r, c.tree.cursorAt p = r ↔ c.tree.Gives p r) ∧
    (∀ warning, c.tree.Gives p (.ok (none, warning)) ↔ c.tree.EntersLeaf p ∧ warning = none) ∧
    (j.Canonical → c.tree.EntersLeaf p → ∃ front i, p.steps = front ++ [.index i]) ∧
    ∀ r, c.tree.Gives p r → ∀ s : Story, s.content = c →
      (∀ id d name, d.destination = .variable name →
        s.state.vars.read? c.lists s.state.callStack name = some (.target p) →
        takeDivert id d s = match r with
          | .error e => .error e s
          | .ok (place, warning) => pushFrame d.kind
            { s with state := { s.state.warnAll c.tree warning.toList with diverted := place } }) ∧
      match r with
        | .error e => jumpTo p true s = .error e { s with state := { s.state with choices := [] } }
        | .ok (place, warning) => ∃ u, jumpTo p true s = .ok () { s with state := u } ∧
          u.cursor = place.map Cursor.entry ∧
          u.warnings = s.state.warnings ++ warning.toList.map (s.state.located c.tree "WARNING") := by
  have hroot := isContainer_rootId_of_ofJson h
  have hgives := ContentTree.cursorAt_eq_iff hroot hp
  refine ⟨hgives, fun warning => ?_, fun hj => ?_, fun r hr s hs => ?_⟩
  · rw [← hgives, ContentTree.cursorAt_eq_none_iff hroot hp]
  · obtain ⟨⟨root, hfield, htree⟩, -⟩ := parts_of_ofJson h
    obtain ⟨hblock, -⟩ := ContentTree.root_of_ofJson htree
    exact ContentTree.EntersLeaf.exists_index
      (Block.formed_of_ofJson (Json.canonical_of_field? hj hfield) hblock)
  · subst hs
    have hplace : s.tree.cursorAt p = r := (hgives r).mpr hr
    refine ⟨fun id d name hd hvalue => ?_, ?_⟩
    · rw [takeDivert_target hd hvalue, hplace]
      rfl
    · have hjump := jumpTo_of_cursorAt p s
      rw [hplace] at hjump
      cases r with
      | error e => exact hjump
      | ok found =>
        obtain ⟨place, warning⟩ := found
        refine ⟨_, hjump, s.state.cursor_enterByJump_arriving s.tree place warning, ?_⟩
        obtain ⟨visits, turns, hentered⟩ :=
          (s.state.arriving s.tree place warning).exists_enterByJump_eq s.tree
        rw [hentered]
        rfl

/-- Behind the knot a stitch that it does not have is replaced by the knot, and an index behind its
first text is no place. -/
theorem straying_enters_leaf :
    straying.tree.Gives ⟨[.name "k", .name "s"], false⟩ (.ok (some ⟨3, -1⟩,
      some "Failed to find content at path 'k.s', so it was approximated to: 'k'.")) ∧
    straying.tree.EntersLeaf ⟨[.name "k", .index 0, .index 0], false⟩ := by
  have hread : ofJson 0 strayingJson = .ok straying := rfl
  obtain ⟨hnearest, -⟩ := paths_lead_somewhere (p := ⟨[.name "k", .name "s"], false⟩) hread (by simp)
  obtain ⟨hleaf, hnone, -⟩ :=
    paths_lead_somewhere (p := ⟨[.name "k", .index 0, .index 0], false⟩) hread (by simp)
  exact ⟨(hnearest _).mp rfl, ((hnone none).mp ((hleaf _).mp rfl)).1⟩

end Content

end StoryMachine
