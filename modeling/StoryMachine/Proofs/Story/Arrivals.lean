import StoryMachine.Proofs.Content.Addresses
import StoryMachine.Proofs.Content.Targets
import StoryMachine.Proofs.Story.Emission

/-!
# Where diverts arrive

A divert takes its place from a path of its own, or from the path that a variable holds. The first
is a place in front of an element, the second, if the path is that of a container, the container as
a whole. Both lead to the same node. They count visits in different ways: in front of an element
the containers around it that are entered anew are counted, and a container that the divert stays
in is not; a container as a whole is counted as such, and nothing around it is.

* `Flow.arrive` : a divert, up to the next node of content;
* `ContentTree.entered` : the containers that a jump enters around a node;
* `ContentTree.countedApart` : the containers that the two diverts count in different ways;
* `State.SameCounts` : states that agree on what has been counted, some names excepted;
* `Flow.diverts_agree` : the two diverts.
-/

namespace StoryMachine

namespace ContentTree

/-- The containers that a jump to the node `child` enters among those around it, from the innermost
one on, each with whether it is entered at its start. -/
def entered (t : ContentTree) (opened : List NodeId) :
    NodeId → Bool → List NodeId → List (NodeId × Bool)
  | _, _, [] => []
  | child, atStart, id :: rest =>
    match t.container? id with
    | none => []
    | some c =>
      if opened.contains id && !c.flags.startOnly then []
      else
        let atStart := c.content.head? == some child && atStart
        (id, atStart) :: t.entered opened id atStart rest

/-- Whether entering a container counts for something. -/
def counts (t : ContentTree) (entry : NodeId × Bool) : Bool :=
  match t.container? entry.1 with
  | none => false
  | some c => (c.flags.visits || c.flags.turns) && (!c.flags.startOnly || entry.2)

/-- Whether a divert to the first element of a container stays in the container. -/
def staysIn (t : ContentTree) (opened : List NodeId) (id : NodeId) : Bool :=
  match t.container? id with
  | none => false
  | some c => !c.content.isEmpty && opened.contains id && !c.flags.startOnly

/-- The containers that a divert to the first element of the container `id` and one to the
container as a whole do not both count: the container itself if the divert stays in it, and else
those around it that are entered anew. -/
def countedApart (t : ContentTree) (opened : List NodeId) (id : NodeId) : List NodeId :=
  if t.staysIn opened id then [id]
  else ((t.entered opened id true (t.ancestry id).tail).filter t.counts).map Prod.fst

end ContentTree

/-- What is read behind two like insertions into maps that agree. -/
theorem SortedMap.get?_insert_congr {α : Type} {m m' : SortedMap String α} {key k : String} {v v' : α}
    (h : m.get? key = m'.get? key) (hv : key = k → v = v') :
    (m.insert k v).get? key = (m'.insert k v').get? key := by
  by_cases hsame : key = k
  · rw [← hv hsame, hsame, get?_insert_self, get?_insert_self]
  · rw [get?_insert_of_ne _ _ hsame, get?_insert_of_ne _ _ hsame, h]

namespace State

/-- Two states agree on what has been counted, except under some names. -/
structure SameCounts (apart : List String) (s u : State) : Prop where
  turn : s.turn = u.turn
  visits {key : String} (h : key ∉ apart) : s.visits.get? key = u.visits.get? key
  turns {key : String} (h : key ∉ apart) : s.turns.get? key = u.turns.get? key

variable {t : ContentTree} {apart : List String} {s u v : State}

namespace SameCounts

theorem of_eq (hturn : s.turn = u.turn) (hvisits : s.visits = u.visits) (hturns : s.turns = u.turns) :
    s.SameCounts apart u :=
  ⟨hturn, fun _ => by rw [hvisits], fun _ => by rw [hturns]⟩

theorem symm (h : s.SameCounts apart u) : u.SameCounts apart s :=
  ⟨h.turn.symm, fun hkey => (h.visits hkey).symm, fun hkey => (h.turns hkey).symm⟩

theorem trans (h : s.SameCounts apart u) (h' : u.SameCounts apart v) : s.SameCounts apart v :=
  ⟨h.turn.trans h'.turn, fun hkey => (h.visits hkey).trans (h'.visits hkey),
    fun hkey => (h.turns hkey).trans (h'.turns hkey)⟩

/-- Both enter a container. -/
theorem enter (h : s.SameCounts apart u) (t : ContentTree) (id : NodeId) (atStart : Bool) :
    (s.enter t id atStart).SameCounts apart (u.enter t id atStart) := by
  unfold State.enter
  cases t.container? id with
  | none => exact h
  | some c =>
    dsimp only
    split
    · exact h
    · refine ⟨h.turn, fun {key} hkey => ?_, fun {key} hkey => ?_⟩
      · dsimp only
        split
        · exact SortedMap.get?_insert_congr (h.visits hkey) fun hsame => by
            rw [← hsame, h.visits hkey]
        · exact h.visits hkey
      · dsimp only
        split
        · exact SortedMap.get?_insert_congr (h.turns hkey) fun _ => h.turn
        · exact h.turns hkey

end SameCounts

/-- Entering a container changes what is counted under its name alone, if it counts at all. -/
theorem sameCounts_enter (s : State) {entry : NodeId × Bool}
    (h : t.counts entry = true → countKey t entry.1 ∈ apart) :
    (s.enter t entry.1 entry.2).SameCounts apart s := by
  unfold ContentTree.counts at h
  unfold State.enter
  cases hc : t.container? entry.1 with
  | none => exact .of_eq rfl rfl rfl
  | some c =>
    rw [hc] at h
    dsimp only at h ⊢
    split
    · exact .of_eq rfl rfl rfl
    · next hstart =>
      have hother {key : String} (hkey : key ∉ apart) (hflag : c.flags.visits = true ∨
          c.flags.turns = true) : key ≠ countKey t entry.1 := by
        rintro rfl
        refine hkey (h ?_)
        rw [Bool.and_eq_true, Bool.or_eq_true]
        refine ⟨hflag, ?_⟩
        cases hs : c.flags.startOnly with
        | false => rfl
        | true =>
          rw [hs] at hstart
          simpa using hstart
      refine ⟨rfl, fun {key} hkey => ?_, fun {key} hkey => ?_⟩
      · dsimp only
        split
        · next hflag => exact SortedMap.get?_insert_of_ne _ _ (hother hkey (.inl hflag))
        · rfl
      · dsimp only
        split
        · next hflag => exact SortedMap.get?_insert_of_ne _ _ (hother hkey (.inr hflag))
        · rfl

/-- A jump enters the containers told, one after another. -/
theorem enterAncestors_eq (t : ContentTree) (opened : List NodeId) (s : State) (child : NodeId)
    (atStart : Bool) (ids : List NodeId) : enterAncestors t opened s child atStart ids =
      (t.entered opened child atStart ids).foldl (fun s entry => s.enter t entry.1 entry.2) s := by
  induction ids generalizing s child atStart with
  | nil => rfl
  | cons id rest ih =>
    rw [enterAncestors, ContentTree.entered]
    cases t.container? id with
    | none => rfl
    | some c =>
      dsimp only
      split
      · rfl
      · exact ih _ _ _

theorem sameCounts_foldl_enter {entries : List (NodeId × Bool)}
    (h : ∀ entry ∈ entries, t.counts entry = true → countKey t entry.1 ∈ apart) (s : State) :
    (entries.foldl (fun s entry => s.enter t entry.1 entry.2) s).SameCounts apart s := by
  induction entries generalizing s with
  | nil => exact .of_eq rfl rfl rfl
  | cons entry rest ih =>
    exact (ih (fun entry hentry => h entry (.tail _ hentry)) _).trans
      (s.sameCounts_enter (h entry (.head _)))

/-- Enter the containers that a place leads into, each at its start. -/
def enterDown (t : ContentTree) : Nat → Cursor → State → State
  | 0, _, s => s
  | depth + 1, c, s =>
    match (c.node? t).filter t.isContainer with
    | none => s
    | some id =>
      if (t.content id).isEmpty then s.enter t id true
      else enterDown t depth (.start id) (s.enter t id true)

theorem SameCounts.enterDown (h : s.SameCounts apart u) (t : ContentTree) (depth : Nat)
    (c : Cursor) : (s.enterDown t depth c).SameCounts apart (u.enterDown t depth c) := by
  induction depth generalizing c s u with
  | zero => exact h
  | succ depth ih =>
    rw [State.enterDown, State.enterDown]
    split
    · exact h
    · split
      · exact h.enter t _ true
      · exact ih (h.enter t _ true) _

end State

/-! ## Going down -/

namespace Flow

theorem enterContainers_eq (t : ContentTree) (depth : Nat) (c : Cursor) (s : Story) :
    enterContainers t depth c s =
      .ok (c.descend t depth) { s with state := s.state.enterDown t depth c } := by
  induction depth generalizing c s with
  | zero => rfl
  | succ depth ih =>
    rw [enterContainers, Cursor.descend, State.enterDown]
    cases (c.node? t).filter t.isContainer with
    | none => rfl
    | some id =>
      dsimp only
      rw [bind_ok (modifyState_ok _ s)]
      split
      · rfl
      · exact ih _ _

end Flow

namespace ContentTree

variable {t : ContentTree} {id node : NodeId}

/-- The node at the start of a container: its first element, or itself if it has none. -/
theorem node?_start (hcontainer : t.isContainer id = true) :
    (Cursor.start id).node? t = some ((t.content id).headD id) := by
  obtain ⟨c, hc⟩ := Option.isSome_iff_exists.mp hcontainer
  rw [Cursor.node?, Cursor.start, content, hc]
  cases hcontent : c.content with
  | nil => simp [hcontent]
  | cons child rest => simp [hcontent]

theorem isContainer_of_node?_start (h : (Cursor.start id).node? t = some node) :
    t.isContainer id = true := by
  rw [isContainer]
  cases hc : t.container? id with
  | none =>
    rw [Cursor.node?, Cursor.start, hc] at h
    cases h
  | some c => rfl

/-- From the start of a container the way leads down, unless the container is empty. -/
theorem lt_of_node?_start (h : (Cursor.start id).node? t = some node)
    (hnode : (t.content node).isEmpty = false) : id < node := by
  rw [node?_start (isContainer_of_node?_start h), Option.some_inj] at h
  cases hcontent : t.content id with
  | nil =>
    rw [hcontent, List.headD_nil] at h
    rw [← h, hcontent] at hnode
    cases hnode
  | cons child rest =>
    rw [hcontent, List.headD_cons] at h
    rw [← h]
    exact (child_of_mem_content (by rw [hcontent]; exact .head _)).1

theorem node?_start_eq_none (h : t.size ≤ id) : (Cursor.start id).node? t = none := by
  rw [Option.eq_none_iff_forall_ne_some]
  intro node hnode
  exact Nat.not_lt.mpr h (lt_size_of_isContainer (isContainer_of_node?_start hnode))

end ContentTree

open ContentTree

/-- A depth that leads behind the last node is as good as any other. -/
theorem Cursor.descend_start {t : ContentTree} {id depth other : Nat}
    (hdepth : t.size ≤ id + depth) (hother : t.size ≤ id + other) :
    (Cursor.start id).descend t depth = (Cursor.start id).descend t other ∧
      ∀ s : State, s.enterDown t depth (.start id) = s.enterDown t other (.start id) := by
  induction depth generalizing id other with
  | zero =>
    cases other with
    | zero => exact ⟨rfl, fun _ => rfl⟩
    | succ other =>
      have hnone : (start id).node? t = none := node?_start_eq_none hdepth
      simp only [Cursor.descend, State.enterDown, hnone]
      exact ⟨rfl, fun _ => rfl⟩
  | succ depth ih =>
    cases other with
    | zero =>
      have hnone : (start id).node? t = none := node?_start_eq_none hother
      simp only [Cursor.descend, State.enterDown, hnone]
      exact ⟨rfl, fun _ => rfl⟩
    | succ other =>
      simp only [Cursor.descend, State.enterDown]
      cases hnode : ((Cursor.start id).node? t).filter t.isContainer with
      | none => exact ⟨rfl, fun _ => rfl⟩
      | some node =>
        dsimp only
        cases hempty : (t.content node).isEmpty with
        | true => exact ⟨rfl, fun _ => rfl⟩
        | false =>
          have hlt : id < node := lt_of_node?_start (Option.filter_eq_some_iff.mp hnode).1 hempty
          obtain ⟨hdescend, henter⟩ := ih (show t.size ≤ node + depth by omega)
            (show t.size ≤ node + other by omega)
          exact ⟨hdescend, fun s => henter _⟩

/-! ## Arriving -/

namespace State

/-- The state behind a divert that has moved to a place. -/
def movedTo (s : State) (c : Cursor) : State :=
  { s.setPrevious s.cursor with diverted := none }.setCursor (some c)

/-- The state behind a divert that has been followed to a place. -/
def follow (s : State) (t : ContentTree) (c : Cursor) : State :=
  (s.movedTo c).enterByJump t

/-- The state at the next leaf behind a divert to a place. -/
def arriveAt (s : State) (t : ContentTree) (c : Cursor) : State :=
  ((s.follow t c).enterDown t t.size c).setCursor (some (c.descend t t.size))

theorem cursor_follow (s : State) (t : ContentTree) (c : Cursor) :
    (s.follow t c).cursor = some c := by
  unfold follow
  obtain ⟨visits, turns, henter⟩ := (s.movedTo c).exists_enterByJump_eq t
  rw [henter]
  rfl

end State

namespace Flow

variable {s u : Story} {id : NodeId} {d : Divert} {c place : Cursor}

/-- Reach the next leaf. -/
def reachNext : Flow (Option (NodeId × Instruction)) := do
  match (← state).cursor with
  | none => return none
  | some c => reachLeaf c

/-- Carry out a divert, follow it, and reach the next leaf. -/
def arrive (id : NodeId) (d : Divert) : Flow (Option (NodeId × Instruction)) := do
  executeLeaf (some (id, .divert d))
  leaveLeaf (some (id, .divert d))
  reachNext

/-- This is what is left of a step that has reached a divert, and the beginning of the next. -/
theorem step_reachNext (hplace : s.state.cursor = some place)
    (hreach : reachLeaf place s = .ok (some (id, .divert d)) u) :
    (do step; reachNext) s = arrive id d u := by
  unfold step
  rw [bind_assoc, bind_ok (state_ok s), hplace]
  dsimp only
  rw [bind_assoc, bind_ok hreach, bind_assoc]
  rfl

/-- Behind a divert that is carried out lies its place. -/
theorem leaveLeaf_divert (hplace : s.state.cursor = some place)
    (hdiverted : s.state.diverted = some c) : leaveLeaf (some (id, .divert d)) s =
      .ok () { s with state := s.state.follow s.tree c } := by
  let moved : Story := { s with state := s.state.setPrevious s.state.cursor }
  have hfollow : followDivert moved = .ok true { s with state := s.state.follow s.tree c } := by
    unfold followDivert
    rw [bind_ok (state_ok moved), show moved.state.diverted = some c from hdiverted]
    rfl
  have hmove : moveHere s = .ok true { s with state := s.state.follow s.tree c } := by
    unfold moveHere
    rw [bind_ok (modifyState_ok _ s), bind_ok hfollow]
    rfl
  unfold leaveLeaf nextContent
  rw [bind_ok (state_ok s), hplace, Option.isNone_some, if_neg Bool.false_ne_true, bind_assoc,
    bind_ok hmove]
  rfl

/-- A divert that is carried out is followed to its place. -/
theorem arrive_eq (hplace : s.state.cursor = some place)
    (hdivert : takeDivert id d s = .ok () { s with state := { s.state with diverted := some c } })
    (hplain : d.conditional = false) :
    arrive id d s = .ok (((c.descend s.tree s.tree.size).node? s.tree).bind fun id =>
      (s.tree.leaf? id).map (id, ·)) { s with state := s.state.arriveAt s.tree c } := by
  have hperform : executeLeaf (some (id, .divert d)) s =
      .ok () { s with state := { s.state with diverted := some c } } := by
    rw [executeLeaf_divert, performDivert, hplain]
    exact hdivert
  let u : Story := { s with state := { s.state with diverted := some c } }
  have hleave : leaveLeaf (some (id, .divert d)) u =
      .ok () { s with state := s.state.follow s.tree c } := leaveLeaf_divert (s := u) hplace rfl
  have hreach : reachLeaf c { s with state := s.state.follow s.tree c } =
      .ok (((c.descend s.tree s.tree.size).node? s.tree).bind fun id =>
        (s.tree.leaf? id).map (id, ·)) { s with state := s.state.arriveAt s.tree c } := by
    unfold reachLeaf
    rw [bind_ok (tree_ok _), bind_ok (enterContainers_eq _ _ c _)]
    rfl
  unfold arrive reachNext
  rw [bind_ok hperform, bind_ok hleave, bind_ok (state_ok _), State.cursor_follow]
  exact hreach

end Flow

/-! ## The two places -/

namespace ContentTree

variable {t : ContentTree} {source id : NodeId} {steps : List Step} {c : Cursor}

/-- The place that a divert leads to by its own path is that of the path in a variable, or the start
of the container that the path in the variable leads to. -/
theorem divertCursor?_of_cursorAt (h : t.cursorAt ⟨steps, false⟩ = .ok (some c, none))
    (source : NodeId) :
    (∃ i, steps.getLast? = some (.index i)) ∧ t.divertCursor? source ⟨steps, false⟩ = some c ∨
      (∃ name, steps.getLast? = some (.name name)) ∧ c = ⟨c.container, -1⟩ ∧
        t.isContainer c.container = true ∧ c.container ≠ rootId ∧
        t.divertCursor? source ⟨steps, false⟩ = some (.start c.container) := by
  rcases List.eq_nil_or_concat steps with rfl | ⟨front, s, rfl⟩
  · cases h
  · rw [List.concat_eq_append] at h ⊢
    rw [cursorAt, Path.last?, List.getLast?_concat] at h
    rw [List.getLast?_concat]
    cases s with
    | index i =>
      refine .inl ⟨⟨i, rfl⟩, ?_⟩
      rw [divertCursor?_index]
      dsimp only at h
      rw [List.dropLast_concat] at h
      split at h
      · cases h
      · exact congrArg Prod.fst (Except.ok.inj h)
    | name name =>
      refine .inr ⟨⟨name, rfl⟩, ?_⟩
      rw [divertCursor?_name]
      dsimp only at h
      split at h
      · cases h
      · next hroot =>
        have hplace := congrArg Prod.fst (Except.ok.inj h)
        obtain ⟨k, hk, rfl⟩ := Option.map_eq_some_iff.mp hplace
        have hnode : (t.follow false rootId (front ++ [.name name])).node = k ∧
            t.isContainer k = true := by
          rw [Found.container?] at hk
          split at hk
          · next hcontainer =>
            cases hk
            exact ⟨rfl, hcontainer⟩
          · cases hk
        refine ⟨rfl, hnode.2, fun hback => hroot ⟨hnode.1.trans hback, by simp⟩, ?_⟩
        rw [targetContainer?, resolve_absolute, hk]
        rfl

theorem ancestry_eq_cons (t : ContentTree) (id : NodeId) :
    t.ancestry id = id :: (t.ancestry id).tail := by
  rw [ancestry]
  split
  · split <;> rfl
  · rfl

/-- Around an element of a container lies the container with what is around it. -/
theorem tail_ancestry_child {child : NodeId} (h : child ∈ t.content id) :
    (t.ancestry child).tail = t.ancestry id := by
  obtain ⟨hlt, -, hparent⟩ := child_of_mem_content h
  rw [ancestry, hparent]
  dsimp only
  rw [if_pos hlt, List.tail_cons]

end ContentTree

namespace State

variable {t : ContentTree} {id : NodeId}

/-- A container that is entered as a whole is entered itself, and then from its start. -/
theorem enterDown_whole (hcontainer : t.isContainer id = true) (hroot : id ≠ rootId) (s : State) :
    s.enterDown t t.size ⟨id, -1⟩ = (if (t.content id).isEmpty then s.enter t id true
      else (s.enter t id true).enterDown t t.size (.start id)) ∧
    Cursor.descend t t.size ⟨id, -1⟩ = if (t.content id).isEmpty then ⟨id, -1⟩
      else (Cursor.start id).descend t t.size := by
  have hnode : (Cursor.node? ⟨id, -1⟩ t).filter t.isContainer = some id := by
    rw [node?_of_neg hcontainer (show (-1 : Int) < 0 by decide), Option.filter_some, if_pos hcontainer]
  have hsize := lt_size_of_isContainer hcontainer
  obtain ⟨depth, hdepth⟩ := Nat.exists_eq_succ_of_ne_zero (Nat.ne_zero_of_lt hsize)
  have hless : t.size ≤ id + depth := by
    have hpos : 0 < id := Nat.pos_of_ne_zero hroot
    rw [hdepth, Nat.succ_eq_add_one, Nat.add_comm]
    exact Nat.add_le_add_right hpos depth
  obtain ⟨hdescend, henter⟩ := Cursor.descend_start hless (Nat.le_add_left t.size id)
  rw [← hdescend, ← henter, hdepth, enterDown, Cursor.descend, hnode]
  exact ⟨rfl, rfl⟩

/-- An empty container is entered itself. -/
theorem enterDown_empty (hcontainer : t.isContainer id = true) (hempty : t.content id = [])
    (s : State) : s.enterDown t t.size (.start id) = s.enter t id true ∧
      (Cursor.start id).descend t t.size = .start id := by
  have hnode : ((Cursor.start id).node? t).filter t.isContainer = some id := by
    rw [node?_start hcontainer, hempty, List.headD_nil, Option.filter_some, if_pos hcontainer]
  obtain ⟨depth, hdepth⟩ :=
    Nat.exists_eq_succ_of_ne_zero (Nat.ne_zero_of_lt (lt_size_of_isContainer hcontainer))
  rw [hdepth, enterDown, Cursor.descend, hnode]
  dsimp only
  rw [hempty]
  exact ⟨rfl, rfl⟩

theorem exists_enterDown_eq (s : State) (t : ContentTree) (depth : Nat) (c : Cursor) :
    ∃ visits turns, s.enterDown t depth c = { s with visits, turns } := by
  induction depth generalizing s c with
  | zero => exact ⟨s.visits, s.turns, rfl⟩
  | succ depth ih =>
    rw [enterDown]
    split
    · exact ⟨s.visits, s.turns, rfl⟩
    · next node _ =>
      obtain ⟨visits, turns, henter⟩ := s.exists_enter_eq t node true
      rw [henter]
      split
      · exact ⟨visits, turns, rfl⟩
      · exact ih { s with visits, turns } _

/-- Following a divert moves, and counts. -/
theorem exists_arriveAt_eq (s : State) (t : ContentTree) (c : Cursor) :
    ∃ visits turns, s.arriveAt t c =
      { s.movedTo (c.descend t t.size) with visits, turns } := by
  unfold arriveAt follow
  obtain ⟨visits, turns, henter⟩ := (s.movedTo c).exists_enterByJump_eq t
  rw [henter]
  obtain ⟨visits', turns', hdown⟩ :=
    exists_enterDown_eq { s.movedTo c with visits, turns } t t.size c
  rw [hdown]
  exact ⟨visits', turns', rfl⟩

/-- The containers that are open at the place of a divert. -/
def openAt (s : State) (t : ContentTree) : List NodeId :=
  (s.setPrevious s.cursor).openBefore t

/-- A divert to a container as a whole enters nothing by itself. -/
theorem follow_whole (s : State) (t : ContentTree) (id : NodeId) :
    s.follow t ⟨id, -1⟩ = s.movedTo ⟨id, -1⟩ :=
  rfl

/-- A divert to the first element of a container enters it, unless it stays in it, and then what is
around it. -/
theorem follow_start (hcontainer : t.isContainer id = true) (s : State) :
    s.follow t (.start id) =
      if t.staysIn (s.openAt t) id then s.movedTo (.start id)
      else (t.entered (s.openAt t) id true (t.ancestry id).tail).foldl
        (fun s entry => s.enter t entry.1 entry.2)
        (if (t.content id).isEmpty then s.movedTo (.start id)
          else (s.movedTo (.start id)).enter t id true) := by
  obtain ⟨c, hc⟩ := Option.isSome_iff_exists.mp hcontainer
  have hcontent : t.content id = c.content := by rw [content, hc]
  have hfollow : s.follow t (.start id) = enterAncestors t (s.openAt t) (s.movedTo (.start id))
      ((t.content id).headD id) true (t.ancestry ((t.content id).headD id)).tail := by
    unfold follow enterByJump
    rw [show (s.movedTo (.start id)).cursor = some (.start id) from rfl]
    dsimp only
    rw [if_neg (show ¬(Cursor.start id).index = -1 from (by decide : ¬(0 : Int) = -1)),
      node?_start hcontainer]
    rfl
  have hstays : t.staysIn (s.openAt t) id =
      (!(t.content id).isEmpty && (s.openAt t).contains id && !c.flags.startOnly) := by
    rw [staysIn, hc, hcontent]
  rw [hfollow, enterAncestors_eq, hstays, hcontent]
  cases helements : c.content with
  | nil => rfl
  | cons child rest =>
    have hchild : child ∈ t.content id := by
      rw [hcontent, helements]
      exact .head _
    rw [List.headD_cons, tail_ancestry_child hchild, ancestry_eq_cons, entered, hc, List.tail_cons]
    dsimp only
    rw [helements]
    simp only [List.isEmpty_cons, Bool.not_false, Bool.true_and, List.head?_cons, Bool.and_true,
      beq_self_eq_true, Bool.false_eq_true, if_false]
    split
    · rfl
    · rfl

/-- What is counted on the way to the first element of a container, and to the container as a
whole. -/
theorem sameCounts_arriveAt (hcontainer : t.isContainer id = true) (hroot : id ≠ rootId) (s : State) :
    (s.arriveAt t (.start id)).SameCounts ((t.countedApart (s.openAt t) id).map (countKey t))
      (s.arriveAt t ⟨id, -1⟩) := by
  have hmoved (apart : List String) :
      (s.movedTo (.start id)).SameCounts apart (s.movedTo ⟨id, -1⟩) := .of_eq rfl rfl rfl
  have hdown : ((s.follow t (.start id)).enterDown t t.size (.start id)).SameCounts
      ((t.countedApart (s.openAt t) id).map (countKey t))
      ((s.follow t ⟨id, -1⟩).enterDown t t.size ⟨id, -1⟩) := by
    rw [follow_start hcontainer, follow_whole, (enterDown_whole hcontainer hroot _).1, countedApart]
    by_cases hstays : t.staysIn (s.openAt t) id = true
    · -- The divert stays in the container, which only the other one counts.
      have hcontent : (t.content id).isEmpty = false := by
        obtain ⟨c, hc⟩ := Option.isSome_iff_exists.mp hcontainer
        rw [staysIn, hc] at hstays
        rw [content, hc]
        simpa using (Bool.and_eq_true_iff.mp (Bool.and_eq_true_iff.mp hstays).1).1
      rw [if_pos hstays, if_pos hstays, hcontent, if_neg Bool.false_ne_true]
      have hself : ((s.movedTo ⟨id, -1⟩).enter t id true).SameCounts ([id].map (countKey t))
          (s.movedTo ⟨id, -1⟩) :=
        sameCounts_enter (s.movedTo ⟨id, -1⟩) fun (_ : t.counts (id, true) = true) => .head _
      exact ((hmoved _).trans hself.symm).enterDown t t.size (.start id)
    · -- The containers around it are entered by this divert alone.
      have hentered : ∀ entry ∈ t.entered (s.openAt t) id true (t.ancestry id).tail,
          t.counts entry = true → countKey t entry.1 ∈
            (((t.entered (s.openAt t) id true (t.ancestry id).tail).filter t.counts).map
              Prod.fst).map (countKey t) := by
        intro entry hentry hcounts
        exact List.mem_map_of_mem (List.mem_map_of_mem (List.mem_filter.mpr ⟨hentry, hcounts⟩))
      rw [if_neg hstays, if_neg hstays]
      cases hempty : (t.content id).isEmpty with
      | true =>
        rw [if_pos rfl, if_pos rfl, (enterDown_empty hcontainer (List.isEmpty_iff.mp hempty) _).1]
        exact ((sameCounts_foldl_enter hentered _).trans (hmoved _)).enter t id true
      | false =>
        rw [if_neg Bool.false_ne_true, if_neg Bool.false_ne_true]
        exact ((sameCounts_foldl_enter hentered _).trans ((hmoved _).enter t id true)).enterDown t
          t.size (.start id)
  exact ⟨hdown.turn, hdown.visits, hdown.turns⟩

end State

namespace Flow

variable {s : Story} {id : NodeId} {name : String} {p : Path} {c place : Cursor}

theorem takeDivert_variable (hvalue : s.state.vars.read? s.content.lists s.state.callStack name =
    some (.target p)) (hpath : s.tree.cursorAt p = .ok (some c, none)) :
    takeDivert id ⟨.jump, .variable name, false⟩ s =
      .ok () { s with state := { s.state with diverted := some c } } := by
  rw [takeDivert_target rfl hvalue, hpath]
  rfl

/-- A divert by a path of its own, and one by the same path in a variable, lead to the same leaf.
If the path ends in an index they do the same. If it leads to a container they lead to the same
place, but in an empty container one stands in front of its elements and the other at the container
as a whole; and they count the same, except for the containers counted apart: the container itself
where the divert stays in it, and else those around it that are entered anew and that count. -/
theorem diverts_agree {steps : List Step} (hplace : s.state.cursor = some place)
    (hvalue : s.state.vars.read? s.content.lists s.state.callStack name =
      some (.target ⟨steps, false⟩))
    (hpath : s.tree.cursorAt ⟨steps, false⟩ = .ok (some c, none)) :
    ∃ leaf u v,
      arrive id ⟨.jump, .path ⟨steps, false⟩, false⟩ s = .ok leaf { s with state := u } ∧
      arrive id ⟨.jump, .variable name, false⟩ s = .ok leaf { s with state := v } ∧
      ((∃ i, steps.getLast? = some (.index i)) → u = v) ∧
      ((∃ n, steps.getLast? = some (.name n)) →
        u.SameCounts ((s.tree.countedApart (s.state.openAt s.tree) c.container).map
          (State.countKey s.tree)) v ∧
        (s.tree.content c.container ≠ [] → v = { u with visits := v.visits, turns := v.turns }) ∧
        (s.tree.content c.container = [] → u.cursor = some (.start c.container) ∧
          v = { u.setCursor (some ⟨c.container, -1⟩) with visits := v.visits, turns := v.turns })) := by
  have htake : takeDivert id ⟨.jump, .variable name, false⟩ s =
      .ok () { s with state := { s.state with diverted := some c } } :=
    takeDivert_variable hvalue hpath
  have hvariable := arrive_eq hplace htake rfl
  have hown {k : Cursor} (hk : s.tree.divertCursor? id ⟨steps, false⟩ = some k) := by
    have htake : takeDivert id ⟨.jump, .path ⟨steps, false⟩, false⟩ s =
        .ok () { s with state := { s.state with diverted := some k } } := by
      rw [takeDivert_eq rfl rfl, hk]
      rfl
    exact arrive_eq hplace htake rfl
  rcases divertCursor?_of_cursorAt hpath id with ⟨⟨i, hi⟩, hk⟩ |
    ⟨⟨n, hn⟩, hwhole, hcontainer, hroot, hk⟩
  · refine ⟨_, _, _, hown hk, hvariable, fun _ => rfl, fun ⟨n, hn⟩ => ?_⟩
    rw [hi] at hn
    cases hn
  · obtain ⟨k, index⟩ := c
    cases hwhole
    obtain ⟨visits, turns, hstart⟩ := s.state.exists_arriveAt_eq s.tree (.start k)
    obtain ⟨visits', turns', hother⟩ := s.state.exists_arriveAt_eq s.tree ⟨k, -1⟩
    have hcounts := State.sameCounts_arriveAt hcontainer hroot s.state
    have hdescend := (State.enterDown_whole hcontainer hroot s.state).2
    cases hcontent : s.tree.content k with
    | nil =>
      have hempty := (State.enterDown_empty hcontainer hcontent s.state).2
      rw [hcontent, List.isEmpty_nil, if_pos rfl] at hdescend
      have hsame : (Cursor.start k).node? s.tree = Cursor.node? ⟨k, -1⟩ s.tree := by
        rw [node?_start hcontainer, hcontent, node?_of_neg hcontainer (show (-1 : Int) < 0 by decide)]
        rfl
      have hleaf := hown hk
      rw [hempty, hsame] at hleaf
      rw [hdescend] at hvariable
      refine ⟨_, _, _, hleaf, hvariable, fun ⟨i, hi⟩ => ?_, fun _ => ⟨hcounts, fun hne =>
        absurd rfl hne, fun _ => ?_⟩⟩
      · rw [hn] at hi
        cases hi
      · rw [hstart, hother, hempty, hdescend]
        exact ⟨rfl, rfl⟩
    | cons child rest =>
      rw [hcontent, List.isEmpty_cons, if_neg Bool.false_ne_true] at hdescend
      have hleaf := hown hk
      rw [← hdescend] at hleaf
      refine ⟨_, _, _, hleaf, hvariable, fun ⟨i, hi⟩ => ?_, fun _ => ⟨hcounts, fun _ => ?_,
        fun hnil => nomatch hnil⟩⟩
      · rw [hn] at hi
        cases hi
      · rw [hstart, hother, hdescend]

/-- A divert to a stitch of a knot, and one through a variable. -/
def crossing : Content :=
  ⟨0, formatVersion, .ofBlock (.container none ⟨false, false, false⟩
    [.leaf (.divert ⟨.jump, .path ⟨[.name "k", .name "s"], false⟩, false⟩),
      .leaf (.divert ⟨.jump, .variable "x", false⟩)]
    [("k", .container (some "k") ⟨true, false, false⟩ [.leaf (.value (.text "knot"))]
      [("s", .container (some "s") ⟨true, false, false⟩ [.leaf (.value (.text "stitch"))] [])])]),
    .empty⟩

/-- The story in front of the diverts, with the stitch in the variable. -/
def crossingStory : Story :=
  let start := Story.unstarted crossing 0
  { start with state := { start.state with vars := { start.state.vars with
    globals := SortedMap.empty.insert "x" (.target ⟨[.name "k", .name "s"], false⟩) } } }

/-- The two diverts lead to the stitch, and are told apart only by the count of the knot. -/
theorem crossing_agrees : ∃ leaf u v,
    arrive 1 ⟨.jump, .path ⟨[.name "k", .name "s"], false⟩, false⟩ crossingStory =
      .ok leaf { crossingStory with state := u } ∧
    arrive 1 ⟨.jump, .variable "x", false⟩ crossingStory =
      .ok leaf { crossingStory with state := v } ∧
    u.SameCounts ["k"] v ∧ v = { u with visits := v.visits, turns := v.turns } := by
  have hplace : crossingStory.state.cursor = some ⟨0, 0⟩ := by decide +kernel
  have hvalue : crossingStory.state.vars.read? crossing.lists crossingStory.state.callStack "x" =
      some (.target ⟨[.name "k", .name "s"], false⟩) := rfl
  have hpath : crossing.tree.cursorAt ⟨[.name "k", .name "s"], false⟩ =
      .ok (some ⟨5, -1⟩, none) := rfl
  obtain ⟨leaf, u, v, hu, hv, -, hagree⟩ := @diverts_agree crossingStory 1 _ _ _ _ hplace hvalue hpath
  obtain ⟨hcounts, hsame, -⟩ := hagree ⟨"s", rfl⟩
  have hapart : ((crossing.tree.countedApart (crossingStory.state.openAt crossing.tree) 5).map
      (State.countKey crossing.tree)) = ["k"] := by decide +kernel
  have hcontent : crossing.tree.content 5 ≠ [] := by decide +kernel
  exact ⟨leaf, u, v, hu, hv, hapart ▸ hcounts, hsame hcontent⟩

/-- By its own path the divert counts a visit to the knot, through the variable it does not. -/
theorem crossing_counts_differ :
    crossing.tree.cursorAt ⟨[.name "k", .name "s"], false⟩ = .ok (some ⟨5, -1⟩, none) ∧
    crossingStory.state.vars.read? crossing.lists crossingStory.state.callStack "x" =
      some (.target ⟨[.name "k", .name "s"], false⟩) ∧
    ((arrive 1 ⟨.jump, .path ⟨[.name "k", .name "s"], false⟩, false⟩).after
      crossingStory).state.visits? crossing.tree 3 = some 1 ∧
    ((arrive 1 ⟨.jump, .variable "x", false⟩).after crossingStory).state.visits? crossing.tree 3 =
      some 0 :=
  ⟨rfl, rfl, by decide +kernel, by decide +kernel⟩

end Flow

end StoryMachine
