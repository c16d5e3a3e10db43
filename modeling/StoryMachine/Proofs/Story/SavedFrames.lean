import StoryMachine.Proofs.Content.Addresses
import StoryMachine.Proofs.Story.Arrivals
import StoryMachine.Proofs.Story.SavedThreads
import StoryMachine.Proofs.Story.SavedValues

/-!
# Saved frames

A thread is saved with its frames, and comes back with them: a frame has its place, its kind, and the
values of its temporary variables again. The place executed before is saved as the path of what
stands there. Where nothing does, as behind the last element of a container, and at the root, the
thread comes back as if nothing had been executed before it, so that containers that were open are
entered anew.

* `Frame.SameAs`, `Frame.ofJson_of_savable` : frames come back;
* `ContentTree.openAt`, `ContentTree.openAt_saved` : the containers that are open at a saved place;
* `Thread.comes_back` : threads come back;
* `ValueRun.threads_come_back` : this is so in every story.
-/

namespace StoryMachine

variable {t : ContentTree}

/-! ## Frames -/

namespace Frame

/-- A save keeps the variables of the frame. -/
def Savable (f : Frame) : Prop :=
  ∀ e ∈ f.temporaries.entries, e.2.Savable

/-- What comes back of a frame: all but the marks that are not saved. -/
structure SameAs (f g : Frame) : Prop where
  cursor : g.cursor = f.cursor
  kind : g.kind = f.kind
  inExpression : g.inExpression = f.inExpression
  temporaries : ∀ name, Option.Rel Value.SameAs (f.temporaries.get? name) (g.temporaries.get? name)

variable {f : Frame}

/-- What a frame is read as from what is saved of it. -/
def reread (f : Frame) : Frame :=
  { new f.kind f.cursor with
    inExpression := f.inExpression
    temporaries := f.temporaries.map fun _ v => v.normal }

theorem Savable.sameAs_reread (h : f.Savable) : f.SameAs f.reread := by
  refine ⟨rfl, rfl, rfl, fun name => ?_⟩
  rw [reread, SortedMap.get?_map]
  cases hvalue : f.temporaries.get? name with
  | none => exact .none
  | some v => exact .some (h (name, v) (SortedMap.mem_entries_iff.mpr hvalue)).sameAs_normal

theorem field?_toJson (f : Frame) :
    (f.toJson t).field? "cPath" = f.cursor.map (fun c => .str (t.path c.container).render) ∧
      (f.toJson t).field? "idx" = f.cursor.map (fun c => .int c.index) ∧
      (f.toJson t).field? "exp" = some (.bool f.inExpression) ∧
      (f.toJson t).field? "type" = some (.int f.kind.toInt) ∧
      (f.toJson t).field? "temp" =
        if f.temporaries.isEmpty then none else some (Json.ofTable Value.toJson f.temporaries) := by
  unfold toJson
  cases f.cursor <;> cases f.temporaries.isEmpty <;> simp

end Frame

theorem ContentTree.find_path {id : NodeId} (hnames : t.root.WellNamed) (hindexed : t.root.Indexed)
    (hid : id < t.size) : t.find (Path.parse (t.path id).render) = ⟨id, false⟩ := by
  rw [parse_render_path hnames hindexed hid, find_own_path hnames hid]

namespace Frame

variable {f : Frame}

theorem cursorOfJson_toJson (hnames : t.root.WellNamed) (hindexed : t.root.Indexed)
    (h : ∀ c ∈ f.cursor, c.IsPlace t) : cursorOfJson t (f.toJson t) = .ok (f.cursor, []) := by
  obtain ⟨hpath, hindex, -⟩ := f.field?_toJson (t := t)
  unfold cursorOfJson
  rw [hpath, hindex]
  cases hcursor : f.cursor with
  | none => rfl
  | some c =>
    obtain ⟨hcontainer, hwrap⟩ := h c hcursor
    have hwrap := hwrap hindexed
    have hfind := ContentTree.find_path hnames hindexed (ContentTree.lt_size_of_isContainer hcontainer)
    have hint : (Json.int c.index).int64? = some c.index := if_pos (hwrap ▸ wrap32_lt c.index)
    simp only [Option.map_some, Option.bind_some, Json.str?, hint, hfind, Found.container?]
    rw [if_pos hcontainer, hwrap]
    rfl

/-- A frame comes back from what is saved of it. -/
theorem ofJson_of_savable (hnames : t.root.WellNamed) (hindexed : t.root.Indexed)
    (hsound : f.Sound t Value.PathReads) (h : f.Savable) :
    ofJson t (f.toJson t) = .ok (f.reread, []) := by
  obtain ⟨-, -, hexp, hkind, htemp⟩ := f.field?_toJson (t := t)
  have hkindRead : (Json.int f.kind.toInt).int64? = some f.kind.toInt := by
    cases f.kind <;> rfl
  unfold ofJson
  rw [hexp, hkind, htemp, cursorOfJson_toJson hnames hindexed hsound.cursor, Option.bind_some,
    hkindRead]
  dsimp only
  rw [FrameKind.ofInt_toInt]
  unfold reread
  cases hempty : f.temporaries.isEmpty with
  | true =>
    have hnone : f.temporaries = .empty := SortedMap.ext (List.isEmpty_iff.mp hempty)
    rw [hnone]
    rfl
  | false =>
    rw [if_neg Bool.false_ne_true]
    show (Value.tableOfJson (f.temporaries.entries.map fun e => (e.1, e.2.toJson)) >>= _) = _
    rw [Value.tableOfJson_of_savable h hsound.temporaries]
    rfl

theorem listOfJson_of_savable (hnames : t.root.WellNamed) (hindexed : t.root.Indexed)
    {frames : List Frame} (hsound : ∀ f ∈ frames, f.Sound t Value.PathReads)
    (h : ∀ f ∈ frames, f.Savable) :
    listOfJson t (frames.map (Frame.toJson t)) = .ok (frames.map reread, []) := by
  induction frames with
  | nil => rfl
  | cons f rest ih =>
    rw [List.map_cons, listOfJson, ofJson_of_savable hnames hindexed (hsound f List.mem_cons_self)
      (h f List.mem_cons_self), ih (fun g hg => hsound g (List.mem_cons_of_mem f hg))
      fun g hg => h g (List.mem_cons_of_mem f hg)]
    rfl

end Frame

/-! ## Open containers -/

namespace ContentTree

/-- The containers that are open at the place executed before. -/
def openAt (t : ContentTree) (previous : Option Cursor) : List NodeId :=
  match previous with
  | none => []
  | some c =>
    match (c.node? t).filter t.isContainer with
    | some id => t.ancestry id
    | none => t.ancestry c.container

variable {c : Cursor} {id : NodeId}

theorem openAt_of_node? (h : c.node? t = some id) (hcontainer : t.isContainer id = true) :
    t.openAt (some c) = t.ancestry id := by
  rw [openAt, h, Option.filter_some, if_pos hcontainer]

theorem openAt_some_ne_nil (t : ContentTree) (c : Cursor) : t.openAt (some c) ≠ [] := by
  unfold openAt
  dsimp only
  split
  · rw [ancestry_eq_cons]
    exact List.cons_ne_nil _ _
  · rw [ancestry_eq_cons]
    exact List.cons_ne_nil _ _

/-- At a place stands its container, or an element of it. -/
theorem node?_cases (h : c.node? t = some id) :
    t.isContainer id = true ∨ 0 ≤ c.index ∧ (t.content c.container)[c.index.toNat]? = some id := by
  unfold Cursor.node? at h
  cases hk : t.container? c.container with
  | none =>
    rw [hk] at h
    cases h
  | some k =>
    rw [hk] at h
    dsimp only at h
    split at h
    · cases h
      exact .inl (by rw [isContainer, hk]; rfl)
    · next helement =>
      rw [Bool.or_eq_true, decide_eq_true_eq, not_or] at helement
      refine .inr ⟨Int.not_lt.mp helement.1, ?_⟩
      rw [content, hk]
      exact h

/-- At the place that is read for a node other than the root the same containers are open. -/
theorem openAt_saved (hnames : t.root.WellNamed) (hindexed : t.root.Indexed)
    (h : c.node? t = some id) (hroot : id ≠ rootId) :
    ∃ found, t.cursorAt (Path.parse (t.path id).render) = .ok (some found, none) ∧
      t.openAt (some found) = t.openAt (some c) := by
  cases hcontainer : t.isContainer id with
  | true =>
    obtain ⟨found, hfound, hnode⟩ := cursorAt_path_container hnames hindexed hcontainer hroot
    exact ⟨found, hfound, by rw [openAt_of_node? hnode hcontainer, openAt_of_node? h hcontainer]⟩
  | false =>
    obtain ⟨hindex, hmem⟩ := (node?_cases h).resolve_left (Bool.eq_false_iff.mp hcontainer)
    refine ⟨c, ?_, rfl⟩
    have hplace := cursorAt_path_leaf hnames hindexed hmem hcontainer
    rwa [Int.toNat_of_nonneg hindex] at hplace

end ContentTree

theorem State.openBefore_eq (s : State) (t : ContentTree) : s.openBefore t = t.openAt s.previous :=
  rfl

/-! ## Threads -/

namespace Thread

open ContentTree (rootId)

variable {thread : Thread}

/-- A save keeps the frames. -/
def Savable (thread : Thread) : Prop :=
  ∀ f ∈ thread.frames, f.Savable

theorem field?_toJson (thread : Thread) :
    (thread.toJson t).field? "callstack" = some (Json.array (Frame.toJson t) thread.frames) ∧
      (thread.toJson t).field? "previousContentObject" =
        (thread.previous.bind (Cursor.node? · t)).map fun id => .str (t.path id).render := by
  unfold toJson
  cases thread.previous.bind (Cursor.node? · t) <;> simp

/-- Where the thread executed something before, a node other than the root stands. -/
def KeepsPrevious (thread : Thread) (t : ContentTree) : Prop :=
  ∀ c ∈ thread.previous, ∃ id, c.node? t = some id ∧ id ≠ rootId

/-- The place executed before is read from what is saved of it, if anything is. -/
theorem exists_previous (hnames : t.root.WellNamed) (hindexed : t.root.Indexed) (thread : Thread) :
    ∃ previous, (((thread.toJson t).field? "previousContentObject" = none ∧ previous = none) ∨
        ∃ path, (thread.toJson t).field? "previousContentObject" = some (.str path) ∧
          t.cursorAt (Path.parse path) = .ok (previous, none)) ∧
      (t.openAt previous = t.openAt thread.previous ↔ thread.KeepsPrevious t) := by
  have hlost {c : Cursor} (hc : thread.previous = some c)
      (hnode : ∀ id, c.node? t = some id → id = rootId) :
      t.openAt none = t.openAt thread.previous ↔ thread.KeepsPrevious t := by
    rw [hc]
    refine ⟨fun h => absurd h.symm (t.openAt_some_ne_nil c), fun h => ?_⟩
    obtain ⟨id, hid, hroot⟩ := h c hc
    exact absurd (hnode id hid) hroot
  rw [thread.field?_toJson.2]
  cases hnode : thread.previous.bind (Cursor.node? · t) with
  | none =>
    refine ⟨none, .inl ⟨rfl, rfl⟩, ?_⟩
    cases hc : thread.previous with
    | none =>
      refine iff_of_true rfl fun c hmem => ?_
      rw [hc] at hmem
      cases hmem
    | some c =>
      rw [hc, Option.bind_some] at hnode
      have hiff := hlost hc fun id hid => by rw [hnode] at hid; cases hid
      rwa [hc] at hiff
  | some id =>
    obtain ⟨c, hc, hid⟩ := Option.bind_eq_some_iff.mp hnode
    by_cases hroot : id = rootId
    · subst hroot
      refine ⟨none, .inr ⟨_, rfl, ?_⟩, hlost hc fun id' hid' => Option.some.inj (hid'.symm.trans hid)⟩
      rw [ContentTree.path_rootId]
      rfl
    · obtain ⟨found, hfound, hopen⟩ := ContentTree.openAt_saved hnames hindexed hid hroot
      refine ⟨some found, .inr ⟨_, rfl, hfound⟩, iff_of_true (by rw [hopen, hc]) fun c' hc' => ?_⟩
      rw [hc, Option.mem_some] at hc'
      subst hc'
      exact ⟨id, hid, hroot⟩

/-- A thread is read from what is saved of it, frame by frame. -/
theorem exists_ofJson_toJson (hnames : t.root.WellNamed) (hindexed : t.root.Indexed)
    (hsound : thread.Sound t Value.PathReads) (h : thread.Savable) :
    ∃ previous, ofJson t (thread.toJson t) =
        .ok (⟨thread.top.reread, thread.below.map Frame.reread, previous, thread.index⟩, []) ∧
      (t.openAt previous = t.openAt thread.previous ↔ thread.KeepsPrevious t) := by
  obtain ⟨previous, hprevious, hopen⟩ := exists_previous hnames hindexed thread
  have hreverse : (thread.frames.map Frame.reread).reverse =
      thread.top.reread :: thread.below.map Frame.reread := by
    rw [frames, List.map_reverse, List.reverse_reverse, List.map_cons]
  have hindex : (Json.nat thread.index).nat? = some thread.index := by
    simp [Json.nat, Json.nat?]
  have hread := Frame.listOfJson_of_savable hnames hindexed (fun f hf => hsound.of_mem_frames hf) h
  refine ⟨previous, ?_, hopen⟩
  unfold ofJson
  rw [thread.field?_toJson_index, Option.bind_some, hindex, thread.field?_toJson.1]
  dsimp only [Option.bind_some, Json.array, Json.arr?]
  rw [hread]
  dsimp only [bind, Except.bind]
  rw [hreverse]
  dsimp only
  rcases hprevious with ⟨hfield, rfl⟩ | ⟨path, hfield, hplace⟩
  · rw [hfield]
    rfl
  · rw [hfield, Option.bind_some, Json.str?]
    dsimp only
    rw [hplace]
    rfl

/-- In a tree whose names a path can tell, a thread comes back from what is saved of it, without a
warning: it has its number and its frames. The containers that are open at the place executed before
are the same again if a node other than the root stands there, and only then. -/
theorem comes_back (hnames : t.root.WellNamed) (hindexed : t.root.Indexed)
    (hsound : thread.Sound t Value.PathReads) (h : thread.Savable) :
    ∃ loaded, ofJson t (thread.toJson t) = .ok (loaded, []) ∧ loaded.index = thread.index ∧
      List.Forall₂ Frame.SameAs thread.frames loaded.frames ∧
      (t.openAt loaded.previous = t.openAt thread.previous ↔ thread.KeepsPrevious t) := by
  obtain ⟨previous, hread, hopen⟩ := exists_ofJson_toJson hnames hindexed hsound h
  refine ⟨_, hread, rfl, ?_, hopen⟩
  have hframes : (⟨thread.top.reread, thread.below.map Frame.reread, previous, thread.index⟩ :
      Thread).frames = thread.frames.map Frame.reread := by
    rw [frames, frames, List.map_reverse, List.map_cons]
  rw [hframes, List.forall₂_map_right_iff, List.forall₂_same]
  exact fun f hf => (h f hf).sameAs_reread

end Thread

/-! ## Stories -/

theorem State.Sound.thread {t : ContentTree} {V : Value → Prop} {s : State} (h : s.Sound t V)
    {thread : Thread} (hthread : thread ∈ s.callStack.threads ++ s.choices.map Choice.thread) :
    thread.Sound t V := by
  rcases List.mem_append.mp hthread with hlive | hchoice
  · rcases List.mem_cons.mp (List.mem_reverse.mp hlive) with rfl | hother
    · exact h.callStack.current
    · exact h.callStack.others _ hother
  · obtain ⟨o, ho, rfl⟩ := List.mem_map.mp hchoice
    exact h.choices o ho

/-- In every story that has been read, whose names a path can tell, every thread, live or that of a
choice, comes back from what is saved of it, without a warning: it has its number and its frames. The
containers that are open at the place executed before are the same again if nothing was executed
before, or if a node other than the root stands there, and only then. -/
theorem ValueRun.threads_come_back {key : Nat} {j : Json} {c : Content} (hj : j.Canonical)
    (hread : Content.ofJson key j = .ok c) (hnames : c.tree.root.WellNamed)
    (hindexed : c.tree.root.Indexed) {s : Story} (hs : ValueRun c Value.PathReads s)
    {thread : Thread}
    (hthread : thread ∈ s.state.callStack.threads ++ s.state.choices.map Choice.thread)
    (hsavable : ∀ f ∈ thread.frames, ∀ e ∈ f.temporaries.entries, e.2.Savable) :
    ∃ loaded, Thread.ofJson c.tree (thread.toJson c.tree) = .ok (loaded, []) ∧
      loaded.index = thread.index ∧ List.Forall₂ Frame.SameAs thread.frames loaded.frames ∧
      (c.tree.openAt loaded.previous = c.tree.openAt thread.previous ↔
        ∀ place ∈ thread.previous, ∃ id, place.node? c.tree = some id ∧ id ≠ ContentTree.rootId) :=
  Thread.comes_back hnames hindexed
    ((hs.sound (Content.carries_pathReads hj hread)).state.thread hthread) hsavable

/-- A story with a choice behind a container that ends by going to its own end. -/
def rejoiningJson : Json :=
  .obj [("inkVersion", .int 21), ("root", .arr [.str "^Hi", .arr [.obj [("->", .str "1.1")], .null],
    .obj [("*", .str "on"), ("flg", .int 0)], .str "done",
    .obj [("on", .arr [.str "^On", .null])]])]

/-- The content of this story. -/
def rejoining : Content :=
  ⟨0, 21, .ofBlock (.container none ⟨false, false, false⟩
    [.leaf (.value (.text "Hi")),
      .container none ⟨false, false, false⟩
        [.leaf (.divert ⟨.jump, .path ⟨[.index 1, .index 1], false⟩, false⟩)] [],
      .leaf (.choicePoint ⟨false, false, false, false, false, ⟨[.name "on"], false⟩⟩),
      .leaf (.command .done)]
    [("on", .container (some "on") ⟨false, false, false⟩ [.leaf (.value (.text "On"))] [])]), .empty⟩

/-- Whether there is one choice, made behind the place, with no temporary variable. -/
def State.offersBehind (s : State) (place : Cursor) : Bool :=
  match s.choices with
  | [o] => o.thread.previous = some place && o.thread.frames.all fun f => f.temporaries.isEmpty
  | _ => false

theorem State.choice_of_offersBehind {s : State} {place : Cursor} (h : s.offersBehind place = true) :
    ∃ o ∈ s.choices, o.thread.previous = some place ∧
      ∀ f ∈ o.thread.frames, f.temporaries.entries = [] := by
  unfold offersBehind at h
  split at h
  · next o ho =>
    rw [Bool.and_eq_true, decide_eq_true_eq, List.all_eq_true] at h
    obtain ⟨hprevious, hempty⟩ := h
    exact ⟨o, ho ▸ List.mem_singleton_self o, hprevious,
      fun f hf => List.isEmpty_iff.mp (hempty f hf)⟩
  · cases h

/-- The thread of the choice comes back, but not where it was. -/
theorem rejoining_is_forgotten : ∃ s o loaded, ValueRun rejoining Value.PathReads s ∧
    o ∈ s.state.choices ∧
    Thread.ofJson rejoining.tree (o.thread.toJson rejoining.tree) = .ok (loaded, []) ∧
    List.Forall₂ Frame.SameAs o.thread.frames loaded.frames ∧
    rejoining.tree.openAt loaded.previous ≠ rejoining.tree.openAt o.thread.previous := by
  have hj : rejoiningJson.Canonical := by decide +kernel
  have hread : Content.ofJson 0 rejoiningJson = .ok rejoining := rfl
  have hnames : rejoining.tree.root.WellNamed := by decide +kernel
  have hindexed : rejoining.tree.root.Indexed := by decide +kernel
  let first := Story.undeclared rejoining 0
  have hstart : Story.ofContent rejoining 0 = .ok first := Story.ofContent_undeclared rfl rfl
  let s := HostCall.next.after first
  have hrun : ValueRun rejoining Value.PathReads s := .call (.start hstart) .next trivial
  have hoffers : s.state.offersBehind ⟨2, 1⟩ = true := by decide +kernel
  obtain ⟨o, hmem, hprevious, hempty⟩ := State.choice_of_offersBehind hoffers
  have hsavable : ∀ f ∈ o.thread.frames, ∀ e ∈ f.temporaries.entries, e.2.Savable := by
    intro f hf e he
    rw [hempty f hf] at he
    cases he
  obtain ⟨loaded, hloaded, -, hframes, hopen⟩ := ValueRun.threads_come_back hj hread hnames hindexed
    hrun (List.mem_append_right _ (List.mem_map_of_mem hmem)) hsavable
  refine ⟨s, o, loaded, hrun, hmem, hloaded, hframes, fun hsame => ?_⟩
  obtain ⟨id, hid, -⟩ := hopen.mp hsame ⟨2, 1⟩ hprevious
  cases hid

end StoryMachine
