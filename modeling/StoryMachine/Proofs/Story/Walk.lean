import StoryMachine.Proofs.Content.Order
import StoryMachine.Proofs.Story.Arrivals

/-!
# Walking through content

As long as nothing diverts it, the machine goes from one node to the next: it enters the containers
down to a leaf, or to a container without content, and moves on behind it. At the end of a container
that means to climb to its parent, and to look for the place of the container there. All the same it
is a walk through the order of content: each node in which a way down ends is met once, in the order
in which the content is read, and the walk ends with the root, or with the container reached by name
only, in which it has begun.

* `Flow.walk` : the nodes that are met, told by the pieces that a step is made of;
* `ContentTree.onward` : a node and what is read behind it, up to the end of the outermost container;
* `ContentTree.Walks` : the nodes passed from a place on, those entered included;
* `ContentTree.walks_onward` : from a node on, this is what is read behind it;
* `Flow.walk_in_order` : the walk.
-/

namespace StoryMachine

open ContentTree

namespace ContentTree

/-- Whether there is a leaf at a place, or a container without content. -/
def isBare (t : ContentTree) (id : NodeId) : Bool :=
  (t.content id).isEmpty

/-- A node with all that is read behind it in its outermost container. -/
def onward (t : ContentTree) (id : NodeId) : List NodeId :=
  (t.inOrder (t.outermost id)).dropWhile (· != id)

/-- The place behind a node in the content of its parent. -/
def behind? (t : ContentTree) (id : NodeId) : Option Cursor :=
  match t.parent? id with
  | none => none
  | some parent =>
    if parent < id then
      match (t.content parent).idxOf? id with
      | none => none
      | some i => State.nextCursor? t ⟨parent, i⟩
    else none

end ContentTree

/-- Enter containers at their starts. -/
def State.enterAll (s : State) (t : ContentTree) (ids : List NodeId) : State :=
  ids.foldl (fun s id => s.enter t id true) s

namespace Flow

/-- Meet up to `limit` nodes: each is reached as by a step, and left for the place behind it. -/
def walk : (limit : Nat) → Flow (List NodeId)
  | 0 => return []
  | limit + 1 => do
    match (← state).cursor with
    | none => return []
    | some c =>
      let t ← tree
      let _ ← reachLeaf c
      let met := (← state).cursor.bind (Cursor.node? · t)
      let _ ← withState fun s => s.advance t
      return met.toList ++ (← walk limit)

end Flow

namespace ContentTree

variable {t : ContentTree} {id child parent : Nat} {c : Cursor} {ids rest : List NodeId}

/-! ## The place behind a node -/

theorem nextCursor?_eq (t : ContentTree) (c : Cursor) :
    State.nextCursor? t c =
      if 0 ≤ c.index + 1 ∧ c.index + 1 < (t.content c.container).length then
        some ⟨c.container, c.index + 1⟩
      else t.behind? c.container := by
  rw [State.nextCursor?]
  rfl

/-- An element is left for the place behind its index. -/
theorem behind?_of_getElem? {i : Nat} (h : (t.content parent)[i]? = some child) :
    t.behind? child = State.nextCursor? t ⟨parent, i⟩ := by
  obtain ⟨hi, rfl⟩ := List.getElem?_eq_some_iff.mp h
  obtain ⟨hlt, -, hparent⟩ := child_of_mem_content (List.getElem_mem hi)
  have hidx : (t.content parent).idxOf? (t.content parent)[i] = some i := by
    rw [List.idxOf?_eq_some_iff]
    exact ⟨hi, rfl, fun j hj hsame => hj.ne ((List.getElem_inj (t.nodup_content parent)).mp hsame)⟩
  rw [behind?, hparent]
  dsimp only
  rw [if_pos hlt, hidx]

/-- Behind an element comes the next one, and behind the last one what comes behind the
container. -/
theorem behind?_of_content {front behind : List NodeId}
    (h : t.content parent = front ++ child :: behind) :
    t.behind? child =
      if behind.isEmpty then t.behind? parent else some ⟨parent, (front.length + 1 : Nat)⟩ := by
  have hget : (t.content parent)[front.length]? = some child := by simp [h]
  rw [behind?_of_getElem? hget, nextCursor?_eq]
  cases behind with
  | nil =>
    rw [if_neg]
    · rfl
    · simp [h]
  | cons next more =>
    rw [if_pos]
    · rfl
    · rw [h, List.length_append, List.length_cons, List.length_cons]
      dsimp only
      omega

/-- No place is behind an outermost container. -/
theorem behind?_outermost (t : ContentTree) (id : NodeId) : t.behind? (t.outermost id) = none := by
  fun_induction outermost t id with
  | case1 id hparent => rw [behind?, hparent]
  | case2 _ _ _ _ _ ih => exact ih
  | case3 id parent hparent hlt hout =>
    rw [behind?, hparent]
    dsimp only
    rw [if_pos hlt, List.idxOf?_eq_none_iff.mpr hout]
  | case4 id parent hparent hle =>
    rw [behind?, hparent]
    dsimp only
    rw [if_neg hle]

/-- A leaf, or a container without content, is left for the place behind it, whichever way the
place of execution tells it. -/
theorem nextCursor?_of_isBare (hnode : c.node? t = some id) (hbare : t.isBare id = true) :
    State.nextCursor? t c = t.behind? id := by
  unfold Cursor.node? at hnode
  cases hk : t.container? c.container with
  | none =>
    rw [hk] at hnode
    cases hnode
  | some k =>
    rw [hk] at hnode
    dsimp only at hnode
    split at hnode
    · obtain rfl := Option.some.inj hnode
      rw [nextCursor?_eq, List.isEmpty_iff.mp hbare, if_neg]
      simp
    · next helement =>
      rw [Bool.or_eq_true, decide_eq_true_eq, not_or, Int.not_lt] at helement
      have hget : (t.content c.container)[c.index.toNat]? = some id := by
        rw [content, hk]
        exact hnode
      rw [behind?_of_getElem? hget, Int.toNat_of_nonneg helement.1]

/-! ## Walking -/

/-- The nodes passed from a place on: a container with content is entered at its start, and
anything else left for the place behind it. -/
inductive Walks (t : ContentTree) : Option Cursor → List NodeId → Prop
  | nowhere : Walks t none []
  | enter {c : Cursor} {id : NodeId} {ids : List NodeId} (hnode : c.node? t = some id)
      (hcontent : t.isBare id = false) (h : Walks t (some (.start id)) ids) :
      Walks t (some c) (id :: ids)
  | leave {c : Cursor} {id : NodeId} {ids : List NodeId} (hnode : c.node? t = some id)
      (hbare : t.isBare id = true) (h : Walks t (State.nextCursor? t c) ids) :
      Walks t (some c) (id :: ids)

/-- The elements of a container are passed one behind the other. -/
theorem walks_elements (front : List NodeId) {elements : List NodeId}
    (h : t.content parent = front ++ elements) (hne : elements ≠ [])
    (hpass : ∀ child ∈ elements, ∀ c rest, c.node? t = some child →
      t.Walks (t.behind? child) rest → t.Walks (some c) (t.inOrder child ++ rest))
    (hrest : t.Walks (t.behind? parent) rest) :
    t.Walks (some ⟨parent, front.length⟩) (elements.flatMap t.inOrder ++ rest) := by
  induction elements generalizing front with
  | nil => exact absurd rfl hne
  | cons child behind ih =>
    have hget : (t.content parent)[front.length]? = some child := by simp [h]
    rw [List.flatMap_cons, List.append_assoc]
    refine hpass child (.head _) _ _ (node?_of_getElem? hget) ?_
    rw [behind?_of_content h]
    cases behind with
    | nil => exact hrest
    | cons next more =>
      have hnext := ih (front ++ [child]) (by rw [h, List.append_assoc]; rfl)
        (List.cons_ne_nil _ _) fun child hchild => hpass child (.tail _ hchild)
      rwa [List.length_append] at hnext

/-- From a node on, it is passed with all of its content, and then what is passed from the place
behind it on. -/
theorem walks_inOrder {id : Nat} {c : Cursor} {rest : List NodeId} (hnode : c.node? t = some id)
    (hrest : t.Walks (t.behind? id) rest) : t.Walks (some c) (t.inOrder id ++ rest) := by
  cases hbare : t.isBare id with
  | true =>
    rw [inOrder_eq, List.isEmpty_iff.mp hbare]
    refine .leave hnode hbare ?_
    rwa [nextCursor?_of_isBare hnode hbare]
  | false =>
    rw [inOrder_eq]
    refine .enter hnode hbare ?_
    refine walks_elements [] rfl (fun hnil => ?_) (fun child hchild c rest hc hbehind => ?_)
      hrest
    · rw [isBare, hnil] at hbare
      cases hbare
    · have hlt := child_of_mem_content hchild
      exact walks_inOrder hc hbehind
termination_by t.size - id

/-- Around a node in an order that nothing comes behind. -/
theorem InContent.exists_split (h : t.InContent parent id) (hlast : t.behind? parent = none) :
    ∃ front back, t.inOrder parent = front ++ (t.inOrder id ++ back) ∧
      t.Walks (t.behind? id) back := by
  induction h with
  | self => exact ⟨[], [], by simp, hlast ▸ .nowhere⟩
  | @child outer child _ hchild ih =>
    obtain ⟨front, back, hsplit, hback⟩ := ih
    obtain ⟨before, behind, hcontent⟩ := List.append_of_mem hchild
    refine ⟨front ++ outer :: before.flatMap t.inOrder, behind.flatMap t.inOrder ++ back, ?_, ?_⟩
    · rw [hsplit, inOrder_eq t outer, hcontent]
      simp
    · rw [behind?_of_content hcontent]
      cases behind with
      | nil => exact hback
      | cons next more =>
        have hnext := walks_elements (before ++ [child])
          (by rw [hcontent, List.append_assoc]; rfl) (List.cons_ne_nil next more)
          (fun _ _ _ _ hc hbehind => walks_inOrder hc hbehind) hback
        rwa [List.length_append] at hnext

/-- **From a node on, what is passed is what is read behind it.** -/
theorem walks_onward (hnode : c.node? t = some id) : t.Walks (some c) (t.onward id) := by
  obtain ⟨front, back, hsplit, hback⟩ :=
    (t.inContent_outermost id).exists_split (t.behind?_outermost id)
  have hsorted := t.inOrder_sorted (t.outermost id)
  have honward : t.onward id = t.inOrder id ++ back := by
    rw [hsplit, List.pairwise_append] at hsorted
    rw [onward, hsplit, List.dropWhile_append_of_pos]
    · rw [inOrder_eq, List.cons_append, List.dropWhile_cons_of_neg]
      simp
    · intro node hfront
      rw [bne_iff_ne]
      exact (hsorted.2.2 node hfront id (List.mem_append_left _ (t.mem_inOrder_self id))).ne
  rw [honward]
  exact walks_inOrder hnode hback

/-- Behind the first element of the root comes everything that is read in the root. -/
theorem filter_onward_root (t : ContentTree) :
    (t.onward ((t.content rootId).headD rootId)).filter t.isBare =
      (t.inOrder rootId).filter t.isBare := by
  cases hcontent : t.content rootId with
  | nil =>
    rw [List.headD_nil, onward, outermost_rootId, inOrder_eq, hcontent, List.dropWhile_cons_of_neg]
    simp
  | cons first more =>
    have hfirst : first ∈ t.content rootId := hcontent ▸ List.mem_cons_self
    have hne : rootId ≠ first := (child_of_mem_content hfirst).1.ne
    have hdrop : ∀ ids, (rootId :: ids).dropWhile (· != first) = ids.dropWhile (· != first) :=
      fun _ => List.dropWhile_cons_of_pos (bne_iff_ne.mpr hne)
    have hfull : ¬t.isBare rootId = true := by simp [isBare, hcontent]
    rw [List.headD_cons, onward, outermost_of_mem_content hfirst, outermost_rootId, inOrder_eq,
      hcontent, hdrop, List.filter_cons_of_neg hfull,
      List.flatMap_cons, inOrder_eq t first, List.cons_append, List.dropWhile_cons_of_neg]
    simp

/-! ## Reaching a leaf -/

theorem lt_size_of_node? (h : c.node? t = some id) : id < t.size := by
  unfold Cursor.node? at h
  split at h
  · cases h
  · next k hk =>
    split at h
    · obtain rfl := Option.some.inj h
      exact lt_size_of_isContainer (by rw [isContainer, hk]; rfl)
    · have hmem : id ∈ t.content c.container := by
        rw [content, hk]
        exact List.mem_of_getElem? h
      exact (child_of_mem_content hmem).2.1

theorem isContainer_of_isBare (h : t.isBare id = false) : t.isContainer id = true := by
  unfold isBare content at h
  rw [isContainer]
  cases hk : t.container? id with
  | none =>
    rw [hk] at h
    cases h
  | some k => rfl

/-- From a node with content the way leads on to its start. -/
theorem descend_of_content (depth : Nat) (hnode : c.node? t = some id)
    (hcontent : t.isBare id = false) :
    c.descend t (depth + 1) = (Cursor.start id).descend t depth ∧
      ∀ s : State, s.enterDown t (depth + 1) c = (s.enter t id true).enterDown t depth (.start id) := by
  have hdown : (c.node? t).filter t.isContainer = some id := by
    rw [hnode, Option.filter_some, if_pos (isContainer_of_isBare hcontent)]
  have hne : ¬(t.content id).isEmpty = true := ne_true_of_eq_false hcontent
  refine ⟨?_, fun s => ?_⟩
  · rw [Cursor.descend, hdown]
    exact if_neg hne
  · rw [State.enterDown, hdown]
    exact if_neg hne

/-- At a node without content the way down ends. -/
theorem descend_of_isBare (depth : Nat) (hnode : c.node? t = some id) (hbare : t.isBare id = true) :
    c.descend t (depth + 1) = c ∧
      ∀ s : State, s.enterDown t (depth + 1) c = s.enterAll t ([id].filter t.isContainer) := by
  rw [Cursor.descend]
  simp only [State.enterDown]
  rw [hnode, Option.filter_some]
  cases hcontainer : t.isContainer id with
  | true =>
    rw [List.filter_cons_of_pos hcontainer]
    exact ⟨if_pos hbare, fun s => if_pos hbare⟩
  | false =>
    rw [List.filter_cons_of_neg (ne_true_of_eq_false hcontainer)]
    exact ⟨rfl, fun s => rfl⟩

/-- The containers in front of the first node without content are entered, down to this node. -/
theorem Walks.reach (h : t.Walks (some c) ids) {depth : Nat}
    (hdepth : ∀ id, c.node? t = some id → t.size ≤ id + depth) :
    ∃ outer id rest, ids = outer ++ id :: rest ∧ (∀ k ∈ outer, t.isBare k = false) ∧
      t.isBare id = true ∧ (c.descend t depth).node? t = some id ∧
      t.Walks (State.nextCursor? t (c.descend t depth)) rest ∧
      ∀ s : State, s.enterDown t depth c = s.enterAll t ((outer ++ [id]).filter t.isContainer) := by
  generalize hplace : some c = place at h
  induction h generalizing c depth with
  | nowhere => cases hplace
  | @enter c id ids hnode hcontent h ih =>
    cases hplace
    have hlt := lt_size_of_node? hnode
    have hle := hdepth id hnode
    obtain ⟨depth, rfl⟩ : ∃ n, depth = n + 1 := ⟨depth - 1, by omega⟩
    have hcontainer := isContainer_of_isBare hcontent
    have hstart : ∀ child : Nat, (Cursor.start id).node? t = some child → t.size ≤ child + depth := by
      intro child hchild
      rw [node?_start hcontainer, Option.some_inj] at hchild
      obtain ⟨first, more, hfirst⟩ := List.exists_cons_of_ne_nil (List.isEmpty_eq_false_iff.mp hcontent)
      rw [hfirst, List.headD_cons] at hchild
      obtain rfl := hchild
      have hbehind := child_of_mem_content (hfirst ▸ List.mem_cons_self : first ∈ t.content id)
      omega
    obtain ⟨hgo, hdown⟩ := descend_of_content depth hnode hcontent
    obtain ⟨outer, last, rest, rfl, houter, hlast, hreach, hwalks, henter⟩ := ih hstart rfl
    refine ⟨id :: outer, last, rest, rfl, List.forall_mem_cons.mpr ⟨hcontent, houter⟩, hlast,
      hgo ▸ hreach, hgo ▸ hwalks, fun s => ?_⟩
    rw [hdown, henter, List.cons_append, List.filter_cons_of_pos hcontainer]
    rfl
  | @leave c id ids hnode hbare h _ =>
    cases hplace
    have hlt := lt_size_of_node? hnode
    have hle := hdepth id hnode
    obtain ⟨depth, rfl⟩ : ∃ n, depth = n + 1 := ⟨depth - 1, by omega⟩
    obtain ⟨hstay, henter⟩ := descend_of_isBare depth hnode hbare
    rw [hstay]
    exact ⟨[], id, ids, rfl, fun _ hk => absurd hk List.not_mem_nil, hbare, hnode, h, henter⟩

end ContentTree

namespace State

theorem setCursor_enter (s : State) (t : ContentTree) (id : NodeId) (atStart : Bool)
    (c : Option Cursor) : (s.enter t id atStart).setCursor c = (s.setCursor c).enter t id atStart := by
  unfold State.enter
  cases t.container? id with
  | none => rfl
  | some k =>
    dsimp only
    split
    · rfl
    · rfl

theorem setCursor_enterAll (s : State) (t : ContentTree) (ids : List NodeId) (c : Option Cursor) :
    (s.enterAll t ids).setCursor c = (s.setCursor c).enterAll t ids := by
  induction ids generalizing s with
  | nil => rfl
  | cons id rest ih => exact (ih _).trans (by rw [setCursor_enter]; rfl)

theorem enterAll_append (s : State) (t : ContentTree) (ids more : List NodeId) :
    s.enterAll t (ids ++ more) = (s.enterAll t ids).enterAll t more :=
  List.foldl_append

theorem setCursor_of_cursor {s : State} {c : Option Cursor} (h : s.cursor = c) :
    s.setCursor c = s := by
  rw [← h]
  rfl

/-- Behind the next node without content, with the containers on the way to it entered. -/
def leaving (s : State) (t : ContentTree) (c : Cursor) : State :=
  (s.enterDown t t.size c).setCursor (nextCursor? t (c.descend t t.size))

end State

namespace Flow

variable {s : Story} {c : Cursor}

/-! ## The walk -/

/-- One node is met: the way to it is entered, and it is left for the place behind it. -/
theorem walk_succ (h : s.state.cursor = some c) (limit : Nat) :
    walk (limit + 1) s =
      (walk limit >>= fun met => pure (((c.descend s.tree s.tree.size).node? s.tree).toList ++ met))
        { s with state := s.state.leaving s.tree c } := by
  have hreach : reachLeaf c s = .ok
      (((c.descend s.tree s.tree.size).node? s.tree).bind fun id => (s.tree.leaf? id).map (id, ·))
      { s with state :=
        (s.state.enterDown s.tree s.tree.size c).setCursor (some (c.descend s.tree s.tree.size)) } := by
    unfold reachLeaf
    rw [bind_ok (tree_ok s), bind_ok (enterContainers_eq s.tree s.tree.size c s)]
    rfl
  rw [walk, bind_ok (state_ok s), h]
  dsimp only
  rw [bind_ok (tree_ok s), bind_ok hreach, bind_ok (state_ok _)]
  rfl

theorem walk_nowhere (h : s.state.cursor = none) (limit : Nat) :
    walk limit s = .ok [] { s with state := s.state.setCursor none } := by
  rw [State.setCursor_of_cursor h]
  cases limit with
  | zero => rfl
  | succ limit => rw [walk, bind_ok (state_ok s), h]; rfl

/-- The nodes passed are met, if there is no way down from them, and entered, if they are
containers. -/
theorem walk_of_walks {ids : List NodeId} {limit : Nat} (h : s.tree.Walks s.state.cursor ids)
    (hlimit : (ids.filter s.tree.isBare).length ≤ limit) :
    walk limit s = .ok (ids.filter s.tree.isBare)
      { s with state :=
        (s.state.enterAll s.tree (ids.filter s.tree.isContainer)).setCursor none } := by
  induction limit generalizing s ids with
  | zero =>
    cases hc : s.state.cursor with
    | none =>
      rw [hc] at h
      cases h
      exact walk_nowhere hc 0
    | some c =>
      rw [hc] at h
      obtain ⟨outer, id, rest, rfl, -, hbare, -⟩ := h.reach fun _ _ => Nat.le_add_left s.tree.size _
      simp [hbare] at hlimit
  | succ limit ih =>
    cases hc : s.state.cursor with
    | none =>
      rw [hc] at h
      cases h
      exact walk_nowhere hc _
    | some c =>
      rw [hc] at h
      obtain ⟨outer, id, rest, rfl, houter, hbare, hreach, hwalks, henter⟩ :=
        h.reach fun _ _ => Nat.le_add_left s.tree.size _
      have hmet : (outer ++ id :: rest).filter s.tree.isBare = id :: rest.filter s.tree.isBare := by
        rw [List.filter_append, List.filter_eq_nil_iff.mpr, List.filter_cons_of_pos hbare]
        · rfl
        · exact fun k hk => ne_true_of_eq_false (houter k hk)
      have hentered : (outer ++ id :: rest).filter s.tree.isContainer =
          (outer ++ [id]).filter s.tree.isContainer ++ rest.filter s.tree.isContainer := by
        rw [← List.filter_append, List.append_assoc]
        rfl
      let next : Story := { s with state := s.state.leaving s.tree c }
      rw [hmet] at hlimit ⊢
      have hrest : walk limit next = .ok (rest.filter s.tree.isBare)
          { next with state :=
            (next.state.enterAll s.tree (rest.filter s.tree.isContainer)).setCursor none } :=
        ih hwalks (Nat.le_of_succ_le_succ hlimit)
      have hstate : (next.state.enterAll s.tree (rest.filter s.tree.isContainer)).setCursor none =
          (s.state.enterAll s.tree ((outer ++ id :: rest).filter s.tree.isContainer)).setCursor none := by
        rw [hentered, State.enterAll_append, ← henter, State.setCursor_enterAll,
          State.setCursor_enterAll]
        rfl
      rw [walk_succ hc, bind_ok hrest, hreach, hstate]
      rfl

/-- **As long as nothing diverts it, the machine walks through the content depth first.** From a
node on, it meets what is read behind it in the root, or in the container reached by name only, that
is the outermost one around it: every leaf and every container without content, once, in the order
of the content. The containers that it enters are those of this order, and in the end it is
nowhere. From the first element of the root on, it meets all that is read in the root. -/
theorem walk_in_order (s : Story) :
    (∀ top, (s.tree.inOrder top).Pairwise (· < ·) ∧
      ∀ id, id ∈ s.tree.inOrder top ↔ s.tree.InContent top id) ∧
    (∀ c id, s.state.cursor = some c → c.node? s.tree = some id →
      (s.tree.outermost id = rootId ∨ ∃ parent, s.tree.parent? (s.tree.outermost id) = some parent ∧
        s.tree.outermost id ∉ s.tree.content parent) ∧
      s.tree.InContent (s.tree.outermost id) id ∧
      ∀ limit, ((s.tree.onward id).filter s.tree.isBare).length ≤ limit →
        walk limit s = .ok ((s.tree.onward id).filter s.tree.isBare)
          { s with state := (s.state.enterAll s.tree
            ((s.tree.onward id).filter s.tree.isContainer)).setCursor none }) ∧
    (s.tree.isContainer rootId = true → s.state.cursor = some (.start rootId) →
      ∀ limit, ((s.tree.inOrder rootId).filter s.tree.isBare).length ≤ limit →
        ∃ u, walk limit s = .ok ((s.tree.inOrder rootId).filter s.tree.isBare) u ∧
          u.state.cursor = none) := by
  have hwalk : ∀ c id, s.state.cursor = some c → c.node? s.tree = some id → ∀ limit,
      ((s.tree.onward id).filter s.tree.isBare).length ≤ limit →
      walk limit s = .ok ((s.tree.onward id).filter s.tree.isBare)
        { s with state := (s.state.enterAll s.tree
          ((s.tree.onward id).filter s.tree.isContainer)).setCursor none } := by
    intro c id hc hnode limit hlimit
    exact walk_of_walks (hc ▸ walks_onward hnode) hlimit
  refine ⟨fun top => ⟨s.tree.inOrder_sorted top, fun id => mem_inOrder_iff⟩, ?_, ?_⟩
  · intro c id hc hnode
    exact ⟨s.tree.outermost_spec (lt_size_of_node? hnode), s.tree.inContent_outermost id,
      hwalk c id hc hnode⟩
  · intro hroot hc limit hlimit
    rw [← s.tree.filter_onward_root] at hlimit ⊢
    exact ⟨_, hwalk _ _ hc (node?_start hroot) limit hlimit, State.cursor_setCursor _ none⟩

/-- A text, a container without content, a container with a text in a further container, and behind
them a knot that a name alone leads to. -/
def rooms : Content :=
  ⟨0, 21, .ofBlock (.container none ⟨false, false, false⟩
    [.leaf (.value (.text "a")), .container none ⟨false, false, false⟩ [] [],
      .container none ⟨true, false, false⟩
        [.leaf (.value (.text "b")),
          .container none ⟨false, false, false⟩ [.leaf (.value (.text "c"))] []] [],
      .leaf (.command .done)]
    [("k", .container (some "k") ⟨true, false, false⟩
      [.leaf (.value (.text "d")), .leaf (.command .done)] [])]), .empty⟩

/-- The start of the story, moved to a place. -/
def roomsStory (c : Cursor) : Story :=
  { Story.unstarted rooms 0 with state := (State.start 0).setCursor (some c) }

/-- From the start all but the knot is met, from the inner container on what is behind it, and from
the first text of the knot on the knot alone. -/
theorem rooms_walked :
    (∃ u, walk 5 (roomsStory (.start rootId)) = .ok [1, 2, 4, 6, 7] u ∧ u.state.cursor = none) ∧
      (∃ u, walk 2 (roomsStory ⟨3, 1⟩) = .ok [6, 7] u) ∧
      ∃ u, walk 2 (roomsStory ⟨8, 0⟩) = .ok [9, 10] u := by
  have hroot : (rooms.tree.inOrder rootId).filter rooms.tree.isBare = [1, 2, 4, 6, 7] := by
    decide +kernel
  have hinner : (rooms.tree.onward 5).filter rooms.tree.isBare = [6, 7] := by decide +kernel
  have hknot : (rooms.tree.onward 9).filter rooms.tree.isBare = [9, 10] := by decide +kernel
  obtain ⟨-, -, hall⟩ := walk_in_order (roomsStory (.start rootId))
  obtain ⟨-, hbehind, -⟩ := walk_in_order (roomsStory ⟨3, 1⟩)
  obtain ⟨-, hapart, -⟩ := walk_in_order (roomsStory ⟨8, 0⟩)
  refine ⟨hroot ▸ hall (by decide +kernel) rfl 5 (hroot ▸ Nat.le_refl 5), ?_, ?_⟩
  · exact ⟨_, hinner ▸ (hbehind ⟨3, 1⟩ 5 rfl (by decide +kernel)).2.2 2 (hinner ▸ Nat.le_refl 2)⟩
  · exact ⟨_, hknot ▸ (hapart ⟨8, 0⟩ 9 rfl (by decide +kernel)).2.2 2 (hknot ▸ Nat.le_refl 2)⟩

end Flow

end StoryMachine
