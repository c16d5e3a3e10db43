import StoryMachine.Proofs.Story.UnsafeCalls

/-!
# Moving on

Moving on behind a leaf does not fail. It does not look at the evaluation stack, and the only
thing it does to it is to push `void`: a function that ends without a value leaves that where an
expression goes on.

* `Flow.Moves` : computations of this kind;
* `Flow.moves_leaveLeaf` : moving on behind a leaf.
-/

namespace StoryMachine

/-- The state with another evaluation stack. -/
def State.withEvaluation (s : State) (es : List Token) : State :=
  { s with evaluation := es }

/-- The story with another evaluation stack, and another call that waits. -/
def Story.over (s : Story) (es : List Token) (call : Option PendingCall) : Story :=
  { s with state := s.state.withEvaluation es, pending := call }

namespace State

theorem enter_withEvaluation (s : State) (t : ContentTree) (id : NodeId) (atStart : Bool)
    (es : List Token) :
    (s.withEvaluation es).enter t id atStart = (s.enter t id atStart).withEvaluation es := by
  unfold State.enter
  split
  · rfl
  · split
    · rfl
    · rfl

theorem enterByJump_withEvaluation (s : State) (t : ContentTree) (es : List Token) :
    (s.withEvaluation es).enterByJump t = (s.enterByJump t).withEvaluation es := by
  have hancestors : ∀ (openBefore ids : List NodeId) (s : State) (child : NodeId) (atStart : Bool),
      State.enterAncestors t openBefore (s.withEvaluation es) child atStart ids =
        (State.enterAncestors t openBefore s child atStart ids).withEvaluation es := by
    intro openBefore ids
    induction ids with
    | nil => exact fun _ _ _ => rfl
    | cons id rest ih =>
      intro s child atStart
      rw [State.enterAncestors, State.enterAncestors]
      split
      · rfl
      · dsimp only
        split
        · rfl
        · rw [enter_withEvaluation]
          exact ih _ _ _
  have hcursor : (s.withEvaluation es).cursor = s.cursor := rfl
  unfold State.enterByJump
  rw [hcursor]
  cases s.cursor with
  | none => rfl
  | some c =>
    dsimp only
    split
    · rfl
    · cases c.node? t with
      | none => rfl
      | some id => exact hancestors _ _ s _ _

/-- Dropping a frame leaves the evaluation stack alone. -/
theorem popFrame_withEvaluation {s u : State} (h : s.popFrame = .ok u) (es : List Token) :
    (s.withEvaluation es).popFrame = .ok (u.withEvaluation es) := by
  obtain ⟨stack, hstack, hu⟩ := Except.bind_eq_ok.mp h
  cases hu
  exact Except.bind_eq_ok.mpr ⟨stack, hstack, rfl⟩

theorem exists_popFrame (s : State) (h : s.callStack.canPopKind .function = true) :
    ∃ u, s.popFrame = .ok u := by
  rw [CallStack.canPopKind, Bool.and_eq_true, CallStack.canPop] at h
  unfold State.popFrame CallStack.pop
  cases hbelow : s.callStack.current.below with
  | nil =>
    rw [hbelow] at h
    cases h.1
  | cons f rest => exact ⟨_, rfl⟩

end State

theorem CallStack.exists_popThread (s : CallStack) (h : s.canPopThread = true) :
    ∃ u, s.popThread = .ok u := by
  rw [canPopThread, Bool.and_eq_true, Bool.not_eq_true', Bool.not_eq_true'] at h
  unfold popThread
  cases hothers : s.others with
  | nil =>
    rw [hothers] at h
    cases h.1
  | cons next rest =>
    dsimp only
    rw [h.2]
    exact ⟨_, rfl⟩

namespace Flow

variable {α β : Type}

/-- The computation does not fail, does not look at the evaluation stack or the call that waits,
and does nothing to them but push `void`. -/
def Moves (x : Flow α) : Prop :=
  ∀ s : Story, ∃ (a : α) (t : Story) (n : Nat), ∀ es call,
    x (s.over es call) = .ok a (t.over (List.replicate n .void ++ es) call)

theorem moves_pure (a : α) : Moves (pure a) :=
  fun s => ⟨a, s, 0, fun _ _ => rfl⟩

theorem moves_bind {x : Flow α} {k : α → Flow β} (hx : Moves x) (hk : ∀ a, Moves (k a)) :
    Moves (x >>= k) := by
  intro s
  obtain ⟨a, t, n, hx⟩ := hx s
  obtain ⟨b, u, m, hk⟩ := hk a t
  refine ⟨b, u, m + n, fun es call => ?_⟩
  rw [bind_ok (hx es call), hk, ← List.append_assoc, List.replicate_append_replicate]

theorem moves_ite {p : Prop} [Decidable p] {x y : Flow α} (hx : Moves x) (hy : Moves y) :
    Moves (if p then x else y) := by
  split
  · exact hx
  · exact hy

theorem moves_state_bind {k : State → Flow α}
    (hk : ∀ s es, k (s.withEvaluation es) = k s) (h : ∀ s, Moves (k s)) :
    Moves (state >>= k) := by
  intro s
  obtain ⟨a, t, n, h⟩ := h s.state s
  refine ⟨a, t, n, fun es call => ?_⟩
  rw [← h, ← hk s.state es]
  rfl

theorem moves_tree_bind {k : ContentTree → Flow α} (h : ∀ t, Moves (k t)) : Moves (tree >>= k) := by
  intro s
  exact h s.tree s

theorem moves_modifyState {f : State → State}
    (hf : ∀ s es, f (s.withEvaluation es) = (f s).withEvaluation es) :
    Moves (modifyState f) := by
  refine fun s => ⟨(), { s with state := f s.state }, 0, fun es call => ?_⟩
  show EStateM.Result.ok ()
    { s with state := f (s.state.withEvaluation es), pending := call } = _
  rw [hf]
  rfl

theorem moves_withState {f : State → α × State}
    (hf : ∀ s es, f (s.withEvaluation es) = ((f s).1, (f s).2.withEvaluation es)) :
    Moves (withState f) := by
  refine fun s => ⟨(f s.state).1, { s with state := (f s.state).2 }, 0, fun es call => ?_⟩
  show EStateM.Result.ok (f (s.state.withEvaluation es)).1
    { s with state := (f (s.state.withEvaluation es)).2, pending := call } = _
  rw [hf]
  rfl

theorem tryState_over {f : State → Except StoryError (α × State)} {s : Story} {a : α} {u : State}
    (h : ∀ es, f (s.state.withEvaluation es) = .ok (a, u.withEvaluation es)) (es : List Token)
    (call : Option PendingCall) :
    tryState f (s.over es call) = .ok a (Story.over { s with state := u } es call) :=
  tryState_run_ok (h es)

theorem moves_push_void : Moves (push .void) :=
  fun s => ⟨(), s, 1, fun _ _ => rfl⟩

theorem moves_followDivert : Moves followDivert := by
  refine moves_state_bind (fun _ _ => rfl) fun s => ?_
  split
  · exact moves_pure false
  · refine moves_tree_bind fun t => moves_bind (moves_modifyState fun s es => ?_) fun _ =>
      moves_pure true
    exact State.enterByJump_withEvaluation (State.setCursor { s with diverted := none } _) t es

theorem moves_moveHere : Moves moveHere := by
  refine moves_bind (moves_modifyState fun _ _ => rfl) fun _ => ?_
  refine moves_bind moves_followDivert fun followed => moves_ite (moves_pure true) ?_
  exact moves_tree_bind fun t => moves_withState fun _ _ => rfl

theorem moves_hasCursor : Moves (do return (← state).cursor.isSome) :=
  moves_state_bind (fun _ _ => rfl) fun _ => moves_pure _

theorem moves_leaveFinished : Moves leaveFinished := by
  intro s
  by_cases hfunction : s.state.callStack.canPopKind .function = true
  · obtain ⟨u, hu⟩ := s.state.exists_popFrame hfunction
    have hrest : Moves (do
        if (← state).inExpression then push .void
        return (← state).cursor.isSome) := by
      refine moves_state_bind (fun _ _ => rfl) fun s => ?_
      exact moves_ite (moves_bind moves_push_void fun _ => moves_hasCursor) moves_hasCursor
    obtain ⟨a, t, n, hrest⟩ := hrest { s with state := u }
    have hpop := tryState_over (s := s) (u := u) (a := ())
      (f := fun s => return ((), ← s.popFrame)) fun es => by
        rw [State.popFrame_withEvaluation hu]
        rfl
    refine ⟨a, t, n, fun es call => ?_⟩
    unfold leaveFinished
    rw [bind_ok (state_ok _)]
    dsimp only
    rw [if_pos (show (s.over es call).state.callStack.canPopKind .function = true from hfunction),
      bind_ok (hpop es call)]
    exact hrest es call
  · by_cases hthread : s.state.callStack.canPopThread = true
    · obtain ⟨stack, hstack⟩ := s.state.callStack.exists_popThread hthread
      obtain ⟨a, t, n, hrest⟩ := moves_hasCursor
        { s with state := { s.state with callStack := stack } }
      have hpop := tryState_over (s := s) (u := { s.state with callStack := stack }) (a := ())
        (f := fun s => return ((), { s with callStack := ← s.callStack.popThread })) fun es => by
          show Except.bind s.state.callStack.popThread _ = _
          rw [hstack]
          rfl
      refine ⟨a, t, n, fun es call => ?_⟩
      unfold leaveFinished
      rw [bind_ok (state_ok _)]
      dsimp only
      rw [if_neg (show ¬ (s.over es call).state.callStack.canPopKind .function = true from hfunction),
        if_pos (show (s.over es call).state.callStack.canPopThread = true from hthread),
        bind_ok (hpop es call)]
      exact hrest es call
    · have hleave : Moves (modifyState State.leaveHostCall >>= fun _ => pure false) := by
        refine moves_bind (moves_modifyState fun s es => ?_) fun _ => moves_pure false
        unfold State.leaveHostCall
        show (if s.callStack.inHostCall then _ else _) = _
        split
        · rfl
        · rfl
      obtain ⟨a, t, n, hleave⟩ := hleave s
      refine ⟨a, t, n, fun es call => ?_⟩
      unfold leaveFinished
      rw [bind_ok (state_ok _)]
      dsimp only
      rw [if_neg (show ¬ (s.over es call).state.callStack.canPopKind .function = true from hfunction),
        if_neg (show ¬ (s.over es call).state.callStack.canPopThread = true from hthread)]
      exact hleave es call

theorem moves_unwind (frames : Nat) : Moves (unwind frames) := by
  induction frames with
  | zero => exact moves_pure ()
  | succ frames ih =>
    refine moves_bind moves_leaveFinished fun led => moves_ite ?_ (moves_pure ())
    exact moves_bind moves_moveHere fun moved => moves_ite ih (moves_pure ())

theorem moves_nextContent : Moves nextContent := by
  refine moves_bind moves_moveHere fun moved => moves_ite ?_ (moves_pure ())
  exact moves_state_bind (fun _ _ => rfl) fun _ => moves_unwind _

theorem moves_leaveLeaf (leaf : Option (NodeId × Instruction)) : Moves (leaveLeaf leaf) := by
  refine moves_state_bind (fun _ _ => rfl) fun s => ?_
  refine moves_ite (moves_pure ()) (moves_bind moves_nextContent fun _ => ?_)
  split
  · exact moves_modifyState fun _ _ => rfl
  · exact moves_pure ()

end Flow

end StoryMachine
