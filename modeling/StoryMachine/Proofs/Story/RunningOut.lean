import Mathlib.Logic.Relation
import StoryMachine.Proofs.Story.Moving
import StoryMachine.Proofs.Story.Walk

/-!
# Running out of content

Moving on goes to the next element in the order of content. Where there is none, the innermost frame
has run out: a function returns to its caller, and any other frame of a thread that was forked gives
way to the thread it was forked from. There moving on goes on, behind the place of that frame, which
may have run out in its turn. It ends when a place is found, when there is nobody to go back to, or
when those gone back to are nowhere.

With each return there are fewer frames, so it does end. The bound that the machine counts down is
never met: moving on is what it would be without one.

* `ContentTree.NextInOrder` : the next element, told by the order of content;
* `State.Leaves` : one return, and all that it changes;
* `CallStack.frameCount` : the frames of all threads, which a return makes fewer;
* `Flow.nextContent_eq` : moving on without a bound;
* `Flow.moving_on_unwinds` : where it ends.
-/

namespace StoryMachine

/-! ## The next element -/

namespace ContentTree

/-- A container with what has been read in it when a place in it is left. An index that is no place
of an element is left for what comes behind the container. -/
def passed (t : ContentTree) (c : Cursor) : List NodeId :=
  c.container ::
    (if 0 ≤ c.index + 1 then (t.content c.container).take (c.index + 1).toNat
      else t.content c.container).flatMap t.inOrder

/-- The place of the element that comes next in the order of content, if there is one. The order is
that of the outermost container around the place. -/
inductive NextInOrder (t : ContentTree) (c : Cursor) : Option Cursor → Prop
  | last {front : List NodeId}
      (h : t.inOrder (t.outermost c.container) = front ++ t.passed c) : NextInOrder t c none
  | element {front rest : List NodeId} {parent id : NodeId} {i : Nat}
      (h : t.inOrder (t.outermost c.container) = front ++ t.passed c ++ id :: rest)
      (hplace : (t.content parent)[i]? = some id) : NextInOrder t c (some ⟨parent, i⟩)

variable {t : ContentTree} {c d : Cursor}

/-- Behind a place comes an element. -/
theorem exists_element_of_nextCursor? (h : State.nextCursor? t c = some d) :
    ∃ (i : Nat) (id : NodeId), d.index = i ∧ (t.content d.container)[i]? = some id := by
  fun_induction State.nextCursor? t c with
  | case1 c next hnext =>
    cases h
    have hlt : next.toNat < (t.content c.container).length := by omega
    exact ⟨next.toNat, _, (Int.toNat_of_nonneg hnext.1).symm, List.getElem?_eq_getElem hlt⟩
  | case4 _ _ _ _ _ _ _ _ ih => exact ih h
  | _ => cases h

/-- Where walking on leads to an element, it is passed first. -/
theorem nextInOrder_of_walks {front back : List NodeId}
    (horder : t.inOrder (t.outermost c.container) = front ++ t.passed c ++ back)
    (h : t.Walks (State.nextCursor? t c) back) : t.NextInOrder c (State.nextCursor? t c) := by
  cases hnext : State.nextCursor? t c with
  | none =>
    rw [hnext] at h
    cases h
    rw [List.append_nil] at horder
    exact .last horder
  | some d =>
    rw [hnext] at h
    obtain ⟨i, id, hindex, hget⟩ := exists_element_of_nextCursor? hnext
    obtain ⟨container, index⟩ := d
    dsimp only at hindex hget
    subst hindex
    have hnode : Cursor.node? ⟨container, i⟩ t = some id := node?_of_getElem? hget
    cases h with
    | enter hnode' _ _ | leave hnode' _ _ =>
      obtain rfl := Option.some.inj (hnode.symm.trans hnode')
      exact .element horder hget

/-- What is behind a place is the next element in the order of content. -/
theorem nextInOrder_nextCursor? (t : ContentTree) (c : Cursor) :
    t.NextInOrder c (State.nextCursor? t c) := by
  obtain ⟨front, back, horder, hback⟩ :=
    (t.inContent_outermost c.container).exists_split (t.behind?_outermost c.container)
  by_cases hnext : 0 ≤ c.index + 1 ∧ c.index + 1 < (t.content c.container).length
  · obtain ⟨i, hi⟩ := Int.eq_ofNat_of_zero_le hnext.1
    have hlt : i < (t.content c.container).length := by omega
    have hget := List.getElem?_eq_getElem hlt
    have hpassed : t.passed c =
        c.container :: ((t.content c.container).take i).flatMap t.inOrder := by
      rw [passed, if_pos hnext.1, hi, Int.toNat_natCast]
    have hinner : t.inOrder c.container = t.passed c ++ (t.content c.container)[i] ::
        ((t.content (t.content c.container)[i]).flatMap t.inOrder ++
          ((t.content c.container).drop (i + 1)).flatMap t.inOrder) := by
      rw [hpassed, inOrder_eq]
      conv_lhs =>
        rw [← List.take_append_drop i (t.content c.container), List.drop_eq_getElem_cons hlt]
      rw [List.flatMap_append, List.flatMap_cons, inOrder_eq t (t.content c.container)[i]]
      simp
    rw [nextCursor?_eq, if_pos hnext, hi]
    rw [hinner] at horder
    exact .element (by simpa using horder) hget
  · have hpassed : t.passed c = t.inOrder c.container := by
      rw [passed, inOrder_eq]
      split
      · rw [List.take_of_length_le (by omega)]
      · rfl
    have hbehind : State.nextCursor? t c = t.behind? c.container := by
      rw [nextCursor?_eq, if_neg hnext]
    rw [← hpassed, ← List.append_assoc] at horder
    exact nextInOrder_of_walks horder (hbehind ▸ hback)

end ContentTree

/-! ## Returns -/

/-- The number of frames in all threads. -/
def CallStack.frameCount (s : CallStack) : Nat :=
  (s.current :: s.others).foldr (fun thread count => thread.depth + count) 0

theorem CallStack.frameCount_pos (s : CallStack) : 0 < s.frameCount := by
  rw [frameCount, List.foldr_cons, Thread.depth]
  omega

theorem CallStack.foldr_depth_threads (s : CallStack) :
    (s.threads.map Thread.depth).foldr (· + ·) 0 = s.frameCount := by
  rw [← List.sum_eq_foldr, threads, List.map_reverse, List.sum_reverse, List.sum_eq_foldr,
    List.foldr_map]
  rfl

namespace State

/-- Nothing comes behind the place of the innermost frame in the order of content. -/
def RanOut (s : State) (t : ContentTree) : Prop :=
  ∀ c, s.cursor = some c → t.NextInOrder c none

/-- Back from a function in its caller. The text of the function loses its spacing at the end, and
where the caller evaluates an expression it finds void. -/
def returned (s : State) (caller : Frame) (below : List Frame) : State :=
  { s with
    callStack := { s.callStack with current := { s.callStack.current with top := caller, below } }
    output := s.output.trimFrom (s.callStack.top.outputStart.getD 0)
    evaluation := if caller.inExpression then .void :: s.evaluation else s.evaluation }

/-- Back from a thread in the one that it was forked from. -/
def rejoined (s : State) (thread : Thread) (others : List Thread) : State :=
  { s with callStack := { s.callStack with current := thread, others } }

/-- The innermost frame has run out, and is left: a function for its caller, and a thread for the
one it was forked from. A function returns first, and a call of the host holds its thread. -/
inductive Leaves (t : ContentTree) (s : State) : State → Prop
  | function {caller : Frame} {below : List Frame} (hout : s.RanOut t)
      (hkind : s.callStack.top.kind = .function)
      (hbelow : s.callStack.current.below = caller :: below) :
      Leaves t s ((s.setPrevious s.cursor).returned caller below)
  | thread {thread : Thread} {others : List Thread} (hout : s.RanOut t)
      (hreturn : s.callStack.canPopKind .function = false)
      (hhost : s.callStack.inHostCall = false)
      (hothers : s.callStack.others = thread :: others) :
      Leaves t s (s.rejoined thread others)

/-- One return after the other, each to a place from which moving on goes on. -/
def Unwinds (t : ContentTree) : State → State → Prop :=
  Relation.ReflTransGen fun s u => s.Leaves t u ∧ u.cursor.isSome = true

/-- Where moving on ends that has come to the frame of a state: at the next element, or nowhere.
It is nowhere if the frame has run out and is left for a place that is none, or is not left. A call
of the host then ends the flow on purpose. -/
inductive Settles (t : ContentTree) (s : State) : State → Prop
  | element {c d : Cursor} (hcursor : s.cursor = some c) (hnext : t.NextInOrder c (some d)) :
      Settles t s ((s.setPrevious (some c)).setCursor (some d))
  | nowhere {u : State} (hleaves : s.Leaves t u) (hcursor : u.cursor = none) : Settles t s u
  | stays (hout : s.RanOut t) (hreturn : s.callStack.canPopKind .function = false)
      (hthread : s.callStack.canPopThread = false) :
      Settles t s ((s.setPrevious s.cursor).setCursor none).leaveHostCall

variable {t : ContentTree} {s u : State}

theorem ranOut_of_nextCursor? (h : s.cursor.bind (nextCursor? t) = none) : s.RanOut t := by
  intro c hc
  rw [hc, Option.bind_some] at h
  exact h ▸ t.nextInOrder_nextCursor? c

theorem Leaves.diverted_eq (h : s.Leaves t u) : u.diverted = s.diverted := by
  cases h <;> rfl

theorem Settles.cursor_spec (h : s.Settles t u) :
    u.cursor = none ∨ ∃ c, s.cursor = some c ∧ t.NextInOrder c u.cursor := by
  cases h with
  | element hcursor hnext => exact .inr ⟨_, hcursor, hnext⟩
  | nowhere hleaves hcursor => exact .inl hcursor
  | stays hout hreturn hthread =>
    refine .inl ?_
    unfold leaveHostCall
    split <;> rfl

theorem frameCount_returned_lt {caller : Frame} {below : List Frame}
    (h : s.callStack.current.below = caller :: below) :
    (s.returned caller below).callStack.frameCount < s.callStack.frameCount := by
  simp [CallStack.frameCount, returned, Thread.depth, h]

theorem frameCount_rejoined_lt {thread : Thread} {others : List Thread}
    (h : s.callStack.others = thread :: others) :
    (s.rejoined thread others).callStack.frameCount < s.callStack.frameCount := by
  simp [CallStack.frameCount, rejoined, Thread.depth, h]

/-- A return leaves fewer frames. -/
theorem Leaves.frameCount_lt (h : s.Leaves t u) :
    u.callStack.frameCount < s.callStack.frameCount := by
  cases h with
  | function hout hkind hbelow =>
    exact frameCount_returned_lt (s := s.setPrevious s.cursor) hbelow
  | thread hout hreturn hhost hothers => exact frameCount_rejoined_lt hothers

end State

/-! ## Moving on -/

open State

namespace Flow

variable {s : Story}

theorem moveHere_undiverted (h : s.state.diverted = none) :
    moveHere s = .ok ((s.state.setPrevious s.state.cursor).advance s.tree).1
      { s with state := ((s.state.setPrevious s.state.cursor).advance s.tree).2 } := by
  have hfollow : followDivert { s with state := s.state.setPrevious s.state.cursor } =
      .ok false { s with state := s.state.setPrevious s.state.cursor } := by
    rw [followDivert, bind_ok (state_ok _)]
    dsimp only [setPrevious]
    rw [h]
    rfl
  rw [moveHere, bind_ok (modifyState_ok _ s), bind_ok hfollow]
  rfl

/-- A divert leads to a place. -/
theorem moveHere_diverted {c : Cursor} (h : s.state.diverted = some c) :
    ∃ u, moveHere s = .ok true { s with state := u } := by
  have hfollow : ∃ u, followDivert { s with state := s.state.setPrevious s.state.cursor } =
      .ok true { s with state := u } := by
    rw [followDivert, bind_ok (state_ok _)]
    dsimp only [setPrevious]
    rw [h]
    exact ⟨_, rfl⟩
  obtain ⟨u, hfollow⟩ := hfollow
  rw [moveHere, bind_ok (modifyState_ok _ s), bind_ok hfollow]
  exact ⟨u, rfl⟩

/-- A function returns to its caller. -/
theorem leaveFinished_function {caller : Frame} {below : List Frame}
    (hkind : s.state.callStack.top.kind = .function)
    (hbelow : s.state.callStack.current.below = caller :: below) :
    leaveFinished s =
      .ok caller.cursor.isSome { s with state := s.state.returned caller below } := by
  have hcan : s.state.callStack.canPopKind .function = true := by
    simp [CallStack.canPopKind, CallStack.canPop, hkind, hbelow]
  have hpop : tryState (fun s => return ((), ← s.popFrame)) s = .ok () { s with
      state := { s.state.returned caller below with evaluation := s.state.evaluation } } := by
    refine tryState_run_ok ?_
    simp only [popFrame, CallStack.pop, hbelow, hkind]
    rfl
  rw [leaveFinished, bind_ok (state_ok s)]
  dsimp only
  rw [if_pos hcan, bind_ok hpop, bind_ok (state_ok _)]
  cases hexpression : caller.inExpression with
  | false =>
    rw [if_neg (by simp [inExpression, CallStack.top, returned, hexpression])]
    simp only [returned, hexpression]
    rfl
  | true =>
    rw [if_pos (by simp [inExpression, CallStack.top, returned, hexpression])]
    simp only [returned, hexpression]
    rfl

/-- A thread gives way to the one that it was forked from. -/
theorem leaveFinished_thread {thread : Thread} {others : List Thread}
    (hreturn : s.state.callStack.canPopKind .function = false)
    (hhost : s.state.callStack.inHostCall = false)
    (hothers : s.state.callStack.others = thread :: others) :
    leaveFinished s = .ok thread.top.cursor.isSome
      { s with state := s.state.rejoined thread others } := by
  have hcan : s.state.callStack.canPopThread = true := by
    simp [CallStack.canPopThread, hhost, hothers]
  have hpop : tryState (fun s => return ((), { s with callStack := ← s.callStack.popThread })) s =
      .ok () { s with state := s.state.rejoined thread others } := by
    refine tryState_run_ok ?_
    simp only [CallStack.popThread, hothers, hhost]
    rfl
  rw [leaveFinished, bind_ok (state_ok s)]
  dsimp only
  rw [if_neg (by rw [hreturn]; exact Bool.false_ne_true), if_pos hcan, bind_ok hpop]
  rfl

/-- There is nobody to go back to. -/
theorem leaveFinished_last (hreturn : s.state.callStack.canPopKind .function = false)
    (hthread : s.state.callStack.canPopThread = false) :
    leaveFinished s = .ok false { s with state := s.state.leaveHostCall } := by
  rw [leaveFinished, bind_ok (state_ok s)]
  dsimp only
  rw [if_neg (by rw [hreturn]; exact Bool.false_ne_true),
    if_neg (by rw [hthread]; exact Bool.false_ne_true)]
  rfl

/-- What a return is, in any state. -/
theorem leaveFinished_cases (s : Story) :
    (∃ caller below, s.state.callStack.top.kind = .function ∧
        s.state.callStack.current.below = caller :: below ∧
        leaveFinished s =
          .ok caller.cursor.isSome { s with state := s.state.returned caller below }) ∨
      (∃ thread others, s.state.callStack.canPopKind .function = false ∧
        s.state.callStack.inHostCall = false ∧ s.state.callStack.others = thread :: others ∧
        leaveFinished s = .ok thread.top.cursor.isSome
          { s with state := s.state.rejoined thread others }) ∨
      (s.state.callStack.canPopKind .function = false ∧ s.state.callStack.canPopThread = false ∧
        leaveFinished s = .ok false { s with state := s.state.leaveHostCall }) := by
  cases hreturn : s.state.callStack.canPopKind .function with
  | true =>
    simp only [CallStack.canPopKind, CallStack.canPop, Bool.and_eq_true, Bool.not_eq_true',
      List.isEmpty_eq_false_iff, decide_eq_true_eq] at hreturn
    obtain ⟨caller, below, hbelow⟩ := List.exists_cons_of_ne_nil hreturn.1
    exact .inl ⟨caller, below, hreturn.2, hbelow, leaveFinished_function hreturn.2 hbelow⟩
  | false =>
    cases hthread : s.state.callStack.canPopThread with
    | true =>
      simp only [CallStack.canPopThread, Bool.and_eq_true, Bool.not_eq_true',
        List.isEmpty_eq_false_iff] at hthread
      obtain ⟨thread, others, hothers⟩ := List.exists_cons_of_ne_nil hthread.1
      exact .inr (.inl ⟨thread, others, rfl, hthread.2, hothers,
        leaveFinished_thread hreturn hthread.2 hothers⟩)
    | false => exact .inr (.inr ⟨rfl, rfl, leaveFinished_last hreturn hthread⟩)

/-! ### Without a bound -/

theorem exists_leaveFinished (s : Story) :
    ∃ led v, leaveFinished s = .ok led { s with state := v } ∧
      (led = true → v.callStack.frameCount < s.state.callStack.frameCount) := by
  rcases leaveFinished_cases s with
    ⟨caller, below, -, hbelow, h⟩ | ⟨thread, others, -, -, hothers, h⟩ | ⟨-, -, h⟩
  · exact ⟨_, _, h, fun _ => frameCount_returned_lt hbelow⟩
  · exact ⟨_, _, h, fun _ => frameCount_rejoined_lt hothers⟩
  · exact ⟨_, _, h, nofun⟩

theorem exists_moveHere (s : Story) :
    ∃ moved v, moveHere s = .ok moved { s with state := v } ∧
      (moved = false → v.callStack.frameCount = s.state.callStack.frameCount) := by
  cases h : s.state.diverted with
  | none => exact ⟨_, _, moveHere_undiverted h, fun _ => rfl⟩
  | some c =>
    obtain ⟨u, hu⟩ := moveHere_diverted h
    exact ⟨true, u, hu, nofun⟩

/-- With as many returns as there are frames, further ones make no difference. -/
theorem unwind_eq_of_le {n m : Nat} (hn : s.state.callStack.frameCount ≤ n)
    (hm : s.state.callStack.frameCount ≤ m) : unwind n s = unwind m s := by
  induction n generalizing m s with
  | zero => exact absurd hn s.state.callStack.frameCount_pos.not_ge
  | succ n ih =>
    cases m with
    | zero => exact absurd hm s.state.callStack.frameCount_pos.not_ge
    | succ m =>
      obtain ⟨led, v, hled, hless⟩ := exists_leaveFinished s
      obtain ⟨moved, w, hmoved, hsame⟩ := exists_moveHere { s with state := v }
      rw [unwind, unwind, bind_ok hled, bind_ok hled]
      cases led with
      | false => rfl
      | true =>
        have hlt := hless rfl
        rw [if_pos rfl, if_pos rfl, bind_ok hmoved, bind_ok hmoved]
        cases moved with
        | true => rfl
        | false =>
          have heq := hsame rfl
          dsimp only at heq
          exact ih (by dsimp only; omega) (by dsimp only; omega)

theorem nextContent_eq_unwind (s : Story) :
    nextContent s = (moveHere >>= fun moved =>
      if !moved then unwind s.state.callStack.frameCount else pure ()) s := by
  obtain ⟨moved, v, hmoved, hsame⟩ := exists_moveHere s
  rw [nextContent, bind_ok hmoved, bind_ok hmoved]
  cases moved with
  | true => rfl
  | false =>
    rw [← hsame rfl, ← CallStack.foldr_depth_threads]
    rfl

/-- **Moving on without a bound.** Each return is followed by moving on again. -/
theorem nextContent_eq :
    nextContent = (do
      if !(← moveHere) then
        if ← leaveFinished then nextContent) := by
  funext s
  obtain ⟨moved, v, hmoved, hsame⟩ := exists_moveHere s
  rw [nextContent_eq_unwind, bind_ok hmoved, bind_ok hmoved]
  cases moved with
  | true => rfl
  | false =>
    obtain ⟨led, w, hled, hless⟩ := exists_leaveFinished { s with state := v }
    obtain ⟨n, hn⟩ := Nat.exists_eq_succ_of_ne_zero s.state.callStack.frameCount_pos.ne'
    rw [hn]
    simp only [Bool.not_false, if_true]
    rw [unwind, bind_ok hled, bind_ok hled]
    cases led with
    | false => rfl
    | true =>
      obtain ⟨again, x, hagain, hsame'⟩ := exists_moveHere { s with state := w }
      have hlt := hless rfl
      rw [hsame rfl] at hlt
      simp only [if_true]
      rw [nextContent_eq_unwind, bind_ok hagain, bind_ok hagain]
      cases again with
      | true => rfl
      | false =>
        have heq := hsame' rfl
        dsimp only at heq hlt
        exact unwind_eq_of_le (by dsimp only; omega) (by dsimp only; omega)

/-! ### Where it ends -/

/-- In the innermost frame there is a next element, or the frame has run out. -/
theorem moveHere_settles (h : s.state.diverted = none) :
    (∃ u, s.state.Settles s.tree u ∧ moveHere s = .ok true { s with state := u }) ∨
      (s.state.RanOut s.tree ∧ moveHere s = .ok false
        { s with state := (s.state.setPrevious s.state.cursor).setCursor none }) := by
  have hmove := moveHere_undiverted h
  unfold advance at hmove
  dsimp only at hmove
  have hcursor : (s.state.setPrevious s.state.cursor).cursor = s.state.cursor := rfl
  rw [hcursor] at hmove
  cases hnext : s.state.cursor.bind (nextCursor? s.tree) with
  | none =>
    rw [hnext] at hmove
    exact .inr ⟨ranOut_of_nextCursor? hnext, hmove⟩
  | some d =>
    rw [hnext] at hmove
    obtain ⟨c, hc, hd⟩ := Option.bind_eq_some_iff.mp hnext
    rw [hc] at hmove
    exact .inl ⟨_, .element hc (hd ▸ s.tree.nextInOrder_nextCursor? c), hmove⟩

/-- A frame that has run out is left, or moving on ends there. -/
theorem leaveFinished_ranOut (hout : s.state.RanOut s.tree) :
    (∃ u, s.state.Leaves s.tree u ∧
        leaveFinished { s with state := (s.state.setPrevious s.state.cursor).setCursor none } =
          .ok u.cursor.isSome { s with state := u }) ∨
      ∃ u, s.state.Settles s.tree u ∧
        leaveFinished { s with state := (s.state.setPrevious s.state.cursor).setCursor none } =
          .ok false { s with state := u } := by
  rcases leaveFinished_cases
      { s with state := (s.state.setPrevious s.state.cursor).setCursor none } with
    ⟨caller, below, hkind, hbelow, h⟩ | ⟨thread, others, hreturn, hhost, hothers, h⟩ |
    ⟨hreturn, hthread, h⟩
  · exact .inl ⟨_, .function hout hkind hbelow, h⟩
  · exact .inl ⟨_, .thread hout hreturn hhost hothers, h⟩
  · exact .inr ⟨_, .stays hout hreturn hthread, h⟩

/-- Moving on returns from what has run out, and settles in the frame that it comes to. The
induction is on the frames, which each return makes fewer. -/
theorem nextContent_settles (h : s.state.diverted = none) : ∃ q r, s.state.Unwinds s.tree q ∧
    q.Settles s.tree r ∧ nextContent s = .ok () { s with state := r } := by
  induction hn : s.state.callStack.frameCount using Nat.strong_induction_on generalizing s with
  | _ n ih =>
    subst hn
    rw [nextContent_eq]
    rcases moveHere_settles h with ⟨u, hu, hmove⟩ | ⟨hout, hmove⟩
    · exact ⟨_, u, .refl, hu, bind_ok hmove⟩
    rw [bind_ok hmove]
    simp only [Bool.not_false, if_true]
    rcases leaveFinished_ranOut hout with ⟨u, hu, hleave⟩ | ⟨u, hu, hleave⟩
    · rw [bind_ok hleave]
      cases hcursor : u.cursor with
      | none => exact ⟨_, u, .refl, .nowhere hu hcursor, rfl⟩
      | some c =>
        obtain ⟨q, r, hunwinds, hsettles, hrun⟩ :=
          ih _ hu.frameCount_lt (s := { s with state := u }) (hu.diverted_eq.trans h) rfl
        exact ⟨q, r, .head ⟨hu, by rw [hcursor]; rfl⟩ hunwinds, hsettles, hrun⟩
    · rw [bind_ok hleave]
      exact ⟨_, u, .refl, hu, rfl⟩

/-- **Moving on ends, and leaves nothing but what has run out.** It is moving on in the innermost
frame, and where that leads nowhere a return, and moving on again with fewer frames. It does not
fail. If no divert is pending, it returns from functions and from threads that have run out, one
after the other, and ends at the next element in the order of content of the frame that it comes to,
or nowhere. -/
theorem moving_on_unwinds (s : Story) :
    nextContent s = (do
      if !(← moveHere) then
        if ← leaveFinished then nextContent) s ∧
    (∀ u v, moveHere s = .ok false u → leaveFinished u = .ok true v →
      v.state.callStack.frameCount < s.state.callStack.frameCount) ∧
    ∃ r, nextContent s = .ok () { s with state := r } ∧
      (s.state.diverted = none → ∃ q, s.state.Unwinds s.tree q ∧ q.Settles s.tree r ∧
        (r.cursor = none ∨ ∃ c, q.cursor = some c ∧ s.tree.NextInOrder c r.cursor)) := by
  refine ⟨congrFun nextContent_eq s, fun u v hmove hleave => ?_, ?_⟩
  · obtain ⟨moved, w, hmoved, hsame⟩ := exists_moveHere s
    rw [hmoved] at hmove
    cases hmove
    obtain ⟨led, x, hled, hless⟩ := exists_leaveFinished { s with state := w }
    rw [hled] at hleave
    cases hleave
    exact (hless rfl).trans_eq (hsame rfl)
  · cases hdiverted : s.state.diverted with
    | some c =>
      obtain ⟨r, hmove⟩ := moveHere_diverted hdiverted
      refine ⟨r, ?_, nofun⟩
      rw [nextContent_eq, bind_ok hmove]
      rfl
    | none =>
      obtain ⟨q, r, hunwinds, hsettles, hrun⟩ := nextContent_settles hdiverted
      exact ⟨r, hrun, fun _ => ⟨q, hunwinds, hsettles, hsettles.cursor_spec⟩⟩

/-- A function that a thread has called from an expression, at the last element of the root, has run
out of content. The thread was forked at the second element. -/
def forkedRooms : Story :=
  { Story.unstarted rooms 0 with
    state := { State.start 0 with
      callStack := {
        current := {
          top := .new .function (some ⟨8, 1⟩)
          below := [{ Frame.new .tunnel (some ⟨0, 3⟩) with inExpression := true }]
          previous := none
          index := 1 }
        others := [{ top := .new .tunnel (some ⟨0, 1⟩), below := [], previous := none, index := 0 }]
        made := 1 } } }

/-- The function returns, with void, and as nothing is behind its caller either, the thread gives
way to the other one, which goes on at its next element. -/
theorem forkedRooms_unwind : forkedRooms.state.diverted = none ∧ ∃ q r,
    nextContent forkedRooms = .ok () { forkedRooms with state := r } ∧
      forkedRooms.state.Unwinds rooms.tree q ∧ q.Settles rooms.tree r ∧
      r = { State.start 0 with
        callStack := {
          current := {
            top := .new .tunnel (some ⟨0, 2⟩)
            below := []
            previous := some ⟨0, 1⟩
            index := 0 }
          others := []
          made := 1 }
        evaluation := [.void] } := by
  obtain ⟨-, -, r, hrun, hspec⟩ := moving_on_unwinds forkedRooms
  obtain ⟨q, hunwinds, hsettles, -⟩ := hspec rfl
  suffices hend : nextContent forkedRooms = .ok () { forkedRooms with state := _ } from
    ⟨rfl, q, r, hrun, hunwinds, hsettles,
      congrArg Story.state (EStateM.Result.ok.inj (hrun.symm.trans hend)).2⟩
  with_unfolding_all rfl

end Flow

end StoryMachine
