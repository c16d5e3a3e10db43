import StoryMachine.Proofs.Story.HostCalls

/-!
# Jumps that fail

A jump of the host is made in parts: the flow is ended, unless the call stack is to be kept, the
arguments are put on the evaluation stack, the choices are withdrawn, and only then is the path
looked up. A jump that is refused at once leaves the story as it was. One that fails later keeps
what has been done up to there: the flow has been ended, the arguments in front of one that
cannot be passed are on the evaluation stack, and a path that leads nowhere has cost the choices.
Counts, turns, variables, the output and messages are not touched.

* `Story.JumpFails` : how a jump fails, and what it leaves;
* `Flow.choosePath_error_iff` : a jump fails in these ways only;
* `Flow.failed_jumps` : what every jump that fails leaves as it was.
-/

namespace StoryMachine

/-- The host can pass the value to a story. -/
def Value.Passable : Value → Prop
  | .target _ => False
  | .reference .. => False
  | _ => True

namespace State

/-- The values are on the evaluation stack, the last one on top. -/
def passing (s : State) (arguments : List Value) : State :=
  { s with evaluation := (arguments.map Token.value).reverse ++ s.evaluation }

/-- The flow has been ended, if it was to be. -/
def endedIf (s : State) (reset : Bool) : State :=
  if reset then s.forceEnd else s

end State

/-- A jump to a path fails with an error, and leaves a story behind. -/
inductive Story.JumpFails (s : Story) (path : String) (reset : Bool) (arguments : List Value) :
    StoryError → Story → Prop
  | busy {e : StoryError} (h : s.busy? .choosePath = some e) : JumpFails s path reset arguments e s
  | insideFunction (hidle : s.Idle) (hreset : reset = false)
    (htop : s.state.callStack.top.kind = .function) (place : String)
    (hplace : place = match s.state.callStack.top.cursor with
      | some c => "(" ++ (s.tree.path c.container).render ++ ")"
      | none => "") :
    JumpFails s path reset arguments
      (.flow (.insideFunction place path (s.state.callStack.trace s.tree))) s
  | argument (hidle : s.Idle) (hgoes : reset = true ∨ s.state.callStack.top.kind ≠ .function)
    {front rest : List Value} {v : Value} (harguments : arguments = front ++ v :: rest)
    (hfront : ∀ a ∈ front, a.Passable) (hv : ¬v.Passable) :
    JumpFails s path reset arguments (.request (.argumentKind v.kind))
      { s with state := (s.state.endedIf reset).passing front }
  | path (hidle : s.Idle) (hgoes : reset = true ∨ s.state.callStack.top.kind ≠ .function)
    (harguments : ∀ a ∈ arguments, a.Passable) {e : StoryError}
    (hpath : s.tree.cursorAt (Path.parse path) = .error e) :
    JumpFails s path reset arguments e
      { s with state := { (s.state.endedIf reset).passing arguments with choices := [] } }

namespace State

variable {s : State} {arguments : List Value}

theorem pushArguments_cons_of_passable {v : Value} (hv : v.Passable) (s : State)
    (rest : List Value) :
    s.pushArguments (v :: rest) = (s.passing [v]).pushArguments rest := by
  cases v with
  | target => exact absurd hv id
  | reference => exact absurd hv id
  | _ => rfl

theorem pushArguments_cons_of_not_passable {v : Value} (hv : ¬v.Passable) (s : State)
    (rest : List Value) :
    s.pushArguments (v :: rest) = (s, some (.request (.argumentKind v.kind))) := by
  cases v with
  | target => rfl
  | reference => rfl
  | _ => exact absurd trivial hv

theorem passing_passing (s : State) (front rest : List Value) :
    (s.passing front).passing rest = s.passing (front ++ rest) := by
  simp [passing]

/-- Values that can be passed are put on the evaluation stack. -/
theorem pushArguments_append {front : List Value} (hfront : ∀ a ∈ front, a.Passable) (s : State)
    (rest : List Value) :
    s.pushArguments (front ++ rest) = (s.passing front).pushArguments rest := by
  induction front generalizing s with
  | nil => rfl
  | cons v front ih =>
    rw [List.cons_append, pushArguments_cons_of_passable (hfront v List.mem_cons_self),
      ih fun a ha => hfront a (List.mem_cons_of_mem v ha), passing_passing]
    rfl

/-- Values that cannot all be passed have a first one that cannot. -/
theorem passable_or_exists (arguments : List Value) :
    (∀ a ∈ arguments, a.Passable) ∨ ∃ front v rest, arguments = front ++ v :: rest ∧
      (∀ a ∈ front, a.Passable) ∧ ¬v.Passable := by
  induction arguments with
  | nil => exact .inl (List.forall_mem_nil _)
  | cons v rest ih =>
    by_cases hv : v.Passable
    · rcases ih with hall | ⟨front, v', rest', rfl, hfront, hv'⟩
      · exact .inl (List.forall_mem_cons.mpr ⟨hv, hall⟩)
      · exact .inr ⟨v :: front, v', rest', rfl, List.forall_mem_cons.mpr ⟨hv, hfront⟩, hv'⟩
    · exact .inr ⟨[], v, rest, rfl, List.forall_mem_nil _, hv⟩

end State

namespace Flow

variable {s u : Story} {path : String} {reset : Bool} {arguments : List Value} {e : StoryError}

theorem orFail_of_none {f : State → State × Option StoryError} {t : State} (h : f s.state = (t, none)) :
    orFail f s = .ok () { s with state := t } := by
  have hrun : withState (fun s => ((f s).2, (f s).1)) s = .ok none { s with state := t } := by
    show EStateM.Result.ok (f s.state).2 { s with state := (f s.state).1 } = _
    rw [h]
  exact bind_ok hrun

theorem orFail_of_some {f : State → State × Option StoryError} {t : State}
    (h : f s.state = (t, some e)) : orFail f s = .error e { s with state := t } := by
  have hrun : withState (fun s => ((f s).2, (f s).1)) s = .ok (some e) { s with state := t } := by
    show EStateM.Result.ok (f s.state).2 { s with state := (f s.state).1 } = _
    rw [h]
  exact bind_ok hrun

/-- A path that leads nowhere withdraws the choices. -/
theorem jumpTo_error {p : Path} (h : s.tree.cursorAt p = .error e) (countTurn : Bool) :
    jumpTo p countTurn s = .error e { s with state := { s.state with choices := [] } } := by
  unfold jumpTo
  rw [bind_ok (tree_ok s)]
  refine bind_error (orFail_of_some ?_)
  unfold State.jump
  rw [h]

theorem jumpTo_ok {p : Path} {found : Option Cursor × Option String}
    (h : s.tree.cursorAt p = .ok found) (countTurn : Bool) :
    ∃ u, jumpTo p countTurn s = .ok () u := by
  unfold jumpTo
  rw [bind_ok (tree_ok s)]
  have hjump : ∃ t, s.state.jump s.tree p countTurn = (t, none) := by
    unfold State.jump
    rw [h]
    exact ⟨_, rfl⟩
  obtain ⟨t, hjump⟩ := hjump
  exact ⟨_, bind_ok (orFail_of_none hjump)⟩

/-- What a jump does first, where it is not refused. -/
theorem prepareJump_ok (hidle : s.Idle)
    (hgoes : reset = true ∨ s.state.callStack.top.kind ≠ .function) :
    (if reset then resetCallStack else refuseInFunction path) s =
      .ok () { s with state := s.state.endedIf reset } := by
  cases reset with
  | true => exact bind_ok (whenIdle_ok hidle .resetCallStack)
  | false =>
    have htop := hgoes.resolve_left Bool.false_ne_true
    show refuseInFunction path s = .ok () s
    unfold refuseInFunction
    rw [bind_ok (tree_ok s), bind_ok (state_ok s)]
    dsimp only
    rw [if_neg htop]
    rfl

/-- A jump that is not refused. -/
theorem choosePath_eq (hidle : s.Idle)
    (hgoes : reset = true ∨ s.state.callStack.top.kind ≠ .function) :
    choosePath path reset arguments s =
      (do orFail fun s => s.pushArguments arguments; jumpTo (Path.parse path) true)
        { s with state := s.state.endedIf reset } := by
  have hprepare : (if reset then resetCallStack else refuseInFunction path) s =
      .ok () { s with state := s.state.endedIf reset } := prepareJump_ok hidle hgoes
  unfold choosePath
  rw [bind_ok (whenIdle_ok hidle .choosePath)]
  cases reset with
  | true => exact bind_ok hprepare
  | false => exact bind_ok hprepare

/-- A jump that is not refused, and whose arguments can be passed. -/
theorem choosePath_eq_jumpTo (hidle : s.Idle)
    (hgoes : reset = true ∨ s.state.callStack.top.kind ≠ .function)
    (harguments : ∀ a ∈ arguments, a.Passable) :
    choosePath path reset arguments s =
      jumpTo (Path.parse path) true
        { s with state := (s.state.endedIf reset).passing arguments } := by
  have hpush : (s.state.endedIf reset).pushArguments arguments =
      ((s.state.endedIf reset).passing arguments, none) := by
    have happend := State.pushArguments_append harguments (s.state.endedIf reset) []
    rwa [List.append_nil] at happend
  rw [choosePath_eq hidle hgoes]
  exact bind_ok (orFail_of_none (s := { s with state := s.state.endedIf reset }) hpush)

theorem whenIdle_error {a : Activity} (h : s.busy? a = some e) : whenIdle a s = .error e s := by
  unfold whenIdle
  rw [bind_ok (get_ok s), h]
  rfl

theorem idle_of_busy? {a : Activity} (h : s.busy? a = none) : s.Idle := by
  rcases whenIdle_cases a s with ⟨-, hpending, hopen⟩ | ⟨e, hwait⟩
  · exact ⟨hopen, hpending⟩
  · rw [whenIdle, bind_ok (get_ok s), h] at hwait
    cases hwait

/-- A jump fails where it is said to. -/
theorem choosePath_of_jumpFails (h : s.JumpFails path reset arguments e u) :
    choosePath path reset arguments s = .error e u := by
  cases h with
  | busy h => exact bind_error (whenIdle_error h)
  | insideFunction hidle hreset htop place hplace =>
    subst hreset hplace
    unfold choosePath
    rw [bind_ok (whenIdle_ok hidle .choosePath)]
    have hrefuse : ∀ fault, refuseInFunction path s = .error fault s →
        (refuseInFunction path >>= fun _ => do
          orFail fun s => s.pushArguments arguments
          jumpTo (Path.parse path) true) s = .error fault s := fun fault => bind_error
    refine hrefuse _ ?_
    unfold refuseInFunction
    rw [bind_ok (tree_ok s), bind_ok (state_ok s)]
    dsimp only
    rw [if_pos htop]
    rfl
  | @argument hidle hgoes front rest v harguments hfront hv =>
    subst harguments
    have hpush : (s.state.endedIf reset).pushArguments (front ++ v :: rest) =
        ((s.state.endedIf reset).passing front, some (.request (.argumentKind v.kind))) := by
      rw [State.pushArguments_append hfront, State.pushArguments_cons_of_not_passable hv]
    rw [choosePath_eq hidle hgoes]
    exact bind_error (orFail_of_some (s := { s with state := s.state.endedIf reset }) hpush)
  | path hidle hgoes harguments hpath =>
    rw [choosePath_eq_jumpTo hidle hgoes harguments]
    exact jumpTo_error
      (s := { s with state := (s.state.endedIf reset).passing arguments }) hpath true

/-- A jump that does not fail in one of the ways told succeeds. -/
theorem jumpFails_or_ok (s : Story) (path : String) (reset : Bool) (arguments : List Value) :
    (∃ e u, s.JumpFails path reset arguments e u) ∨
      ∃ u, choosePath path reset arguments s = .ok () u := by
  cases hbusy : s.busy? .choosePath with
  | some fault => exact .inl ⟨fault, s, .busy hbusy⟩
  | none =>
    have hidle := idle_of_busy? hbusy
    by_cases hgoes : reset = true ∨ s.state.callStack.top.kind ≠ .function
    · rcases State.passable_or_exists arguments with hall | ⟨front, v, rest, harguments, hfront, hv⟩
      · cases hpath : s.tree.cursorAt (Path.parse path) with
        | error fault => exact .inl ⟨fault, _, .path hidle hgoes hall hpath⟩
        | ok found =>
          rw [choosePath_eq_jumpTo hidle hgoes hall]
          exact .inr (jumpTo_ok
            (s := { s with state := (s.state.endedIf reset).passing arguments }) hpath true)
      · exact .inl ⟨_, _, .argument hidle hgoes harguments hfront hv⟩
    · obtain ⟨hreset, htop⟩ := not_or.mp hgoes
      exact .inl ⟨_, _, .insideFunction hidle (Bool.eq_false_iff.mpr hreset)
        (Decidable.not_not.mp htop) _ rfl⟩

/-- A jump fails in the ways told, and in no other. -/
theorem choosePath_error_iff :
    choosePath path reset arguments s = .error e u ↔ s.JumpFails path reset arguments e u := by
  refine ⟨fun h => ?_, choosePath_of_jumpFails⟩
  rcases jumpFails_or_ok s path reset arguments with ⟨e', u', hfails⟩ | ⟨v, hok⟩
  · have hsame := choosePath_of_jumpFails hfails
    rw [h] at hsame
    cases hsame
    exact hfails
  · rw [hok] at h
    cases h

/-- A jump that is refused at once, because a line is in progress or a function is running whose
frame is to be kept, leaves the story as it was. Every other jump that fails has ended the flow,
if that was to be, and has passed the arguments in front of the first one that cannot be; without
such an argument the path leads nowhere, and the choices are withdrawn. Counts, turns, variables,
the output and messages stay, and so does everything beside the state. -/
theorem failed_jumps (s : Story) (path : String) (reset : Bool) (arguments : List Value)
    (e : StoryError) (u : Story) :
    (choosePath path reset arguments s = .error e u ↔ s.JumpFails path reset arguments e u) ∧
    (choosePath path reset arguments s = .error e u →
      u = { s with state := u.state } ∧
      u.state = { s.state with
        callStack := u.state.callStack, choices := u.state.choices,
        evaluation := u.state.evaluation, safeExit := u.state.safeExit } ∧
      ((∃ activity, s.busy? activity ≠ none) ∨
          reset = false ∧ s.state.callStack.top.kind = .function → u = s) ∧
      (reset = false →
        u.state.callStack = s.state.callStack ∧ u.state.safeExit = s.state.safeExit ∧
        (u.state.choices = s.state.choices ∨ u.state.choices = []))) := by
  refine ⟨choosePath_error_iff, fun h => ?_⟩
  have hbusy : ∀ {a}, s.busy? a ≠ none → ¬s.Idle := by
    intro a ha hidle
    rw [Story.busy?, hidle.pending, hidle.lineOpen] at ha
    exact ha rfl
  have hrefused : ∀ {v : Story}, s.Idle → reset = true ∨ s.state.callStack.top.kind ≠ .function →
      ((∃ activity, s.busy? activity ≠ none) ∨
          reset = false ∧ s.state.callStack.top.kind = .function → v = s) := by
    rintro v hidle hgoes (⟨a, ha⟩ | ⟨hreset, htop⟩)
    · exact absurd hidle (hbusy ha)
    · rcases hgoes with hgoes | hgoes
      · rw [hreset] at hgoes
        cases hgoes
      · exact absurd htop hgoes
  cases choosePath_error_iff.mp h with
  | busy => exact ⟨rfl, rfl, fun _ => rfl, fun _ => ⟨rfl, rfl, .inl rfl⟩⟩
  | insideFunction => exact ⟨rfl, rfl, fun _ => rfl, fun _ => ⟨rfl, rfl, .inl rfl⟩⟩
  | argument hidle hgoes =>
    refine ⟨rfl, ?_, hrefused hidle hgoes, fun hreset => ?_⟩
    · cases reset <;> rfl
    · subst hreset
      exact ⟨rfl, rfl, .inl rfl⟩
  | path hidle hgoes =>
    refine ⟨rfl, ?_, hrefused hidle hgoes, fun hreset => ?_⟩
    · cases reset <;> rfl
    · subst hreset
      exact ⟨rfl, rfl, .inr rfl⟩

/-- A story with a choice to make, and with no place to go to. -/
def undecided : Story :=
  let content : Content :=
    ⟨0, formatVersion, .ofBlock (.container none ⟨false, false, false⟩ [.leaf .glue] []), .empty⟩
  let start := Story.unstarted content 0
  { start with state := { start.state with choices := [default] } }

/-- The jump to a place that is not there ends the flow, and costs the choice. -/
theorem undecided_loses_choice :
    undecided.JumpFails "nowhere" true [] (.address (.noApproximation "nowhere"))
      { undecided with
        state := { (undecided.state.endedIf true).passing [] with choices := [] } } ∧
    undecided.state.choices ≠ [] :=
  ⟨(failed_jumps undecided "nowhere" true [] (.address (.noApproximation "nowhere")) _).1.mp rfl,
    List.cons_ne_nil _ _⟩

end Flow

end StoryMachine
