import StoryMachine.Proofs.Story.Evaluation
import StoryMachine.Proofs.Story.Observers

/-!
# The nodes that calls execute

A call of a host executes nodes when it continues lines: one line, or several, one after the
other, or those of a function, or of the global declarations. The stories from which it does so
are listed in order, with those whose steps are taken back, or repeated, later.

* `Story.linesSteps` : the steps of lines that are continued one after the other;
* `Story.declarationSteps`, `Story.callSteps` : those of the global declarations, and of a call of
  a function;
* `HostCall.executed` : those of any call;
* `Story.Declared`, `Story.Called` : what becomes of the global declarations, and of a call of a
  function;
* `HostCall.Leads`, `HostCall.leads` : what becomes of any call.
-/

namespace StoryMachine

namespace Story

/-- The stories from which steps are made when lines are continued one after the other. -/
def linesSteps : (budget : Nat) → Story → List Story
  | 0, _ => []
  | budget + 1, s =>
    if s.canContinue then
      HostCall.next.steps s ++ match Flow.next s with
        | .ok _ t => t.linesSteps budget
        | .error _ _ => []
    else []

/-- The stories from which steps are made when the global declarations run. -/
def declarationSteps (s : Story) : List Story :=
  if s.tree.declaresGlobals then
    match Flow.jumpTo (Path.parse declarationsName) false s with
    | .ok _ t => HostCall.next.steps t
    | .error _ _ => []
  else []

/-- The stories from which steps are made when a function is called. -/
def callSteps (name : String) (arguments : List Value) (s : Story) : List Story :=
  match Flow.findFunction name s with
  | .ok knot _ =>
    match Flow.startCall knot arguments s with
    | .ok _ t => t.linesSteps Flow.lineBudget
    | .error _ _ => []
  | .error _ _ => []

end Story

/-- The stories from which steps are made in a call, whether they stand or not. -/
def HostCall.executed (call : HostCall) (s : Story) : List Story :=
  match call with
  | nextAll =>
    match Flow.whenIdle .continueMaximally s with
    | .ok _ _ => s.linesSteps Flow.lineBudget
    | .error _ _ => []
  | evaluate name arguments => s.callSteps name arguments
  | resetState seed =>
    match Flow.whenIdle .resetState s with
    | .ok _ _ => Story.declarationSteps { s with state := .start seed }
    | .error _ _ => []
  | call => call.steps s

/-! ## Lines -/

namespace Flow

variable {s t u : Story} {limited : Bool} {nodes : Nat}

/-- What becomes of a line that can be begun, or is in progress. -/
theorem after_continueLine (nodes : Nat) (hopen : openLine limited s = .ok () t) :
    ∃ ended, runLine nodes t = .ok ended ((runLine nodes).after t) ∧
      (continueLine limited nodes).after s =
        reportIssues.after (((runLine nodes).after t).endLine ended) := by
  obtain ⟨ended, u, hrun⟩ := exists_runLine_eq nodes t
  refine ⟨ended, by rw [after_of_ok hrun]; exact hrun, ?_⟩
  rw [after_of_ok hrun, after, continueLine_eq hopen hrun]
  rfl

/-- What becomes of a line that cannot be begun. -/
theorem after_continueLine_refused {e : StoryError} (hopen : openLine limited s = .error e t) :
    (continueLine limited nodes).after s = { s with lineOpen := limited } := by
  unfold continueLine
  rw [after_bind_error hopen, (openLine_error hopen).2.2.2]

/-- Lines whose texts are collected, and lines that are put together, are the same lines. -/
theorem after_nextLines (budget : Nat) (front text : String) (s : Story) :
    (nextLines front budget).after s = (collectLines text budget).after s := by
  induction budget generalizing front text s with
  | zero => rfl
  | succ budget ih =>
    unfold nextLines collectLines
    rw [after_bind_ok (get_ok s), after_bind_ok (get_ok s)]
    split
    · cases hrun : next s with
      | error e u =>
        rw [after_bind_error hrun, after_bind_ok (attempt_error hrun)]
        rfl
      | ok line u =>
        rw [after_bind_ok hrun, after_bind_ok (attempt_ok hrun)]
        exact ih _ _ u
    · rfl

/-- Collecting lines gives the error that has ended it, and does not fail. -/
theorem exists_collectLines_eq (budget : Nat) (text : String) (s : Story) :
    ∃ result u, collectLines text budget s = .ok result u := by
  induction budget generalizing text s with
  | zero => exact ⟨_, s, rfl⟩
  | succ budget ih =>
    unfold collectLines
    rw [bind_ok (get_ok s)]
    split
    · cases hrun : next s with
      | error e u => exact ⟨_, u, bind_ok (attempt_error hrun)⟩
      | ok line u =>
        rw [bind_ok (attempt_ok hrun)]
        exact ih _ u
    · exact ⟨_, s, rfl⟩

end Flow

namespace Story

/-- What is known of the steps of one line, and of those of two runs one behind the other, is
known of all steps of lines. -/
theorem linesSteps_induction {R : Story → List Story → Story → Prop} (hnone : ∀ s, R s [] s)
    (hline : ∀ s, R s (HostCall.next.steps s) (Flow.next.after s))
    (htrans : ∀ {s t u : Story} {front rest : List Story}, R s front t → R t rest u →
      R s (front ++ rest) u) (budget : Nat) (text : String) (s : Story) :
    R s (s.linesSteps budget) ((Flow.collectLines text budget).after s) := by
  induction budget generalizing text s with
  | zero => exact hnone s
  | succ budget ih =>
    have hfirst := hline s
    unfold linesSteps Flow.collectLines
    rw [Flow.after_bind_ok (Flow.get_ok s)]
    split
    · cases hrun : Flow.next s with
      | error e u =>
        rw [Flow.after_of_error hrun] at hfirst
        rw [Flow.after_bind_ok (Flow.attempt_error hrun), List.append_nil]
        exact hfirst
      | ok line u =>
        rw [Flow.after_of_ok hrun] at hfirst
        rw [Flow.after_bind_ok (Flow.attempt_ok hrun)]
        exact htrans hfirst (ih _ u)
    · exact hnone s

/-! ## The global declarations -/

/-- What the global declarations lead to, with the stories from which steps are made. -/
inductive Declared (s : Story) : List Story → Story → Prop
  | absent : Declared s [] { s with state := { s.state with vars := s.state.vars.settle } }
  | failed {e : StoryError} {u : Story}
      (hjump : Flow.jumpTo (Path.parse declarationsName) false s = .error e u) : Declared s [] u
  | stopped {u : Story} (hdeclares : s.tree.declaresGlobals = true)
      (hjump : Flow.jumpTo (Path.parse declarationsName) false s = .ok () u) :
      Declared s (HostCall.next.steps u) ((Flow.continueLine false Flow.nodeBudget).after u)
  | done {u v : Story} (hdeclares : s.tree.declaresGlobals = true)
      (hjump : Flow.jumpTo (Path.parse declarationsName) false s = .ok () u)
      (hv : v = (Flow.continueLine false Flow.nodeBudget).after u) :
      Declared s (HostCall.next.steps u) { v with state :=
        { v.state.setCursor s.state.cursor with vars := (v.state.setCursor s.state.cursor).vars.settle } }

theorem declared (s : Story) : s.Declared s.declarationSteps (Flow.declareGlobals.after s) := by
  unfold declarationSteps Flow.declareGlobals
  rw [Flow.after_bind_ok (Flow.tree_ok s)]
  cases hdeclares : s.tree.declaresGlobals with
  | false => exact .absent
  | true =>
    rw [if_pos rfl, if_pos rfl]
    dsimp only
    rw [Flow.after_bind_ok (Flow.state_ok s)]
    cases hjump : Flow.jumpTo (Path.parse declarationsName) false s with
    | error e u =>
      rw [Flow.after_bind_error hjump]
      exact .failed hjump
    | ok _ u =>
      rw [Flow.after_bind_ok hjump]
      cases hline : Flow.continueLine false Flow.nodeBudget u with
      | error e v =>
        rw [Flow.after_bind_error hline, ← Flow.after_of_error hline]
        exact .stopped hdeclares hjump
      | ok _ v =>
        rw [Flow.after_bind_ok hline]
        exact .done (v := v) hdeclares hjump (Flow.after_of_ok hline).symm

/-! ## Calls of functions -/

end Story

namespace Flow

/-- At the start of a call there is a frame for it, and values are pushed. -/
theorem after_startCall (knot : NodeId) (arguments : List Value) (s : Story) :
    ∃ evaluation, (startCall knot arguments).after s =
      { s with state := { s.state.callStart knot [] with evaluation } } := by
  unfold startCall
  rw [after_bind_ok (modifyState_ok _ s), after_orFail]
  obtain ⟨evaluation, hpush⟩ := exists_pushArguments_eq ({ s.state with
    output := .empty
    callStack := s.state.callStack.push .hostCall s.state.evaluation.length 0 }.setCursor
      (some (.start knot))) arguments
  dsimp only
  rw [hpush]
  exact ⟨evaluation, rfl⟩

/-- At the end of a call values are dropped, and a frame if it is that of the call. -/
theorem after_finishCall (s : Story) : ∃ evaluation callStack, finishCall.after s =
    { s with state := { s.state with evaluation, callStack } } ∧
      (callStack = s.state.callStack ∨ s.state.callStack.pop = .ok callStack) := by
  let I (u : Story) : Prop := ∃ evaluation callStack, u =
    { s with state := { s.state with evaluation, callStack } } ∧
      (callStack = s.state.callStack ∨ s.state.callStack.pop = .ok callStack)
  show I (finishCall.after s)
  unfold finishCall
  rw [after_bind_ok (tree_ok s), after_bind_ok (state_ok s)]
  dsimp only
  split
  · exact ⟨s.state.evaluation, s.state.callStack, rfl, .inl rfl⟩
  · refine after_bind_holds (I := I) ⟨_, _, rfl, .inl rfl⟩ fun result u htake hu => ?_
    cases htake
    refine after_bind_holds (after_tryState_holds hu fun _ state hpop => ?_) fun _ _ _ h => h
    obtain ⟨stack, hkind, hstate⟩ := Except.bind_eq_ok.mp hpop
    cases hstate
    refine ⟨_, stack, rfl, .inr ?_⟩
    unfold CallStack.popKind at hkind
    split at hkind
    · exact hkind
    · cases hkind

end Flow

namespace Story

/-- A call is given up, and the state is as in front of it. -/
def abandoned (s : Story) (before : State) : Story :=
  { s with state := before, lineState := none, pending := none, lineOpen := false }

/-- What a call of a function leads to, with the stories from which steps are made. -/
inductive Called (s : Story) (arguments : List Value) : List Story → Story → Prop
  | missing : Called s arguments [] s
  | failed {knot : NodeId} {e : StoryError} {u : Story}
      (hstart : Flow.startCall knot arguments s = .error e u) :
      Called s arguments [] (u.abandoned s.state)
  | abandoned {knot : NodeId} {t : Story} (hstart : Flow.startCall knot arguments s = .ok () t) :
      Called s arguments (t.linesSteps Flow.lineBudget)
        (((Flow.collectLines "" Flow.lineBudget).after t).abandoned s.state)
  | finished {knot : NodeId} {t u : Story} (hstart : Flow.startCall knot arguments s = .ok () t)
      (hu : u = (Flow.collectLines "" Flow.lineBudget).after t) :
      Called s arguments (t.linesSteps Flow.lineBudget)
        (Flow.finishCall.after { u with state := { u.state with output := s.state.output } })

theorem called (s : Story) (name : String) (arguments : List Value) :
    s.Called arguments (s.callSteps name arguments) ((Flow.evaluate name arguments).after s) := by
  unfold callSteps Flow.evaluate
  rcases Flow.findFunction_cases name s with ⟨⟨knot, hfind⟩, -⟩ | ⟨e, hfind⟩
  · rw [Flow.after_bind_ok (Flow.attempt_ok hfind), hfind]
    dsimp only
    rw [Flow.after_bind_ok (Flow.state_ok s)]
    cases hstart : Flow.startCall knot arguments s with
    | error e u =>
      rw [Flow.after_bind_ok (Flow.attempt_error hstart)]
      exact .failed hstart
    | ok _ t =>
      rw [Flow.after_bind_ok (Flow.attempt_ok hstart)]
      dsimp only
      obtain ⟨⟨text, failure⟩, u, hlines⟩ := Flow.exists_collectLines_eq Flow.lineBudget "" t
      have hu := Flow.after_of_ok hlines
      have hgiven : s.Called arguments (t.linesSteps Flow.lineBudget) (u.abandoned s.state) :=
        hu ▸ .abandoned hstart
      rw [Flow.after_bind_ok hlines]
      cases failure with
      | some e => exact hgiven
      | none =>
        dsimp only
        rw [Flow.after_bind_ok (Flow.get_ok u)]
        cases u.pending with
        | some call => exact hgiven
        | none =>
          dsimp only
          rw [Flow.after_bind_ok (Flow.modifyState_ok _ u)]
          refine Flow.after_bind_holds ?_ fun _ _ _ h => h
          rw [Flow.after_attempt]
          exact .finished hstart hu.symm
  · rw [Flow.after_bind_ok (Flow.attempt_error hfind), hfind]
    exact .missing

end Story

/-! ## Every call -/

/-- The flow and the variables are as they were. Only values may have been pushed, messages
forgotten, and events taken. -/
structure Story.Aside (s u : Story) : Prop where
  content : u.content = s.content
  state : ∃ evaluation errors warnings firstError,
    u.state = { s.state with evaluation, errors, warnings, firstError }
  lineState : u.lineState = s.lineState
  hasHandler : s.hasHandler = true → u.hasHandler = true
  events : u.events = s.events ∨ u.events = []

theorem Story.Aside.of_state {s u : Story} (hcontent : u.content = s.content)
    (hstate : u.state = s.state) (hkept : u.lineState = s.lineState)
    (hhandler : s.hasHandler = true → u.hasHandler = true)
    (hevents : u.events = s.events ∨ u.events = []) : s.Aside u :=
  ⟨hcontent, ⟨_, _, _, _, hstate⟩, hkept, hhandler, hevents⟩

namespace HostCall

/-- What a call does that moves between lines. Only jumps and choices count turns. -/
def effects : HostCall → Effects
  | choose _ | choosePath _ _ _ => .silent
  | _ => .still

theorem assigns_effects (call : HostCall) : call.effects.assigns = false := by
  cases call with
  | _ => rfl

/-- What a call leads to, with the stories from which steps are made: it continues lines, goes to
another state, sets a variable, moves between lines, or is beside the flow. -/
inductive Leads (s : Story) : HostCall → List Story → Story → Prop
  | line {call : HostCall} {limited : Bool} {nodes : Nat}
      (hcall : call.line? = some (limited, nodes)) (hpending : s.pending = none) :
      Leads s call (call.steps s) ((Flow.continueLine limited nodes).after s)
  | lines : Leads s nextAll (s.linesSteps Flow.lineBudget)
      ((Flow.collectLines "" Flow.lineBudget).after s)
  | called {name : String} {arguments : List Value} {steps : List Story} {u : Story}
      (h : s.Called arguments steps u) : Leads s (evaluate name arguments) steps u
  | declared {seed : Int32} {steps : List Story} {u : Story} (hpending : s.pending = none)
      (h : Story.Declared { s with state := .start seed } steps u) :
      Leads s (resetState seed) steps u
  | loaded {text : String} {state : State} (h : s.state.ofText s.tree text = .ok state) :
      Leads s (load text) [] { s with state }
  | restored (snapshot : Snapshot) (hkey : s.content.key = snapshot.key) :
      Leads s (restore snapshot) [] { s with state := snapshot.state }
  | set {name : String} {v : Value} {vars : Variables} {u : Story}
      (h : s.state.vars.set name v = .ok vars)
      (hu : u = { s with state := { s.state with vars } }) :
      Leads s (setVariable name v) [] (u.logAll (u.notifications (name, v)))
  | moves (call : HostCall) {u : Story} (h : Changes s.content call.effects s u) : Leads s call [] u
  | aside (call : HostCall) {u : Story} (h : s.Aside u) : Leads s call [] u

variable {s : Story}

theorem Leads.refl (call : HostCall) : Leads s call [] s :=
  .moves call .refl

/-- A story that waits for the host is not continued. -/
theorem after_of_waiting {call : HostCall} (hcall : call.line?.isSome = true)
    (hpending : s.pending.isSome = true) : call.after s = s := by
  have hrefused {k : Unit → Flow Unit} : (Flow.refuseWaiting >>= k).after s = s :=
    Flow.holds_refuseWaiting (I := fun u => u = s) rfl fun hnone => by
      rw [hnone] at hpending
      cases hpending
  cases call with
  | next => exact (Flow.after_discard Flow.next s).trans ((Flow.after_next s).trans hrefused)
  | nextTagged =>
    exact (Flow.after_discard Flow.nextTagged s).trans
      ((Flow.after_nextTagged s).trans ((Flow.after_next s).trans hrefused))
  | continueFor limited => exact hrefused
  | continueSlice more => exact hrefused
  | _ => cases hcall

/-- A call that continues one line, unless the story waits for the host. -/
theorem leads_line {call : HostCall} (hcall : call.line?.isSome = true) :
    Leads s call (call.steps s) (call.after s) := by
  obtain ⟨⟨limited, nodes⟩, hline⟩ := Option.isSome_iff_exists.mp hcall
  cases hpending : s.pending with
  | none =>
    rw [after_of_line? hline hpending]
    exact .line hline hpending
  | some waiting =>
    rw [after_of_waiting hcall (by rw [hpending]; rfl), steps, hline, hpending]
    exact .refl call

/-- Every call leads to something of this kind. -/
theorem leads (call : HostCall) (s : Story) : Leads s call (call.executed s) (call.after s) := by
  cases call with
  | next | nextTagged | continueFor | continueSlice => exact leads_line rfl
  | nextAll =>
    rw [show nextAll.after s = Flow.nextAll.after s from Flow.after_discard _ s]
    rcases Flow.whenIdle_cases .continueMaximally s with ⟨hidle, -⟩ | ⟨e, hbusy⟩
    · rw [executed, hidle, Flow.nextAll, Flow.after_bind_ok hidle,
        Flow.after_nextLines Flow.lineBudget "" "" s]
      exact .lines
    · rw [executed, hbusy, Flow.nextAll, Flow.after_bind_error hbusy]
      exact .refl nextAll
  | evaluate name arguments =>
    rw [show (evaluate name arguments).after s = (Flow.evaluate name arguments).after s from
      Flow.after_discard _ s]
    exact .called (s.called name arguments)
  | resetState seed =>
    show Leads s _ _ ((Flow.resetState seed).after s)
    rcases Flow.whenIdle_cases .resetState s with ⟨hidle, hpending, -⟩ | ⟨e, hbusy⟩
    · rw [executed, hidle, Flow.resetState, Flow.after_bind_ok hidle,
        Flow.after_bind_ok (Flow.modifyState_ok _ s)]
      exact .declared hpending (Story.declared _)
    · rw [executed, hbusy, Flow.resetState, Flow.after_bind_error hbusy]
      exact .refl _
  | choose index => exact .moves _ (Flow.changes_choose index s)
  | choosePath path reset arguments =>
    exact .moves _ (Flow.changes_choosePath path reset arguments s)
  | setVariable name v =>
    show Leads s _ [] ((Flow.setVariable name v).after s)
    unfold Flow.setVariable
    cases hset : s.state.vars.set name v with
    | error e =>
      have hrun : Flow.tryState (fun s => return ((), { s with vars := ← s.vars.set name v })) s =
          .error e s := Flow.tryState_run_error (by rw [hset]; rfl)
      rw [Flow.after_bind_error hrun]
      exact .refl _
    | ok vars =>
      have hrun : Flow.tryState (fun s => return ((), { s with vars := ← s.vars.set name v })) s =
          .ok () { s with state := { s.state with vars } } :=
        Flow.tryState_run_ok (by rw [hset]; rfl)
      rw [Flow.after_bind_ok hrun]
      exact .set hset rfl
  | observe name observer =>
    refine Flow.holds_whenIdle (.refl _) fun _ => ?_
    rw [Flow.after_bind_ok (Flow.state_ok s)]
    dsimp only
    split
    · exact .refl _
    · exact .aside _ (.of_state rfl rfl rfl id (.inl rfl))
  | unobserve observer name =>
    exact Flow.holds_whenIdle (.refl _) fun _ => .aside _ (.of_state rfl rfl rfl id (.inl rfl))
  | bind name f lookaheadSafe =>
    refine Flow.holds_whenIdle (.refl _) fun _ => ?_
    rw [Flow.after_bind_ok (Flow.get_ok s)]
    dsimp only
    split
    · exact .refl _
    · exact .aside _ (.of_state rfl rfl rfl id (.inl rfl))
  | unbind name =>
    refine Flow.holds_whenIdle (.refl _) fun _ => ?_
    rw [Flow.after_bind_ok (Flow.get_ok s)]
    dsimp only
    split
    · exact .refl _
    · exact .aside _ (.of_state rfl rfl rfl id (.inl rfl))
  | resolve result =>
    show Leads s _ [] ((Flow.resolve result).after s)
    unfold Flow.resolve
    rw [Flow.after_bind_ok (Flow.get_ok s)]
    cases s.pending with
    | none => exact .refl _
    | some call => exact .aside _ ⟨rfl, ⟨_, _, _, _, rfl⟩, rfl, id, .inl rfl⟩
  | resetCallStack =>
    exact Flow.holds_whenIdle (.refl _) fun _ => .moves _ (.single (.state (.finish s.state)))
  | load text =>
    rcases Flow.load_cases text s with ⟨state, -, hread, hload⟩ | ⟨e, hload⟩
    · rw [show (load text).after s = { s with state } from Flow.after_of_ok hload]
      exact .loaded hread
    · rw [show (load text).after s = s from Flow.after_of_error hload]
      exact .refl _
  | restore snapshot =>
    refine Flow.holds_whenIdle (.refl _) fun _ => ?_
    rw [Flow.after_bind_ok (Flow.get_ok s)]
    dsimp only
    split
    · exact .refl _
    · next hkey => exact .restored snapshot (Decidable.of_not_not hkey)
  | resetErrors => exact .aside _ ⟨rfl, ⟨_, _, _, _, rfl⟩, rfl, id, .inl rfl⟩
  | installHandler => exact .aside _ (.of_state rfl rfl rfl (fun _ => rfl) (.inl rfl))
  | allowFallbacks => exact .aside _ (.of_state rfl rfl rfl id (.inl rfl))
  | takeEvents => exact .aside _ (.of_state rfl rfl rfl id (.inr rfl))

end HostCall

end StoryMachine
