import StoryMachine.Proofs.Story.Orderly

/-!
# Functions called by the host

A call of a function either cannot be started, or its lines are continued one after the other.
Where this fails, or the story comes to wait for the host, the story goes back to where it was.
Otherwise the lines have run out, and the result is taken from the frame of the call. The call
does not look whether this frame is still there, nor, while a handler is told of errors, whether
one has been recorded.

* `Story.Restores` : a story goes back to what it was;
* `Story.CallEnds` : the lines of a call lead to a story;
* `Flow.evaluate_cases` : what a call comes to;
* `Flow.evaluate_restores` : a call that fails leaves no trace.
-/

namespace StoryMachine

namespace Story

/-- The state is as before, and the line in progress as well. -/
structure Restores (s u : Story) : Prop where
  state : u.state = s.state
  lineState : u.lineState = s.lineState
  pending : u.pending = s.pending
  lineOpen : u.lineOpen = s.lineOpen

theorem Restores.refl (s : Story) : s.Restores s :=
  ⟨rfl, rfl, rfl, rfl⟩

/-- Lines that are continued one after the other, without a failure. -/
inductive Lines : Nat → Story → Story → Prop
  | none (s : Story) : Lines 0 s s
  | next {count : Nat} {s t u : Story} {text : String} (h : Flow.next s = .ok text t)
      (hrest : Lines count t u) : Lines (count + 1) s u

/-- A call of a function starts at the story `t`. -/
def CallStarts (s : Story) (name : String) (arguments : List Value) (t : Story) : Prop :=
  ∃ knot, Flow.findFunction name s = .ok knot s ∧ Flow.startCall knot arguments s = .ok () t

/-- The lines of a call, which put out `text`, lead from `t` to `w` without a failure, and the
story does not wait for the host. -/
structure CallEnds (s : Story) (name : String) (arguments : List Value) (text : String)
    (t w : Story) : Prop where
  started : s.CallStarts name arguments t
  lines : Flow.collectLines "" Flow.lineBudget t = .ok (text, none) w
  pending : w.pending = none

end Story

namespace State

/-- The state at the start of a call of the function at a knot: the output is empty, and there
is a frame for the call. -/
def callStart (s : State) (knot : NodeId) (arguments : List Value) : State :=
  { s with
    output := .empty
    evaluation := (arguments.map Token.value).reverse ++ s.evaluation
    callStack := (s.callStack.push .hostCall s.evaluation.length 0).modifyTop fun f =>
      { f with cursor := some (.start knot) } }

/-- Arguments that can be passed go on the evaluation stack. -/
theorem evaluation_pushArguments {s : State} {arguments : List Value}
    (h : (s.pushArguments arguments).2 = none) :
    (s.pushArguments arguments).1 =
      { s with evaluation := (arguments.map Token.value).reverse ++ s.evaluation } := by
  induction arguments generalizing s with
  | nil => rfl
  | cons v rest ih =>
    unfold pushArguments at h ⊢
    split at h
    · cases h
    · cases h
    · rw [ih h]
      simp [push]

end State

namespace Flow

variable {L : Story → Prop}

/-- A call that goes back to where it was, or one whose lines run out. -/
theorem evaluate_cases {s : Story} (hs : s.Orderly L) (name : String) (arguments : List Value) :
    (∃ text e u, evaluate name arguments s = .ok (text, .error e) u ∧ s.Restores u ∧
      ∀ text t w, ¬ s.CallEnds name arguments text t w) ∨
    ∃ text t w, s.CallEnds name arguments text t w ∧
      evaluate name arguments s = (attempt finishCall >>= fun r => pure (text, r))
        { w with state := { w.state with output := s.state.output } } := by
  unfold evaluate
  rcases findFunction_cases name s with ⟨⟨knot, hfind⟩, hopen⟩ | ⟨e, hfind⟩
  · have hidle : s.pending = none := by
      unfold findFunction at hfind
      rcases whenIdle_cases .evaluate s with ⟨-, hpending, -⟩ | ⟨e, h⟩
      · exact hpending
      · rw [bind_error h] at hfind
        cases hfind
    have hback : ∀ u : Story, s.Restores
        { u with state := s.state, lineState := none, pending := none, lineOpen := false } :=
      fun u => ⟨rfl, (hs.idle hopen).symm, hidle.symm, hopen.symm⟩
    have hsame : ∀ {text : String} {t w : Story}, s.CallEnds name arguments text t w →
        startCall knot arguments s = .ok () t := by
      rintro text t w ⟨⟨knot', hfind', hstart⟩, -, -⟩
      rw [hfind] at hfind'
      cases hfind'
      exact hstart
    rw [bind_ok (attempt_ok hfind)]
    dsimp only
    rw [bind_ok (state_ok s)]
    have hmarks := keepsMarks_startCall knot arguments s
    cases hstart : startCall knot arguments s with
    | error e u =>
      rw [bind_ok (attempt_error hstart)]
      refine .inl ⟨"", e, _, rfl, hback u, fun text t w hcall => ?_⟩
      rw [hsame hcall] at hstart
      cases hstart
    | ok _ t =>
      rw [bind_ok (attempt_ok hstart)]
      rw [after_of_ok hstart] at hmarks
      have ht : t.Orderly fun _ => True :=
        .of_idle (hmarks.1.trans hopen) (hmarks.2.1.trans (hs.idle hopen))
      obtain ⟨text, failure, w, hlines, -⟩ :=
        settled_collectLines lineBudget "" ht (hmarks.1.trans hopen)
      have hunique : ∀ {text' : String} {t' w' : Story}, s.CallEnds name arguments text' t' w' →
          failure = none ∧ w = w' := by
        intro text' t' w' hcall
        have hstart' := hsame hcall
        rw [hstart] at hstart'
        cases hstart'
        have hlines' := hcall.lines
        rw [hlines] at hlines'
        cases hlines'
        exact ⟨rfl, rfl⟩
      dsimp only
      rw [bind_ok hlines]
      dsimp only
      cases failure with
      | some e =>
        refine .inl ⟨text, e, _, rfl, hback w, fun text' t' w' hcall => ?_⟩
        cases (hunique hcall).1
      | none =>
        dsimp only
        rw [bind_ok (get_ok w)]
        cases hpending : w.pending with
        | some call =>
          refine .inl ⟨text, _, _, rfl, hback w, fun text' t' w' hcall => ?_⟩
          rw [(hunique hcall).2, hcall.pending] at hpending
          cases hpending
        | none =>
          exact .inr ⟨text, t, w, ⟨⟨knot, hfind, hstart⟩, hlines, hpending⟩, rfl⟩
  · rw [bind_ok (attempt_error hfind)]
    refine .inl ⟨"", e, s, rfl, .refl s, fun text t w hcall => ?_⟩
    obtain ⟨knot, hfind', -⟩ := hcall.started
    rw [hfind] at hfind'
    cases hfind'

/-- The lines of a call run out, unless as many as are allowed have been continued. -/
theorem collectLines_ends {budget : Nat} {front text : String} {s w : Story}
    (h : collectLines front budget s = .ok (text, none) w) :
    w.canContinue = false ∨ s.Lines budget w := by
  induction budget generalizing front s with
  | zero =>
    cases h
    exact .inr (.none _)
  | succ budget ih =>
    unfold collectLines at h
    rw [bind_ok (get_ok s)] at h
    split at h
    · cases hrun : next s with
      | error e u =>
        rw [bind_ok (attempt_error hrun)] at h
        cases h
      | ok line u =>
        rw [bind_ok (attempt_ok hrun)] at h
        exact (ih h).imp_right fun hrest => .next hrun hrest
    · next hstop =>
      cases h
      exact .inl (Bool.not_eq_true _ ▸ hstop)

/-! ## Errors of a line -/

end Flow

theorem Changes.hasHandler_eq {c : Content} {fx : Effects} {s u : Story} (h : Changes c fx s u) :
    u.hasHandler = s.hasHandler := by
  induction h with
  | refl => rfl
  | tail _ h ih => cases h <;> exact ih

namespace Flow

theorem hasHandler_runLine (nodes : Nat) (s : Story) :
    ((runLine nodes).after s).hasHandler = s.hasHandler :=
  runLine_keeps (f := Story.hasHandler)
    (lineStep_keeps (fun s => (changes_plainStep s).hasHandler_eq) fun _ _ _ => rfl)
    (fun _ _ _ => rfl) (fun _ => rfl) nodes s

theorem hasHandler_endLine (s : Story) (ended : Bool) :
    (s.endLine ended).hasHandler = s.hasHandler := by
  unfold Story.endLine
  split
  · obtain ⟨state, events, heq, -⟩ := s.closeLine_eq
    rw [heq]
  · rfl

theorem hasHandler_openLine (limited : Bool) (s : Story) :
    ((openLine limited).after s).hasHandler = s.hasHandler := by
  cases hopen : s.lineOpen with
  | true => rw [after_of_ok (openLine_of_open limited hopen)]
  | false =>
    cases hcontinue : s.state.canContinue with
    | true =>
      rw [after_of_ok (openLine_of_canContinue limited hopen hcontinue)]
      rfl
    | false =>
      obtain ⟨e, h⟩ := openLine_refused limited hopen hcontinue
      rw [after_of_error h]

/-- Without a handler, reporting fails if an error is recorded. -/
theorem hasError_of_reportIssues {s u : Story} (h : reportIssues s = .ok () u)
    (hhandler : s.hasHandler = false) : u.state.hasError = false ∧ u.hasHandler = false := by
  unfold reportIssues at h
  rw [bind_ok (get_ok s)] at h
  split at h
  · rw [hhandler, if_neg Bool.false_ne_true] at h
    split at h
    · cases h
    · next hnone =>
      cases h
      exact ⟨Bool.not_eq_true _ ▸ hnone, hhandler⟩
  · next hnone =>
    cases h
    rw [Bool.not_eq_true, Bool.or_eq_false_iff] at hnone
    exact ⟨hnone.1, hhandler⟩

/-- Without a handler, a line that is continued without a failure has recorded no error. -/
theorem hasError_of_next {s u : Story} {text : String} (h : next s = .ok text u)
    (hhandler : s.hasHandler = false) : u.state.hasError = false ∧ u.hasHandler = false := by
  obtain ⟨-, hline⟩ := continueFor_ok (next_cases h).1
  unfold continueLine at hline
  obtain ⟨_, t, hopen, hrest⟩ := exists_of_bind_eq_ok hline
  obtain ⟨ended, v, hrun, hreport⟩ := exists_of_bind_eq_ok hrest
  have ht := hasHandler_openLine false s
  rw [after_of_ok hopen] at ht
  have hv := hasHandler_runLine nodeBudget t
  rw [after_of_ok hrun] at hv
  have hend := (hasHandler_endLine v ended).trans (hv.trans (ht.trans hhandler))
  exact hasError_of_reportIssues hreport hend

theorem hasError_of_collectLines {budget : Nat} {front text : String} {s w : Story}
    (h : collectLines front budget s = .ok (text, none) w) (hhandler : s.hasHandler = false)
    (herror : s.state.hasError = false) : w.state.hasError = false := by
  induction budget generalizing front s with
  | zero =>
    cases h
    exact herror
  | succ budget ih =>
    unfold collectLines at h
    rw [bind_ok (get_ok s)] at h
    split at h
    · cases hrun : next s with
      | error e u =>
        rw [bind_ok (attempt_error hrun)] at h
        cases h
      | ok line u =>
        rw [bind_ok (attempt_ok hrun)] at h
        obtain ⟨hu, huhandler⟩ := hasError_of_next hrun hhandler
        exact ih h huhandler hu
    · cases h
      exact herror

/-! ## Starting and finishing -/

theorem orFail_ok {f : State → State × Option StoryError} {s t : Story}
    (h : orFail f s = .ok () t) : (f s.state).2 = none ∧ t = { s with state := (f s.state).1 } := by
  unfold orFail at h
  have hrun : withState (fun s => ((f s).2, (f s).1)) s =
      .ok (f s.state).2 { s with state := (f s.state).1 } := rfl
  rw [bind_ok hrun] at h
  cases hf : (f s.state).2 with
  | some e =>
    rw [hf] at h
    cases h
  | none =>
    rw [hf] at h
    cases h
    exact ⟨rfl, rfl⟩

theorem startCall_ok {knot : NodeId} {arguments : List Value} {s t : Story}
    (h : startCall knot arguments s = .ok () t) :
    t = { s with state := s.state.callStart knot arguments } := by
  unfold startCall at h
  rw [bind_ok (modifyState_ok _ s)] at h
  obtain ⟨hnone, ht⟩ := orFail_ok h
  rw [ht, State.evaluation_pushArguments hnone]
  rfl

theorem hasError_of_startCall {knot : NodeId} {arguments : List Value} {s t : Story}
    (h : startCall knot arguments s = .ok () t) :
    t.state.hasError = s.state.hasError ∧ t.hasHandler = s.hasHandler := by
  rw [startCall_ok h]
  exact ⟨rfl, rfl⟩

/-- Where the frame of a call is the innermost one, it is dropped with all values above those
that were there at its start. -/
theorem finishCall_eq {s : Story} {stack : CallStack}
    (hpop : s.state.callStack.popKind .hostCall = .ok stack) :
    ∃ result, finishCall s = .ok result { s with state := { s.state with
      evaluation := s.state.evaluation.drop
        (s.state.evaluation.length - s.state.callStack.top.evaluationHeight)
      callStack := stack } } := by
  have hhost : s.state.callStack.inHostCall = true := by
    unfold CallStack.popKind at hpop
    split at hpop
    · next hkind => simp [CallStack.inHostCall, hkind]
    · cases hpop
  have hrun : ∀ f : State → Option Token × State, (f s.state).2.callStack = s.state.callStack →
      (withState f >>= fun result => do
        tryState fun s => return ((), { s with callStack := ← s.callStack.popKind .hostCall })
        return result.bind Token.value? : Flow (Option Value)) s =
      .ok ((f s.state).1.bind Token.value?)
        { s with state := { (f s.state).2 with callStack := stack } } := by
    intro f hf
    have htake : withState f s = .ok (f s.state).1 { s with state := (f s.state).2 } := rfl
    rw [bind_ok htake]
    have htry : tryState (fun s => return ((), { s with
        callStack := ← s.callStack.popKind .hostCall })) { s with state := (f s.state).2 } =
          .ok () { s with state := { (f s.state).2 with callStack := stack } } := by
      refine tryState_run_ok ?_
      rw [hf, hpop]
      rfl
    rw [bind_ok htry]
    rfl
  unfold finishCall
  rw [bind_ok (tree_ok s), bind_ok (state_ok s)]
  dsimp only
  rw [hhost, if_neg (by simp)]
  exact ⟨_, hrun _ rfl⟩

/-- Where the frame of a call is the innermost one, the call gives a result. -/
theorem finishCall_ok {s : Story} (hframe : s.state.callStack.canPopKind .hostCall = true) :
    ∃ result u, finishCall s = .ok result u := by
  rw [CallStack.canPopKind, Bool.and_eq_true, CallStack.canPop, Bool.not_eq_true',
    decide_eq_true_eq] at hframe
  obtain ⟨hbelow, hkind⟩ := hframe
  obtain ⟨next, rest, hbelow⟩ := List.exists_cons_of_ne_nil (List.isEmpty_eq_false_iff.mp hbelow)
  have hpop : s.state.callStack.popKind .hostCall = .ok { s.state.callStack with
      current := { s.state.callStack.current with top := next, below := rest } } := by
    rw [CallStack.popKind, if_pos hkind, CallStack.pop, hbelow]
  obtain ⟨result, hrun⟩ := finishCall_eq hpop
  exact ⟨result, _, hrun⟩

/-- A call whose lines end without an error, in its own frame, gives a result then and only
then. All other calls fail, and go back to where they were. -/
theorem evaluate_restores {s : Story} {name : String} {arguments : List Value} (hs : Reachable s)
    (hends : ∀ text t w, s.CallEnds name arguments text t w →
      (s.state.hasError = true ∨ s.hasHandler = true → w.state.hasError = false) ∧
        w.state.callStack.canPopKind .hostCall = true) :
    ∃ text r u, evaluate name arguments s = .ok (text, r) u ∧
      match r with
      | .error _ => s.Restores u ∧ ∀ text t w, ¬ s.CallEnds name arguments text t w
      | .ok _ => ∃ t w, s.CallEnds name arguments text t w ∧ w.state.hasError = false ∧
          (w.state.cursor = none ∨ t.Lines lineBudget w) := by
  have horderly : s.Orderly fun _ => True :=
    hs.orderly trivialLine fun _ _ _ _ _ _ => trivial
  rcases evaluate_cases horderly name arguments with
    ⟨text, e, u, hrun, hrestores, hnone⟩ | ⟨text, t, w, hcall, hrun⟩
  · exact ⟨text, .error e, u, hrun, hrestores, hnone⟩
  · obtain ⟨herror, hframe⟩ := hends text t w hcall
    obtain ⟨result, u, hfinish⟩ := finishCall_ok
      (s := { w with state := { w.state with output := s.state.output } }) hframe
    rw [bind_ok (attempt_ok hfinish)] at hrun
    obtain ⟨⟨knot, hfind, hstart⟩, hlines, hpending⟩ := hcall
    obtain ⟨hterror, hthandler⟩ := hasError_of_startCall hstart
    have hwerror : w.state.hasError = false := by
      cases hrecorded : s.state.hasError with
      | true => exact herror (.inl hrecorded)
      | false =>
        cases hhandler : s.hasHandler with
        | true => exact herror (.inr hhandler)
        | false =>
          exact hasError_of_collectLines hlines (hthandler.trans hhandler)
            (hterror.trans hrecorded)
    refine ⟨text, .ok result, u, hrun, t, w, ⟨⟨knot, hfind, hstart⟩, hlines, hpending⟩, hwerror, ?_⟩
    refine (collectLines_ends hlines).imp_left fun hstop => ?_
    rw [Story.canContinue, hpending, State.canContinue, hwerror] at hstop
    simpa using hstop

end Flow

/-- A line and two functions: one that fails, and one that gives a result. -/
def functions : Content :=
  ⟨0, 21, .ofBlock (.container none ⟨false, false, false⟩
    [.leaf (.value (.text "Hi")), .leaf (.value (.text "\n")), .leaf (.command .done)]
    [("fail", .container none ⟨false, false, false⟩
      [.leaf (.value (.text "No")), .leaf (.value (.text "\n")), .leaf (.command .evalStart),
        .leaf (.command .popValue)] []),
      ("give", .container none ⟨false, false, false⟩
        [.leaf (.value (.text "Yes")), .leaf (.command .evalStart), .leaf (.value (.int 5)),
          .leaf (.command .evalEnd), .leaf (.command .popFunction)] [])]), .empty⟩

/-- The story of the functions when it has been started. -/
def functionsStory : Story :=
  { Story.unstarted functions 0 with state := { State.start 0 with vars := Variables.empty.settle } }

/-- Where the lines of a call lead to, if they do not fail and the story does not wait. -/
def Story.callEnd? (s : Story) (name : String) (arguments : List Value) : Option Story :=
  match Flow.findFunction name s with
  | .ok knot _ =>
    match Flow.startCall knot arguments s with
    | .ok _ t =>
      match Flow.collectLines "" Flow.lineBudget t with
      | .ok (_, none) w => if w.pending.isNone then some w else none
      | _ => none
    | .error .. => none
  | .error .. => none

theorem Story.callEnd?_eq_some_iff {s w : Story} {name : String} {arguments : List Value} :
    s.callEnd? name arguments = some w ↔ ∃ text t, s.CallEnds name arguments text t w := by
  constructor
  · intro h
    unfold callEnd? at h
    split at h
    · next knot u hfind =>
      split at h
      · next t hstart =>
        split at h
        · next text v hlines =>
          split at h
          · next hpending =>
            cases h
            rcases Flow.findFunction_cases name s with ⟨⟨knot', h⟩, -⟩ | ⟨e, h⟩
            · rw [hfind] at h
              cases h
              exact ⟨text, t, ⟨knot, hfind, hstart⟩, hlines, Option.isNone_iff_eq_none.mp hpending⟩
            · rw [hfind] at h
              cases h
          · cases h
        · cases h
      · cases h
    · cases h
  · rintro ⟨text, t, ⟨knot, hfind, hstart⟩, hlines, hpending⟩
    rw [callEnd?, hfind]
    dsimp only
    rw [hstart]
    dsimp only
    rw [hlines]
    exact if_pos (by rw [hpending]; rfl)

namespace Flow

theorem functions_restore :
    (∃ text e u, evaluate "fail" [] functionsStory = .ok (text, .error e) u ∧
      functionsStory.Restores u) ∧
    ∃ text v u t w, evaluate "give" [] functionsStory = .ok (text, .ok v) u ∧
      functionsStory.CallEnds "give" [] text t w ∧ w.state.hasError = false := by
  have hstart : Story.ofContent functions 0 = .ok functionsStory := rfl
  have hreachable : Reachable functionsStory := .start hstart fun u hu => by cases hu.1
  have hfail : functionsStory.callEnd? "fail" [] = none := by
    rw [← Option.isNone_iff_eq_none]
    decide +kernel
  have hgive : (functionsStory.callEnd? "give" []).any (fun w =>
      !w.state.hasError && w.state.callStack.canPopKind .hostCall) = true := by decide +kernel
  have hnone : ∀ text t w, ¬ functionsStory.CallEnds "fail" [] text t w := fun text t w h => by
    have hend := Story.callEnd?_eq_some_iff.mpr ⟨text, t, h⟩
    rw [hfail] at hend
    cases hend
  have hsome : ∀ text t w, functionsStory.CallEnds "give" [] text t w →
      w.state.hasError = false ∧ w.state.callStack.canPopKind .hostCall = true := fun text t w h => by
    rw [Story.callEnd?_eq_some_iff.mpr ⟨text, t, h⟩] at hgive
    simpa using hgive
  constructor
  · obtain ⟨text, r, u, hrun, hr⟩ := @evaluate_restores functionsStory "fail" [] hreachable
      fun text t w h => absurd h (hnone text t w)
    cases r with
    | error e => exact ⟨text, e, u, hrun, hr.1⟩
    | ok v =>
      obtain ⟨t, w, h, -⟩ := hr
      exact absurd h (hnone text t w)
  · obtain ⟨text, r, u, hrun, hr⟩ := @evaluate_restores functionsStory "give" [] hreachable
      fun text t w h => ⟨fun _ => (hsome text t w h).1, (hsome text t w h).2⟩
    cases r with
    | error e =>
      obtain ⟨w, hw⟩ := Option.isSome_iff_exists.mp (Option.isSome_of_any hgive)
      obtain ⟨text', t, h⟩ := Story.callEnd?_eq_some_iff.mp hw
      exact absurd h (hr.2 text' t w)
    | ok v =>
      obtain ⟨t, w, h, herror, -⟩ := hr
      exact ⟨text, v, u, t, w, hrun, h, herror⟩

end Flow

end StoryMachine
