import StoryMachine.Proofs.Story.OpenLines

/-!
# Steps that fail

The error of a step is recorded, and the flow ends: one thread of one frame that is nowhere, and
no choices. While the machine looks ahead behind a line end, the line ends with the error at the
state kept, which gets the message but has not ended.

* `State.Stopped` : the flow has ended;
* `HostCall.line?` : the calls that continue one line;
* `Flow.error_ends_flow` : an error where no state is kept;
* `Flow.error_ahead_goes_back` : an error where a state is kept.
-/

namespace StoryMachine

/-- The flow has ended: one thread of one frame that is nowhere, and no choices. -/
structure State.Stopped (s : State) : Prop where
  threads : s.callStack.threads.length = 1
  depth : s.callStack.depth = 1
  cursor : s.cursor = none
  choices : s.choices = []

/-- The calls that continue one line: whether they have a limit of time, and the number of
nodes. -/
def HostCall.line? : HostCall → Option (Bool × Nat)
  | next | nextTagged => some (false, Flow.nodeBudget)
  | continueFor limited => some (limited, Flow.nodeBudget)
  | continueSlice more => some (true, more + 1)
  | _ => none

theorem HostCall.after_of_line? {call : HostCall} {limited : Bool} {nodes : Nat}
    (hcall : call.line? = some (limited, nodes)) {s : Story} (hpending : s.pending = none) :
    call.after s = (Flow.continueLine limited nodes).after s := by
  have hwaits := Flow.refuseWaiting_ok hpending
  have hcontinue : ∀ limited, (Flow.continueFor limited).after s =
      (Flow.continueLine limited Flow.nodeBudget).after s := fun limited =>
    Flow.after_bind_ok hwaits
  cases call with
  | next =>
    cases hcall
    exact (Flow.after_discard Flow.next s).trans ((Flow.after_next s).trans (hcontinue false))
  | nextTagged =>
    cases hcall
    exact (Flow.after_discard Flow.nextTagged s).trans
      ((Flow.after_nextTagged s).trans ((Flow.after_next s).trans (hcontinue false)))
  | continueFor limited =>
    cases hcall
    exact hcontinue limited
  | continueSlice more =>
    cases hcall
    exact Flow.after_bind_ok hwaits
  | _ => cases hcall

namespace Story

/-! ## The errors recorded in a line -/

theorem errors_keepLineState (s : Story) : s.keepLineState.state = s.state := by
  obtain ⟨kept, h⟩ := s.keepLineState_eq
  rw [h]

theorem errors_watchLine (s : Story) : s.watchLine.2.state.errors = s.state.errors := by
  unfold watchLine
  split
  · rw [errors_keepLineState]
  · dsimp only
    split
    · unfold restoreLineState
      split
      · rfl
      · rfl
    · split
      · rw [errors_keepLineState]
      · rw [errors_keepLineState]

end Story

theorem Changes.messages_eq {c : Content} {fx : Effects} {s u : Story} (h : Changes c fx s u) :
    u.state.errors = s.state.errors ∧ u.state.firstError = s.state.firstError := by
  induction h with
  | refl => exact ⟨rfl, rfl⟩
  | tail _ h ih =>
    cases h with
    | state h => exact ⟨h.messages_eq.1.trans ih.1, h.messages_eq.2.trans ih.2⟩
    | called | wait | unsafeCall => exact ih

namespace Flow

/-- No step records an error. -/
theorem errors_lineStep (s : Story) : (lineStep.after s).state.errors = s.state.errors := by
  have hplain := (changes_plainStep s).messages_eq.1
  cases h : lineStep s with
  | error e u =>
    rw [after_of_error (plainStep_of_lineStep_error h)] at hplain
    rw [after_of_error h]
    exact hplain
  | ok ended u =>
    rw [after_of_ok h]
    obtain ⟨v, hv, ⟨-, -, rfl⟩ | ⟨-, -, hwatch⟩⟩ := lineStep_cases h
    · rwa [after_of_ok hv] at hplain
    · rw [after_of_ok hv] at hplain
      rw [← hplain, ← v.errors_watchLine, hwatch]

theorem errors_of_passes {s v : Story} {nodes : Nat} (h : s.Passes nodes v) :
    v.state.errors = s.state.errors := by
  induction h with
  | here => rfl
  | @step nodes s t v hgo _ ih =>
    have hstep := errors_lineStep s
    rw [after_of_ok (lineStep_of_goesOn? hgo).1] at hstep
    exact ih.trans hstep

theorem errors_of_openLine {s t : Story} {limited : Bool} (h : openLine limited s = .ok () t) :
    t.state.errors = s.state.errors := by
  rcases openLine_cases h with ⟨-, rfl⟩ | ⟨-, -, rfl⟩
  · rfl
  · obtain ⟨warnings, hfresh⟩ := ({ s with lineOpen := limited } : Story).freshLine_eq
    dsimp only
    rw [hfresh]

/-- What a continue with a step that fails leaves: the line has been ended where the error
occurred. -/
theorem after_of_failure {call : HostCall} {limited : Bool} {nodes : Nat} {s v w : Story}
    {e : StoryError} (hcall : call.line? = some (limited, nodes)) (hpending : s.pending = none)
    (hv : s.Visits limited nodes v) (hfails : lineStep v = .error e w) :
    ∃ (last : Story) (vars : Variables) (warnings : List String), call.after s = last ∧
      last.lineOpen = false ∧ last.pending = none ∧
      last.state = { ({ w with state := w.state.fail w.tree e } : Story).restoreLineState.state.checkEnd
        w.tree with safeExit := false, vars, warnings } := by
  obtain ⟨t, hopen, hpasses⟩ := hv
  have hvpending := pending_of_passes hpasses ((pending_of_openLine hopen).trans hpending)
  have hwpending := pending_of_lineStep_error hvpending hfails
  obtain ⟨more, hrun⟩ := runLine_of_passes hpasses
  obtain ⟨ended, x, hx, hend⟩ := runLine_error hfails hwpending more
  obtain ⟨warnings, events, shown, hreport⟩ := after_reportIssues (x.endLine ended)
  obtain ⟨vars, events', hclose⟩ :=
    ({ w with state := w.state.fail w.tree e } : Story).closeLine_eq_checkEnd
  rw [HostCall.after_of_line? hcall hpending, after, continueLine_eq hopen (hrun.trans hx)]
  refine ⟨_, vars, warnings, hreport, ?_, ?_, ?_⟩
  · rw [hend, hclose]
  · rw [hend, hclose]
    exact hwpending
  · rw [hend, hclose]
    rfl

/-- The errors recorded where a step fails are those that there were at the start of the
continue. -/
theorem errors_of_failure {limited : Bool} {nodes : Nat} {s v w : Story} {e : StoryError}
    (hv : s.Visits limited nodes v) (hfails : lineStep v = .error e w) :
    w.state.errors = s.state.errors := by
  obtain ⟨t, hopen, hpasses⟩ := hv
  have hstep := errors_lineStep v
  rw [after_of_error hfails] at hstep
  exact hstep.trans ((errors_of_passes hpasses).trans (errors_of_openLine hopen))

end Flow

namespace State

/-- Where an error has been recorded, the end of the content is looked at for open threads
alone. -/
theorem checkEnd_of_hasError {s : State} (t : ContentTree) (h : s.hasError = true) :
    s.checkEnd t = if s.callStack.canPopThread then s.fail t (.flow .openThread) else s := by
  unfold checkEnd
  rw [if_neg (by simp [canContinue, h])]
  dsimp only
  split
  · rw [if_neg (by simp [(s.fail_frame t (.flow .openThread)).2])]
  · rw [if_neg (by simp [h])]

/-- There is nothing wrong with the end of a flow that an error has ended. -/
theorem checkEnd_fail (s : State) (t : ContentTree) (e : StoryError) :
    (s.fail t e).checkEnd t = s.fail t e :=
  checkEnd_of_hasError t (s.fail_frame t e).2

end State

namespace Story

/-- Where the flow has ended and no line is in progress, no choice can be taken once the errors
are forgotten, and the story is done. -/
theorem done_of_stopped {s : Story} (hstate : s.state.Stopped) (hidle : s.Idle) :
    s.resetErrors.status = .done ∧
    ∀ index, Flow.choose index s.resetErrors =
      .error (.flow (.choiceRange index 0)) s.resetErrors := by
  have hreset : s.resetErrors.Idle := ⟨hidle.lineOpen, hidle.pending⟩
  have hchoices : s.resetErrors.visibleChoices = [] := by
    unfold visibleChoices
    split
    · rfl
    · rw [show s.resetErrors.state.choices = [] from hstate.choices]
      rfl
  refine ⟨?_, fun index => ?_⟩
  · have hcontinue : s.resetErrors.state.canContinue = false := by
      rw [State.canContinue, show s.resetErrors.state.cursor = none from hstate.cursor]
      rfl
    unfold status
    rw [hchoices, hcontinue, hreset.lineOpen, hreset.pending]
    rfl
  · unfold Flow.choose
    rw [Flow.bind_ok (Flow.whenIdle_ok hreset _), Flow.bind_ok (Flow.get_ok _), hchoices]
    rfl

end Story

namespace Flow

/-- A continue in which a step fails while no state is kept: the flow has ended, with this one
error recorded. When the errors are forgotten the story is done, and no choice can be taken. -/
theorem error_ends_flow {call : HostCall} {limited : Bool} {nodes : Nat} {s v w : Story}
    {e : StoryError} (hcall : call.line? = some (limited, nodes)) (hpending : s.pending = none)
    (hv : s.Visits limited nodes v) (hfails : lineStep v = .error e w)
    (hkept : v.lineState = none) :
    (call.after s).state.Stopped ∧
    (call.after s).state.errors =
      s.state.errors ++ [w.state.located w.tree "ERROR" e.detail] ∧
    (call.after s).resetErrors.status = .done ∧
    ∀ index, choose index (call.after s).resetErrors =
      .error (.flow (.choiceRange index 0)) (call.after s).resetErrors := by
  obtain ⟨last, vars, warnings, hlast, hopen, hnone, hstate⟩ :=
    after_of_failure hcall hpending hv hfails
  have hwkept : w.lineState = none := by
    have hplain := changes_plainStep v
    rw [after_of_error (plainStep_of_lineStep_error hfails)] at hplain
    exact hplain.lineState_eq.trans hkept
  have hrestore : ({ w with state := w.state.fail w.tree e } : Story).restoreLineState.state =
      w.state.fail w.tree e := by
    unfold Story.restoreLineState
    rw [hwkept]
  rw [hrestore, State.checkEnd_fail] at hstate
  rw [hlast]
  have hstopped : last.state.Stopped := by
    rw [hstate]
    exact ⟨rfl, rfl, rfl, rfl⟩
  refine ⟨hstopped, ?_, Story.done_of_stopped hstopped ⟨hopen, hnone⟩⟩
  rw [hstate, ← errors_of_failure hv hfails]
  rfl

/-- A continue in which a step fails while a state is kept: the line ends at the state kept, with
the error recorded. If that state has a thread to end, this is a second error, which ends the
flow; otherwise the flow has not ended. -/
theorem error_ahead_goes_back {call : HostCall} {limited : Bool} {nodes : Nat} {s v w : Story}
    {e : StoryError} {kept : State} (hcall : call.line? = some (limited, nodes))
    (hpending : s.pending = none) (hv : s.Visits limited nodes v)
    (hfails : lineStep v = .error e w) (hkept : v.lineState = some kept) :
    if kept.callStack.canPopThread then
      (call.after s).state.Stopped ∧ (call.after s).state.errors =
        s.state.errors ++ [w.state.located w.tree "ERROR" e.detail] ++
          [kept.located w.tree "ERROR" (StoryError.flow .openThread).detail]
    else
      (call.after s).state.callStack = kept.callStack ∧
      (call.after s).state.choices = kept.choices ∧
      (call.after s).state.errors =
        s.state.errors ++ [w.state.located w.tree "ERROR" e.detail] := by
  obtain ⟨last, vars, warnings, hlast, hopen, hnone, hstate⟩ :=
    after_of_failure hcall hpending hv hfails
  have hwkept : w.lineState = some kept := by
    have hplain := changes_plainStep v
    rw [after_of_error (plainStep_of_lineStep_error hfails)] at hplain
    exact hplain.lineState_eq.trans hkept
  have hrestore : ({ w with state := w.state.fail w.tree e } : Story).restoreLineState.state =
      kept.carryMessages (w.state.fail w.tree e) := by
    unfold Story.restoreLineState
    rw [hwkept]
  have hfailed : (kept.carryMessages (w.state.fail w.tree e)).hasError = true :=
    (w.state.fail_frame w.tree e).2
  rw [hrestore, State.checkEnd_of_hasError w.tree hfailed] at hstate
  rw [hlast, ← errors_of_failure hv hfails]
  show if (kept.carryMessages (w.state.fail w.tree e)).callStack.canPopThread then _ else _
  split
  · next hthread =>
    rw [if_pos hthread] at hstate
    rw [hstate]
    exact ⟨⟨rfl, rfl, rfl, rfl⟩, rfl⟩
  · next hthread =>
    rw [if_neg hthread] at hstate
    rw [hstate]
    exact ⟨rfl, rfl, rfl⟩

end Flow

/-- A text, behind which there is nothing to take a value from. -/
def stumbling : Content :=
  ⟨0, 21, .ofBlock (.container none ⟨false, false, false⟩
    [.leaf (.value (.text "Hi")), .leaf (.command .popValue)] []), .empty⟩

namespace Flow

theorem stumbling_ends : ∃ v e w, (Story.unstarted stumbling 0).Visits false nodeBudget v ∧
    lineStep v = .error e w ∧ v.lineState = none ∧
    (HostCall.next.after (.unstarted stumbling 0)).state.Stopped ∧
    (HostCall.next.after (.unstarted stumbling 0)).resetErrors.status = .done := by
  have hopen : openLine false (.unstarted stumbling 0) =
      .ok () (Story.unstarted stumbling 0).freshLine := rfl
  have hsome : (Story.unstarted stumbling 0).freshLine.goesOn?.isSome = true := by decide +kernel
  obtain ⟨v, hv⟩ := Option.isSome_iff_exists.mp hsome
  have hfacts : (Story.unstarted stumbling 0).freshLine.goesOn?.all (fun v =>
      v.lineState.isNone && match lineStep v with
        | .ok _ _ => false
        | .error _ _ => true) = true := by decide +kernel
  rw [hv, Option.all_some, Bool.and_eq_true, Option.isNone_iff_eq_none] at hfacts
  obtain ⟨hkept, hfacts⟩ := hfacts
  cases hstep : lineStep v with
  | ok ended w =>
    rw [hstep] at hfacts
    cases hfacts
  | error e w =>
    have hvisits : (Story.unstarted stumbling 0).Visits false nodeBudget v :=
      ⟨_, hopen, .step hv (.here _ v)⟩
    have hcall : HostCall.next.line? = some (false, nodeBudget) := rfl
    obtain ⟨hstopped, -, hdone, -⟩ := error_ends_flow hcall rfl hvisits hstep hkept
    exact ⟨v, e, w, hvisits, hstep, hkept, hstopped, hdone⟩

end Flow

end StoryMachine
