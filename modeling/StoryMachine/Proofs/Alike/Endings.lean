import StoryMachine.Proofs.Alike.Suspension

/-!
# The end of a line, beside another one

Ending a line and telling the host about it keeps two stories beside each other, and gives the same
text in both, or fails in both. What is told may be different, as warnings are not counted.

* `Story.Told` : what telling the host changes;
* `Story.lineText?` : the text that a continue gives;
* `Story.Beside.closeLine` : ending a line;
* `Story.SideBySide` : stories that stand beside each other between the calls of the host.
-/

namespace StoryMachine

/-! ## Telling the host -/

namespace Story

theorem callsOf_logAll {name : String} {es : List Event} (h : ∀ e ∈ es, e.callOf? name = none)
    (s : Story) : (s.logAll es).callsOf name = s.callsOf name := by
  induction es generalizing s with
  | nil => rfl
  | cons e rest ih =>
    refine (ih (fun e he => h e (List.mem_cons_of_mem _ he)) (s.log e)).trans ?_
    rw [callsOf_log, h e List.mem_cons_self]
    exact List.append_nil _

/-- Nothing has changed but the warnings and what the host has been told, besides calls. -/
structure Told (s u : Story) : Prop where
  eq : ∃ warnings events shown, u =
    { s with state := { s.state with warnings := warnings }, events, warningsShown := shown }
  calls : ∀ name, u.callsOf name = s.callsOf name

theorem Told.refl (s : Story) : s.Told s :=
  ⟨⟨s.state.warnings, s.events, s.warningsShown, rfl⟩, fun _ => rfl⟩

/-- The text that a continue gives, behind the line. -/
def lineText? (s : Story) : Option String :=
  if s.state.hasError && !s.hasHandler then none
  else if s.pending.isSome then some ""
  else if s.lineOpen then none
  else some s.state.output.text

end Story

namespace Flow

theorem whenIdle_run (a : Activity) (s : Story) :
    whenIdle a s = match s.busy? a with
      | some e => .error e s
      | none => .ok () s := by
  unfold whenIdle
  rw [bind_ok (get_ok s)]
  cases s.busy? a with
  | some e => rfl
  | none => rfl

/-- The text of the line, unless it waits for the host. -/
def readLine : Flow String := do
  if (← get).pending.isSome then return "" else currentText

/-- What a continue does behind the line. -/
def tellLine : Flow String := do
  reportIssues
  readLine

theorem attempt_readLine (s : Story) : ∃ r, attempt readLine s = .ok r s ∧
    r.toOption = if s.pending.isSome then some "" else if s.lineOpen then none
      else some s.state.output.text := by
  unfold attempt readLine
  rw [bind_ok (get_ok s)]
  cases hpending : s.pending with
  | some call => exact ⟨.ok "", rfl, rfl⟩
  | none =>
    rw [Option.isSome_none, if_neg Bool.false_ne_true, if_neg Bool.false_ne_true]
    unfold currentText
    cases hopen : s.lineOpen with
    | true =>
      have hbusy : whenIdle .readText s = .error (.request (.busyLine .readText)) s := by
        rw [whenIdle_run, Story.busy?, hpending, hopen]
        rfl
      rw [bind_error hbusy]
      exact ⟨_, rfl, rfl⟩
    | false =>
      have hidle : whenIdle .readText s = .ok () s := by
        rw [whenIdle_run, Story.busy?, hpending, hopen]
        rfl
      rw [bind_ok hidle]
      exact ⟨_, rfl, rfl⟩

/-- Reporting fails if an error is recorded and there is no handler; it changes nothing but what
the host has been told, and the warnings. -/
theorem reportIssues_told (s : Story) :
    (s.state.hasError && !s.hasHandler) = true ∧ (∃ e, reportIssues s = .error e s) ∨
      (s.state.hasError && !s.hasHandler) = false ∧ ∃ u, reportIssues s = .ok () u ∧ s.Told u := by
  have hlog : s.Told { s.logAll (s.state.errors.map .error ++ s.state.warnings.map .warning) with
      state := s.state.clearWarnings } := by
    obtain ⟨events, heq⟩ :=
      s.logAll_eq (s.state.errors.map .error ++ s.state.warnings.map .warning)
    refine ⟨⟨[], events, s.warningsShown, by rw [heq]; rfl⟩, fun name => ?_⟩
    refine Story.callsOf_logAll (fun e he => ?_) s
    rcases List.mem_append.mp he with he | he
    · obtain ⟨message, -, rfl⟩ := List.mem_map.mp he
      rfl
    · obtain ⟨message, -, rfl⟩ := List.mem_map.mp he
      rfl
  have hshown : s.Told { s with warningsShown := true } :=
    ⟨⟨s.state.warnings, s.events, true, rfl⟩, fun _ => rfl⟩
  unfold reportIssues
  rw [bind_ok (get_ok s)]
  cases hhandler : s.hasHandler with
  | true =>
    refine .inr ⟨by rw [Bool.not_true, Bool.and_false], ?_⟩
    split
    · refine ⟨_, ?_, hlog⟩
      rw [if_pos rfl, bind_ok (modify_ok _ s)]
      obtain ⟨events, heq⟩ :=
        s.logAll_eq (s.state.errors.map .error ++ s.state.warnings.map .warning)
      rw [heq]
      rfl
    · exact ⟨s, rfl, .refl s⟩
  | false =>
    cases herror : s.state.hasError with
    | true => exact .inl ⟨rfl, _, rfl⟩
    | false =>
      refine .inr ⟨rfl, ?_⟩
      cases hwarning : s.state.hasWarning with
      | true => exact ⟨_, rfl, hshown⟩
      | false => exact ⟨s, rfl, .refl s⟩

theorem attempt_tellLine (s : Story) :
    ∃ r u, attempt tellLine s = .ok r u ∧ r.toOption = s.lineText? ∧ s.Told u := by
  unfold Story.lineText?
  rcases reportIssues_told s with ⟨hfails, e, herror⟩ | ⟨hnot, u, hok, htold⟩
  · rw [if_pos hfails]
    exact ⟨.error e, s, attempt_error (bind_error herror), rfl, .refl s⟩
  · obtain ⟨r, hread, hr⟩ := attempt_readLine u
    rw [hnot, if_neg Bool.false_ne_true]
    refine ⟨r, u, ?_, ?_, htold⟩
    · rw [← hread]
      unfold attempt tellLine
      rw [bind_ok hok]
    · obtain ⟨warnings, events, shown, rfl⟩ := htold.eq
      exact hr

end Flow

/-! ## Ending a line -/

namespace State

variable {K : Likeness} {s u : State} {t : ContentTree}

theorem Alike.checkEnd (h : s.Alike .equal u) :
    (s.checkEnd t).Alike .equal (u.checkEnd t) := by
  have hdeadEnd : deadEnd s.callStack = deadEnd u.callStack := by
    unfold deadEnd
    rw [h.callStack.canPopKind_eq, h.callStack.canPopKind_eq, h.callStack.canPop_eq]
  have hlast : ∀ {s u : State}, s.Alike .equal u → deadEnd s.callStack = deadEnd u.callStack →
      State.Alike .equal
        (if s.choices.isEmpty && !s.safeExit && !s.hasError then
          s.fail t (.flow (.deadEnd (deadEnd s.callStack))) else s)
        (if u.choices.isEmpty && !u.safeExit && !u.hasError then
          u.fail t (.flow (.deadEnd (deadEnd u.callStack))) else u) := by
    intro s u h hdeadEnd
    have hexit : s.safeExit = u.safeExit := h.safeExit
    rw [isEmpty_eq_of_forall₂ h.choices, hexit, h.hasError_eq, hdeadEnd]
    split
    · exact h.fail _
    · exact h
  unfold State.checkEnd
  rw [h.canContinue_eq, h.callStack.canPopThread_eq]
  split
  · exact h
  · dsimp only
    split
    · refine hlast (h.fail _) ?_
      rfl
    · exact hlast h hdeadEnd

theorem output_checkEnd (s : State) (t : ContentTree) : (s.checkEnd t).output = s.output :=
  (s.checkEnd_frame t).1

end State

namespace Story

variable {c : Content} {name : String} {f : HostFunction} {answered : List (List Value)}
  {d s d' s' : Story}

namespace Beside

theorem told (hd : d.Told d') (hs : s.Told s') (h : Beside c name f answered d s) :
    Beside c name f answered d' s' := by
  have hcalls : d'.callsOf name = s'.callsOf name ++ answered := by
    rw [hd.calls, hs.calls, h.parts.calls]
  obtain ⟨_, _, _, rfl⟩ := hd.eq
  obtain ⟨_, _, _, rfl⟩ := hs.eq
  exact h.of_parts rfl rfl ⟨{ h.state with }, h.sameState.output⟩ { h.parts with calls := hcalls }

/-- An error ends the flow in both stories. -/
theorem recordError (e : StoryError) (h : Beside c name f answered d s) :
    Beside c name f answered { d with state := d.state.fail d.tree e }
      { s with state := s.state.fail s.tree e } := by
  have htree : s.tree = d.tree := by rw [tree, tree, h.left, h.right]
  rw [htree]
  exact h.of_parts rfl rfl ⟨h.state.fail e, h.sameState.output⟩ { h.parts with }

theorem freshLine (h : Beside c name f answered d s) :
    Beside c name f answered d.freshLine s.freshLine := by
  have hclear : ∀ v : Story, ∃ warnings, v.freshLine =
      { v with
        state := { v.state with
          warnings, safeExit := false, output := .empty, vars := v.state.vars.watch }
        warningsShown := false } := by
    intro v
    unfold Story.freshLine
    dsimp only
    split
    · exact ⟨[], rfl⟩
    · exact ⟨v.state.warnings, rfl⟩
  obtain ⟨_, hd⟩ := hclear d
  obtain ⟨_, hs⟩ := hclear s
  rw [hd, hs]
  exact h.of_parts rfl rfl
    ⟨{ h.state with safeExit := rfl, vars := ⟨h.state.vars.globals, h.state.vars.defaults⟩ }, rfl⟩
    { h.parts with }

theorem tellObservers (h : Beside c name f answered d s) :
    Beside c name f answered d.tellObservers s.tellObservers := by
  have htold : ∀ v : Story, (∃ events, v.tellObservers =
      { v with state := { v.state with vars := v.state.vars.unwatch }, events }) ∧
      v.tellObservers.callsOf name = v.callsOf name := by
    intro v
    obtain ⟨events, hlog⟩ := v.logAll_eq (v.state.vars.changes.flatMap v.notifications)
    refine ⟨⟨events, ?_⟩, callsOf_logAll (fun e he => ?_) v⟩
    · unfold Story.tellObservers
      rw [hlog]
    · obtain ⟨change, -, he⟩ := List.mem_flatMap.mp he
      obtain ⟨observer, -, rfl⟩ := List.mem_map.mp he
      rfl
  obtain ⟨⟨_, hd⟩, hdcalls⟩ := htold d
  obtain ⟨⟨_, hs⟩, hscalls⟩ := htold s
  have hcalls : d.tellObservers.callsOf name = s.tellObservers.callsOf name ++ answered := by
    rw [hdcalls, hscalls, h.parts.calls]
  rw [hd, hs] at hcalls ⊢
  exact h.of_parts rfl rfl
    ⟨{ h.state with vars := ⟨h.state.vars.globals, h.state.vars.defaults⟩ }, h.sameState.output⟩
    { h.parts with calls := hcalls }

theorem closeLine (h : Beside c name f answered d s) :
    Beside c name f answered d.closeLine s.closeLine := by
  have hrestored := h.restoreLineState
  have htree : s.restoreLineState.tree = d.restoreLineState.tree := by
    rw [tree, tree, hrestored.left, hrestored.right]
  have hended : Beside c name f answered
      { d.restoreLineState with
        state := { d.restoreLineState.state.checkEnd d.restoreLineState.tree with safeExit := false }
        metUnsafeCall := false }
      { s.restoreLineState with
        state := { s.restoreLineState.state.checkEnd s.restoreLineState.tree with safeExit := false }
        metUnsafeCall := false } := by
    rw [htree]
    refine hrestored.of_parts rfl rfl ⟨{ hrestored.state.checkEnd with safeExit := rfl }, ?_⟩
      { hrestored.parts with met := rfl }
    show (State.checkEnd _ _).output = (State.checkEnd _ _).output
    rw [State.output_checkEnd, State.output_checkEnd, hrestored.sameState.output]
  have htold := hended.tellObservers
  exact htold.of_parts rfl rfl htold.sameState { htold.parts with }

theorem endLine (ended : Bool) (h : Beside c name f answered d s) :
    Beside c name f answered (d.endLine ended) (s.endLine ended) := by
  unfold Story.endLine
  rw [h.parts.pending, h.state.canContinue_eq]
  split
  · exact h.closeLine
  · exact h

end Beside

/-- Between the calls of the host the stories stand beside each other, and have a line in
progress together. -/
structure SideBySide (c : Content) (name : String) (f : HostFunction)
    (answered : List (List Value)) (d s : Story) : Prop where
  beside : Beside c name f answered d s
  lineOpen : d.lineOpen = s.lineOpen
  ready : d.lineOpen = true → d.Ready

end Story

end StoryMachine
