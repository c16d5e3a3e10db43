import StoryMachine.Proofs.Story.OneLine
import StoryMachine.Proofs.Story.Ready

/-!
# Lines that are left open

A line is left open where a limit of time runs out, or where a call waits for the host. A host
can then go on with it: there is a place to go on at, or there is one as soon as the call has its
result. Between lines everything that the line has brought about is available, and a continue
that has nothing to go on with changes nothing.

* `Story.Available` : what a host can get at between lines;
* `Run.waits_in_line`, `Run.lineOpen_canContinue` : calls wait in lines only, and an open line
  has somewhere to go on at;
* `Flow.refused_continue_changes_nothing` : continuing where there is nothing to go on with;
* `Flow.open_lines_go_on` : a host that asks whether the story can continue is not misled.
-/

namespace StoryMachine

theorem State.canContinue_iff {s : State} :
    s.canContinue = true ↔ s.cursor.isSome = true ∧ s.hasError = false := by
  rw [canContinue, Bool.and_eq_true, Bool.not_eq_true']

namespace Story

/-- The state can be saved, the text and the tags of the line can be read, and the choices can
be taken. -/
structure Available (s : Story) : Prop where
  save : Flow.save s = .ok (s.state.toText s.tree) s
  text : Flow.currentText s = .ok s.state.output.text s
  tags : Flow.currentTags s = .ok s.state.output.tags s
  choices {index : Nat} {o : Choice} (h : s.visibleChoices[index]? = some o) :
    Flow.choose index s = (do
      Flow.resumeThread o.thread
      Flow.jumpTo o.target true) s

theorem Idle.available {s : Story} (h : s.Idle) : s.Available where
  save := by
    unfold Flow.save
    rw [Flow.bind_ok (Flow.whenIdle_ok h _)]
    rfl
  text := by
    unfold Flow.currentText
    rw [Flow.bind_ok (Flow.whenIdle_ok h _)]
    rfl
  tags := by
    unfold Flow.currentTags
    rw [Flow.bind_ok (Flow.whenIdle_ok h _)]
    rfl
  choices {index o} ho := by
    unfold Flow.choose
    rw [Flow.bind_ok (Flow.whenIdle_ok h _), Flow.bind_ok (Flow.get_ok s), ho]

/-- A step from the story that begins to wait for the host leaves a place to go on at. -/
def WaitsSomewhere (s : Story) : Prop :=
  (Flow.lineStep.after s).pending.isSome = true →
    (Flow.lineStep.after s).state.cursor.isSome = true

instance : DecidablePred WaitsSomewhere := fun s =>
  inferInstanceAs (Decidable ((Flow.lineStep.after s).pending.isSome = true →
    (Flow.lineStep.after s).state.cursor.isSome = true))

theorem LeavesLine.canContinue {s u : Story} (h : s.LeavesLine u)
    (hs : s.state.canContinue = true) : u.state.canContinue = true := by
  rw [State.canContinue_iff] at hs ⊢
  have hcursor : u.state.cursor = s.state.cursor := by rw [State.cursor, h.callStack]; rfl
  refine ⟨hcursor ▸ hs.1, ?_⟩
  rcases h.errors with hnone | heq
  · rw [State.hasError, hnone]
    rfl
  · rw [State.hasError, heq]
    exact hs.2

theorem canContinue_of_passes {s v : Story} {nodes : Nat} (h : s.Passes nodes v)
    (hcontinue : s.state.canContinue = true) : v.state.canContinue = true := by
  induction h with
  | here => exact hcontinue
  | step hgo _ ih => exact ih (Flow.lineStep_of_goesOn? hgo).2.2

end Story

namespace Flow

/-- A step that begins to wait has recorded no error. -/
theorem hasError_of_lineStep_waits {s u : Story} {ended : Bool} (hpending : s.pending = none)
    (h : lineStep s = .ok ended u) (hwaits : u.pending.isSome = true) :
    u.state.hasError = s.state.hasError :=
  (lineStep_waits hpending h hwaits).2.2.hasError_eq

end Flow

namespace Story

variable {P L : Story → Prop}

theorem closeLine_idle {s : Story} (hpending : s.pending = none) : s.closeLine.Idle := by
  obtain ⟨state, events, heq, -⟩ := s.closeLine_eq
  rw [heq]
  exact ⟨rfl, hpending⟩

/-- A line is left open only where it has run out of nodes, or waits for the host. -/
theorem LineOutcome.open {ended : Bool} {s : Story} (h : LineOutcome P L ended s) :
    (s.endLine ended).Idle ∨ s.endLine ended = s ∧ s.lineOpen = true ∧
      (s.state.canContinue = true ∨ ∃ v w ended, v.Steps P L ∧ Flow.lineStep v = .ok ended w ∧
        w.pending.isSome = true ∧ s.state = w.state) := by
  unfold endLine
  cases h with
  | @outOfNodes v hline hwaits hpending hcontinue =>
    rw [if_neg (by simp [hcontinue])]
    exact .inr ⟨rfl, rfl, .inl hcontinue⟩
  | @failed v w e hv hstep =>
    have hpending : w.pending = none := Flow.pending_of_lineStep_error hv.pending hstep
    rw [if_pos (by simp [hpending, canContinue_fail])]
    exact .inl (closeLine_idle hpending)
  | @waits v w ended hv hstep hpending =>
    rw [if_neg (by simp [← Option.not_isSome, hpending])]
    exact .inr ⟨rfl, rfl, .inr ⟨v, w, ended, hv, hstep, hpending, rfl⟩⟩
  | finished hv hstep hpending hend =>
    rw [if_pos (by rcases hend with hend | hend <;> simp [hpending, hend])]
    exact .inl (closeLine_idle hpending)

end Story

namespace Flow

variable {P : Story → Prop}

/-- A continue is refused, or runs a line. -/
theorem continueLine_refused_or {s : Story} {limited : Bool} {nodes : Nat} (hnodes : 0 < nodes)
    (hs : s.Orderly fun _ => True) (hpending : s.pending = none)
    (hvisits : ∀ v, s.Visits limited nodes v → P v) :
    s.lineOpen = false ∧ s.state.canContinue = false ∧ continueLine limited nodes s =
        .error (.flow .cannotContinue) { s with lineOpen := limited } ∨
      ∃ ended v warnings events shown, Story.LineOutcome P (fun _ => True) ended v ∧
        (continueLine limited nodes).after s = { v.endLine ended with
          state := { (v.endLine ended).state with warnings }, events, warningsShown := shown } := by
  cases hopen : openLine limited s with
  | ok _ t =>
    obtain ⟨ended, v, houtcome, hrun⟩ :=
      continueLine_outcome trivialLine hnodes hs hpending hopen hvisits
    obtain ⟨warnings, events, shown, hreport⟩ := after_reportIssues (v.endLine ended)
    refine .inr ⟨ended, v, warnings, events, shown, houtcome, ?_⟩
    rw [after, hrun]
    exact hreport
  | error e t =>
    obtain ⟨hline, hcontinue, rfl, rfl⟩ := openLine_error hopen
    exact .inl ⟨hline, hcontinue, bind_error hopen⟩

end Flow

namespace Story

variable {P R K : Story → Prop} {A : HostCall → Story → Prop}

/-- What holds between lines, and depends on the line in progress alone, is kept by every call if
it is kept by the continues. -/
theorem callInvariant_of_line (hidle : ∀ {s : Story}, s.Idle → K s)
    (hsame : ∀ {s u : Story}, K s → s.LeavesLine u → K u)
    (hback : ∀ {s : Story} {place : Cursor}, K s →
      K { s with state := s.state.setCursor (some place) })
    (hline : ∀ {s : Story} {limited : Bool} {nodes : Nat}, 0 < nodes →
      s.Orderly (fun _ => True) → K s → s.pending = none →
      (limited = true → s.lineOpen = false → s.state.canContinue = false → R s) →
      (∀ u, s.Visits limited nodes u → P u) → K ((Flow.continueLine limited nodes).after s)) :
    CallInvariant P A R fun s => s.Orderly (fun _ => True) ∧ K s := by
  have horderly : CallInvariant P A (fun _ => True) (Orderly fun _ => True) :=
    Flow.trivialLine.callInvariant
  exact {
    same := fun hs h => ⟨horderly.same hs.1 h, hsame hs.2 h⟩
    silent := fun hs h hchanges => by
      refine ⟨horderly.silent hs.1 h hchanges, hidle ?_⟩
      rw [(hchanges.state_only rfl).2]
      exact ⟨h.lineOpen, h.pending⟩
    line := fun hnodes hs hpending hrefused hvisits =>
      ⟨horderly.line hnodes hs.1 hpending (fun _ _ _ => trivial) hvisits,
        hline hnodes hs.1 hs.2 hpending hrefused hvisits⟩
    evaluate := fun name arguments hs h => ⟨horderly.evaluate name arguments hs.1 h,
      hidle (Flow.settled_evaluate name arguments h (hs.1.idle h.lineOpen)).1⟩
    load := fun hallowed hs h hread =>
      ⟨horderly.load hallowed hs.1 h hread, hidle ⟨h.lineOpen, h.pending⟩⟩
    restore := fun hallowed hs h hkey =>
      ⟨horderly.restore hallowed hs.1 h hkey, hidle ⟨h.lineOpen, h.pending⟩⟩
    start := fun hallowed hs h =>
      ⟨horderly.start hallowed hs.1 h, hidle ⟨h.lineOpen, h.pending⟩⟩
    back := fun place hs => ⟨horderly.back place hs.1, hback hs.2⟩ }

/-- A call waits for the host in a line only. -/
def WaitsInLine (s : Story) : Prop :=
  s.pending.isSome = true → s.lineOpen = true

/-- A line in progress has a place to go on at, and no error. -/
def GoesOn (s : Story) : Prop :=
  s.lineOpen = true → s.state.canContinue = true

theorem waitsInLine_of_none {s : Story} (h : s.pending = none) : s.WaitsInLine := fun hsome => by
  rw [h] at hsome
  cases hsome

theorem goesOn_of_closed {s : Story} (h : s.lineOpen = false) : s.GoesOn := fun hopen => by
  rw [h] at hopen
  cases hopen

theorem waitsInLine_continueLine {s : Story} {limited : Bool} {nodes : Nat} (hnodes : 0 < nodes)
    (hs : s.Orderly fun _ => True) (hpending : s.pending = none) :
    ((Flow.continueLine limited nodes).after s).WaitsInLine := by
  rcases Flow.continueLine_refused_or (P := fun _ => True) hnodes hs hpending
    (fun _ _ => trivial) with ⟨-, -, h⟩ | ⟨ended, v, warnings, events, shown, houtcome, h⟩
  · rw [Flow.after_of_error h]
    exact waitsInLine_of_none hpending
  · rw [h]
    rcases houtcome.open with hidle | ⟨heq, hopen, -⟩
    · exact waitsInLine_of_none hidle.pending
    · rw [heq]
      exact fun _ => hopen

/-- Where a line goes on, its steps are made from places without an error. -/
theorem canContinue_of_visits {s v : Story} {limited : Bool} {nodes : Nat} (hs : s.GoesOn)
    (h : s.Visits limited nodes v) : v.state.canContinue = true := by
  obtain ⟨t, hopen, hpasses⟩ := h
  refine canContinue_of_passes hpasses ?_
  rcases Flow.openLine_cases hopen with ⟨hline, rfl⟩ | ⟨-, hcontinue, rfl⟩
  · exact hs hline
  · rw [State.canContinue_iff] at hcontinue ⊢
    obtain ⟨warnings, hfresh⟩ := ({ s with lineOpen := limited } : Story).freshLine_eq
    dsimp only
    rw [hfresh]
    exact hcontinue

theorem goesOn_continueLine {s : Story} {limited : Bool} {nodes : Nat} (hnodes : 0 < nodes)
    (hs : s.Orderly fun _ => True) (hgoes : s.GoesOn) (hpending : s.pending = none)
    (hbegins : limited = true → s.lineOpen = false → s.state.canContinue = true)
    (hvisits : ∀ v, s.Visits limited nodes v → v.WaitsSomewhere) :
    ((Flow.continueLine limited nodes).after s).GoesOn := by
  rcases Flow.continueLine_refused_or (P := fun v => v.WaitsSomewhere ∧ v.state.canContinue = true)
    hnodes hs hpending (fun v hv => ⟨hvisits v hv, canContinue_of_visits hgoes hv⟩) with
    ⟨hopen, hstop, h⟩ | ⟨ended, v, warnings, events, shown, houtcome, h⟩
  · rw [Flow.after_of_error h]
    refine goesOn_of_closed ?_
    cases limited with
    | false => rfl
    | true =>
      rw [hbegins rfl hopen] at hstop
      cases hstop
  · rw [h]
    rcases houtcome.open with hidle | ⟨heq, -, hcontinue | ⟨x, w, ended, hx, hstep, hwaits, hstate⟩⟩
    · exact goesOn_of_closed hidle.lineOpen
    · rw [heq]
      exact fun _ => hcontinue
    · rw [heq]
      intro _
      show v.state.canContinue = true
      have hplace : w.state.cursor.isSome = true := by
        have hplace := hx.source.1
        rw [WaitsSomewhere, Flow.after_of_ok hstep] at hplace
        exact hplace hwaits
      have herror := Flow.hasError_of_lineStep_waits hx.pending hstep hwaits
      rw [hstate, State.canContinue_iff, herror]
      exact ⟨hplace, (State.canContinue_iff.mp hx.source.2).2⟩

end Story

/-- A call waits for the host in a line only. -/
theorem Run.waitsInLine {P : Story → Prop} {A : HostCall → Story → Prop} {s : Story}
    (hs : Run P A s) : s.WaitsInLine := by
  have hinvariant : Story.CallInvariant P A (fun _ => True)
      fun s => s.Orderly (fun _ => True) ∧ s.WaitsInLine :=
    Story.callInvariant_of_line (fun hidle => Story.waitsInLine_of_none hidle.pending)
      (fun hs h hsome => by
        rw [h.lineOpen]
        rcases h.pending with hnone | heq
        · rw [hnone] at hsome
          cases hsome
        · exact hs (heq ▸ hsome))
      id fun hnodes hs _ hpending _ _ => Story.waitsInLine_continueLine hnodes hs hpending
  exact (hinvariant.run (fun _ _ => ⟨.of_idle rfl rfl, Story.waitsInLine_of_none rfl⟩)
    (fun _ _ _ _ _ _ => trivial) hs).2

/-- A line in progress goes on, if the steps that begin to wait leave a place to go on at and no
continue with a limit of time is refused. -/
theorem Run.goesOn {s : Story} (hs : Run Story.WaitsSomewhere HostCall.CanBegin s) :
    s.GoesOn := by
  have hinvariant : Story.CallInvariant Story.WaitsSomewhere HostCall.CanBegin (fun _ => False)
      fun s => s.Orderly (fun _ => True) ∧ s.GoesOn :=
    Story.callInvariant_of_line (fun hidle => Story.goesOn_of_closed hidle.lineOpen)
      (fun hs h hopen => h.canContinue (hs (h.lineOpen.symm.trans hopen)))
      (fun hs hopen => (State.canContinue_iff.mpr
        ⟨rfl, (State.canContinue_iff.mp (hs hopen)).2⟩))
      fun hnodes hs hgoes hpending hrefused hvisits =>
        Story.goesOn_continueLine hnodes hs hgoes hpending
          (fun hlimited hopen => by
            cases hcontinue : Story.state _ |>.canContinue with
            | true => rfl
            | false => exact (hrefused hlimited hopen hcontinue).elim) hvisits
  refine (hinvariant.run (fun _ _ => ⟨.of_idle rfl rfl, Story.goesOn_of_closed rfl⟩)
    (fun call s hbegin hlimited hopen hstop => ?_) hs).2
  rw [hbegin hlimited hopen] at hstop
  cases hstop

namespace Flow

theorem continueFor_cannotContinue {s : Story} (limited : Bool) (hidle : s.Idle)
    (hstop : s.state.canContinue = false) :
    continueFor limited s = .error (.flow .cannotContinue) { s with lineOpen := limited } := by
  unfold continueFor
  rw [bind_ok (refuseWaiting_ok hidle.pending)]
  exact bind_error (openLine_cannotContinue limited hidle.lineOpen hstop)

/-- Between lines, a continue without a limit of time that has nothing to go on with fails and
changes nothing. Everything is available as it was. -/
theorem refused_continue_changes_nothing {s : Story} (hs : Reachable s)
    (hopen : s.lineOpen = false) (hstop : s.canContinue = false) :
    continueFor false s = .error (.flow .cannotContinue) s ∧
      next s = .error (.flow .cannotContinue) s ∧
      nextTagged s = .error (.flow .cannotContinue) s ∧ s.Available := by
  have hidle : s.Idle := by
    refine ⟨hopen, Option.not_isSome_iff_eq_none.mp fun hsome => ?_⟩
    rw [hs.waitsInLine hsome] at hopen
    cases hopen
  have hstop : s.state.canContinue = false := by
    rw [Story.canContinue, hidle.pending] at hstop
    exact hstop
  have hcontinue : continueFor false s = .error (.flow .cannotContinue) s := by
    have h : continueFor s.lineOpen s = .error (.flow .cannotContinue) s :=
      continueFor_cannotContinue s.lineOpen hidle hstop
    rwa [hopen] at h
  have hnext : next s = .error (.flow .cannotContinue) s := bind_error hcontinue
  exact ⟨hcontinue, hnext, bind_error hnext, hidle.available⟩

theorem finished_greeting_is_left : ∃ s, Reachable s ∧ s.lineOpen = false ∧ s.canContinue = false ∧
    next s = .error (.flow .cannotContinue) s ∧ s.Available := by
  have hstart : Story.ofContent greeting 0 = .ok greetingStory := rfl
  have hrun : Reachable (HostCall.next.after greetingStory) :=
    .call (.start hstart fun _ _ => trivial) .next trivial fun _ _ => trivial
  have hend : (HostCall.next.after greetingStory).lineOpen = false ∧
      (HostCall.next.after greetingStory).canContinue = false := by decide +kernel
  obtain ⟨-, hnext, -, havailable⟩ := refused_continue_changes_nothing hrun hend.1 hend.2
  exact ⟨_, hrun, hend.1, hend.2, hnext, havailable⟩

/-- With a limit of time such a continue fails as well, but leaves a line open that has not been
begun: whatever has to wait for its end is refused. -/
theorem refused_limited_continue {s : Story} (hidle : s.Idle)
    (hstop : s.state.canContinue = false) :
    continueFor true s = .error (.flow .cannotContinue) { s with lineOpen := true } ∧
      ∀ a, whenIdle a { s with lineOpen := true } =
        .error (.request (.busyLine a)) { s with lineOpen := true } := by
  refine ⟨continueFor_cannotContinue true hidle hstop, fun a => ?_⟩
  unfold whenIdle
  rw [bind_ok (get_ok _), Story.busy?]
  dsimp only
  rw [hidle.pending]
  rfl

/-- If the steps that begin to wait for the host leave a place to go on at, and no continue with
a limit of time is refused for want of content, then a line in progress can be gone on with,
unless it waits; a line that waits can be gone on with as soon as the call has its result; and
between lines everything is available. -/
theorem open_lines_go_on {s : Story} (hs : Run Story.WaitsSomewhere HostCall.CanBegin s) :
    (s.lineOpen = true → s.pending = none → s.canContinue = true) ∧
    (s.pending.isSome = true → ∀ result, ∃ u, resolve result s = .ok () u ∧ u.canContinue = true) ∧
    (s.lineOpen = false → s.Available) := by
  refine ⟨fun hopen hpending => ?_, fun hsome result => ?_, fun hopen => ?_⟩
  · rw [Story.canContinue, hpending]
    exact hs.goesOn hopen
  · obtain ⟨call, hcall⟩ := Option.isSome_iff_exists.mp hsome
    exact ⟨_, resolve_ok hcall result, hs.goesOn (hs.waitsInLine hsome)⟩
  · refine Story.Idle.available ⟨hopen, Option.not_isSome_iff_eq_none.mp fun hsome => ?_⟩
    rw [hs.waitsInLine hsome] at hopen
    cases hopen

/-- The line with a call behind it, where the function is not bound: the second continue waits. -/
theorem waiting_call_goes_on : ∃ s, Run Story.WaitsSomewhere HostCall.CanBegin s ∧
    s.pending.isSome = true ∧ ∃ u, resolve none s = .ok () u ∧ u.canContinue = true := by
  let first := Story.undeclared asking 0
  have hstart : Story.ofContent asking 0 = .ok first := Story.ofContent_undeclared rfl rfl
  have hrun : Run Story.WaitsSomewhere HostCall.CanBegin first := .start hstart fun u hu => by cases hu.1
  have hfirst : ∀ u, first.Visits false nodeBudget u → u.WaitsSomewhere := by decide +kernel
  have hsecond : ∀ u, (HostCall.next.after first).Visits false nodeBudget u →
      u.WaitsSomewhere := by decide +kernel
  have hlast : Run Story.WaitsSomewhere HostCall.CanBegin
      (HostCall.next.after (HostCall.next.after first)) :=
    .call (.call hrun .next (fun h => h.elim) hfirst) .next (fun h => h.elim) hsecond
  have hwaits : (HostCall.next.after (HostCall.next.after first)).pending.isSome = true := by
    decide +kernel
  exact ⟨_, hlast, hwaits, (open_lines_go_on hlast).2.1 hwaits none⟩

end Flow

end StoryMachine
