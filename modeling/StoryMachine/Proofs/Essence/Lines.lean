import StoryMachine.Proofs.Alike.Hosts
import StoryMachine.Proofs.Essence.Steps

/-!
# Lines of twins

Between the calls of a host two stories are in step if they are twins; while no line is in progress,
neither a deliberate end nor a call met while looking ahead counts, as both are forgotten when a line
begins. A line that is continued, and a choice that is made, leave the stories in step, and come to
the same.

* `Flow.steady_lineStep`, `Flow.steady_runLine` : the steps of a line, and the line;
* `Story.InStep` : stories in step;
* `Ends` : calls that come to the same, where errors count as failures only;
* `Story.InStep.next`, `Story.InStep.nextTagged`, `Story.InStep.choose` : the calls.
-/

open List (Forall₂)

namespace StoryMachine

/-! ## The steps of a line -/

namespace State

variable {t : ContentTree} {running : Bool} {s u : State}

theorem Twin.endsInLineEnd_eq (h : s.Twin t running u) :
    s.output.endsInLineEnd = u.output.endsInLineEnd := by
  rw [← s.output.endsInLineEnd_essence, ← u.output.endsInLineEnd_essence, h.output]

theorem Twin.carryMessages {later later' : State} (h : s.Twin t running u)
    (hlater : later.errors = later'.errors) :
    (s.carryMessages later).Twin t running (u.carryMessages later') :=
  { h with errors := hlater }

theorem Twin.withVars {v w : Variables} (h : s.Twin t running u) (hvars : v.Twin w) :
    State.Twin t running { s with vars := v } { u with vars := w } :=
  { h with vars := hvars }

theorem Twin.choices_isEmpty_eq (h : s.Twin t running u) :
    s.choices.isEmpty = u.choices.isEmpty :=
  isEmpty_eq_of_forall₂ h.choices

/-- The end of the content is as wrong, or as right, in both states. -/
theorem Twin.checkEnd (h : s.Twin t true u) : (s.checkEnd t).Twin t true (u.checkEnd t) := by
  have hdeadEnd : deadEnd s.callStack = deadEnd u.callStack := by
    unfold deadEnd
    rw [h.callStack.canPopKind_eq, h.callStack.canPopKind_eq, h.callStack.canPop_eq]
  have hlast : ∀ {s u : State}, s.Twin t true u → deadEnd s.callStack = deadEnd u.callStack →
      State.Twin t true
        (if s.choices.isEmpty && !s.safeExit && !s.hasError then
          s.fail t (.flow (.deadEnd (deadEnd s.callStack))) else s)
        (if u.choices.isEmpty && !u.safeExit && !u.hasError then
          u.fail t (.flow (.deadEnd (deadEnd u.callStack))) else u) := by
    intro s u h hdeadEnd
    rw [h.choices_isEmpty_eq, h.safeExit rfl, h.hasError_eq, hdeadEnd]
    split
    · exact h.fail _
    · exact h
  unfold State.checkEnd
  rw [h.canContinue_eq, h.callStack.canPopThread_eq]
  split
  · exact h
  · dsimp only
    split
    · exact hlast (h.fail _) rfl
    · exact hlast h hdeadEnd

end State

namespace Story

variable {c : Content} {running : Bool} {s u : Story}

theorem Twin.canContinue_eq (h : s.Twin c running u) : s.canContinue = u.canContinue := by
  unfold Story.canContinue
  rw [isNone_eq_of_rel h.pending, h.state.canContinue_eq]

/-- Only the messages of the host differ. -/
theorem Twin.told {s' u' : Story} (hs : s.Told s') (hu : u.Told u') (h : s.Twin c running u) :
    s'.Twin c running u' := by
  obtain ⟨_, _, _, rfl⟩ := hs.eq
  obtain ⟨_, _, _, rfl⟩ := hu.eq
  exact { h with state := h.state.withWarnings _ _ }

theorem Twin.restoreLineState (h : s.Twin c true u) :
    s.restoreLineState.Twin c true u.restoreLineState := by
  have hkept := h.lineState
  unfold Story.restoreLineState
  generalize hs : s.lineState = x at hkept ⊢
  generalize hu : u.lineState = y at hkept ⊢
  cases hkept with
  | none => exact h
  | some hkept =>
    exact { h with state := hkept.carryMessages h.state.errors, lineState := .none }

theorem Twin.keepLineState (h : s.Twin c true u) :
    s.keepLineState.Twin c true u.keepLineState := by
  unfold Story.keepLineState
  rw [h.state.endsInLineEnd_eq, h.state.canContinue_eq, isNone_eq_of_rel h.lineState]
  split
  · split
    · exact { h with lineState := .none }
    · split
      · exact { h with lineState := .some h.state }
      · exact h
  · exact h

theorem lineChange_eq {t : ContentTree} {kept kept' now now' : State}
    (hkept : kept.Twin t true kept') (hnow : now.Twin t true now') :
    lineChange kept now = lineChange kept' now' := by
  unfold lineChange
  rw [hkept.text_eq, hkept.tags_eq, hnow.text_eq, hnow.tags_eq]

/-- The line has ended in both stories, or in none. -/
theorem Twin.watchLine (h : s.Twin c true u) :
    s.watchLine.1 = u.watchLine.1 ∧ s.watchLine.2.Twin c true u.watchLine.2 := by
  have hkept := h.lineState
  unfold Story.watchLine
  generalize hs : s.lineState = x at hkept ⊢
  generalize hu : u.lineState = y at hkept ⊢
  cases hkept with
  | none => exact ⟨rfl, h.keepLineState⟩
  | @some _ kept hkept =>
    have hdropped : Twin c true { s with lineState := none } { u with lineState := none } :=
      { h with lineState := .none }
    have hmet : s.metUnsafeCall = u.metUnsafeCall := h.met rfl
    have hchange := lineChange_eq hkept h.state
    dsimp only
    rw [hchange]
    by_cases hended : lineChange kept u.state = .extended ∨ u.metUnsafeCall = true
    · rw [if_pos (hmet ▸ hended), if_pos hended]
      exact ⟨rfl, h.restoreLineState⟩
    · rw [if_neg (hmet ▸ hended), if_neg hended]
      split
      · exact ⟨rfl, hdropped.keepLineState⟩
      · exact ⟨rfl, h.keepLineState⟩

end Story

namespace Flow

variable {c : Content} {running : Bool} {α : Type}

theorem tandem_modifyGet {f g : Story → α × Story}
    (h : ∀ s u : Story, s.Twin c running u → (f s).1 = (g u).1 ∧ (f s).2.Twin c running (g u).2) :
    Tandem c running Eq (modifyGet f) (modifyGet g) :=
  fun _ _ hs => .ok (h _ _ hs).1 (h _ _ hs).2

theorem steady_attempt {x : Flow α} (h : Steady c running x) : Steady c running (attempt x) := by
  intro s u hs
  have hx := h hs
  generalize hxs : x s = p at hx
  generalize hxu : x u = q at hx
  cases hx with
  | ok hresult hstory =>
    rw [attempt_ok hxs, attempt_ok hxu]
    exact .ok (congrArg Except.ok hresult) hstory
  | error e hstory =>
    rw [attempt_error hxs, attempt_error hxu]
    exact .ok rfl hstory

theorem steady_recordError (e : StoryError) : Steady c running (recordError e) :=
  tandem_tree_bind (tandem_modifyState fun _ _ hs => hs.fail e)

theorem steady_plainStep : Steady c true plainStep := by
  refine steady_bind steady_step fun _ => tandem_get_bind fun s u hs => ?_
  rw [isNone_eq_of_rel hs.pending, hs.state.canContinue_eq, hs.state.callStack.inHostCall_eq]
  exact tandem_ite steady_followInvisibleChoice (tandem_pure rfl)

theorem steady_lineStep : Steady c true lineStep := by
  refine steady_bind steady_plainStep fun _ => tandem_get_bind fun s u hs => ?_
  rw [isSome_eq_of_rel hs.pending, hs.state.inString_eq]
  exact tandem_ite (tandem_pure rfl) (tandem_modifyGet fun _ _ hs => hs.watchLine)

theorem steady_leaveOpen : Steady c running (modify fun s => { s with lineOpen := true }) :=
  tandem_modify fun _ _ hs => { hs with lineOpen := rfl }

/-- A line runs to the same end in both stories: one step after the other, by induction on the number
of nodes that may be executed. -/
theorem steady_runLine (nodes : Nat) : Steady c true (runLine nodes) := by
  induction nodes with
  | zero => exact steady_bind steady_leaveOpen fun _ => tandem_pure rfl
  | succ nodes ih =>
    refine steady_bind (steady_attempt steady_lineStep) fun outcome => ?_
    cases outcome with
    | error e => exact steady_bind (steady_recordError e) fun _ => tandem_pure rfl
    | ok ended =>
      refine tandem_get_bind fun s u hs => ?_
      rw [isSome_eq_of_rel hs.pending]
      refine tandem_ite (steady_bind steady_leaveOpen fun _ => tandem_pure rfl) ?_
      refine tandem_ite (tandem_pure rfl) (tandem_state_bind fun s u hs => ?_)
      rw [hs.canContinue_eq]
      exact tandem_ite (tandem_pure rfl) ih

end Flow

/-! ## Beginning and ending a line -/

namespace Story

variable {c : Content} {s u : Story}

/-- Stories that a host finds to be the same from now on. -/
def InStep (c : Content) (s u : Story) : Prop :=
  s.Twin c s.lineOpen u

/-- In a line more is the same than between lines. -/
theorem Twin.inStep (h : s.Twin c true u) : s.InStep c u :=
  { h with
    state := { h.state with safeExit := fun _ => h.state.safeExit rfl }
    met := fun _ => h.met rfl }

theorem InStep.twin (h : s.InStep c u) (hopen : s.lineOpen = true) : s.Twin c true u := by
  unfold InStep at h
  rwa [hopen] at h

theorem InStep.rest (h : s.InStep c u) (hopen : s.lineOpen = false) : s.Twin c false u := by
  unfold InStep at h
  rwa [hopen] at h

theorem Twin.inStep_of_closed (h : s.Twin c false u) (hopen : s.lineOpen = false) :
    s.InStep c u := by
  unfold InStep
  rwa [hopen]

theorem Variables.Twin.watch {v w : Variables} (h : v.Twin w) : v.watch.Twin w.watch :=
  ⟨h.globals, h.defaults⟩

theorem Variables.Twin.unwatch {v w : Variables} (h : v.Twin w) : v.unwatch.Twin w.unwatch :=
  ⟨h.globals, h.defaults⟩

/-- A line that begins forgets what the stories do not have in common. -/
theorem Twin.freshLine (h : s.Twin c false u) :
    Twin c true { s.freshLine with metUnsafeCall := false }
      { u.freshLine with metUnsafeCall := false } := by
  obtain ⟨_, hs⟩ := s.freshLine_eq
  obtain ⟨_, hu⟩ := u.freshLine_eq
  rw [hs, hu]
  exact { h with
    state := { h.state with
      safeExit := fun _ => rfl
      output := rfl
      vars := Variables.Twin.watch h.state.vars }
    met := fun _ => rfl }

theorem Twin.tellObservers (h : s.Twin c true u) : s.tellObservers.Twin c true u.tellObservers := by
  have htold : ∀ v : Story, ∃ events, v.tellObservers =
      { v with state := { v.state with vars := v.state.vars.unwatch }, events } := by
    intro v
    obtain ⟨events, hlog⟩ := v.logAll_eq (v.state.vars.changes.flatMap v.notifications)
    refine ⟨events, ?_⟩
    unfold Story.tellObservers
    rw [hlog]
  obtain ⟨_, hs⟩ := htold s
  obtain ⟨_, hu⟩ := htold u
  rw [hs, hu]
  exact { h with state := h.state.withVars (Variables.Twin.unwatch h.state.vars) }

theorem Twin.closeLine (h : s.Twin c true u) : s.closeLine.Twin c true u.closeLine := by
  have hrestored := h.restoreLineState
  have hended : Twin c true
      { s.restoreLineState with
        state := { s.restoreLineState.state.checkEnd s.restoreLineState.tree with safeExit := false }
        metUnsafeCall := false }
      { u.restoreLineState with
        state := { u.restoreLineState.state.checkEnd u.restoreLineState.tree with safeExit := false }
        metUnsafeCall := false } := by
    rw [show s.restoreLineState.tree = c.tree from congrArg Content.tree hrestored.left,
      show u.restoreLineState.tree = c.tree from congrArg Content.tree hrestored.right]
    exact { hrestored with
      state := { hrestored.state.checkEnd with safeExit := fun _ => rfl }
      met := fun _ => rfl }
  exact { hended.tellObservers with lineOpen := rfl }

theorem Twin.endLine (ended : Bool) (h : s.Twin c true u) :
    (s.endLine ended).Twin c true (u.endLine ended) := by
  unfold Story.endLine
  rw [isNone_eq_of_rel h.pending, h.state.canContinue_eq]
  split
  · exact h.closeLine
  · exact h

end Story

/-! ## Calls -/

/-- Two calls both succeed with results that `A` relates, or both fail, and leave stories that `R`
relates. -/
inductive Ends {α β : Type} (A : α → β → Prop) (R : Story → Story → Prop) :
    EStateM.Result StoryError Story α → EStateM.Result StoryError Story β → Prop
  | ok {a : α} {b : β} {s u : Story} (hresult : A a b) (hstory : R s u) :
      Ends A R (.ok a s) (.ok b u)
  | failed {e e' : StoryError} {s u : Story} (hstory : R s u) : Ends A R (.error e s) (.error e' u)

namespace Ends

open StoryMachine.Flow

variable {α β γ δ : Type} {A : α → β → Prop} {B : γ → δ → Prop} {R : Story → Story → Prop}
  {x : Flow α} {y : Flow β} {k : α → Flow γ} {l : β → Flow δ} {s u : Story}

theorem bind (h : Ends A R (x s) (y u))
    (hk : ∀ a b s u, A a b → R s u → Ends B R (k a s) (l b u)) :
    Ends B R ((x >>= k) s) ((y >>= l) u) := by
  generalize hx : x s = p at h
  generalize hy : y u = q at h
  cases h with
  | ok hresult hstory =>
    rw [bind_ok hx, bind_ok hy]
    exact hk _ _ _ _ hresult hstory
  | failed hstory =>
    rw [bind_error hx, bind_error hy]
    exact .failed hstory

theorem after (h : Ends Eq R (x s) (x u)) : x.result? s = x.result? u ∧ R (x.after s) (x.after u) := by
  unfold Flow.result? Flow.after
  generalize x s = p at h
  generalize x u = q at h
  cases h with
  | ok hresult hstory => exact ⟨congrArg some hresult, hstory⟩
  | failed hstory => exact ⟨rfl, hstory⟩

end Ends

namespace Story

open StoryMachine.Flow

variable {c : Content} {s u : Story}

/-- What is reported fails both calls, or none. -/
theorem Twin.reportIssues (h : s.Twin c true u) :
    Ends Eq (InStep c) (Flow.reportIssues s) (Flow.reportIssues u) := by
  have hfails : (s.state.hasError && !s.hasHandler) = (u.state.hasError && !u.hasHandler) := by
    rw [h.state.hasError_eq, h.handler]
  rcases reportIssues_told s with ⟨hs, e, hrun⟩ | ⟨hs, s', hrun, htold⟩
  · rcases reportIssues_told u with ⟨-, e', hrun'⟩ | ⟨hu, -⟩
    · rw [hrun, hrun']
      exact .failed h.inStep
    · rw [hs, hu] at hfails
      cases hfails
  · rcases reportIssues_told u with ⟨hu, -⟩ | ⟨-, u', hrun', htold'⟩
    · rw [hs, hu] at hfails
      cases hfails
    · rw [hrun, hrun']
      exact .ok rfl (Twin.inStep (h.told htold htold'))

/-- A line is begun, or gone on with, in both stories, or in none. -/
theorem InStep.openLine (h : s.InStep c u) :
    Tally Eq (fun s' u' => s'.Twin c true u') (Flow.openLine false s) (Flow.openLine false u) ∨
      ∃ e s' u', Flow.openLine false s = .error e s' ∧ Flow.openLine false u = .error e u' ∧
        s'.InStep c u' := by
  cases hopen : s.lineOpen with
  | true =>
    have htwin := h.twin hopen
    rw [openLine_of_open false hopen, openLine_of_open false (htwin.lineOpen.symm.trans hopen)]
    exact .inl (.ok rfl { htwin with met := fun _ => rfl })
  | false =>
    have htwin := h.rest hopen
    have hopen' := htwin.lineOpen.symm.trans hopen
    cases hcontinue : s.state.canContinue with
    | true =>
      rw [openLine_of_canContinue false hopen hcontinue,
        openLine_of_canContinue false hopen' (htwin.state.canContinue_eq.symm.trans hcontinue)]
      exact .inl (.ok rfl (Twin.freshLine { htwin with lineOpen := rfl }))
    | false =>
      refine .inr ⟨_, _, _, openLine_cannotContinue false hopen hcontinue,
        openLine_cannotContinue false hopen'
          (htwin.state.canContinue_eq.symm.trans hcontinue), ?_⟩
      exact Twin.inStep_of_closed { htwin with lineOpen := rfl } rfl

theorem InStep.continueLine (h : s.InStep c u) (nodes : Nat) :
    Ends Eq (InStep c) (Flow.continueLine false nodes s) (Flow.continueLine false nodes u) := by
  rcases h.openLine with hopened | ⟨e, s', u', hs, hu, h'⟩
  · generalize hs : Flow.openLine false s = p at hopened
    generalize hu : Flow.openLine false u = q at hopened
    cases hopened with
    | error e hstory =>
      unfold Flow.continueLine
      rw [bind_error hs, bind_error hu]
      exact .failed hstory.inStep
    | @ok _ _ s' u' _ htwin =>
      obtain ⟨ended, v, hrun⟩ := exists_runLine_eq nodes s'
      obtain ⟨ended', w, hrun'⟩ := exists_runLine_eq nodes u'
      have hline := steady_runLine nodes htwin
      rw [hrun, hrun'] at hline
      cases hline with
      | ok hended hstory =>
        subst hended
        rw [continueLine_eq hs hrun, continueLine_eq hu hrun']
        exact (hstory.endLine ended).reportIssues
  · unfold Flow.continueLine
    rw [bind_error hs, bind_error hu]
    exact .failed h'

theorem InStep.pending (h : s.InStep c u) : Option.Rel PendingCall.Twin s.pending u.pending :=
  Twin.pending h

theorem InStep.refuseWaiting (h : s.InStep c u) :
    Ends Eq (InStep c) (Flow.refuseWaiting s) (Flow.refuseWaiting u) := by
  have hpending := h.pending
  unfold Flow.refuseWaiting
  rw [bind_ok (get_ok s), bind_ok (get_ok u)]
  generalize s.pending = x at hpending ⊢
  generalize u.pending = y at hpending ⊢
  cases hpending with
  | none => exact .ok rfl h
  | some => exact .failed h

theorem InStep.continueFor (h : s.InStep c u) :
    Ends Eq (InStep c) (Flow.continueFor false s) (Flow.continueFor false u) :=
  h.refuseWaiting.bind fun _ _ _ _ _ h => h.continueLine nodeBudget

theorem InStep.busy?_eq (h : s.InStep c u) (a : Activity) : s.busy? a = u.busy? a := by
  have hpending := h.pending
  unfold busy?
  rw [Twin.lineOpen h]
  generalize s.pending = x at hpending ⊢
  generalize u.pending = y at hpending ⊢
  cases hpending with
  | none => rfl
  | some hcall =>
    dsimp only
    rw [hcall.name]

/-- What has to wait for the end of a line waits in both stories, or in none. -/
theorem InStep.whenIdle {α β : Type} {A : α → β → Prop} {a : Activity} {k : Unit → Flow α}
    {l : Unit → Flow β} (h : s.InStep c u)
    (hkl : s.Idle → Ends A (InStep c) (k () s) (l () u)) :
    Ends A (InStep c) ((Flow.whenIdle a >>= k) s) ((Flow.whenIdle a >>= l) u) := by
  have hbusy := h.busy?_eq a
  have hs := whenIdle_run a s
  have hu := whenIdle_run a u
  rw [← hbusy] at hu
  cases hcase : s.busy? a with
  | some e =>
    rw [hcase] at hs hu
    rw [bind_error hs, bind_error hu]
    exact .failed h
  | none =>
    rw [hcase] at hs hu
    rw [bind_ok hs, bind_ok hu]
    exact hkl (idle_of_busy? hcase)

theorem InStep.currentText (h : s.InStep c u) :
    Ends Eq (InStep c) (Flow.currentText s) (Flow.currentText u) :=
  h.whenIdle fun _ => .ok (Twin.state h).text_eq h

theorem InStep.currentTags (h : s.InStep c u) :
    Ends Eq (InStep c) (Flow.currentTags s) (Flow.currentTags u) :=
  h.whenIdle fun _ => .ok (Twin.state h).tags_eq h

/-- The next line has the same text. -/
theorem InStep.next (h : s.InStep c u) : Ends Eq (InStep c) (Flow.next s) (Flow.next u) := by
  refine h.continueFor.bind fun _ _ s u _ h => ?_
  rw [bind_ok (get_ok s), bind_ok (get_ok u), isSome_eq_of_rel h.pending]
  split
  · exact .ok rfl h
  · exact h.currentText

/-- The next line has the same text and the same tags. -/
theorem InStep.nextTagged (h : s.InStep c u) :
    Ends Eq (InStep c) (Flow.nextTagged s) (Flow.nextTagged u) := by
  refine h.next.bind fun text text' s u htext h => ?_
  subst htext
  rw [bind_ok (get_ok s), bind_ok (get_ok u), isSome_eq_of_rel h.pending]
  split
  · exact .ok rfl h
  · refine h.currentTags.bind fun tags tags' s u htags h => ?_
    subst htags
    exact .ok rfl h

/-! ### Choices -/

theorem visibleChoices_twin {t : ContentTree} {running : Bool} {s u : Story}
    (h : s.state.Twin t running u.state) :
    Forall₂ (Choice.Twin t) s.visibleChoices u.visibleChoices := by
  have hvisible : Forall₂ (Choice.Twin t) (s.state.choices.filter fun o => !o.isInvisible)
      (u.state.choices.filter fun o => !o.isInvisible) := by
    have hchoices := h.choices
    generalize s.state.choices = as at hchoices
    generalize u.state.choices = bs at hchoices
    induction hchoices with
    | nil => exact .nil
    | cons hab _ ih =>
      rw [List.filter_cons, List.filter_cons, (congrArg Offer.isInvisible hab.offer :)]
      split
      · exact .cons hab ih
      · exact ih
  unfold visibleChoices
  rw [h.canContinue_eq]
  split
  · exact .nil
  · exact mapIdx_rel hvisible fun i a b hab =>
      ⟨(congrArg (fun o : Offer => { o with index := i }) hab.offer :), hab.thread⟩

/-- Choose one of the visible choices, when no line is in progress. -/
def takeVisible (index : Nat) : Flow Unit := do
  let choices := (← get).visibleChoices
  match choices[index]? with
  | none => throw (.flow (.choiceRange index choices.length))
  | some choice =>
    resumeThread choice.thread
    jumpTo choice.target true

theorem choose_eq (index : Nat) :
    Flow.choose index = Flow.whenIdle .choose >>= fun _ => takeVisible index :=
  rfl

theorem steady_takeVisible (running : Bool) (index : Nat) :
    Steady c running (takeVisible index) := by
  refine tandem_get_bind fun s u hs => ?_
  have hchoices := visibleChoices_twin hs.state
  have hchoice := rel_getElem? hchoices index
  dsimp only
  rw [hchoices.length_eq]
  generalize s.visibleChoices[index]? = a at hchoice
  generalize u.visibleChoices[index]? = b at hchoice
  cases hchoice with
  | none => exact tandem_throw _
  | some hab =>
    dsimp only
    rw [(congrArg Offer.target hab.offer :)]
    exact tandem_bind (tandem_resumeThread hab.thread) fun _ _ _ => steady_jumpTo _ true

/-- The same choice is made, or none. -/
theorem InStep.choose (h : s.InStep c u) (index : Nat) :
    Ends Eq (InStep c) (Flow.choose index s) (Flow.choose index u) := by
  have hopen := (changes_choose index s).lineOpen_eq
  rw [choose_eq] at hopen ⊢
  refine h.whenIdle fun hidle => ?_
  rw [after_bind_ok (whenIdle_ok hidle _), hidle.lineOpen] at hopen
  have htaken := steady_takeVisible false index (h.rest hidle.lineOpen)
  generalize hs : takeVisible index s = p at htaken
  generalize takeVisible index u = q at htaken
  cases htaken with
  | ok hresult hstory =>
    rw [after_of_ok hs] at hopen
    exact .ok hresult (hstory.inStep_of_closed hopen)
  | error e hstory =>
    rw [after_of_error hs] at hopen
    exact .failed (hstory.inStep_of_closed hopen)

/-- The same answer is taken, or none. -/
theorem InStep.resolve (h : s.InStep c u) (answer : Option Value) :
    Ends Eq (InStep c) (Flow.resolve answer s) (Flow.resolve answer u) := by
  unfold Flow.resolve
  rw [bind_ok (get_ok s), bind_ok (get_ok u), isNone_eq_of_rel h.pending]
  cases u.pending with
  | none => exact .failed h
  | some =>
    exact .ok rfl { h with
      state := (Twin.state h).push (.refl _)
      pending := .none }

end Story

end StoryMachine
