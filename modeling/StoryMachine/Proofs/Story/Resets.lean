import StoryMachine.Proofs.Content.Lookups
import StoryMachine.Proofs.Story.Bystanders
import StoryMachine.Proofs.Story.Emission
import StoryMachine.Proofs.Story.Evaluation
import StoryMachine.Proofs.Story.MissingCalls

/-!
# Resets

A reset goes back to the state at the start, and runs the global declarations again. What is left
of all that has happened before are things that stand beside the story, and the functions that are
bound. So a reset leads to the state of a new story over the same content, with the same functions
bound. Only the warnings may differ: a new story warns of another version of the content, and has
no handler that takes warnings away.

* `Story.anew`, `Story.rebuild` : a new story with the same functions bound;
* `Flow.declareGlobals_beside` : the declarations, whatever stands beside the story;
* `Flow.reset_is_new` : a reset and a new story.
-/

namespace StoryMachine

namespace Story

/-- A story over the same content that has not run yet, with the same functions bound. -/
def anew (s : Story) (seed : Int32) : Story :=
  { unstarted s.content seed with bindings := s.bindings, fallbacks := s.fallbacks }

/-- A new story over the same content, with the same functions bound. -/
def rebuild (s : Story) (seed : Int32) : Except StoryError Story :=
  match (do Flow.declareGlobals; Flow.checkVersion : Flow Unit) (s.anew seed) with
  | .ok _ u => .ok u
  | .error e _ => .error e

/-- Without functions this is a new story as any other. -/
theorem rebuild_eq_ofContent {s : Story} (hbindings : s.bindings = .empty)
    (hfallbacks : s.fallbacks = false) (seed : Int32) :
    s.rebuild seed = ofContent s.content seed := by
  rw [rebuild, anew, hbindings, hfallbacks]
  rfl

end Story

/-! ## The jump to the declarations -/

theorem ContentTree.cursorAt_declarations {t : ContentTree} (h : t.declaresGlobals = true)
    {place : Option Cursor} {warning : Option String}
    (hplace : t.cursorAt (Path.parse declarationsName) = .ok (place, warning)) : warning = none := by
  obtain ⟨id, hid⟩ := Option.isSome_iff_exists.mp h
  obtain ⟨k, hk, hid⟩ := Option.bind_eq_some_iff.mp hid
  have hchild : t.child? rootId (.name declarationsName) = some id := by
    rw [child?_name hk (by decide)]
    exact hid
  have hparse : Path.parse declarationsName = ⟨[.name declarationsName], false⟩ := by decide
  have hfound : t.follow false rootId [.name declarationsName] = ⟨id, false⟩ :=
    follow_of_leads (.step hchild (.here id))
  rw [hparse, cursorAt, Path.last?] at hplace
  simp only [List.getLast?_singleton] at hplace
  rw [hfound] at hplace
  split at hplace
  · cases hplace
  · cases hplace
    rfl

namespace State

variable {t : ContentTree}

/-- The jump to the declarations warns of nothing. -/
theorem warnings_jump_declarations (h : t.declaresGlobals = true) (s : State) (countTurn : Bool) :
    (s.jump t (Path.parse declarationsName) countTurn).1.warnings = s.warnings := by
  unfold jump
  cases hplace : t.cursorAt (Path.parse declarationsName) with
  | error e => rfl
  | ok found =>
    obtain ⟨place, warning⟩ := found
    rw [ContentTree.cursorAt_declarations h hplace]
    cases countTurn <;> rfl

end State

/-! ## The line of the declarations -/

namespace Story

theorem tellObservers_eq (s : Story) : ∃ events, s.tellObservers =
    { s with state := { s.state with vars := s.state.vars.unwatch }, events } := by
  obtain ⟨events, hlog⟩ := s.logAll_eq (s.state.vars.changes.flatMap s.notifications)
  unfold tellObservers
  rw [hlog]
  exact ⟨events, rfl⟩

/-- A line is ended in the same way whatever stands beside the story, but other observers are
told. -/
theorem endLine_beside (s : Story) (b : Bystanders) (ended : Bool) :
    ∃ events, (s.beside b).endLine ended = { (s.endLine ended).beside b with events } := by
  have hclose : ∃ events, (s.beside b).closeLine = { s.closeLine.beside b with events } := by
    unfold closeLine
    rw [restoreLineState_beside]
    dsimp only
    obtain ⟨events, htell⟩ := tellObservers_eq { s.restoreLineState.beside b with
      state := { s.restoreLineState.state.checkEnd s.restoreLineState.tree with safeExit := false }
      metUnsafeCall := false }
    obtain ⟨events', htell'⟩ := tellObservers_eq { s.restoreLineState with
      state := { s.restoreLineState.state.checkEnd s.restoreLineState.tree with safeExit := false }
      metUnsafeCall := false }
    refine ⟨events, ?_⟩
    rw [htell']
    exact congrArg (fun u : Story => { u with lineOpen := false }) htell
  unfold endLine
  show ∃ events, (if (s.pending.isNone && (ended || !s.state.canContinue)) = true then
    (s.beside b).closeLine else s.beside b) = _
  split
  · exact hclose
  · exact ⟨_, rfl⟩

theorem clearWarnings_eq {s : State} (h : s.warnings = []) : s.clearWarnings = s := by
  unfold State.clearWarnings
  rw [← h]

/-- A line begins in the same way whatever stands beside the story, if no warning is left to be
forgotten. -/
theorem freshLine_beside {s : Story} (h : s.state.warnings = []) (b : Bystanders) :
    (s.beside b).freshLine = s.freshLine.beside { b with warningsShown := false } := by
  have hclear : ∀ shown : Bool, (if shown then s.state.clearWarnings else s.state) = s.state := by
    intro shown
    cases shown with
    | false => rfl
    | true => exact clearWarnings_eq h
  unfold freshLine
  rw [hclear]
  show _ = beside { s with state := { s.state with
    safeExit := false, output := .empty, vars := s.state.vars.watch }, warningsShown := false } _
  rw [show (if (s.beside b).warningsShown then (s.beside b).state.clearWarnings
    else (s.beside b).state) = s.state from hclear _]
  rfl

end Story

namespace Flow

variable {s u v : Story} {b : Story.Bystanders}

theorem openLine_beside {marked : Bool} (hopen : s.lineOpen = false)
    (hwarnings : s.state.warnings = []) (h : openLine false s = .ok () u) :
    openLine false { s.beside b with metUnsafeCall := marked } =
      .ok () (u.beside { b with warningsShown := false }) := by
  rcases openLine_cases h with ⟨hline, -⟩ | ⟨-, hcontinue, rfl⟩
  · rw [hopen] at hline
    cases hline
  · rw [openLine_of_canContinue false (s := { s.beside b with metUnsafeCall := marked }) hopen
      hcontinue]
    have hfresh := Story.freshLine_beside (s := { s with lineOpen := false }) hwarnings b
    exact congrArg (fun u : Story => EStateM.Result.ok () { u with metUnsafeCall := false }) hfresh

/-- Issues that are reported without a failure: a handler takes the warnings. -/
theorem reportIssues_ok (h : reportIssues s = .ok () u) :
    u = { s with state := u.state, events := u.events, warningsShown := u.warningsShown } ∧
      u.state = if s.hasHandler then s.state.clearWarnings else s.state := by
  unfold reportIssues at h
  rw [bind_ok (get_ok s)] at h
  by_cases hissues : (s.state.hasError || s.state.hasWarning) = true
  · rw [if_pos hissues] at h
    by_cases hhandler : s.hasHandler = true
    · rw [if_pos hhandler, bind_ok (modify_ok _ s)] at h
      obtain ⟨events, hlog⟩ :=
        s.logAll_eq (s.state.errors.map .error ++ s.state.warnings.map .warning)
      rw [hlog] at h
      cases h
      exact ⟨rfl, (if_pos hhandler).symm⟩
    · rw [if_neg hhandler] at h
      split at h
      · cases h
      · cases h
        exact ⟨rfl, (if_neg hhandler).symm⟩
  · rw [if_neg hissues] at h
    cases h
    have hnone : s.state.warnings = [] := by
      rw [Bool.or_eq_true, not_or] at hissues
      simpa [State.hasWarning] using hissues.2
    refine ⟨rfl, ?_⟩
    rw [Story.clearWarnings_eq hnone, ite_self]

/-- Issues are reported without a failure unless errors find no handler. -/
theorem exists_reportIssues_ok (h : s.hasHandler = true ∨ s.state.hasError = false) :
    ∃ u, reportIssues s = .ok () u := by
  unfold reportIssues
  rw [bind_ok (get_ok s)]
  split
  · split
    · exact ⟨_, rfl⟩
    · next hhandler =>
      rw [h.resolve_left hhandler]
      exact ⟨_, rfl⟩
  · exact ⟨s, rfl⟩

end Flow

/-! ## The declarations -/

/-- A story is as another, except for what stands beside it: with a handler it has no warnings. -/
structure Story.Like (handled : Bool) (v u : Story) : Prop where
  state : u.state = if handled then v.state.clearWarnings else v.state
  lineState : u.lineState = v.lineState
  lineOpen : u.lineOpen = v.lineOpen
  pending : u.pending = v.pending
  tree : u.tree = v.tree

/-- What is done to the state, whatever the warnings are, is done to both. -/
theorem Story.Like.modify {handled : Bool} {v u : Story} (h : u.Like handled v) {f : State → State}
    (hf : ∀ s : State, f s.clearWarnings = (f s).clearWarnings) :
    ({ u with state := f u.state } : Story).Like handled { v with state := f v.state } := by
  refine ⟨?_, h.lineState, h.lineOpen, h.pending, h.tree⟩
  show f v.state = if handled then (f u.state).clearWarnings else f u.state
  rw [h.state]
  cases handled
  · rfl
  · exact hf u.state

namespace Flow

variable {s u : Story} {b : Story.Bystanders} {marked : Bool}

/-- The first line of a story without a handler, and the same line whatever stands beside the
story. -/
theorem continueLine_beside {nodes : Nat} (hopen : s.lineOpen = false)
    (hwarnings : s.state.warnings = []) (hhandler : s.hasHandler = false)
    (h : continueLine false nodes { s.beside b with metUnsafeCall := marked } = .ok () u)
    (hends : b.hasHandler = true → ∃ v, continueLine false nodes s = .ok () v) :
    ∃ v, continueLine false nodes s = .ok () v ∧ v.Like b.hasHandler u := by
  have hcontinue : s.state.canContinue = true := by
    cases hcontinue : s.state.canContinue with
    | true => rfl
    | false =>
      have hrefused := openLine_cannotContinue (s := { s.beside b with metUnsafeCall := marked })
        false hopen hcontinue
      unfold continueLine at h
      rw [bind_error hrefused] at h
      cases h
  have hline := openLine_of_canContinue false hopen hcontinue
  obtain ⟨ended, w, hrun⟩ := exists_runLine_eq nodes
    { ({ s with lineOpen := false } : Story).freshLine with metUnsafeCall := false }
  have hbeside := apart_runLine nodes
    { ({ s with lineOpen := false } : Story).freshLine with metUnsafeCall := false }
    { b with warningsShown := false }
  rw [hrun] at hbeside
  obtain ⟨events, hend⟩ := w.endLine_beside { b with warningsShown := false } ended
  rw [continueLine_eq (openLine_beside hopen hwarnings hline) hbeside, hend] at h
  rw [continueLine_eq hline hrun] at hends ⊢
  obtain ⟨hu, hstate⟩ := reportIssues_ok h
  have hexists : ∃ v, reportIssues (w.endLine ended) = .ok () v := by
    cases hb : b.hasHandler with
    | true => exact hends hb
    | false =>
      have herror := (hasError_of_reportIssues h hb).1
      rw [hstate] at herror
      change (if b.hasHandler then _ else (w.endLine ended).state).hasError = false at herror
      rw [hb] at herror
      exact exists_reportIssues_ok (.inr herror)
  obtain ⟨v, hv⟩ := hexists
  have hquiet : (w.endLine ended).hasHandler = false := by
    have hkept := hasHandler_runLine nodes
      { ({ s with lineOpen := false } : Story).freshLine with metUnsafeCall := false }
    rw [after_of_ok hrun] at hkept
    rw [hasHandler_endLine, hkept]
    exact hhandler
  obtain ⟨hother, hsame⟩ := reportIssues_ok hv
  rw [hquiet, if_neg Bool.false_ne_true] at hsame
  refine ⟨v, hv, ?_⟩
  rw [hu, hother]
  refine ⟨?_, rfl, rfl, rfl, rfl⟩
  rw [hsame]
  exact hstate

/-- The declarations of a story without a handler, and the same declarations whatever stands
beside the story. -/
theorem declareGlobals_beside (hopen : s.lineOpen = false) (hwarnings : s.state.warnings = [])
    (hhandler : s.hasHandler = false)
    (h : declareGlobals { s.beside b with metUnsafeCall := marked } = .ok () u)
    (hends : b.hasHandler = true → ∃ v, declareGlobals s = .ok () v) :
    ∃ v, declareGlobals s = .ok () v ∧ v.Like b.hasHandler u := by
  unfold declareGlobals at h hends ⊢
  rw [bind_ok (tree_ok _)] at h
  rw [bind_ok (tree_ok _)] at hends ⊢
  change (if s.tree.declaresGlobals = true then _ else _ : Flow Unit) _ = _ at h
  cases hdeclares : s.tree.declaresGlobals with
  | false =>
    rw [hdeclares, if_neg Bool.false_ne_true] at h
    rw [if_neg Bool.false_ne_true]
    cases h
    have hlike : s.Like b.hasHandler { s.beside b with metUnsafeCall := marked } := by
      refine ⟨?_, rfl, rfl, rfl, rfl⟩
      rw [Story.clearWarnings_eq hwarnings, ite_self]
      rfl
    exact ⟨_, rfl, hlike.modify (f := fun s => { s with vars := s.vars.settle }) fun _ => rfl⟩
  | true =>
    rw [hdeclares, if_pos rfl, bind_ok (state_ok _)] at h
    rw [hdeclares, if_pos rfl, bind_ok (state_ok _)] at hends
    rw [if_pos rfl, bind_ok (state_ok _)]
    have hsilent := State.warnings_jump_declarations hdeclares s.state false
    rcases hfound : s.state.jump s.tree (Path.parse declarationsName) false with ⟨t, _ | e⟩
    · have hbeside : jumpTo (Path.parse declarationsName) false
          { s.beside b with metUnsafeCall := marked } = .ok ()
            { ({ s with state := t.enterByJump s.tree } : Story).beside b with metUnsafeCall := marked } :=
        jumpTo_run_ok hfound
      rw [hfound] at hsilent
      obtain ⟨visits, turns, henter⟩ := t.exists_enterByJump_eq s.tree
      have hquiet : (t.enterByJump s.tree).warnings = [] := by
        rw [henter]
        exact hsilent.trans hwarnings
      rw [bind_ok hbeside] at h
      obtain ⟨_, w, hline, hrest⟩ := exists_of_bind_eq_ok h
      cases hrest
      rw [bind_ok (jumpTo_run_ok hfound)] at hends ⊢
      obtain ⟨v, hv, hlike⟩ := continueLine_beside (s := { s with state := t.enterByJump s.tree })
          hopen hquiet hhandler hline fun hb => by
        obtain ⟨_, hall⟩ := hends hb
        obtain ⟨_, v, hfirst, -⟩ := exists_of_bind_eq_ok hall
        exact ⟨v, hfirst⟩
      rw [bind_ok hv]
      exact ⟨_, rfl, hlike.modify (f := fun u => { u.setCursor s.state.cursor with
        vars := (u.setCursor s.state.cursor).vars.settle }) fun _ => rfl⟩
    · have hbeside : jumpTo (Path.parse declarationsName) false
          { s.beside b with metUnsafeCall := marked } = .error e _ := jumpTo_run_error hfound
      rw [bind_error hbeside] at h
      cases h

end Flow

/-! ## Resets -/

/-- After a reset of `s`, the story `u` is as the new story `v`, except for warnings: a handler has
taken those of the declarations, and a new story may have one more, on the version. -/
structure Story.Renews (s v u : Story) : Prop where
  state : u.state = { v.state with warnings := u.state.warnings }
  lineState : u.lineState = v.lineState
  lineOpen : u.lineOpen = v.lineOpen
  pending : u.pending = v.pending
  handled : s.hasHandler = true → u.state.warnings = []
  current : s.hasHandler = false → s.content.version = formatVersion →
    u.state.warnings = v.state.warnings
  outdated : s.hasHandler = false → s.content.version ≠ formatVersion →
    ∃ notice, v.state.warnings = u.state.warnings ++ [notice]

/-- What the declarations have come to, next to a new story that may warn of the version. -/
theorem Story.Like.renews {s w u v : Story} (h : w.Like s.hasHandler u)
    (hcontent : w.content = s.content) (hcheck : Flow.checkVersion w = .ok () v) :
    s.Renews v u := by
  have hstate : u.state = { w.state with warnings := u.state.warnings } := by
    rw [h.state]
    split <;> rfl
  have hhandled (hhandler : s.hasHandler = true) : u.state.warnings = [] := by
    rw [h.state, if_pos hhandler]
    rfl
  have hkept (hhandler : s.hasHandler = false) : u.state.warnings = w.state.warnings := by
    rw [h.state, hhandler, if_neg Bool.false_ne_true]
  unfold Flow.checkVersion at hcheck
  rw [Flow.bind_ok (Flow.get_ok w), hcontent] at hcheck
  by_cases hversion : s.content.version = formatVersion
  · rw [if_neg (not_not_intro hversion)] at hcheck
    cases hcheck
    exact ⟨hstate, h.lineState, h.lineOpen, h.pending, hhandled, fun hhandler _ => hkept hhandler,
      fun _ hother => absurd hversion hother⟩
  · rw [if_pos hversion] at hcheck
    cases hcheck
    refine ⟨hstate, h.lineState, h.lineOpen, h.pending, hhandled, fun _ hsame =>
      absurd hsame hversion, fun hhandler _ => ?_⟩
    rw [hkept hhandler]
    exact ⟨_, rfl⟩

/-- A reset leads to the state of a new story over the same content with the same functions bound:
the position, the calls, the variables, what has been counted, the choices and the errors are those
of the new story, and only the warnings may differ. Without a handler a new story can be made
whenever the reset succeeds. -/
theorem Flow.reset_is_new {s u : Story} {seed : Int32} (hs : Reachable s)
    (h : resetState seed s = .ok () u) :
    (s.hasHandler = false → ∃ v, s.rebuild seed = .ok v) ∧
      ∀ v, s.rebuild seed = .ok v → s.Renews v u := by
  have horderly : s.Orderly fun _ => True := hs.orderly trivialLine fun _ _ _ _ _ _ => trivial
  have hdeclare : s.pending = none ∧ s.lineOpen = false ∧
      declareGlobals { s with state := .start seed } = .ok () u := by
    unfold resetState at h
    rcases whenIdle_cases .resetState s with ⟨hidle, hpending, hopen⟩ | ⟨e, hbusy⟩
    · rw [bind_ok hidle, bind_ok (modifyState_ok _ s)] at h
      exact ⟨hpending, hopen, h⟩
    · rw [bind_error hbusy] at h
      cases h
  obtain ⟨hpending, hopen, hdeclare⟩ := hdeclare
  -- Between lines no state is kept, so what is left of the past stands beside the story.
  have hbeside : ({ s with state := .start seed } : Story) =
      { (s.anew seed).beside ⟨s.observers, s.hasHandler, s.warningsShown, s.events⟩ with
        metUnsafeCall := s.metUnsafeCall } := by
    obtain ⟨⟩ := s
    cases horderly.idle hopen
    cases hpending
    cases hopen
    rfl
  rw [hbeside] at hdeclare
  have hrebuild : s.rebuild seed = match declareGlobals (s.anew seed) with
      | .ok _ w => match checkVersion w with
        | .ok _ v => .ok v
        | .error e _ => .error e
      | .error e _ => .error e := by
    unfold Story.rebuild
    cases hw : declareGlobals (s.anew seed) with
    | ok _ w => rw [bind_ok hw]
    | error e w => rw [bind_error hw]
  constructor
  · intro hhandler
    obtain ⟨w, hw, -⟩ := declareGlobals_beside (s := s.anew seed) rfl rfl rfl hdeclare fun hb => by
      cases hhandler.symm.trans hb
    obtain ⟨warnings, hcheck⟩ := checkVersion_ok w
    rw [hrebuild, hw]
    dsimp only
    rw [hcheck]
    exact ⟨_, rfl⟩
  · intro v hv
    rw [hrebuild] at hv
    cases hw : declareGlobals (s.anew seed) with
    | error e w =>
      rw [hw] at hv
      cases hv
    | ok _ w =>
      rw [hw] at hv
      obtain ⟨warnings, hcheck⟩ := checkVersion_ok w
      dsimp only at hv
      rw [hcheck] at hv
      cases hv
      obtain ⟨w', hw', hlike⟩ := declareGlobals_beside (s := s.anew seed) rfl rfl rfl hdeclare
        fun _ => ⟨w, hw⟩
      cases hw.symm.trans hw'
      have hcontent := (sameSettings_declareGlobals (s.anew seed)).content
      rw [after_of_ok hw] at hcontent
      exact hlike.renews hcontent hcheck

/-- A line, in content of an earlier version. -/
def outdated : Content :=
  ⟨0, 20, .ofBlock (.container none ⟨false, false, false⟩
    [.leaf (.value (.text "Hi")), .leaf (.value (.text "\n"))] []), .empty⟩

/-- The new story of the line, with the warning of the version. -/
def outdatedStory : Story :=
  Flow.checkVersion.after { Story.unstarted outdated 0 with
    state := { State.start 0 with vars := Variables.empty.settle } }

theorem Flow.outdated_is_warned_of_once :
    Reachable outdatedStory ∧ outdatedStory.hasHandler = false ∧
      resetState 0 outdatedStory =
        .ok () { outdatedStory with state := outdatedStory.state.clearWarnings } ∧
      outdatedStory.rebuild 0 = .ok outdatedStory ∧
      outdatedStory.Renews outdatedStory
        { outdatedStory with state := outdatedStory.state.clearWarnings } ∧
      outdatedStory.state.warnings ≠ [] := by
  have hnew : Story.ofContent outdated 0 = .ok outdatedStory := rfl
  have hs : Reachable outdatedStory := .start hnew fun _ _ => trivial
  have hrebuild : outdatedStory.rebuild 0 = .ok outdatedStory := rfl
  have hreset : resetState 0 outdatedStory =
      .ok () { outdatedStory with state := outdatedStory.state.clearWarnings } := rfl
  exact ⟨hs, rfl, hreset, hrebuild, (reset_is_new hs hreset).2 outdatedStory hrebuild,
    List.cons_ne_nil _ _⟩

end StoryMachine
