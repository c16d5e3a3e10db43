import StoryMachine.Proofs.Story.Runs

/-!
# Lines of a run

A line is begun, gone on with and ended by calls of the host, which may do other things in
between. What holds at the start of a line, and is respected by every step and by whatever
leaves the output and the state kept alone, holds of every line in progress. Between lines no
state is kept, nor while the story waits for the host.

* `Story.LineInvariant` : what is respected in this way;
* `Story.Orderly` : what holds of every story that a host brings about (`Run.orderly`);
* `Flow.LineOutcome` : how a line is left, or comes to its end (`Flow.runLine_outcome`);
* `Flow.closed_of_continueLine` : how a continue closes its line.
-/

namespace StoryMachine

namespace Story

/-- No state is kept while the story waits for the host. -/
def Waits (s : Story) : Prop :=
  s.pending.isSome = true → s.lineState = none

/-- `L` holds at the start of a line, and is respected by the steps of the line from stories
that satisfy `P`. -/
structure LineInvariant (P L : Story → Prop) : Prop where
  fresh {s : Story} (hstate : s.lineState = none) (houtput : s.state.output = .empty) : L s
  same {s u : Story} (h : L s) (hstate : u.lineState = s.lineState)
    (houtput : u.state.output = s.state.output) : L u
  step {s : Story} (h : L s) (hp : P s) (hpending : s.pending = none) (hwaits : s.Waits)
    (hopen : (Flow.lineStep.after s).pending.isSome = true ∨
      Flow.lineStep s = .ok false (Flow.lineStep.after s) ∧
        (Flow.lineStep.after s).state.canContinue = true) : L (Flow.lineStep.after s)

/-- Between lines and while the story waits no state is kept, and `L` holds in a line. -/
structure Orderly (L : Story → Prop) (s : Story) : Prop where
  idle : s.lineOpen = false → s.lineState = none
  waits : s.Waits
  line : s.lineOpen = true → L s

end Story

/-! ## Steps -/

theorem Changes.lineOpen_eq {c : Content} {fx : Effects} {s u : Story} (h : Changes c fx s u) :
    u.lineOpen = s.lineOpen := by
  induction h with
  | refl => rfl
  | tail _ h ih => cases h <;> exact ih

theorem Changes.waits {c : Content} {fx : Effects} {s u : Story} (h : Changes c fx s u)
    (hs : s.Waits) : u.Waits := by
  induction h with
  | refl => exact hs
  | tail _ h ih =>
    cases h with
    | state | called | unsafeCall => exact ih
    | wait _ _ hline => exact fun _ => hline

namespace Flow

theorem within_plainStep {c : Content} {fx : Effects} (hcalls : fx.calls = true)
    (hfx : fx.output = true) (hassigns : fx.assigns = true) : Within c fx plainStep := by
  refine within_bind (within_step hcalls hfx hassigns) fun _ => within_get_any fun s => ?_
  exact within_ite within_followInvisibleChoice (within_pure ())

theorem changes_plainStep (s : Story) : Changes s.content .ofStep s (plainStep.after s) :=
  within_plainStep rfl rfl rfl s rfl

/-- A step of a line that fails has failed before the line end was looked for. -/
theorem plainStep_of_lineStep_error {s u : Story} {e : StoryError}
    (h : lineStep s = .error e u) : plainStep s = .error e u := by
  cases hplain : plainStep s with
  | error e v =>
    unfold lineStep at h
    rw [bind_error hplain] at h
    cases h
    rfl
  | ok _ v =>
    unfold lineStep at h
    rw [bind_ok hplain, bind_ok (get_ok v)] at h
    split at h
    · cases h
    · cases h

/-- What a step of a line does behind the plain step. -/
theorem lineStep_cases {s u : Story} {ended : Bool} (h : lineStep s = .ok ended u) :
    ∃ v, plainStep s = .ok () v ∧
      ((v.pending.isSome = true ∨ v.state.output.inString = true) ∧ ended = false ∧ u = v ∨
        v.pending = none ∧ v.state.output.inString = false ∧ v.watchLine = (ended, u)) := by
  cases hplain : plainStep s with
  | error e v =>
    unfold lineStep at h
    rw [bind_error hplain] at h
    cases h
  | ok _ v =>
    refine ⟨v, rfl, ?_⟩
    unfold lineStep at h
    rw [bind_ok hplain, bind_ok (get_ok v)] at h
    split at h
    · next hleft =>
      rw [Bool.or_eq_true] at hleft
      cases h
      exact .inl ⟨hleft, rfl, rfl⟩
    · next hleft =>
      rw [Bool.or_eq_true, not_or, Bool.not_eq_true, Bool.not_eq_true,
        Option.isSome_eq_false_iff, Option.isNone_iff_eq_none] at hleft
      cases h
      exact .inr ⟨hleft.1, hleft.2, rfl⟩

end Flow

namespace Story

theorem keepLineState_eq (s : Story) :
    ∃ kept, s.keepLineState = { s with lineState := kept } := by
  unfold keepLineState
  split
  · split
    · exact ⟨none, rfl⟩
    · split
      · exact ⟨some s.state, rfl⟩
      · exact ⟨s.lineState, rfl⟩
  · exact ⟨s.lineState, rfl⟩

theorem restoreLineState_eq (s : Story) :
    ∃ state, s.restoreLineState = { s with state, lineState := none } := by
  unfold restoreLineState
  split
  · exact ⟨_, rfl⟩
  · next h =>
    refine ⟨s.state, ?_⟩
    rw [← h]

theorem restoreLineState_restoreLineState (s : Story) :
    s.restoreLineState.restoreLineState = s.restoreLineState := by
  obtain ⟨state, h⟩ := s.restoreLineState_eq
  rw [h]
  rfl

/-- Watching a line changes nothing but the states. -/
theorem watchLine_eq (s : Story) :
    ∃ state kept, s.watchLine.2 = { s with state, lineState := kept } := by
  unfold watchLine
  split
  · obtain ⟨kept, h⟩ := s.keepLineState_eq
    exact ⟨s.state, kept, h⟩
  · dsimp only
    split
    · obtain ⟨state, h⟩ := s.restoreLineState_eq
      exact ⟨state, none, h⟩
    · split
      · obtain ⟨kept, h⟩ := ({ s with lineState := none } : Story).keepLineState_eq
        exact ⟨s.state, kept, h⟩
      · obtain ⟨kept, h⟩ := s.keepLineState_eq
        exact ⟨s.state, kept, h⟩

theorem pending_of_watchLine {s u : Story} {ended : Bool} (h : s.watchLine = (ended, u)) :
    u.pending = s.pending := by
  obtain ⟨state, kept, heq⟩ := s.watchLine_eq
  rw [h] at heq
  have hu : u = { s with state, lineState := kept } := heq
  rw [hu]

end Story

namespace Flow

/-- A step leaves the marks of the line alone, and waits only when no state is kept. -/
theorem lineStep_marks (s : Story) :
    (lineStep.after s).lineOpen = s.lineOpen ∧ (s.Waits → (lineStep.after s).Waits) := by
  have hplain := changes_plainStep s
  cases h : lineStep s with
  | error e u =>
    rw [after_of_error (plainStep_of_lineStep_error h)] at hplain
    rw [after_of_error h]
    exact ⟨hplain.lineOpen_eq, hplain.waits⟩
  | ok ended u =>
    rw [after_of_ok h]
    obtain ⟨v, hv, hrest⟩ := lineStep_cases h
    rw [after_of_ok hv] at hplain
    rcases hrest with ⟨-, -, rfl⟩ | ⟨hpending, -, hwatch⟩
    · exact ⟨hplain.lineOpen_eq, hplain.waits⟩
    · obtain ⟨state, kept, heq⟩ := v.watchLine_eq
      rw [hwatch] at heq
      have hu : u = { v with state, lineState := kept } := heq
      rw [hu]
      refine ⟨hplain.lineOpen_eq, fun _ hsome => ?_⟩
      have hsome : v.pending.isSome = true := hsome
      rw [hpending] at hsome
      cases hsome

end Flow

/-! ## What lines leave alone -/

namespace Flow

theorem attempt_ok {α : Type} {x : Flow α} {s u : Story} {a : α} (h : x s = .ok a u) :
    attempt x s = .ok (.ok a) u := by
  rw [attempt, h]

theorem attempt_error {α : Type} {x : Flow α} {s u : Story} {e : StoryError}
    (h : x s = .error e u) : attempt x s = .ok (.error e) u := by
  rw [attempt, h]

theorem after_attempt {α : Type} (x : Flow α) (s : Story) :
    (attempt x).after s = x.after s := by
  cases h : x s with
  | ok a u => rw [after_of_ok (attempt_ok h), after_of_ok h]
  | error e u => rw [after_of_ok (attempt_error h), after_of_error h]

variable {α : Type} {f : Story → α}

/-- What the changes of a step and the states have no part in is left alone by the step of a
line. -/
theorem lineStep_keeps (hplain : ∀ s, f (plainStep.after s) = f s)
    (hstates : ∀ (s : Story) (state : State) (lineState : Option State),
      f { s with state, lineState } = f s) (s : Story) : f (lineStep.after s) = f s := by
  have hfirst := hplain s
  cases h : lineStep s with
  | error e u =>
    rw [after_of_error (plainStep_of_lineStep_error h)] at hfirst
    rwa [after_of_error h]
  | ok ended u =>
    obtain ⟨v, hv, hrest⟩ := lineStep_cases h
    rw [after_of_ok hv] at hfirst
    rw [after_of_ok h, ← hfirst]
    rcases hrest with ⟨-, -, rfl⟩ | ⟨-, -, hwatch⟩
    · rfl
    · obtain ⟨state, kept, heq⟩ := v.watchLine_eq
      rw [hwatch] at heq
      rw [show u = { v with state, lineState := kept } from heq]
      exact hstates v state kept

/-- What the steps of a line leave true, and errors that are recorded, the whole run leaves true. -/
theorem runLine_invariant {I : Story → Prop}
    (hopen : ∀ {s : Story}, I s → I { s with lineOpen := true })
    (hfail : ∀ {s : Story} (e : StoryError), I s → I ((recordError e).after s))
    (hstep : ∀ {s : Story}, I s → I (lineStep.after s)) (nodes : Nat) {s : Story} (h : I s) :
    I ((runLine nodes).after s) := by
  induction nodes generalizing s with
  | zero => exact hopen h
  | succ nodes ih =>
    have hstepped := hstep h
    unfold runLine
    cases hrun : lineStep s with
    | error e u =>
      rw [after_of_error hrun] at hstepped
      rw [after_bind_ok (attempt_error hrun)]
      exact hfail e hstepped
    | ok ended u =>
      rw [after_of_ok hrun] at hstepped
      rw [after_bind_ok (attempt_ok hrun)]
      dsimp only
      rw [after_bind_ok (get_ok u)]
      split
      · exact hopen hstepped
      · split
        · exact hstepped
        · rw [after_bind_ok (state_ok u)]
          split
          · exact hstepped
          · exact ih hstepped

/-- What the steps of a line leave alone is left alone by the whole run. -/
theorem runLine_keeps (hstep : ∀ s, f (lineStep.after s) = f s)
    (hstates : ∀ (s : Story) (state : State) (lineState : Option State),
      f { s with state, lineState } = f s)
    (hopen : ∀ s : Story, f { s with lineOpen := true } = f s) (nodes : Nat) (s : Story) :
    f ((runLine nodes).after s) = f s :=
  runLine_invariant (I := fun u => f u = f s) (fun {u} h => (hopen u).trans h)
    (fun {u} _ h => (hstates u _ u.lineState).trans h) (fun {u} h => (hstep u).trans h) nodes rfl

end Flow

/-! ## Running a line -/

namespace Story

/-- The story is in a line, from a story that satisfies `P`, and about to make a step. -/
structure Steps (P L : Story → Prop) (s : Story) : Prop where
  line : L s
  source : P s
  pending : s.pending = none
  waits : s.Waits

/-- What the run of a line may come to. -/
inductive LineOutcome (P L : Story → Prop) : Bool → Story → Prop
  | outOfNodes {v : Story} (hline : L v) (hwaits : v.Waits) (hpending : v.pending = none)
      (hcontinue : v.state.canContinue = true) :
      LineOutcome P L false { v with lineOpen := true }
  | failed {v w : Story} {e : StoryError} (hv : v.Steps P L)
      (h : Flow.lineStep v = .error e w) :
      LineOutcome P L false { w with state := w.state.fail w.tree e }
  | waits {v w : Story} {ended : Bool} (hv : v.Steps P L) (h : Flow.lineStep v = .ok ended w)
      (hpending : w.pending.isSome = true) : LineOutcome P L false { w with lineOpen := true }
  | finished {v w : Story} {ended : Bool} (hv : v.Steps P L)
      (h : Flow.lineStep v = .ok ended w) (hpending : w.pending = none)
      (hend : ended = true ∨ w.state.canContinue = false) : LineOutcome P L ended w

end Story

namespace Flow

variable {P L : Story → Prop}

/-- The run of a line always comes to something. -/
theorem runLine_outcome (hL : Story.LineInvariant P L) {nodes : Nat} {s : Story} (hline : L s)
    (hwaits : s.Waits) (hpending : s.pending = none)
    (hgo : 0 < nodes ∨ s.state.canContinue = true) (hvisits : ∀ u, s.Passes nodes u → P u) :
    ∃ ended u, runLine nodes s = .ok ended u ∧ Story.LineOutcome P L ended u := by
  induction nodes generalizing s with
  | zero =>
    have hcontinue : s.state.canContinue = true := hgo.resolve_left (Nat.lt_irrefl 0)
    exact ⟨false, _, rfl, .outOfNodes hline hwaits hpending hcontinue⟩
  | succ nodes ih =>
    have hsource : P s := hvisits s (.here nodes s)
    have hsteps : s.Steps P L := ⟨hline, hsource, hpending, hwaits⟩
    unfold runLine
    cases hstep : lineStep s with
    | error e u =>
      rw [bind_ok (attempt_error hstep)]
      exact ⟨false, _, rfl, .failed hsteps hstep⟩
    | ok ended u =>
      rw [bind_ok (attempt_ok hstep)]
      dsimp only
      rw [bind_ok (get_ok u)]
      cases hcall : u.pending with
      | some call =>
        have hsome : u.pending.isSome = true := by rw [hcall]; rfl
        refine ⟨false, _, ?_, .waits hsteps hstep hsome⟩
        rw [Option.isSome_some, if_pos rfl]
        rfl
      | none =>
        rw [Option.isSome_none, if_neg Bool.false_ne_true]
        cases ended with
        | true => exact ⟨true, u, rfl, .finished hsteps hstep hcall (.inl rfl)⟩
        | false =>
          rw [if_neg Bool.false_ne_true, bind_ok (state_ok u)]
          cases hcontinue : u.state.canContinue with
          | false => exact ⟨false, u, rfl, .finished hsteps hstep hcall (.inr hcontinue)⟩
          | true =>
            have hafter : lineStep.after s = u := after_of_ok hstep
            have hu : L u := by
              have hopen := hL.step hline hsource hpending hwaits
              rw [hafter] at hopen
              exact hopen (.inr ⟨hstep, hcontinue⟩)
            have huwaits : u.Waits := hafter ▸ (lineStep_marks s).2 hwaits
            exact ih hu huwaits hcall (.inr hcontinue) fun v hv =>
              hvisits v (.step (Story.goesOn?_eq hstep hcall hcontinue) hv)

end Flow

/-! ## Beginning and ending a line -/

namespace State

theorem fail_frame (s : State) (t : ContentTree) (e : StoryError) :
    (s.fail t e).output = s.output ∧ (s.fail t e).hasError = true := by
  refine ⟨rfl, ?_⟩
  show (!(s.errors ++ [_]).isEmpty) = true
  simp

theorem checkEnd_frame (s : State) (t : ContentTree) :
    (s.checkEnd t).output = s.output ∧ (s.hasError = true → (s.checkEnd t).hasError = true) := by
  unfold State.checkEnd
  split
  · exact ⟨rfl, id⟩
  · dsimp only
    split
    · have hfail := s.fail_frame t (.flow .openThread)
      split
      · exact ⟨rfl, fun _ => (fail_frame _ t _).2⟩
      · exact ⟨rfl, fun _ => hfail.2⟩
    · split
      · exact ⟨rfl, fun _ => (fail_frame _ t _).2⟩
      · exact ⟨rfl, id⟩

/-- Nothing is wrong with the end of the content unless an error is recorded. -/
theorem checkEnd_of_clean {s : State} {t : ContentTree} (h : (s.checkEnd t).hasError = false) :
    s.checkEnd t = s := by
  have hfail (s : State) (e : StoryError) : (s.fail t e).hasError ≠ false := by
    rw [(s.fail_frame t e).2]
    nofun
  unfold State.checkEnd at h ⊢
  split at h
  · next hcontinue => rw [if_pos hcontinue]
  · next hcontinue =>
    rw [if_neg hcontinue]
    dsimp only at h ⊢
    split at h
    · split at h
      · exact absurd h (hfail _ _)
      · exact absurd h (hfail _ _)
    · next hpop =>
      rw [if_neg hpop]
      split at h
      · exact absurd h (hfail _ _)
      · next hsafe => rw [if_neg hsafe]

end State

namespace Story

theorem logAll_eq (s : Story) (es : List Event) :
    ∃ events, s.logAll es = { s with events } := by
  induction es generalizing s with
  | nil => exact ⟨s.events, rfl⟩
  | cons event rest ih =>
    obtain ⟨events, h⟩ := ih (s.log event)
    exact ⟨events, h⟩

/-- At the start of a line only warnings, the output and the marks of the line are new. -/
theorem freshLine_eq (s : Story) : ∃ warnings, s.freshLine =
    { s with
      state := { s.state with
        warnings, safeExit := false, output := .empty, vars := s.state.vars.watch }
      warningsShown := false } := by
  unfold freshLine
  dsimp only
  split
  · exact ⟨[], rfl⟩
  · exact ⟨s.state.warnings, rfl⟩

theorem hasError_restoreLineState (s : Story) :
    s.restoreLineState.state.hasError = s.state.hasError := by
  unfold restoreLineState
  split
  · rfl
  · rfl

/-- A line is ended at the state kept, where what is wrong with the end of the content is
recorded. -/
theorem closeLine_eq_checkEnd (s : Story) :
    ∃ vars events, s.closeLine = { s with
      state := { s.restoreLineState.state.checkEnd s.tree with safeExit := false, vars }
      events, lineState := none, metUnsafeCall := false, lineOpen := false } := by
  obtain ⟨kept, hrestore⟩ := s.restoreLineState_eq
  unfold closeLine tellObservers
  rw [hrestore]
  dsimp only
  obtain ⟨events, hlog⟩ := logAll_eq _ _
  rw [hlog]
  exact ⟨_, events, rfl⟩

/-- Where a line ends without an error, it ends at the state kept. -/
theorem closeLine_of_clean {s : Story} (h : s.closeLine.state.hasError = false) :
    ∃ vars events, vars = s.restoreLineState.state.vars.unwatch ∧ s.closeLine = { s with
      state := { s.restoreLineState.state with safeExit := false, vars }
      events, lineState := none, metUnsafeCall := false, lineOpen := false } := by
  obtain ⟨kept, hrestore⟩ := s.restoreLineState_eq
  have hclean : (s.restoreLineState.state.checkEnd s.restoreLineState.tree).hasError = false := h
  have hsame := State.checkEnd_of_clean hclean
  unfold closeLine tellObservers
  rw [hrestore] at hsame ⊢
  dsimp only at hsame ⊢
  rw [hsame]
  obtain ⟨events, hlog⟩ := logAll_eq _ _
  rw [hlog]
  exact ⟨_, events, rfl, rfl⟩

/-- A line that is ended keeps no state. Its output is that at the line end. -/
theorem closeLine_eq (s : Story) :
    ∃ state events, s.closeLine = { s with
        state, events, lineState := none, metUnsafeCall := false, lineOpen := false } ∧
      state.output = s.restoreLineState.state.output ∧
      (s.state.hasError = true → state.hasError = true) := by
  obtain ⟨vars, events, h⟩ := s.closeLine_eq_checkEnd
  have hcheck := s.restoreLineState.state.checkEnd_frame s.tree
  exact ⟨_, events, h, hcheck.1, fun herror => hcheck.2 (s.hasError_restoreLineState.trans herror)⟩

end Story

namespace Flow

variable {P L : Story → Prop}

theorem after_reportIssues (s : Story) :
    ∃ warnings events shown, reportIssues.after s =
      { s with state := { s.state with warnings }, events, warningsShown := shown } := by
  unfold reportIssues
  rw [after_bind_ok (get_ok s)]
  split
  · split
    · obtain ⟨events, hlog⟩ :=
        s.logAll_eq (s.state.errors.map .error ++ s.state.warnings.map .warning)
      refine ⟨[], events, s.warningsShown, ?_⟩
      rw [after_bind_ok (modify_ok _ s), hlog]
      rfl
    · split
      · exact ⟨s.state.warnings, s.events, s.warningsShown, rfl⟩
      · exact ⟨s.state.warnings, s.events, true, rfl⟩
  · exact ⟨s.state.warnings, s.events, s.warningsShown, rfl⟩

theorem openLine_of_open {s : Story} (limited : Bool) (h : s.lineOpen = true) :
    openLine limited s = .ok () { s with metUnsafeCall := false } := by
  unfold openLine
  rw [bind_ok (get_ok s), if_neg (by simp [h])]
  rfl

theorem openLine_of_canContinue {s : Story} (limited : Bool) (h : s.lineOpen = false)
    (hcontinue : s.state.canContinue = true) : openLine limited s = .ok ()
      { ({ s with lineOpen := limited } : Story).freshLine with metUnsafeCall := false } := by
  unfold openLine beginLine
  rw [bind_ok (get_ok s), h]
  simp only [Bool.not_false, if_true, bind_assoc]
  rw [bind_ok (modify_ok _ s), bind_ok (get_ok _)]
  rw [hcontinue]
  rfl

theorem openLine_cannotContinue {s : Story} (limited : Bool) (h : s.lineOpen = false)
    (hcontinue : s.state.canContinue = false) :
    openLine limited s = .error (.flow .cannotContinue) { s with lineOpen := limited } := by
  unfold openLine beginLine
  rw [bind_ok (get_ok s), h]
  simp only [Bool.not_false, if_true, bind_assoc]
  rw [bind_ok (modify_ok _ s), bind_ok (get_ok _)]
  rw [hcontinue]
  rfl

theorem openLine_refused {s : Story} (limited : Bool) (h : s.lineOpen = false)
    (hcontinue : s.state.canContinue = false) :
    ∃ e, openLine limited s = .error e { s with lineOpen := limited } :=
  ⟨_, openLine_cannotContinue limited h hcontinue⟩

/-- What a line is continued from: the line in progress, or a line that begins. -/
theorem openLine_cases {s u : Story} {limited : Bool} (h : openLine limited s = .ok () u) :
    s.lineOpen = true ∧ u = { s with metUnsafeCall := false } ∨
      s.lineOpen = false ∧ s.state.canContinue = true ∧
        u = { ({ s with lineOpen := limited } : Story).freshLine with metUnsafeCall := false } := by
  cases hopen : s.lineOpen with
  | true =>
    rw [openLine_of_open limited hopen] at h
    cases h
    exact .inl ⟨rfl, by rw [← hopen]⟩
  | false =>
    cases hcontinue : s.state.canContinue with
    | true =>
      rw [openLine_of_canContinue limited hopen hcontinue] at h
      cases h
      exact .inr ⟨rfl, rfl, rfl⟩
    | false =>
      rw [openLine_cannotContinue limited hopen hcontinue] at h
      cases h

/-- A line that is begun has an empty output. -/
theorem exists_of_openLine {s u : Story} {limited : Bool} (h : openLine limited s = .ok () u)
    (hclosed : s.lineOpen = false) : s.state.canContinue = true ∧ ∃ warnings, u = { s with
      state := { s.state with
        warnings, safeExit := false, output := .empty, vars := s.state.vars.watch }
      warningsShown := false, lineOpen := limited, metUnsafeCall := false } := by
  rcases openLine_cases h with ⟨hopen, -⟩ | ⟨-, hcontinue, rfl⟩
  · rw [hclosed] at hopen
    cases hopen
  · obtain ⟨warnings, hfresh⟩ := ({ s with lineOpen := limited } : Story).freshLine_eq
    exact ⟨hcontinue, warnings, by rw [hfresh]⟩

/-- A line that cannot be begun. -/
theorem openLine_error {s u : Story} {limited : Bool} {e : StoryError}
    (h : openLine limited s = .error e u) : s.lineOpen = false ∧ s.state.canContinue = false ∧
      e = .flow .cannotContinue ∧ u = { s with lineOpen := limited } := by
  cases hopen : s.lineOpen with
  | true =>
    rw [openLine_of_open limited hopen] at h
    cases h
  | false =>
    cases hcontinue : s.state.canContinue with
    | true =>
      rw [openLine_of_canContinue limited hopen hcontinue] at h
      cases h
    | false =>
      rw [openLine_cannotContinue limited hopen hcontinue] at h
      cases h
      exact ⟨rfl, rfl, rfl, rfl⟩

theorem openLine_ok (hL : Story.LineInvariant P L) {s u : Story} {limited : Bool}
    (hs : s.Orderly L) (h : openLine limited s = .ok () u) :
    L u ∧ u.lineState = s.lineState ∧ u.pending = s.pending := by
  rcases openLine_cases h with ⟨hopen, rfl⟩ | ⟨hopen, -, rfl⟩
  · exact ⟨hL.same (hs.line hopen) rfl rfl, rfl, rfl⟩
  · exact ⟨hL.fresh (hs.idle hopen) rfl, rfl, rfl⟩

/-- What a line comes to when it is continued. -/
theorem continueLine_outcome (hL : Story.LineInvariant P L) {s u : Story} {limited : Bool}
    {nodes : Nat} (hnodes : 0 < nodes) (hs : s.Orderly L) (hpending : s.pending = none)
    (hopen : openLine limited s = .ok () u) (hvisits : ∀ v, s.Visits limited nodes v → P v) :
    ∃ ended v, Story.LineOutcome P L ended v ∧
      continueLine limited nodes s = reportIssues (v.endLine ended) := by
  obtain ⟨hline, hstate, hwaiting⟩ := openLine_ok hL hs hopen
  have hwaits : u.Waits := fun hsome => by
    rw [hwaiting, hpending] at hsome
    cases hsome
  obtain ⟨ended, v, hrun, houtcome⟩ := runLine_outcome hL hline hwaits
    (hwaiting.trans hpending) (.inl hnodes) fun w hw => hvisits w ⟨u, hopen, hw⟩
  refine ⟨ended, v, houtcome, ?_⟩
  unfold continueLine
  rw [bind_ok hopen, bind_ok hrun, bind_ok (modify_ok _ v)]

end Flow

namespace Story

variable {P L : Story → Prop}

theorem orderly_closeLine (s : Story) : s.closeLine.Orderly L := by
  obtain ⟨state, events, heq, -⟩ := s.closeLine_eq
  rw [heq]
  refine ⟨fun _ => rfl, fun _ => rfl, fun hopen => ?_⟩
  cases hopen

theorem canContinue_fail (s : State) (t : ContentTree) (e : StoryError) :
    (s.fail t e).canContinue = false := by
  rw [State.canContinue, (s.fail_frame t e).2, Bool.not_true, Bool.and_false]

/-- Behind the run of a line the story is orderly again. -/
theorem LineOutcome.orderly (hL : LineInvariant P L) {ended : Bool} {s : Story}
    (h : LineOutcome P L ended s) : (s.endLine ended).Orderly L := by
  unfold endLine
  cases h with
  | @outOfNodes v hline hwaits hpending hcontinue =>
    have hstay : ¬ (v.pending.isNone && (false || !v.state.canContinue)) = true := by
      rw [hcontinue]
      simp
    rw [if_neg hstay]
    refine ⟨fun hopen => ?_, hwaits, fun _ => hL.same hline rfl rfl⟩
    cases hopen
  | @failed v w e hv hstep =>
    have hafter : Flow.lineStep.after v = w := Flow.after_of_error hstep
    have hwaits : w.Waits := hafter ▸ (Flow.lineStep_marks v).2 hv.waits
    cases hpending : w.pending with
    | none =>
      rw [if_pos (by simp [canContinue_fail])]
      exact orderly_closeLine _
    | some call =>
      have hsome : w.pending.isSome = true := by rw [hpending]; rfl
      have hw : L w := by
        have hopen := hL.step hv.line hv.source hv.pending hv.waits
        rw [hafter] at hopen
        exact hopen (.inl hsome)
      rw [if_neg (by simp)]
      exact ⟨fun _ => hwaits hsome, fun _ => hwaits hsome, fun _ => hL.same hw rfl rfl⟩
  | @waits v w ended hv hstep hpending =>
    have hafter : Flow.lineStep.after v = w := Flow.after_of_ok hstep
    have hwaits : w.Waits := hafter ▸ (Flow.lineStep_marks v).2 hv.waits
    have hw : L w := by
      have hopen := hL.step hv.line hv.source hv.pending hv.waits
      rw [hafter] at hopen
      exact hopen (.inl hpending)
    have hstay : ¬ (w.pending.isNone && (false || !w.state.canContinue)) = true := by
      rw [← Option.not_isSome, hpending]
      simp
    rw [if_neg hstay]
    refine ⟨fun hopen => ?_, hwaits, fun _ => hL.same hw rfl rfl⟩
    cases hopen
  | finished hv hstep hpending hend =>
    have hclose : (s.pending.isNone && (ended || !s.state.canContinue)) = true := by
      rw [hpending]
      rcases hend with hend | hend
      · simp [hend]
      · simp [hend]
    rw [if_pos hclose]
    exact orderly_closeLine _

/-- A line that has been closed has failed in a step, or has come to its end by one. -/
theorem LineOutcome.closed {ended : Bool} {s : Story} (h : LineOutcome P L ended s)
    (hopen : (s.endLine ended).lineOpen = false) (hdone : (s.endLine ended).pending = none) :
    s.endLine ended = s.closeLine ∧ ∃ v, v.Steps P L ∧
      ((∃ w e, Flow.lineStep v = .error e w ∧ s = { w with state := w.state.fail w.tree e }) ∨
        Flow.lineStep v = .ok ended s ∧ (ended = true ∨ s.state.canContinue = false)) := by
  unfold endLine at hopen hdone ⊢
  cases h with
  | outOfNodes _ _ _ hcontinue =>
    rw [if_neg (by simp [hcontinue])] at hopen
    cases hopen
  | @failed v w e hv hstep =>
    have hpending : w.pending = none := Classical.byContradiction fun hcall => by
      rw [if_neg (by simp [hcall])] at hdone
      exact hcall hdone
    exact ⟨if_pos (by simp [hpending, canContinue_fail]), v, hv, .inl ⟨w, e, hstep, rfl⟩⟩
  | waits _ _ hpending =>
    rw [if_neg (by simp [← Option.not_isSome, hpending])] at hopen
    cases hopen
  | @finished v w ended hv hstep hpending hend =>
    exact ⟨if_pos (by rcases hend with hend | hend <;> simp [hpending, hend]), v, hv,
      .inr ⟨hstep, hend⟩⟩

/-- Nothing that the lines are about has changed. -/
theorem Orderly.same (hL : LineInvariant P L) {s u : Story} (h : s.Orderly L)
    (hopen : u.lineOpen = s.lineOpen) (hstate : u.lineState = s.lineState)
    (hpending : u.pending.isSome = true → s.pending.isSome = true)
    (houtput : u.state.output = s.state.output) : u.Orderly L where
  idle h' := hstate.trans (h.idle (hopen.symm.trans h'))
  waits h' := hstate.trans (h.waits (hpending h'))
  line h' := hL.same (h.line (hopen.symm.trans h')) hstate houtput

end Story

namespace Flow

variable {P L : Story → Prop}

/-- Where a continue closes its line, the last step has failed, or has come to the end of the line.
The output is that at the line end. -/
theorem closed_of_continueLine (hL : Story.LineInvariant P L) {s u : Story} {limited : Bool}
    {nodes : Nat} (hnodes : 0 < nodes) (hs : s.Orderly L) (hpending : s.pending = none)
    (hvisits : ∀ v, s.Visits limited nodes v → P v) (h : continueLine limited nodes s = .ok () u)
    (hclosed : u.lineOpen = false) (hdone : u.pending = none) :
    ∃ v w ended, v.Steps P L ∧
      ((∃ x e, lineStep v = .error e x ∧ w = { x with state := x.state.fail x.tree e }) ∨
        lineStep v = .ok ended w ∧ (ended = true ∨ w.state.canContinue = false)) ∧
      u.state.output = w.restoreLineState.state.output ∧
      (w.state.hasError = true → u.state.hasError = true) := by
  obtain ⟨_, t, hopen, -⟩ := exists_of_bind_eq_ok h
  obtain ⟨ended, w, houtcome, hrun⟩ :=
    continueLine_outcome hL hnodes hs hpending hopen hvisits
  obtain ⟨warnings, events, shown, hreport⟩ := after_reportIssues (w.endLine ended)
  obtain rfl := (after_of_ok (hrun.symm.trans h)).symm.trans hreport
  obtain ⟨hclose, v, hv, hstep⟩ := houtcome.closed hclosed hdone
  obtain ⟨state, events', hclosing, houtput, herror⟩ := w.closeLine_eq
  rw [hclose, hclosing]
  exact ⟨v, w, ended, hv, hstep, houtput, herror⟩

end Flow

end StoryMachine
