import StoryMachine.Proofs.Maps
import StoryMachine.Proofs.Story.Emission
import StoryMachine.Proofs.Story.Orderly

/-!
# Calls that must not be taken back

While the machine looks ahead, what it does may be taken back. A function of the host that does
not allow this is then not called, and no call begins to wait: where such a call comes next, the
line ends in front of it, at the state kept. A state is kept behind a step only, so what a step
does while no state is kept is never taken back.

* `Story.IsUnsafe` : the functions that must not be called ahead;
* `Story.nextCall?` : the function that the next step comes to call;
* `Story.CallsUnsafe` : the next step calls such a function, or begins to wait for one;
* `Flow.lineStep_ahead`, `Flow.lineStep_unsafeCall` : steps that look ahead;
* `Story.Brings`, `Story.Passes.kept` : when a state was kept;
* `Flow.unsafe_calls_stay` : a whole continue.
-/

namespace StoryMachine

namespace Story

/-- A function that must not be called ahead: it is bound so, or its call waits for the
host. -/
def IsUnsafe (s : Story) (name : String) : Prop :=
  s.isMissing name = true ∨ ∃ b, s.bindings.get? name = some b ∧ b.lookaheadSafe = false

/-- The function of the host that a divert calls in a state, unless its condition fails. -/
def callOf? (s : State) (d : Divert) : Option String :=
  match d.destination, d.kind with
  | .path p, .external _ =>
    if d.conditional then
      match s.evaluation with
      | [] => none
      | t :: _ =>
        match t.truth with
        | .ok true => some p.render
        | _ => none
    else some p.render
  | _, _ => none

/-- The function of the host that the next step comes to call. -/
def nextCall? (s : Story) : Option String :=
  match s.nextLeaf? with
  | some (_, .divert d) => callOf? s.state d
  | _ => none

theorem nextLeaf?_of_nextCall? {s : Story} {name : String} (h : s.nextCall? = some name) :
    ∃ id d, s.nextLeaf? = some (id, .divert d) ∧ callOf? s.state d = some name := by
  unfold nextCall? at h
  split at h
  · next id d hleaf => exact ⟨id, d, hleaf, h⟩
  · cases h

/-- The next step calls a function that must not be called ahead, or begins to wait for
one. -/
def CallsUnsafe (s : Story) : Prop :=
  (Flow.lineStep.after s).pending.isSome = true ∨
    ∃ name, s.IsUnsafe name ∧ (Flow.lineStep.after s).bindings.get? name ≠ s.bindings.get? name

/-- Nothing that must not be called ahead has been called, or waits for the host. -/
def CallsNothing (s u : Story) : Prop :=
  u.pending = s.pending ∧ ∀ name, s.IsUnsafe name → u.bindings.get? name = s.bindings.get? name

theorem not_safe_of_isUnsafe {s : Story} {name : String} (h : s.IsUnsafe name) :
    (s.bindings.get? name).map Binding.lookaheadSafe ≠ some true := by
  rcases h with h | ⟨b, hb, hsafe⟩
  · rw [isMissing, Bool.and_eq_true, Bool.not_eq_true', SortedMap.contains,
      Option.isSome_eq_false_iff, Option.isNone_iff_eq_none] at h
    simp [h.1]
  · simp [hb, hsafe]

end Story

/-! ## Looking ahead -/

/-- While a state is kept nothing is called that must not be called ahead. -/
theorem Changes.callsNothing {c : Content} {fx : Effects} {s u : Story} (h : Changes c fx s u)
    (hkept : s.lineState.isSome = true) : s.CallsNothing u := by
  induction h with
  | refl => exact ⟨rfl, fun _ _ => rfl⟩
  | @tail v w hv hw ih =>
    have hline : v.lineState.isSome = true := by rwa [Changes.lineState_eq hv]
    cases hw with
    | state | unsafeCall => exact ih
    | @called name b arguments _ hb hsafe =>
      refine ⟨ih.1, fun other hforbidden => ?_⟩
      have hne : other ≠ name := by
        rintro rfl
        have hnot := Story.not_safe_of_isUnsafe hforbidden
        rw [← ih.2 other hforbidden, hb] at hnot
        rcases hsafe with hsafe | hnone
        · exact hnot (congrArg some hsafe)
        · rw [hnone] at hline
          cases hline
      exact (SortedMap.get?_insert_of_ne v.bindings _ hne).trans (ih.2 other hforbidden)
    | wait _ _ hnone =>
      rw [hnone] at hline
      cases hline

namespace Flow

theorem lineStep_bindings (s : Story) :
    (lineStep.after s).bindings = (plainStep.after s).bindings ∧
      (lineStep.after s).pending = (plainStep.after s).pending := by
  cases h : lineStep s with
  | error e u =>
    rw [after_of_error h, after_of_error (plainStep_of_lineStep_error h)]
    exact ⟨rfl, rfl⟩
  | ok ended u =>
    obtain ⟨v, hv, ⟨-, -, rfl⟩ | ⟨-, -, hwatch⟩⟩ := lineStep_cases h
    · rw [after_of_ok h, after_of_ok hv]
      exact ⟨rfl, rfl⟩
    · obtain ⟨state, kept, heq⟩ := v.watchLine_eq
      rw [hwatch] at heq
      have hu : u = { v with state, lineState := kept } := heq
      rw [after_of_ok h, after_of_ok hv, hu]
      exact ⟨rfl, rfl⟩

/-- A step that looks ahead calls nothing that must not be called ahead. -/
theorem lineStep_ahead {s : Story} (hkept : s.lineState.isSome = true) :
    s.CallsNothing (lineStep.after s) := by
  have hplain := (changes_plainStep s).callsNothing hkept
  unfold Story.CallsNothing
  rw [(lineStep_bindings s).1, (lineStep_bindings s).2]
  exact hplain

/-! ## Coming to a call -/

/-- Looking ahead, the machine only notes that it has come to the call; in a string the call
is an error. -/
theorem callExternal_ahead {s : Story} {name : String} (hforbidden : s.IsUnsafe name)
    (hkept : s.lineState.isSome = true) (count : Nat) :
    (s.state.output.inString = true →
      callExternal name count s = .error (.flow (.unsafeInString name)) s) ∧
    (s.state.output.inString = false →
      callExternal name count s = .ok () { s with metUnsafeCall := true }) := by
  have hnone : (if (s.bindings.get? name).isNone && s.fallbacks then s.tree.knot? name
      else none) = none := by
    rcases hforbidden with h | ⟨b, hb, -⟩
    · rw [Story.isMissing, Bool.and_eq_true, Bool.not_eq_true', Bool.not_eq_true',
        Bool.and_eq_false_iff, Option.isSome_eq_false_iff, Option.isNone_iff_eq_none] at h
      rcases h.2 with h | h
      · simp [h]
      · simp [h]
    · simp [hb]
  have hsafe := Story.not_safe_of_isUnsafe hforbidden
  unfold callExternal
  rw [bind_ok (get_ok s)]
  dsimp only
  rw [hnone]
  dsimp only
  rw [if_pos (by simp [hsafe, hkept])]
  refine ⟨fun hin => ?_, fun hin => ?_⟩
  · rw [hin]
    rfl
  · rw [hin]
    rfl

/-- A divert that comes to a call has taken nothing but its condition from the evaluation
stack. -/
theorem performDivert_of_callOf? {s : State} {d : Divert} {name : String}
    (h : Story.callOf? s d = some name) (id : NodeId) :
    ∃ es count, ∀ t : Story, t.state.evaluation = s.evaluation → performDivert id d t =
      callExternal name count { t with state := { t.state with evaluation := es } } := by
  unfold Story.callOf? at h
  split at h
  · next p count hpath hkind =>
    have htake : takeDivert id d = callExternal p.render count := by
      unfold takeDivert
      rw [hpath, hkind]
    split at h
    · next hconditional =>
      split at h
      · cases h
      · next top rest heval =>
        split at h
        · next htrue =>
          cases h
          refine ⟨rest, count, fun t ht => ?_⟩
          have hpop : pop t = .ok top { t with state := { t.state with evaluation := rest } } :=
            pop_run_cons (ht.trans heval)
          unfold performDivert
          rw [if_pos hconditional, bind_ok hpop, htrue, htake]
          rfl
        · cases h
    · next hconditional =>
      cases h
      refine ⟨s.evaluation, count, fun t ht => ?_⟩
      unfold performDivert
      rw [if_neg hconditional, htake, ← ht]
  · cases h

/-- Carrying out a divert that comes to a call. -/
theorem executeLeaf_of_callOf? {s : Story} {d : Divert} {name : String}
    (hcall : Story.callOf? s.state d = some name) (hcursor : s.state.cursor.isSome = true)
    (hforbidden : s.IsUnsafe name) (hkept : s.lineState.isSome = true) (id : NodeId) :
    ∃ es, (s.state.output.inString = true → executeLeaf (some (id, .divert d)) s =
        .error (.flow (.unsafeInString name)) { s with state := { s.state with evaluation := es } }) ∧
      (s.state.output.inString = false → executeLeaf (some (id, .divert d)) s = .ok ()
        { s with state := { s.state with evaluation := es }, metUnsafeCall := true }) := by
  obtain ⟨es, count, hdivert⟩ := performDivert_of_callOf? hcall id
  replace hdivert := hdivert s rfl
  have hahead := callExternal_ahead (s := { s with state := { s.state with evaluation := es } })
    hforbidden hkept count
  rw [← hdivert] at hahead
  refine ⟨es, fun hin => bind_error (bind_error (hahead.1 hin)), fun hin => ?_⟩
  have hrun : execute id (.divert d) s = .ok true
      { s with state := { s.state with evaluation := es }, metUnsafeCall := true } :=
    bind_ok (hahead.2 hin)
  show executeAt id (.divert d) s = _
  unfold executeAt
  rw [bind_ok hrun, bind_ok (state_ok _), if_neg]
  · rfl
  · show ¬ s.state.cursor.isNone = true
    rw [← Option.not_isSome, hcursor]
    exact Bool.false_ne_true

/-- What puts nothing out begins and ends no string. -/
theorem inString_of_silent {c : Content} {s u : Story} (h : Changes c .silent s u) :
    u.state.output.inString = s.state.output.inString :=
  (h.trimmed rfl).hasBegun_eq

/-- A step that looks ahead and comes to a call that must not be made. -/
theorem step_unsafeCall {s : Story} {name : String} (hcall : s.nextCall? = some name)
    (hforbidden : s.IsUnsafe name) (hkept : s.lineState.isSome = true) :
    (s.state.output.inString = true →
      ∃ u, step s = .error (.flow (.unsafeInString name)) u) ∧
    (s.state.output.inString = false →
      (step.after s).metUnsafeCall = true ∧ (step.after s).state.output.inString = false) := by
  unfold Story.nextCall? at hcall
  split at hcall
  · next id d hleaf =>
    obtain ⟨w, hstep, visits, turns, place, hw⟩ := exists_step_eq (s := s) (by
      cases hcursor : s.state.cursor with
      | none =>
        rw [Story.nextLeaf?, Story.nextPlace?, hcursor] at hleaf
        cases hleaf
      | some place => rfl)
    rw [hleaf] at hstep
    have houtput : w.state.output = s.state.output := by rw [hw]; rfl
    have hleafcall : Story.callOf? w.state d = some name := by rw [hw]; exact hcall
    have hcursor : w.state.cursor.isSome = true := by rw [hw]; rfl
    have hname : w.IsUnsafe name := by rw [hw]; exact hforbidden
    have hstate : w.lineState.isSome = true := by rw [hw]; exact hkept
    obtain ⟨es, hstring, hout⟩ := executeLeaf_of_callOf? hleafcall hcursor hname hstate id
    rw [houtput] at hstring hout
    refine ⟨fun hin => ⟨_, hstep.trans (bind_error (hstring hin))⟩, fun hin => ?_⟩
    have hafter : (leaveLeaf (some (id, .divert d))).after
        { w with state := { w.state with evaluation := es }, metUnsafeCall := true } =
          step.after s := by
      rw [after.eq_def step, hstep, bind_ok (hout hin)]
      rfl
    have hleave : Changes w.content .silent
        { w with state := { w.state with evaluation := es }, metUnsafeCall := true }
        ((leaveLeaf (some (id, .divert d))).after
          { w with state := { w.state with evaluation := es }, metUnsafeCall := true }) :=
      within_leaveLeaf _ _ rfl
    rw [hafter] at hleave
    refine ⟨?_, ?_⟩
    · rw [(hleave.state_only rfl).2]
    · rw [inString_of_silent hleave]
      show w.state.output.inString = false
      rw [houtput, hin]
  · cases hcall

/-- Unless it fails, such a step goes back to the state kept, and the line has ended. -/
theorem lineStep_unsafeCall {s : Story} {name : String} {kept : State}
    (hcall : s.nextCall? = some name) (hforbidden : s.IsUnsafe name)
    (hkept : s.lineState = some kept) (hpending : s.pending = none) :
    (s.state.output.inString = true →
      ∃ u, lineStep s = .error (.flow (.unsafeInString name)) u) ∧
    (s.state.output.inString = false → ∀ ended u, lineStep s = .ok ended u →
      ended = true ∧ u.pending = none ∧ ∃ messages,
        u.state = kept.carryMessages messages ∧ u.lineState = none) := by
  have hsome : s.lineState.isSome = true := by rw [hkept]; rfl
  obtain ⟨hstring, hout⟩ := step_unsafeCall hcall hforbidden hsome
  refine ⟨fun hin => ?_, fun hin ended u hu => ?_⟩
  · obtain ⟨u, hu⟩ := hstring hin
    exact ⟨u, bind_error (bind_error hu)⟩
  · obtain ⟨v, hv, hrest⟩ := lineStep_cases hu
    have hplain := changes_plainStep s
    rw [after_of_ok hv] at hplain
    have hvpending : v.pending = none := (hplain.callsNothing hsome).1.trans hpending
    have hvkept : v.lineState = some kept := hplain.lineState_eq.trans hkept
    -- What follows the step does not put out anything, nor forget the call.
    have hbehind : v.metUnsafeCall = true ∧ v.state.output.inString = false := by
      obtain ⟨hmet, hvstring⟩ := hout hin
      unfold plainStep at hv
      obtain ⟨_, w, hw, hwv⟩ := exists_of_bind_eq_ok hv
      rw [after_of_ok hw] at hmet hvstring
      have hfollow : Changes w.content .silent w v := by
        rw [← after_of_ok hwv]
        refine within_get_any (fun w => within_ite ?_ (within_pure ())) w rfl
        exact within_followInvisibleChoice
      refine ⟨?_, (inString_of_silent hfollow).trans hvstring⟩
      rw [(hfollow.state_only rfl).2]
      exact hmet
    rcases hrest with ⟨hleft, -, -⟩ | ⟨-, -, hwatch⟩
    · rw [hvpending, hbehind.2] at hleft
      rcases hleft with hleft | hleft <;> cases hleft
    · unfold Story.watchLine at hwatch
      rw [hvkept] at hwatch
      dsimp only at hwatch
      rw [if_pos (.inr hbehind.1)] at hwatch
      cases hwatch
      unfold Story.restoreLineState
      rw [hvkept]
      exact ⟨rfl, hvpending, v.state, rfl, rfl⟩

/-! ## Steps of a continue -/

theorem lineStep_of_goesOn? {s t : Story} (h : s.goesOn? = some t) :
    lineStep s = .ok false t ∧ t.pending = none ∧ t.state.canContinue = true := by
  unfold Story.goesOn? at h
  split at h
  · next u hu =>
    split at h
    · next hgo =>
      cases h
      rw [Bool.and_eq_true, Option.isNone_iff_eq_none] at hgo
      exact ⟨hu, hgo⟩
    · cases h
  · cases h

/-- A line goes on in the same way from every story that it passes. -/
theorem runLine_of_passes {s v : Story} {nodes : Nat} (h : s.Passes nodes v) :
    ∃ more, runLine nodes s = runLine (more + 1) v := by
  induction h with
  | here nodes s => exact ⟨nodes, rfl⟩
  | @step nodes s t u hgo _ ih =>
    obtain ⟨more, hrun⟩ := ih
    obtain ⟨hstep, hpending, hcontinue⟩ := lineStep_of_goesOn? hgo
    refine ⟨more, ?_⟩
    rw [← hrun, runLine, bind_ok (attempt_ok hstep)]
    dsimp only
    rw [bind_ok (get_ok t), hpending]
    rw [if_neg (by simp), if_neg (by simp), bind_ok (state_ok t), hcontinue]
    rfl

theorem pending_of_passes {s v : Story} {nodes : Nat} (h : s.Passes nodes v)
    (hpending : s.pending = none) : v.pending = none := by
  induction h with
  | here => exact hpending
  | step hgo _ ih => exact ih (lineStep_of_goesOn? hgo).2.1

theorem pending_of_openLine {s t : Story} {limited : Bool} (h : openLine limited s = .ok () t) :
    t.pending = s.pending := by
  rcases openLine_cases h with ⟨-, rfl⟩ | ⟨-, -, rfl⟩
  · rfl
  · rfl

theorem continueLine_eq {s t u : Story} {limited ended : Bool} {nodes : Nat}
    (hopen : openLine limited s = .ok () t) (hrun : runLine nodes t = .ok ended u) :
    continueLine limited nodes s = reportIssues (u.endLine ended) := by
  unfold continueLine
  rw [bind_ok hopen, bind_ok hrun]
  rfl

/-- A step that fails without waiting ends the line. -/
theorem runLine_error {v u : Story} {e : StoryError} (h : lineStep v = .error e u)
    (hpending : u.pending = none) (more : Nat) :
    ∃ ended w, runLine (more + 1) v = .ok ended w ∧
      w.endLine ended = { u with state := u.state.fail u.tree e }.closeLine := by
  refine ⟨false, { u with state := u.state.fail u.tree e }, ?_, ?_⟩
  · rw [runLine, bind_ok (attempt_error h)]
    rfl
  · unfold Story.endLine
    rw [if_pos (by simp [hpending, Story.canContinue_fail])]

/-- A step that ends the line without waiting. -/
theorem runLine_ended {v u : Story} (h : lineStep v = .ok true u) (hpending : u.pending = none)
    (more : Nat) :
    ∃ ended w, runLine (more + 1) v = .ok ended w ∧ w.endLine ended = u.closeLine := by
  refine ⟨true, u, ?_, ?_⟩
  · rw [runLine, bind_ok (attempt_ok h)]
    dsimp only
    rw [bind_ok (get_ok u), hpending]
    rfl
  · unfold Story.endLine
    rw [if_pos (by simp [hpending])]

end Flow

namespace Story

theorem keepLineState_lineState (s : Story) :
    s.keepLineState.lineState = s.lineState ∨ s.keepLineState.lineState = none ∨
      s.keepLineState.lineState = some s.keepLineState.state := by
  unfold keepLineState
  split
  · split
    · exact .inr (.inl rfl)
    · split
      · exact .inr (.inr rfl)
      · exact .inl rfl
  · exact .inl rfl

/-- Behind a step the state kept is the one that was kept in front of it, or the state behind
the step. -/
theorem lineState_after (s : Story) :
    (Flow.lineStep.after s).lineState = s.lineState ∨ (Flow.lineStep.after s).lineState = none ∨
      (Flow.lineStep.after s).lineState = some (Flow.lineStep.after s).state := by
  have hplain := Flow.changes_plainStep s
  cases h : Flow.lineStep s with
  | error e u =>
    rw [Flow.after_of_error h]
    rw [Flow.after_of_error (Flow.plainStep_of_lineStep_error h)] at hplain
    exact .inl hplain.lineState_eq
  | ok ended u =>
    obtain ⟨v, hv, hrest⟩ := Flow.lineStep_cases h
    rw [Flow.after_of_ok hv] at hplain
    rw [Flow.after_of_ok h, ← hplain.lineState_eq]
    rcases hrest with ⟨-, -, rfl⟩ | ⟨-, -, hwatch⟩
    · exact .inl rfl
    · unfold watchLine at hwatch
      split at hwatch
      · cases hwatch
        exact v.keepLineState_lineState
      · next kept hkept =>
        dsimp only at hwatch
        split at hwatch
        · cases hwatch
          obtain ⟨state, hrestore⟩ := v.restoreLineState_eq
          rw [hrestore]
          exact .inr (.inl rfl)
        · split at hwatch
          · cases hwatch
            rcases ({ v with lineState := none } : Story).keepLineState_lineState with h | h | h
            · exact .inr (.inl h)
            · exact .inr (.inl h)
            · exact .inr (.inr h)
          · cases hwatch
            exact v.keepLineState_lineState

/-- A state behind the step from a story, or behind a later one of the continue. -/
def Brings (v : Story) (state : State) : Prop :=
  ∃ nodes w, v.Passes nodes w ∧ (Flow.lineStep.after w).state = state

/-- A state that is kept behind some step was kept in front of the first one, or is the state
behind one of the steps. -/
theorem Passes.kept {v w : Story} {nodes : Nat} (h : v.Passes nodes w) {kept : State}
    (hw : (Flow.lineStep.after w).lineState = some kept) :
    v.lineState = some kept ∨ v.Brings kept := by
  have hfirst : ∀ {nodes : Nat} {s w : Story}, s.Passes nodes w →
      (Flow.lineStep.after s).lineState = some kept → s.lineState = some kept ∨ s.Brings kept := by
    intro nodes s w _ hs
    rcases s.lineState_after with h | h | h
    · exact .inl (h.symm.trans hs)
    · rw [h] at hs
      cases hs
    · exact .inr ⟨1, s, .here 0 s, Option.some.inj (h.symm.trans hs)⟩
  induction h with
  | here nodes s => exact hfirst (.here nodes s) hw
  | @step nodes s t u hgo hrest ih =>
    rcases ih hw with ht | ⟨more, y, hy, hstate⟩
    · have ht' : (Flow.lineStep.after s).lineState = some kept := by
        rw [Flow.after_of_ok (Flow.lineStep_of_goesOn? hgo).1]
        exact ht
      exact hfirst (.step hgo hrest) ht'
    · exact .inr ⟨more + 1, y, .step hgo hy, hstate⟩

end Story

namespace Flow

/-- The run of a line gives the errors of its steps to the state. -/
theorem exists_runLine_eq (nodes : Nat) (s : Story) :
    ∃ ended u, runLine nodes s = .ok ended u := by
  induction nodes generalizing s with
  | zero => exact ⟨false, _, rfl⟩
  | succ nodes ih =>
    cases hstep : lineStep s with
    | error e t =>
      rw [runLine, bind_ok (attempt_error hstep)]
      exact ⟨false, _, rfl⟩
    | ok last t =>
      rw [runLine, bind_ok (attempt_ok hstep)]
      dsimp only
      rw [bind_ok (get_ok t)]
      split
      · exact ⟨false, _, rfl⟩
      · split
        · exact ⟨true, _, rfl⟩
        · rw [bind_ok (state_ok t)]
          split
          · exact ⟨false, _, rfl⟩
          · exact ih t

/-- A line leaves the state that its last step has kept. -/
theorem lineState_runLine {nodes : Nat} {s u : Story} {ended : Bool}
    (h : runLine nodes s = .ok ended u) :
    u.lineState = s.lineState ∨
      ∃ w, s.Passes nodes w ∧ u.lineState = (lineStep.after w).lineState := by
  induction nodes generalizing s with
  | zero =>
    cases h
    exact .inl rfl
  | succ nodes ih =>
    refine .inr ?_
    cases hstep : lineStep s with
    | error e t =>
      rw [runLine, bind_ok (attempt_error hstep)] at h
      cases h
      exact ⟨s, .here nodes s, by rw [after_of_error hstep]⟩
    | ok last t =>
      have hlast : t.lineState = (lineStep.after s).lineState := by rw [after_of_ok hstep]
      rw [runLine, bind_ok (attempt_ok hstep)] at h
      dsimp only at h
      rw [bind_ok (get_ok t)] at h
      split at h
      · cases h
        exact ⟨s, .here nodes s, hlast⟩
      · next hpending =>
        split at h
        · cases h
          exact ⟨s, .here nodes s, hlast⟩
        · next hended =>
          rw [bind_ok (state_ok t)] at h
          split at h
          · cases h
            exact ⟨s, .here nodes s, hlast⟩
          · next hcontinue =>
            rw [Bool.not_eq_true, Bool.not_eq_false'] at hcontinue
            rw [Bool.not_eq_true] at hended
            rw [Bool.not_eq_true, Option.isSome_eq_false_iff, Option.isNone_iff_eq_none] at hpending
            rw [hended] at hstep
            rcases ih h with hu | ⟨w, hw, hu⟩
            · exact ⟨s, .here nodes s, hu.trans hlast⟩
            · exact ⟨w, .step (Story.goesOn?_eq hstep hpending hcontinue) hw, hu⟩

/-- A continue leaves the state that its last step has kept, or none. -/
theorem lineState_continueLine {s t v : Story} {limited : Bool} {nodes more : Nat} {kept : State}
    (hopen : openLine limited s = .ok () t) (hrun : runLine nodes t = runLine more v)
    (hkept : ((continueLine limited nodes).after s).lineState = some kept) :
    v.lineState = some kept ∨
      ∃ w, v.Passes more w ∧ (lineStep.after w).lineState = some kept := by
  obtain ⟨ended, u, hu⟩ := exists_runLine_eq more v
  rw [after.eq_def, continueLine_eq hopen (hrun.trans hu)] at hkept
  obtain ⟨warnings, events, shown, hreport⟩ := after_reportIssues (u.endLine ended)
  have hend : (u.endLine ended).lineState = some kept := by
    rw [after.eq_def] at hreport
    rw [hreport] at hkept
    exact hkept
  have hukept : u.lineState = some kept := by
    unfold Story.endLine at hend
    split at hend
    · obtain ⟨state, more, hclose, -⟩ := u.closeLine_eq
      rw [hclose] at hend
      cases hend
    · exact hend
  rcases lineState_runLine hu with h | ⟨w, hw, h⟩
  · exact .inl (h.symm.trans hukept)
  · exact .inr ⟨w, hw, h.symm.trans hukept⟩

/-- In a continue, a step that looks ahead calls no function that must not be called ahead, and
begins to wait for none. If it comes to such a call, the line ends with it: in a string by an
error, otherwise at the state kept, which the error goes back to as well. A step that makes
such a call does not look ahead, and all states that are kept from then on, in the continue and
behind it, are states behind this step or a later one. -/
theorem unsafe_calls_stay {s v : Story} {limited : Bool} {nodes : Nat} (hpending : s.pending = none)
    (hv : s.Visits limited nodes v) :
    (∀ kept, v.lineState = some kept → ¬ v.CallsUnsafe ∧
      ∀ name, v.nextCall? = some name → v.IsUnsafe name → ∃ last messages,
        (continueLine limited nodes).after s = reportIssues.after last.closeLine ∧
        last.restoreLineState.state = kept.carryMessages messages ∧
        if v.state.output.inString then
          ∃ u, lineStep v = .error (.flow (.unsafeInString name)) u ∧
            last = { u with state := u.state.fail u.tree (.flow (.unsafeInString name)) }
        else lineStep v = .ok true last ∨
          ∃ e u, lineStep v = .error e u ∧ last = { u with state := u.state.fail u.tree e }) ∧
    (v.CallsUnsafe → v.lineState = none ∧
      (∀ more w kept, v.Passes more w → (lineStep.after w).lineState = some kept → v.Brings kept) ∧
      ∀ kept, ((continueLine limited nodes).after s).lineState = some kept → v.Brings kept) := by
  obtain ⟨t, hopen, hpasses⟩ := hv
  have hvpending := pending_of_passes hpasses ((pending_of_openLine hopen).trans hpending)
  have hnot : v.lineState.isSome = true → ¬ v.CallsUnsafe := by
    rintro hsome (hwaits | ⟨name, hforbidden, hne⟩)
    · rw [(lineStep_ahead hsome).1, hvpending] at hwaits
      cases hwaits
    · exact hne ((lineStep_ahead hsome).2 name hforbidden)
  obtain ⟨more, hrun⟩ := runLine_of_passes hpasses
  refine ⟨fun kept hkept => ⟨hnot (by rw [hkept]; rfl), fun name hcall hforbidden => ?_⟩,
    fun hcalls => ?_⟩
  · have hahead : v.lineState.isSome = true := by rw [hkept]; rfl
    have hplain := changes_plainStep v
    obtain ⟨hstring, hout⟩ := lineStep_unsafeCall hcall hforbidden hkept hvpending
    -- An error ends the line as well, and the state is kept until then.
    have hfailed : ∀ e u, lineStep v = .error e u →
        (continueLine limited nodes).after s = reportIssues.after
            { u with state := u.state.fail u.tree e }.closeLine ∧
          ∃ messages, { u with state := u.state.fail u.tree e }.restoreLineState.state =
            kept.carryMessages messages := by
      intro e u hu
      rw [after_of_error (plainStep_of_lineStep_error hu)] at hplain
      have hupending := (hplain.callsNothing hahead).1.trans hvpending
      obtain ⟨ended, w, hw, hend⟩ := runLine_error hu hupending more
      refine ⟨?_, u.state.fail u.tree e, ?_⟩
      · rw [after.eq_def, continueLine_eq hopen (hrun.trans hw), hend]
        rfl
      · have hukept : u.lineState = some kept := hplain.lineState_eq.trans hkept
        unfold Story.restoreLineState
        rw [hukept]
    cases hin : v.state.output.inString with
    | true =>
      obtain ⟨u, hu⟩ := hstring hin
      obtain ⟨hline, messages, hstate⟩ := hfailed _ u hu
      exact ⟨_, messages, hline, hstate, by rw [if_pos rfl]; exact ⟨u, hu, rfl⟩⟩
    | false =>
      cases hstep : lineStep v with
      | error e u =>
        obtain ⟨hline, messages, hstate⟩ := hfailed e u hstep
        refine ⟨_, messages, hline, hstate, ?_⟩
        rw [if_neg Bool.false_ne_true]
        exact .inr ⟨e, u, rfl, rfl⟩
      | ok ended u =>
        obtain ⟨rfl, hupending, messages, hstate, hnone⟩ := hout hin ended u hstep
        obtain ⟨ended, w, hw, hend⟩ := runLine_ended hstep hupending more
        refine ⟨u, messages, ?_, ?_, ?_⟩
        · rw [after.eq_def, continueLine_eq hopen (hrun.trans hw), hend]
          rfl
        · unfold Story.restoreLineState
          rw [hnone]
          exact hstate
        · rw [if_neg Bool.false_ne_true]
          exact .inl rfl
  · have hnone : v.lineState = none := by
      cases hsome : v.lineState with
      | none => rfl
      | some kept => exact absurd hcalls (hnot (by rw [hsome]; rfl))
    have hbrings : ∀ more w kept, v.Passes more w →
        (lineStep.after w).lineState = some kept → v.Brings kept := by
      intro more w kept hw hkept
      rcases hw.kept hkept with h | h
      · rw [hnone] at h
        cases h
      · exact h
    refine ⟨hnone, hbrings, fun kept hkept => ?_⟩
    rcases lineState_continueLine hopen hrun hkept with h | ⟨w, hw, h⟩
    · rw [hnone] at h
      cases h
    · exact hbrings _ w kept hw h

end Flow

/-- A line, behind which a function of the host is called. -/
def asking : Content :=
  ⟨0, 21, .ofBlock (.container none ⟨false, false, false⟩
    [.leaf (.value (.text "Hi")), .leaf (.value (.text "\n")),
      .leaf (.divert ⟨.external 0, .path ⟨[.name "ask"], false⟩, false⟩),
      .leaf (.command .done)] []), .empty⟩

/-- The story of the line, with the function bound so that it must not be called ahead. -/
def askingStory : Story :=
  { Story.unstarted asking 0 with
    bindings := SortedMap.empty.insert "ask" ⟨fun _ _ => none, 0, false⟩ }

namespace Flow

theorem asking_is_not_called_ahead : ∃ v, askingStory.Visits false 3 v ∧
    v.nextCall? = some "ask" ∧ v.IsUnsafe "ask" ∧ ¬ v.CallsUnsafe ∧
    ∃ (kept messages : State) (last : Story), v.lineState = some kept ∧
      (continueLine false 3).after askingStory = reportIssues.after last.closeLine ∧
      last.restoreLineState.state = kept.carryMessages messages := by
  have hopen : openLine false askingStory = .ok () askingStory.freshLine := rfl
  have hfirst : askingStory.freshLine.goesOn?.isSome = true := by decide +kernel
  obtain ⟨t, ht⟩ := Option.isSome_iff_exists.mp hfirst
  have hsecond : (askingStory.freshLine.goesOn?.bind Story.goesOn?).isSome = true := by
    decide +kernel
  obtain ⟨v, hv⟩ := Option.isSome_iff_exists.mp hsecond
  have htv : t.goesOn? = some v := by rwa [ht] at hv
  have hfacts : (askingStory.freshLine.goesOn?.bind Story.goesOn?).all (fun v =>
      v.lineState.isSome && decide (v.nextCall? = some "ask") &&
        decide ((v.bindings.get? "ask").map Binding.lookaheadSafe = some false)) = true := by
    decide +kernel
  rw [hv] at hfacts
  simp only [Option.all_some, Bool.and_eq_true, decide_eq_true_eq] at hfacts
  obtain ⟨⟨hkept, hcall⟩, hsafe⟩ := hfacts
  obtain ⟨kept, hkept⟩ := Option.isSome_iff_exists.mp hkept
  obtain ⟨b, hb, hbsafe⟩ := Option.map_eq_some_iff.mp hsafe
  have hforbidden : v.IsUnsafe "ask" := .inr ⟨b, hb, hbsafe⟩
  have hvisits : askingStory.Visits false 3 v := ⟨_, hopen, .step ht (.step htv (.here 0 v))⟩
  obtain ⟨hnot, hline⟩ := (unsafe_calls_stay rfl hvisits).1 kept hkept
  obtain ⟨last, messages, hlast, hstate, -⟩ := hline "ask" hcall hforbidden
  exact ⟨v, hvisits, hcall, hforbidden, hnot, kept, messages, last, hkept, hlast, hstate⟩

end Flow

end StoryMachine
