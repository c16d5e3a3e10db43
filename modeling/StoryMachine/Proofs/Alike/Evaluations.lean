import StoryMachine.Proofs.Alike.Hosts
import StoryMachine.Proofs.Story.Evaluation

/-!
# Lines that run inside a call of the host

A function that the host calls, and the global declarations, run lines of their own. A story that
waits for the host in such a line gives up the call, so these lines come to the same in stories
beside each other only if they do not call the function.

* `Story.SideBySide.nextQuiet` : a line that does not call the function;
* `Story.SideBySide.evaluate` : a function called by the host;
* `Story.SideBySide.resetState` : starting anew.
-/

namespace StoryMachine

namespace Flow

variable {s t u w : Story} {function : String} {arguments : List Value} {knot : NodeId}

theorem ok_of_attempt {α : Type} {x : Flow α} {a : α} (h : attempt x s = .ok (.ok a) u) :
    x s = .ok a u := by
  unfold attempt at h
  cases hx : x s with
  | ok b v =>
    rw [hx] at h
    cases h
    rfl
  | error e v =>
    rw [hx] at h
    cases h

/-! ## What calls come to -/

/-- Finding a function depends on the content, and on whether a line is in progress. -/
theorem findFunction_run (function : String) (s : Story) : findFunction function s =
    match s.busy? .evaluate with
    | some e => .error e s
    | none =>
      if (Text.trim function).isEmpty then .error (.request .functionBlank) s
      else match s.tree.knot? function with
        | some knot => .ok knot s
        | none => .error (.request (.functionMissing function)) s := by
  unfold findFunction
  cases hbusy : s.busy? .evaluate with
  | some e => exact bind_error (by rw [whenIdle_run, hbusy])
  | none =>
    rw [bind_ok (by rw [whenIdle_run, hbusy])]
    dsimp only
    split
    · rfl
    · rw [bind_ok (tree_ok s)]
      cases s.tree.knot? function with
      | some knot => rfl
      | none => rfl

/-- Stories over the same content find the same function, or none. -/
theorem findFunction_congr (hbusy : s.busy? .evaluate = u.busy? .evaluate) (htree : s.tree = u.tree)
    (function : String) :
    (∃ knot, findFunction function s = .ok knot s ∧ findFunction function u = .ok knot u) ∨
      ∃ e, findFunction function s = .error e s ∧ findFunction function u = .error e u := by
  rw [findFunction_run, findFunction_run, hbusy, htree]
  cases u.busy? .evaluate with
  | some e => exact .inr ⟨e, rfl, rfl⟩
  | none =>
    dsimp only
    split
    · exact .inr ⟨_, rfl, rfl⟩
    · cases u.tree.knot? function with
      | some knot => exact .inl ⟨knot, rfl, rfl⟩
      | none => exact .inr ⟨_, rfl, rfl⟩

theorem after_evaluate_refused {e : StoryError} (h : findFunction function s = .error e u) :
    (evaluate function arguments).after s = u :=
  after_of_ok (bind_ok (attempt_error h))

theorem after_evaluate_unstarted {e : StoryError} (hfind : findFunction function s = .ok knot s)
    (h : startCall knot arguments s = .error e u) : (evaluate function arguments).after s =
      { u with state := s.state, lineState := none, pending := none, lineOpen := false } := by
  unfold evaluate
  rw [after_bind_ok (attempt_ok hfind)]
  dsimp only
  rw [after_bind_ok (state_ok s), after_bind_ok (attempt_error h)]
  rfl

theorem after_evaluate_abandoned {text : String} {failure : Option StoryError}
    (hfind : findFunction function s = .ok knot s) (hstart : startCall knot arguments s = .ok () t)
    (hlines : collectLines "" lineBudget t = .ok (text, failure) w)
    (h : failure.isSome = true ∨ w.pending.isSome = true) : (evaluate function arguments).after s =
      { w with state := s.state, lineState := none, pending := none, lineOpen := false } := by
  unfold evaluate
  rw [after_bind_ok (attempt_ok hfind)]
  dsimp only
  rw [after_bind_ok (state_ok s), after_bind_ok (attempt_ok hstart)]
  dsimp only
  rw [after_bind_ok hlines]
  cases failure with
  | some e => rfl
  | none =>
    obtain ⟨call, hcall⟩ := Option.isSome_iff_exists.mp (h.resolve_left Bool.false_ne_true)
    dsimp only
    rw [after_bind_ok (get_ok w), hcall]
    rfl

theorem after_evaluate_finished {text : String} {v : Story}
    (hfind : findFunction function s = .ok knot s) (hstart : startCall knot arguments s = .ok () t)
    (hlines : collectLines "" lineBudget t = .ok (text, none) w) (h : w.pending = none)
    (hv : v = { w with state := { w.state with output := s.state.output } }) :
    (evaluate function arguments).after s = finishCall.after v := by
  have hattempt : ∀ k : Except StoryError (Option Value) → String × Except StoryError (Option Value),
      (attempt finishCall >>= fun r => pure (k r)).after v = finishCall.after v := by
    intro k
    cases hfinish : finishCall v with
    | ok result u =>
      rw [after_bind_ok (attempt_ok hfinish), after_of_ok hfinish]
      rfl
    | error e u =>
      rw [after_bind_ok (attempt_error hfinish), after_of_error hfinish]
      rfl
  have houtput : modifyState (fun s' => { s' with output := s.state.output }) w = .ok () v :=
    hv ▸ rfl
  unfold evaluate
  rw [after_bind_ok (attempt_ok hfind)]
  dsimp only
  rw [after_bind_ok (state_ok s), after_bind_ok (attempt_ok hstart)]
  dsimp only
  rw [after_bind_ok hlines]
  dsimp only
  rw [after_bind_ok (get_ok w), h]
  dsimp only
  rw [after_bind_ok houtput]
  exact hattempt _

/-! ## Blind parts of a call -/

variable {c : Content} {κ : Story → Story → Prop}

theorem blind_startCall (knot : NodeId) (arguments : List Value) :
    Blind c .equal κ SameOutput (startCall knot arguments) := by
  refine blind_bind (together_modifyState (fun s u h => ?_) fun _ _ _ _ => rfl) fun _ =>
    blind_orFail (fun _ _ h => pushArguments_alike arguments h)
      fun s => shape_pushArguments arguments s
  have hpushed : State.Alike .equal
      { s with
        output := .empty
        callStack := s.callStack.push .hostCall s.evaluation.length 0 }
      { u with
        output := .empty
        callStack := u.callStack.push .hostCall u.evaluation.length 0 } := by
    rw [h.evaluation]
    exact { h with
      evaluation := rfl
      callStack := h.callStack.push _ fun hkind => nomatch hkind }
  exact hpushed.setCursor _

theorem blind_finishCall : Blind c .equal κ SameOutput finishCall := by
  refine blind_tree_bind (together_state_bind fun s u h => ?_)
  dsimp only
  rw [h.callStack.inHostCall_eq, h.callStack.trace_eq, h.callStack.top.height]
  refine blind_unless _ (blind_bind ?_ fun result => blind_bind ?_ fun _ => blind_pure _)
  · exact blind_withState (fun v w hvw => by
      rw [hvw.evaluation]
      exact ⟨rfl, { hvw with evaluation := rfl }⟩) fun _ => rfl
  · refine blind_tryState fun v w hvw => ?_
    exact Agree.bind (hvw.callStack.popKind .hostCall) fun a b hab =>
      .ok ⟨rfl, { hvw with callStack := hab }, id⟩

/-- A continue without reading the text of the line. -/
theorem continueLine_cases (hpending : s.pending = none) :
    (∃ e, openLine false s = .error e (next.after s) ∧
        continueLine false nodeBudget s = .error e (next.after s)) ∨
      (∃ t, openLine false s = .ok () t) ∧
        if ((next.after s).state.hasError && !(next.after s).hasHandler) = true then
          ∃ e, continueLine false nodeBudget s = .error e (next.after s)
        else continueLine false nodeBudget s = .ok () (next.after s) := by
  have hidle : refuseWaiting s = .ok () s := by
    unfold refuseWaiting
    rw [bind_ok (get_ok s), hpending]
    rfl
  have hnext : next s = (openLine false >>= fun _ => finishLine (runLine nodeBudget)) s := by
    rw [next_eq, bind_ok hidle]
  cases hbegin : openLine false s with
  | error e t =>
    rw [after_of_error (hnext.trans (bind_error hbegin))]
    exact .inl ⟨e, rfl, bind_error hbegin⟩
  | ok _ t =>
    refine .inr ⟨⟨t, rfl⟩, ?_⟩
    obtain ⟨ended, v, hrun⟩ := exists_runLine_eq nodeBudget t
    have hline : continueLine false nodeBudget s = reportIssues (v.endLine ended) := by
      unfold continueLine
      rw [bind_ok hbegin, bind_ok hrun]
      rfl
    have hafter : next.after s = tellLine.after (v.endLine ended) :=
      after_congr ((hnext.trans (bind_ok hbegin)).trans (finishLine_of_run hrun))
    rw [hline, hafter]
    rcases reportIssues_told (v.endLine ended) with ⟨hfails, e, herror⟩ | ⟨hnot, u, hok, htold⟩
    · have htell : tellLine.after (v.endLine ended) = v.endLine ended :=
        after_of_error (bind_error herror)
      rw [htell, if_pos hfails]
      exact ⟨e, herror⟩
    · obtain ⟨r, hread, -⟩ := attempt_readLine u
      have htell : tellLine.after (v.endLine ended) = u :=
        (after_bind_ok hok).trans (after_of_attempt hread)
      have hsame : (u.state.hasError && !u.hasHandler) = false := by
        obtain ⟨_, _, _, rfl⟩ := htold.eq
        exact hnot
      rw [htell, hok, hsame]
      rfl

end Flow

namespace Story.SideBySide

variable {c : Content} {name : String} {f : HostFunction} {answered : List (List Value)}
  {d s : Story}

/-- A line that does not call the function. -/
theorem nextQuiet (hquiet : ∀ u, d.Visits false Flow.nodeBudget u → ¬ u.CallsNow name)
    (h : SideBySide c name f answered d s) : ∃ r r' d' s', Flow.attempt Flow.next d = .ok r d' ∧
      Flow.attempt Flow.next s = .ok r' s' ∧ r.toOption = r'.toOption ∧
      SideBySide c name f answered d' s' := by
  have hline : SameLine c name f answered Flow.next d Flow.next 0 s :=
    SideBySide.next h (fun v hv hcall => absurd hcall (hquiet v hv)) (.inr hquiet)
  obtain ⟨r, r', later, d', s', hd, hs, hsame, hside⟩ := hline
  obtain ⟨line, s'', hattempt, hlater⟩ := Flow.exists_of_bind_eq_ok hs
  cases hlater
  rw [List.append_nil] at hside
  exact ⟨r, r', d', s', hd, hattempt, hsame, hside⟩

/-- Lines that do not call the function. -/
theorem collectLines (budget : Nat) (text : String)
    (hquiet : ∀ u, d.VisitsLines u → ¬ u.CallsNow name) (h : SideBySide c name f answered d s) :
    ∃ text' failure failure' d' s', Flow.collectLines text budget d = .ok (text', failure) d' ∧
      Flow.collectLines text budget s = .ok (text', failure') s' ∧
      failure.isSome = failure'.isSome ∧ SideBySide c name f answered d' s' := by
  induction budget generalizing text d s with
  | zero => exact ⟨text, none, none, d, s, rfl, rfl, rfl, h⟩
  | succ budget ih =>
    have hcontinue : d.canContinue = s.canContinue := by
      unfold Story.canContinue
      rw [h.beside.parts.pending, h.beside.state.canContinue_eq]
    unfold Flow.collectLines
    rw [Flow.bind_ok (Flow.get_ok d), Flow.bind_ok (Flow.get_ok s), hcontinue]
    split
    · obtain ⟨r, r', d', s', hd, hs, hsame, hside⟩ := h.nextQuiet fun u hu => hquiet u (.here hu)
      rw [Flow.bind_ok hd, Flow.bind_ok hs]
      cases r with
      | error e =>
        cases r' with
        | error e' => exact ⟨text, some e, some e', d', s', rfl, rfl, rfl, hside⟩
        | ok line' => cases hsame
      | ok line =>
        cases r' with
        | error e' => cases hsame
        | ok line' =>
          cases hsame
          refine ih _ (fun u hu => hquiet u (.next (Flow.ok_of_attempt hd) hu)) hside
    · exact ⟨text, none, none, d, s, rfl, rfl, rfl, h⟩

/-- A function called by the host, none of whose steps calls the function. -/
theorem evaluate (function : String) (arguments : List Value)
    (horderly : d.Orderly fun _ => True)
    (hquiet : ∀ t, d.CallStarts function arguments t → ∀ u, t.VisitsLines u → ¬ u.CallsNow name)
    (h : SideBySide c name f answered d s) :
    SideBySide c name f answered ((Flow.evaluate function arguments).after d)
      ((Flow.evaluate function arguments).after s) := by
  have htree : d.tree = s.tree := by rw [tree, tree, h.beside.left, h.beside.right]
  rcases Flow.findFunction_congr (Flow.busy?_eq h.beside.parts.pending h.lineOpen _) htree function with
    ⟨knot, hd, hs⟩ | ⟨e, hd, hs⟩
  · have hopen : d.lineOpen = false := by
      rcases Flow.findFunction_cases function d with ⟨-, hopen⟩ | ⟨e, he⟩
      · exact hopen
      · rw [hd] at he
        cases he
    -- A call that is given up leads back.
    have habandoned : ∀ {w w' : Story}, Beside c name f answered w w' →
        SideBySide c name f answered
          { w with state := d.state, lineState := none, pending := none, lineOpen := false }
          { w' with state := s.state, lineState := none, pending := none, lineOpen := false } :=
      fun hw => ⟨hw.of_parts rfl rfl h.beside.sameState
        { hw.parts with kept := .none, pending := rfl, waits := fun _ hnone => by cases hnone },
        rfl, fun hopen => by cases hopen⟩
    rcases (Flow.blind_startCall knot arguments (h.resting hopen)).cases with
      ⟨_, t, t', ht, ht', hstarted⟩ | ⟨e, t, t', ht, ht', hfailed⟩
    · obtain ⟨text, failure, failure', w, w', hw, hw', hsame, hside⟩ :=
        collectLines Flow.lineBudget "" (hquiet t ⟨knot, hd, ht⟩) (Resting.sideBySide hstarted)
      by_cases hends : failure.isSome = true ∨ w.pending.isSome = true
      · rw [Flow.after_evaluate_abandoned hd ht hw hends,
          Flow.after_evaluate_abandoned hs ht' hw'
            (hsame ▸ hside.beside.parts.pending ▸ hends)]
        exact habandoned hside.beside
      · rw [not_or, Bool.not_eq_true, Bool.not_eq_true, Option.isSome_eq_false_iff,
          Option.isNone_iff_eq_none, Option.isSome_eq_false_iff, Option.isNone_iff_eq_none] at hends
        obtain ⟨rfl, hpending⟩ := hends
        obtain rfl : failure' = none := by
          cases failure' with
          | none => rfl
          | some e => cases hsame
        have hclosed : w.lineOpen = false := by
          have hmarks := Flow.keepsMarks_startCall knot arguments d
          rw [Flow.after_of_ok ht] at hmarks
          have hstart : t.Orderly fun _ => True :=
            .of_idle (hmarks.1.trans hopen) (hmarks.2.1.trans (horderly.idle hopen))
          obtain ⟨_, _, _, hlines, hsettled⟩ := Flow.settled_collectLines Flow.lineBudget "" hstart
            (hmarks.1.trans hopen)
          rw [hw] at hlines
          cases hlines
          exact (hsettled rfl hpending).1
        rw [Flow.after_evaluate_finished hd ht hw hpending rfl,
          Flow.after_evaluate_finished hs ht' hw' (hside.beside.parts.pending.symm.trans hpending) rfl]
        exact Resting.sideBySide (Flow.resting_after Flow.blind_finishCall
          ((hside.resting hclosed).of_parts rfl rfl
            ⟨{ hside.beside.state with }, h.beside.sameState.output⟩ { (hside.resting hclosed).parts with }))
    · rw [Flow.after_evaluate_unstarted hd ht, Flow.after_evaluate_unstarted hs ht']
      exact habandoned (Resting.sideBySide hfailed).beside
  · rw [Flow.after_evaluate_refused hd, Flow.after_evaluate_refused hs]
    exact h

/-- A line that does not call the function, without reading its text. -/
theorem continueLine (hpending : d.pending = none)
    (hquiet : ∀ u, d.Visits false Flow.nodeBudget u → ¬ u.CallsNow name)
    (h : SideBySide c name f answered d s) :
    ∃ d' s', SideBySide c name f answered d' s' ∧
      (Flow.continueLine false Flow.nodeBudget d = .ok () d' ∧
          Flow.continueLine false Flow.nodeBudget s = .ok () s' ∨
        ∃ e e', Flow.continueLine false Flow.nodeBudget d = .error e d' ∧
          Flow.continueLine false Flow.nodeBudget s = .error e' s') := by
  obtain ⟨_, _, d', s', hd, hs, -, hside⟩ := h.nextQuiet hquiet
  have hcases := Flow.continueLine_cases hpending
  have hcases' := Flow.continueLine_cases (h.beside.parts.pending.symm.trans hpending)
  rw [Flow.after_of_attempt hd] at hcases
  rw [Flow.after_of_attempt hs, ← hside.beside.state.hasError_eq, ← hside.beside.parts.handler]
    at hcases'
  refine ⟨d', s', hside, ?_⟩
  rcases hcases with ⟨e, hopen, hline⟩ | ⟨⟨t, hopen⟩, hline⟩
  · rcases hcases' with ⟨e', -, hline'⟩ | ⟨⟨t', hopen'⟩, -⟩
    · exact .inr ⟨e, e', hline, hline'⟩
    · rcases h.openLine with ⟨_, _, hok, -, -⟩ | ⟨_, _, _, -, herror, -⟩
      · rw [hopen] at hok
        cases hok
      · rw [hopen'] at herror
        cases herror
  · rcases hcases' with ⟨e', hopen', -⟩ | ⟨-, hline'⟩
    · rcases h.openLine with ⟨_, _, -, hok, -⟩ | ⟨_, _, _, herror, -, -⟩
      · rw [hopen'] at hok
        cases hok
      · rw [hopen] at herror
        cases herror
    · split at hline
      · next hfails =>
        rw [if_pos hfails] at hline'
        obtain ⟨e, he⟩ := hline
        obtain ⟨e', he'⟩ := hline'
        exact .inr ⟨e, e', he, he'⟩
      · next hnot =>
        rw [if_neg hnot] at hline'
        exact .inl ⟨hline, hline'⟩

/-- Changing neither the errors nor the output of the states. -/
theorem modifyState {g : State → State}
    (hg : ∀ v : State, (g v).hasError = v.hasError ∧ (g v).output = v.output)
    (halike : ∀ v w : State, v.Alike .equal w → (g v).Alike .equal (g w))
    (h : SideBySide c name f answered d s) : SideBySide c name f answered
      { d with state := g d.state } { s with state := g s.state } := by
  have hd := hg d.state
  refine h.of_parts rfl rfl ⟨halike _ _ h.beside.state, ?_⟩ { h.beside.parts with } rfl rfl
    fun hready => ⟨hd.1.trans hready.error, hready.met, ?_⟩
  · exact hd.2.trans (h.beside.sameState.output.trans (hg s.state).2.symm)
  · show d.lineState = none → (g d.state).output.inString = false →
      (g d.state).output.endsInLineEnd = false
    rw [hd.2]
    exact hready.lineEnd

/-- The global declarations, if they do not call the function. -/
theorem declareGlobals (hpending : d.pending = none)
    (hquiet : ∀ u, d.VisitsDeclarations u → ¬ u.CallsNow name)
    (h : Resting c name f answered d s) :
    SideBySide c name f answered (Flow.declareGlobals.after d) (Flow.declareGlobals.after s) := by
  have htree : s.tree = d.tree := by rw [tree, tree, h.left, h.right]
  have hsettle : ∀ {d s : Story}, SideBySide c name f answered d s → SideBySide c name f answered
      { d with state := { d.state with vars := d.state.vars.settle } }
      { s with state := { s.state with vars := s.state.vars.settle } } := fun h =>
    h.modifyState (g := fun v => { v with vars := v.vars.settle }) (fun _ => ⟨rfl, rfl⟩)
      fun v w hvw => { hvw with vars := ⟨hvw.vars.globals, hvw.vars.globals⟩ }
  unfold Flow.declareGlobals
  rw [Flow.after_bind_ok (Flow.tree_ok d), Flow.after_bind_ok (Flow.tree_ok s), htree]
  split
  · next hdeclares =>
    dsimp only
    rw [Flow.after_bind_ok (Flow.state_ok d), Flow.after_bind_ok (Flow.state_ok s)]
    rcases (Flow.blind_jumpTo (Path.parse declarationsName) false h).cases with
      ⟨_, t, t', ht, ht', hjumped⟩ | ⟨e, t, t', ht, ht', hjumped⟩
    · have hjump := @Flow.within_jumpTo d.content .silent (Path.parse declarationsName) false Bool.noConfusion d rfl
      rw [Flow.after_of_ok ht] at hjump
      have hwaits : t.pending = none := by
        rw [(hjump.state_only rfl).2]
        exact hpending
      rw [Flow.after_bind_ok ht, Flow.after_bind_ok ht', h.state.cursor_eq]
      obtain ⟨u, u', hside, ⟨hu, hu'⟩ | ⟨e, e', hu, hu'⟩⟩ :=
        (Resting.sideBySide hjumped).continueLine hwaits
          fun v hv => hquiet v ⟨hdeclares, t, ht, hv⟩
      · rw [Flow.after_bind_ok hu, Flow.after_bind_ok hu',
          Flow.after_bind_ok (Flow.modifyState_ok _ u), Flow.after_bind_ok (Flow.modifyState_ok _ u')]
        exact hsettle (hside.modifyState (g := fun v => v.setCursor s.state.cursor)
          (fun _ => ⟨rfl, rfl⟩) fun _ _ hvw => hvw.setCursor _)
      · rw [Flow.after_bind_error hu, Flow.after_bind_error hu']
        exact hside
    · rw [Flow.after_bind_error ht, Flow.after_bind_error ht']
      exact Resting.sideBySide hjumped
  · exact hsettle (Resting.sideBySide h)

/-- Starting anew, if the global declarations do not call the function. -/
theorem resetState (seed : Int32)
    (hquiet : ∀ u, VisitsDeclarations { d with state := .start seed } u → ¬ u.CallsNow name)
    (h : SideBySide c name f answered d s) :
    SideBySide c name f answered ((Flow.resetState seed).after d)
      ((Flow.resetState seed).after s) := by
  refine Flow.sideBySide_whenIdle (fun hpending hresting => ?_) h
  rw [Flow.after_bind_ok (Flow.modifyState_ok _ d), Flow.after_bind_ok (Flow.modifyState_ok _ s)]
  exact declareGlobals hpending hquiet (hresting.of_parts rfl rfl
    ⟨State.alike_refl (fun _ => rfl) _, rfl⟩ { hresting.parts with })

end Story.SideBySide

end StoryMachine
