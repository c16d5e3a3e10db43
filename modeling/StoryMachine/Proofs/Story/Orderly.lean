import StoryMachine.Proofs.Story.HostCalls

/-!
# Order between the calls of a host

A host may do most things only between lines, and the few that it may do in a line leave the
output and the state kept alone. So every story that a host brings about is orderly.

* `Flow.KeepsMarks` : computations that leave the marks of a line alone;
* `Flow.orderly_continueLine`, `Flow.settled_evaluate` : the calls that run lines;
* `Run.orderly` : what holds of lines holds in every run.
-/

namespace StoryMachine

open Story (LineInvariant Orderly)

variable {P L : Story → Prop}

theorem Story.Orderly.of_idle {s : Story} (hopen : s.lineOpen = false) (hstate : s.lineState = none) :
    s.Orderly L where
  idle _ := hstate
  waits _ := hstate
  line h := by
    rw [hopen] at h
    cases h

namespace Flow

variable {α β : Type}

/-! ## Computations between lines -/

/-- The marks of a line stay as they are. -/
def KeepsMarks (x : Flow α) : Prop :=
  ∀ s : Story, (x.after s).lineOpen = s.lineOpen ∧ (x.after s).lineState = s.lineState ∧
    (x.after s).pending = s.pending

theorem keepsMarks_throw (e : StoryError) : KeepsMarks (throw e : Flow α) := fun _ => ⟨rfl, rfl, rfl⟩

theorem keepsMarks_modifyState (f : State → State) : KeepsMarks (modifyState f) :=
  fun _ => ⟨rfl, rfl, rfl⟩

theorem keepsMarks_withState (f : State → α × State) : KeepsMarks (withState f) :=
  fun _ => ⟨rfl, rfl, rfl⟩

theorem keepsMarks_tryState (f : State → Except StoryError (α × State)) :
    KeepsMarks (tryState f) := by
  intro s
  cases hf : f s.state with
  | ok r =>
    have hrun : tryState f s = .ok r.1 { s with state := r.2 } := tryState_run_ok hf
    rw [after_of_ok hrun]
    exact ⟨rfl, rfl, rfl⟩
  | error e =>
    have hrun : tryState f s = .error e s := tryState_run_error hf
    rw [after_of_error hrun]
    exact ⟨rfl, rfl, rfl⟩

theorem keepsMarks_orFail (f : State → State × Option StoryError) : KeepsMarks (orFail f) := by
  intro s
  rw [after_orFail]
  exact ⟨rfl, rfl, rfl⟩

theorem keepsMarks_bind {x : Flow α} {k : α → Flow β} (hx : KeepsMarks x)
    (hk : ∀ a, KeepsMarks (k a)) : KeepsMarks (x >>= k) := by
  intro s
  have hfirst := hx s
  cases hrun : x s with
  | ok a u =>
    rw [after_of_ok hrun] at hfirst
    rw [after_bind_ok hrun]
    have hnext := hk a u
    exact ⟨hnext.1.trans hfirst.1, hnext.2.1.trans hfirst.2.1, hnext.2.2.trans hfirst.2.2⟩
  | error e u =>
    rw [after_of_error hrun] at hfirst
    rwa [after_bind_error hrun]

theorem keepsMarks_state_bind {k : State → Flow β} (hk : ∀ s, KeepsMarks (k s)) :
    KeepsMarks (state >>= k) := fun s => hk s.state s

/-! ## Continuing -/

theorem orderly_reportIssues (hL : LineInvariant P L) {s : Story} (hs : s.Orderly L) :
    (reportIssues.after s).Orderly L := by
  obtain ⟨warnings, events, shown, heq⟩ := after_reportIssues s
  rw [heq]
  exact hs.same hL rfl rfl id rfl

theorem orderly_continueLine (hL : LineInvariant P L) {s : Story} {limited : Bool} {nodes : Nat}
    (hnodes : 0 < nodes) (hs : s.Orderly L) (hpending : s.pending = none)
    (hrefused : limited = true → s.lineOpen = false → s.state.canContinue = false → L s)
    (hvisits : ∀ v, s.Visits limited nodes v → P v) :
    ((continueLine limited nodes).after s).Orderly L := by
  cases hopen : openLine limited s with
  | ok _ u =>
    obtain ⟨ended, v, houtcome, hrun⟩ :=
      continueLine_outcome hL hnodes hs hpending hopen hvisits
    have hafter : (continueLine limited nodes).after s = reportIssues.after (v.endLine ended) := by
      rw [after, hrun]
      rfl
    rw [hafter]
    exact orderly_reportIssues hL (houtcome.orderly hL)
  | error e u =>
    unfold continueLine
    rw [after_bind_error hopen]
    obtain ⟨hline, hcontinue, -, rfl⟩ := openLine_error hopen
    refine ⟨fun _ => hs.idle hline, hs.waits, fun hlimited => ?_⟩
    exact hL.same (hrefused hlimited hline hcontinue) rfl rfl

theorem continueFor_ok {s u : Story} {limited : Bool} (h : continueFor limited s = .ok () u) :
    s.pending = none ∧ continueLine limited nodeBudget s = .ok () u := by
  unfold continueFor at h
  rcases refuseWaiting_cases s with ⟨hidle, hpending⟩ | ⟨e, hidle⟩
  · rw [bind_ok hidle] at h
    exact ⟨hpending, h⟩
  · rw [bind_error hidle] at h
    cases h

theorem orderly_continueFor (hL : LineInvariant P L) {s : Story} {limited : Bool}
    (hs : s.Orderly L)
    (hrefused : limited = true → s.lineOpen = false → s.state.canContinue = false → L s)
    (hvisits : ∀ v, s.Visits limited nodeBudget v → P v) :
    ((continueFor limited).after s).Orderly L :=
  holds_refuseWaiting hs fun hpending =>
    orderly_continueLine hL (by decide) hs hpending hrefused hvisits

theorem orderly_next (hL : LineInvariant P L) {s : Story} (hs : s.Orderly L)
    (hvisits : ∀ v, s.Visits false nodeBudget v → P v) : (next.after s).Orderly L := by
  rw [after_next]
  exact orderly_continueFor hL hs (fun h => by cases h) hvisits

/-! ## Functions called by the host -/

/-- Nothing is asked of a line. -/
theorem trivialLine : LineInvariant P fun _ => True where
  fresh _ _ := trivial
  same _ _ _ := trivial
  step _ _ _ _ _ := trivial

theorem keepsMarks_startCall (knot : NodeId) (arguments : List Value) :
    KeepsMarks (startCall knot arguments) :=
  keepsMarks_bind (keepsMarks_modifyState _) fun _ => keepsMarks_orFail _

theorem keepsMarks_finishCall : KeepsMarks finishCall := by
  refine keepsMarks_bind (fun _ => ⟨rfl, rfl, rfl⟩) fun t => keepsMarks_state_bind fun s => ?_
  have hpop : KeepsMarks (do
      let result ← withState fun u =>
        let left := u.evaluation.length - s.callStack.top.evaluationHeight
        ((u.evaluation.take left).head?, { u with evaluation := u.evaluation.drop left })
      tryState fun u => return ((), { u with callStack := ← u.callStack.popKind .hostCall })
      return result.bind Token.value? : Flow (Option Value)) :=
    keepsMarks_bind (keepsMarks_withState _) fun _ =>
      keepsMarks_bind (keepsMarks_tryState _) fun _ _ => ⟨rfl, rfl, rfl⟩
  dsimp only
  split
  · exact keepsMarks_bind (keepsMarks_throw _) fun _ => hpop
  · exact hpop

/-- What a continue that succeeds gives: nothing yet if the story waits, otherwise the text of
the line, which has ended. -/
theorem next_cases {s u : Story} {text : String} (h : next s = .ok text u) :
    continueFor false s = .ok () u ∧ (u.pending.isSome = true ∧ text = "" ∨
      u.pending = none ∧ u.lineOpen = false ∧ text = u.state.output.text) := by
  unfold next at h
  obtain ⟨_, v, hv, hrest⟩ := exists_of_bind_eq_ok h
  rw [bind_ok (get_ok v)] at hrest
  split at hrest
  · next hsome =>
    cases hrest
    exact ⟨hv, .inl ⟨hsome, rfl⟩⟩
  · unfold currentText at hrest
    rcases whenIdle_cases .readText v with ⟨hidle, hpending, hopen⟩ | ⟨e, hidle⟩
    · rw [bind_ok hidle, bind_ok (state_ok v)] at hrest
      cases hrest
      exact ⟨hv, .inr ⟨hpending, hopen, rfl⟩⟩
    · rw [bind_error hidle] at hrest
      cases hrest

/-- Unless the story waits, the lines of a function have ended when they are collected. -/
theorem settled_collectLines (budget : Nat) (text : String) {s : Story}
    (hs : s.Orderly fun _ => True) (hopen : s.lineOpen = false) :
    ∃ lines failure u, collectLines text budget s = .ok (lines, failure) u ∧
      (failure = none → u.pending = none → u.lineOpen = false ∧ u.lineState = none) := by
  induction budget generalizing text s with
  | zero => exact ⟨text, none, s, rfl, fun _ _ => ⟨hopen, hs.idle hopen⟩⟩
  | succ budget ih =>
    have hline := orderly_next trivialLine hs fun _ _ => trivial
    unfold collectLines
    rw [bind_ok (get_ok s)]
    split
    · cases hrun : next s with
      | error e u =>
        rw [bind_ok (attempt_error hrun)]
        exact ⟨text, some e, u, rfl, fun h => by cases h⟩
      | ok line u =>
        rw [bind_ok (attempt_ok hrun)]
        rw [after_of_ok hrun] at hline
        cases hpending : u.pending with
        | none =>
          rcases (next_cases hrun).2 with ⟨hsome, -⟩ | ⟨-, huopen, -⟩
          · rw [hpending] at hsome
            cases hsome
          · exact ih _ hline huopen
        | some call =>
          have hstop : collectLines (text ++ line) budget u = .ok (text ++ line, none) u := by
            cases budget with
            | zero => rfl
            | succ budget =>
              unfold collectLines
              rw [bind_ok (get_ok u), Story.canContinue, hpending]
              rfl
          refine ⟨_, _, u, hstop, fun _ h => ?_⟩
          rw [hpending] at h
          cases h
    · exact ⟨text, none, s, rfl, fun _ _ => ⟨hopen, hs.idle hopen⟩⟩

theorem findFunction_cases (name : String) (s : Story) :
    (∃ knot, findFunction name s = .ok knot s) ∧ s.lineOpen = false ∨
      ∃ e, findFunction name s = .error e s := by
  unfold findFunction
  rcases whenIdle_cases .evaluate s with ⟨h, -, hopen⟩ | ⟨e, h⟩
  · rw [bind_ok h]
    cases hblank : (Text.trim name).isEmpty with
    | true => exact .inr ⟨_, rfl⟩
    | false =>
      cases hknot : s.tree.knot? name with
      | some knot =>
        refine .inl ⟨⟨knot, ?_⟩, hopen⟩
        rw [if_neg Bool.false_ne_true]
        dsimp only
        rw [bind_ok (tree_ok s), hknot]
        rfl
      | none =>
        refine .inr ⟨.request (.functionMissing name), ?_⟩
        rw [if_neg Bool.false_ne_true]
        dsimp only
        rw [bind_ok (tree_ok s), hknot]
        rfl
  · rw [bind_error h]
    exact .inr ⟨e, rfl⟩

theorem settled_abandonCall (before : State) (s : Story) {k : Unit → Flow β}
    (hk : ∀ u, (k ()).after u = u) : ((abandonCall before >>= k).after s).Idle ∧
      ((abandonCall before >>= k).after s).lineState = none := by
  have hrun : abandonCall before s = .ok () _ := rfl
  rw [after_bind_ok hrun, hk]
  exact ⟨⟨rfl, rfl⟩, rfl⟩

/-- A call of a function is over when the host goes on. -/
theorem settled_evaluate (name : String) (arguments : List Value) {s : Story} (hidle : s.Idle)
    (hstate : s.lineState = none) : ((evaluate name arguments).after s).Idle ∧
      ((evaluate name arguments).after s).lineState = none := by
  unfold evaluate
  rcases findFunction_cases name s with ⟨⟨knot, hfind⟩, hopen⟩ | ⟨e, hfind⟩
  · rw [after_bind_ok (attempt_ok hfind)]
    dsimp only
    rw [after_bind_ok (state_ok s)]
    have hmarks := keepsMarks_startCall knot arguments s
    cases hstart : startCall knot arguments s with
    | error e u =>
      rw [after_bind_ok (attempt_error hstart)]
      exact settled_abandonCall _ _ fun _ => rfl
    | ok _ u =>
      rw [after_bind_ok (attempt_ok hstart)]
      rw [after_of_ok hstart] at hmarks
      have huopen : u.lineOpen = false := hmarks.1.trans hopen
      have hu : u.Orderly fun _ => True := .of_idle huopen (hmarks.2.1.trans hstate)
      obtain ⟨lines, failure, v, hlines, hsettled⟩ :=
        settled_collectLines lineBudget "" hu huopen
      dsimp only
      rw [after_bind_ok hlines]
      dsimp only
      cases failure with
      | some e => exact settled_abandonCall _ _ fun _ => rfl
      | none =>
        dsimp only
        rw [after_bind_ok (get_ok v)]
        cases hpending : v.pending with
        | some call => exact settled_abandonCall _ _ fun _ => rfl
        | none =>
          obtain ⟨hvopen, hvstate⟩ := hsettled rfl hpending
          dsimp only
          rw [after_bind_ok (modifyState_ok _ v)]
          have hfinish : KeepsMarks (attempt finishCall) := by
            intro w
            have h := keepsMarks_finishCall w
            cases hrun : finishCall w with
            | ok a x => rw [after_of_ok (attempt_ok hrun)]; rwa [after_of_ok hrun] at h
            | error e x => rw [after_of_ok (attempt_error hrun)]; rwa [after_of_error hrun] at h
          have hend := keepsMarks_bind hfinish (fun a => (fun _ => ⟨rfl, rfl, rfl⟩ :
            KeepsMarks (pure (lines, a) : Flow (String × Except StoryError (Option Value)))))
            { v with state := { v.state with output := s.state.output } }
          exact ⟨⟨hend.1.trans hvopen, hend.2.2.trans hpending⟩, hend.2.1.trans hvstate⟩
  · rw [after_bind_ok (attempt_error hfind)]
    exact ⟨hidle, hstate⟩

end Flow

/-! ## Calls -/

/-- The order that a story is in is kept by every call, where `L` holds whenever a continue with
a limit of time is refused. -/
theorem Story.LineInvariant.callInvariant (hL : LineInvariant P L) {A : HostCall → Story → Prop} :
    Story.CallInvariant P A L (Orderly L) where
  same hs hsame := hs.same hL hsame.lineOpen hsame.lineState
    (fun hsome => hsame.pending.elim (fun hnone => by rw [hnone] at hsome; cases hsome)
      fun heq => heq ▸ hsome) hsame.output
  silent hs hidle hchanges :=
    .of_idle (hchanges.lineOpen_eq.trans hidle.lineOpen)
      (hchanges.lineState_eq.trans (hs.idle hidle.lineOpen))
  line hnodes hs hpending hrefused hvisits :=
    Flow.orderly_continueLine hL hnodes hs hpending hrefused hvisits
  evaluate name arguments hs hidle :=
    have hsettled := Flow.settled_evaluate name arguments hidle (hs.idle hidle.lineOpen)
    .of_idle hsettled.1.lineOpen hsettled.2
  load _ hs hidle _ := .of_idle hidle.lineOpen (hs.idle hidle.lineOpen)
  restore _ hs hidle _ := .of_idle hidle.lineOpen (hs.idle hidle.lineOpen)
  start _ hs hidle := .of_idle hidle.lineOpen (hs.idle hidle.lineOpen)
  back _ hs := hs.same hL rfl rfl id rfl

/-- Every story that a run leads to is orderly, where `L` holds whenever a continue with a
limit of time is refused. -/
theorem Run.orderly {A : HostCall → Story → Prop} (hL : LineInvariant P L)
    (hrefused : ∀ call s, A call s → call.IsLimited → s.lineOpen = false →
      s.state.canContinue = false → L s) {s : Story} (hs : Run P A s) : s.Orderly L :=
  hL.callInvariant.run (fun _ _ => .of_idle rfl rfl) hrefused hs

end StoryMachine
