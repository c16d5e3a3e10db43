import StoryMachine.Proofs.Story.Executions
import StoryMachine.Proofs.Story.UnsafeCalls

/-!
# What lasts

What holds of a state is kept if the changes of a step leave it true, assignments apart, and if the
assignments do so that are made. All calls of a host then leave it true. As it holds of the state
kept in front of a line too, a state that is taken back does not lose it. It lasts, whatever is
assigned, if nothing matters to it but the threads, the choices and the visits counted.

* `Story.KeptByLines` : what the parts of lines leave true;
* `State.Matches` : states with the same call stack, variables, choices and counts;
* `State.Kept` : what is kept where steps are made from stories of some kind;
* `Story.Keeps` : it holds of the state, and of the state kept;
* `State.Kept.of_leads` : the calls of a host leave it true, and it holds wherever they make a
  step, if it holds of what is loaded and restored, of the start, and where a variable is set;
* `State.Resembles` : states with the same threads, choices and visits, frames apart;
* `State.Lasting` : what lasts, whatever is assigned;
* `State.Lasting.callInvariant` : the calls of a host leave it true in every run;
* `State.Lasting.keptByLines` : it holds wherever a call makes a step.
-/

namespace StoryMachine

/-- The second state has the threads of the first one, its choices and its visits. The frames of
the current thread may differ. -/
structure State.Resembles (s u : State) : Prop where
  current : u.callStack.current.index = s.callStack.current.index
  others : u.callStack.others = s.callStack.others
  made : u.callStack.made = s.callStack.made
  choices : u.choices = s.choices
  visits : u.visits = s.visits

theorem State.Resembles.of_eq {s u : State} (hstack : u.callStack = s.callStack)
    (hchoices : u.choices = s.choices) (hvisits : u.visits = s.visits) : s.Resembles u :=
  ⟨by rw [hstack], by rw [hstack], by rw [hstack], hchoices, hvisits⟩

/-- It holds of the state, and of the state kept. -/
structure Story.Keeps (G : Content → State → Prop) (s : Story) : Prop where
  state : G s.content s.state
  lineState {kept : State} (h : s.lineState = some kept) : G s.content kept

/-- Dropping a frame leaves the number of the thread, and the other threads. -/
theorem CallStack.threads_of_pop {s u : CallStack} (h : s.pop = .ok u) :
    u.current.index = s.current.index ∧ u.others = s.others ∧ u.made = s.made := by
  unfold pop at h
  split at h
  · cases h
    exact ⟨rfl, rfl, rfl⟩
  · cases h

/-- A call that makes steps of a line begins the line, or goes on with it. -/
theorem HostCall.steps_cases (call : HostCall) (s : Story) : call.steps s = [] ∨
    ∃ limited nodes t, Flow.openLine limited s = .ok () t ∧ call.steps s = t.steps nodes := by
  unfold steps
  split
  · next limited nodes _ _ =>
    cases hopen : Flow.openLine limited s with
    | ok _ t => exact .inr ⟨limited, nodes, t, hopen, rfl⟩
    | error e t => exact .inl rfl
  · exact .inl rfl

/-! ## Where steps are made -/

namespace Story

/-- The parts of lines leave `I` true: their beginning, their steps, whole lines, and the way to the
global declarations. -/
structure KeptByLines (I : Story → Prop) : Prop where
  opened {limited : Bool} {s u : Story} (h : I s) (hopen : Flow.openLine limited s = .ok () u) : I u
  step {s : Story} (h : I s) : I (Flow.lineStep.after s)
  next {s : Story} (h : I s) : I (Flow.next.after s)
  declared {s : Story} (h : I s) :
    I ((Flow.jumpTo (Path.parse declarationsName) false).after s)

namespace KeptByLines

variable {I : Story → Prop} (hI : KeptByLines I) {s v : Story}

include hI

theorem passes {nodes : Nat} (h : I s) (hv : s.Passes nodes v) : I v := by
  induction hv with
  | here => exact h
  | step hgo _ ih =>
    refine ih ?_
    rw [← Flow.after_of_ok (Flow.lineStep_of_goesOn? hgo).1]
    exact hI.step h

theorem visits {limited : Bool} {nodes : Nat} (h : I s) (hv : s.Visits limited nodes v) : I v := by
  obtain ⟨t, hopen, hpasses⟩ := hv
  exact hI.passes (hI.opened h hopen) hpasses

theorem visitsLines (h : I s) (hv : s.VisitsLines v) : I v := by
  induction hv with
  | here hv => exact hI.visits h hv
  | next hrun _ ih =>
    refine ih ?_
    rw [← Flow.after_of_ok hrun]
    exact hI.next h

theorem visitsDeclarations (h : I s) (hv : s.VisitsDeclarations v) : I v := by
  obtain ⟨-, t, hjump, hvisits⟩ := hv
  refine hI.visits ?_ hvisits
  rw [← Flow.after_of_ok hjump]
  exact hI.declared h

/-- What holds in front of a call holds wherever the call makes a step. -/
theorem visitsCall {call : HostCall} (h : I s) (hv : call.Visits s v)
    (hstart : ∀ seed, call = .resetState seed → I { s with state := .start seed }) : I v := by
  cases call with
  | next => exact hI.visits h hv
  | nextTagged => exact hI.visits h hv
  | nextAll => exact hI.visitsLines h hv
  | continueFor limited => exact hI.visits h hv
  | continueSlice more => exact hI.visits h hv
  | resetState seed => exact hI.visitsDeclarations (hstart seed rfl) hv
  | _ => exact hv.elim

end KeptByLines

end Story

/-! ## What lasts -/

variable {G : Content → State → Prop} {s u : Story}

namespace Story.Keeps

theorem of_state (h : s.Keeps G) (hcontent : u.content = s.content) (hstate : G s.content u.state)
    (hkept : u.lineState = s.lineState) : u.Keeps G :=
  ⟨hcontent ▸ hstate, fun hu => hcontent ▸ h.lineState (hkept ▸ hu)⟩

/-- Without a state kept the state is all there is. -/
theorem of_none (hstate : G s.content s.state) (hnone : s.lineState = none) : s.Keeps G :=
  ⟨hstate, fun hkept => nomatch hnone.symm.trans hkept⟩

theorem mono {H : Content → State → Prop} (h : s.Keeps G) (hG : ∀ c state, G c state → H c state) :
    s.Keeps H :=
  ⟨hG _ _ h.state, fun hkept => hG _ _ (h.lineState hkept)⟩

/-- The state may be kept, or not any longer. -/
theorem keepLineState (h : s.Keeps G) : s.keepLineState.Keeps G := by
  unfold Story.keepLineState
  split
  · split
    · exact .of_none h.state rfl
    · split
      · exact ⟨h.state, fun hkept => Option.some.inj hkept ▸ h.state⟩
      · exact h
  · exact h

section TakenBack

variable (hcarry : ∀ {c : Content} {kept later : State}, G c kept → G c (kept.carryMessages later))

include hcarry

/-- A state that is taken back keeps the messages. -/
theorem restoreLineState (h : s.Keeps G) : s.restoreLineState.Keeps G := by
  unfold Story.restoreLineState
  split
  · next kept hkept => exact .of_none (hcarry (h.lineState hkept)) rfl
  · exact h

theorem watchLine (h : s.Keeps G) : s.watchLine.2.Keeps G := by
  unfold Story.watchLine
  split
  · exact h.keepLineState
  · dsimp only
    split
    · exact h.restoreLineState hcarry
    · split
      · have hdropped : ({ s with lineState := none } : Story).Keeps G := .of_none h.state rfl
        exact hdropped.keepLineState
      · exact h.keepLineState

/-- What a step leaves true is true behind the step of a line. -/
theorem lineStep (h : s.Keeps G) (hstep : G s.content s.stepped.state) :
    (Flow.lineStep.after s).Keeps G := by
  have hplain : s.stepped.Keeps G :=
    have hchanges := Flow.changes_plainStep s
    h.of_state hchanges.content_eq hstep hchanges.lineState_eq
  cases hrun : Flow.lineStep s with
  | error e u =>
    rw [Story.stepped, Flow.after_of_error (Flow.plainStep_of_lineStep_error hrun)] at hplain
    rwa [Flow.after_of_error hrun]
  | ok ended u =>
    rw [Flow.after_of_ok hrun]
    obtain ⟨v, hv, ⟨-, -, rfl⟩ | ⟨-, -, hwatch⟩⟩ := Flow.lineStep_cases hrun
    · rwa [Story.stepped, Flow.after_of_ok hv] at hplain
    · rw [Story.stepped, Flow.after_of_ok hv] at hplain
      have hwatched := hplain.watchLine hcarry
      rwa [hwatch] at hwatched

end TakenBack

end Story.Keeps

/-- The states have the same call stack, global variables, choices and counts. -/
structure State.Matches (s u : State) : Prop where
  callStack : u.callStack = s.callStack
  globals : u.vars.globals = s.vars.globals
  defaults : u.vars.defaults = s.vars.defaults
  choices : u.choices = s.choices
  visits : u.visits = s.visits
  turns : u.turns = s.turns
  turn : u.turn = s.turn

theorem State.Matches.of_eq {s u : State} (hstack : u.callStack = s.callStack)
    (hvars : u.vars = s.vars) (hchoices : u.choices = s.choices) (hvisits : u.visits = s.visits)
    (hturns : u.turns = s.turns) (hturn : u.turn = s.turn) : s.Matches u :=
  ⟨hstack, by rw [hvars], by rw [hvars], hchoices, hvisits, hturns, hturn⟩

/-- What holds of a state over some content, and stays true whatever a step changes, assignments
apart, and behind steps from stories that satisfy `P`. A call of a function pushes a frame, and
drops it. Turns are counted between lines only. -/
structure State.Kept (P : Story → Prop) (G : Content → State → Prop) : Prop where
  same {c : Content} {s u : State} (h : G c s) (hsame : s.Matches u) : G c u
  frame {c : Content} {s : State} (h : G c s) (height start : Nat) :
    G c { s with callStack := s.callStack.push .hostCall height start }
  drop {c : Content} {s : State} {stack : CallStack} (h : G c s)
    (hpop : s.callStack.pop = .ok stack) : G c { s with callStack := stack }
  settle {c : Content} {s : State} (h : G c s) : G c { s with vars := s.vars.settle }
  change {c : Content} {fx : Effects} {s u : State} (hfx : fx.assigns = false)
    (hturns : fx.turns = false) (h : G c s) (hchange : StateChange c fx s u) : G c u
  step {s : Story} (h : G s.content s.state) (hP : P s) : G s.content s.stepped.state

namespace State.Kept

variable {P : Story → Prop} (hG : State.Kept P G)

include hG

/-! ## States -/

theorem move {c : Content} {s : State} (h : G c s) (place : Option Cursor) :
    G c (s.setCursor place) :=
  hG.change rfl rfl h (.move s place : StateChange c .still s (s.setCursor place))

theorem fail {c : Content} {s : State} (h : G c s) (t : ContentTree) (e : StoryError) :
    G c (s.fail t e) :=
  hG.change rfl rfl (hG.same h (u := { s with
    errors := s.errors ++ [s.located t "ERROR" e.detail]
    firstError := s.firstError.or (some e) }) (.of_eq rfl rfl rfl rfl rfl rfl))
      (StateChange.finish _ : StateChange c .still _ _)

theorem checkEnd {c : Content} {s : State} (h : G c s) (t : ContentTree) : G c (s.checkEnd t) := by
  unfold State.checkEnd
  split
  · exact h
  · dsimp only
    split
    · split
      · exact hG.fail (hG.fail h t _) t _
      · exact hG.fail h t _
    · split
      · exact hG.fail h t _
      · exact h

/-! ## Lines -/

theorem changes {c : Content} {fx : Effects} (hfx : fx.assigns = false)
    (hturn : fx.turns = true → ∀ {c state}, G c state → G c { state with turn := state.turn + 1 })
    (h : s.Keeps G) (hc : s.content = c) (hchanges : Changes c fx s u) : u.Keeps G := by
  induction hchanges with
  | refl => exact h
  | @tail v w hchanges hchange ih =>
    have hv : v.content = c := (Changes.content_eq hchanges).trans hc
    cases hchange with
    | @state state hstate =>
      refine ih.of_state rfl ?_ rfl
      let still : Effects := { fx with turns := false }
      rcases hstate.or_turn still id id with hstill | ⟨hcounts, rfl⟩
      · exact hG.change (show still.assigns = false from hfx) rfl ih.state (hv ▸ hstill)
      · exact hturn hcounts ih.state
    | called | wait | unsafeCall => exact ih.of_state rfl ih.state rfl

/-- A state that is taken back keeps the messages. -/
theorem carry {c : Content} {kept later : State} (h : G c kept) : G c (kept.carryMessages later) :=
  hG.same h (.of_eq rfl rfl rfl rfl rfl rfl)

theorem closeLine (h : s.Keeps G) : s.closeLine.Keeps G := by
  have hback := h.restoreLineState hG.carry
  have hcontent : s.restoreLineState.content = s.content := by
    unfold Story.restoreLineState
    split
    · rfl
    · rfl
  have hvars : s.closeLine.state.vars =
      (s.restoreLineState.state.checkEnd s.restoreLineState.tree).vars.unwatch := rfl
  obtain ⟨vars, events, heq⟩ := s.closeLine_eq_checkEnd
  rw [Story.tree, hcontent, ← Story.tree, heq] at hvars
  rw [heq]
  have hend : G s.content (s.restoreLineState.state.checkEnd s.tree) :=
    hG.checkEnd (hcontent ▸ hback.state) s.tree
  have hvalues : vars.globals = (s.restoreLineState.state.checkEnd s.tree).vars.globals ∧
      vars.defaults = (s.restoreLineState.state.checkEnd s.tree).vars.defaults := by
    rw [show vars = (s.restoreLineState.state.checkEnd s.tree).vars.unwatch from hvars]
    exact ⟨rfl, rfl⟩
  exact .of_none (hG.same hend ⟨rfl, hvalues.1, hvalues.2, rfl, rfl, rfl, rfl⟩) rfl

theorem endLine (h : s.Keeps G) (ended : Bool) : (s.endLine ended).Keeps G := by
  unfold Story.endLine
  split
  · exact hG.closeLine h
  · exact h

theorem openLine {limited : Bool} (h : s.Keeps G) (hopen : Flow.openLine limited s = .ok () u) :
    u.Keeps G := by
  rcases Flow.openLine_cases hopen with ⟨-, rfl⟩ | ⟨-, -, rfl⟩
  · exact h.of_state rfl h.state rfl
  · obtain ⟨warnings, heq⟩ := ({ s with lineOpen := limited } : Story).freshLine_eq
    rw [heq]
    exact h.of_state rfl (hG.same h.state ⟨rfl, rfl, rfl, rfl, rfl, rfl, rfl⟩) rfl

theorem lineStep (h : s.Keeps G) (hP : P s) : (Flow.lineStep.after s).Keeps G :=
  h.lineStep hG.carry (hG.step h.state hP)

theorem runLine (nodes : Nat) (h : s.Keeps G) (hP : ∀ v ∈ s.steps nodes, P v) :
    ((Flow.runLine nodes).after s).Keeps G := by
  induction nodes generalizing s with
  | zero => exact h.of_state rfl h.state rfl
  | succ nodes ih =>
    rw [Story.steps, List.forall_mem_cons] at hP
    have hkeeps := hG.lineStep h hP.1
    unfold Flow.runLine
    cases hstep : Flow.lineStep s with
    | error e t =>
      rw [Flow.after_of_error hstep] at hkeeps
      rw [Flow.after_bind_ok (Flow.attempt_error hstep)]
      exact hkeeps.of_state rfl (hG.fail hkeeps.state _ _) rfl
    | ok ended t =>
      rw [Flow.after_of_ok hstep] at hkeeps
      rw [Flow.after_bind_ok (Flow.attempt_ok hstep)]
      dsimp only
      rw [Flow.after_bind_ok (Flow.get_ok t)]
      split
      · exact hkeeps.of_state rfl hkeeps.state rfl
      · next hpending =>
        cases ended with
        | true => exact hkeeps
        | false =>
          rw [if_neg Bool.false_ne_true, Flow.after_bind_ok (Flow.state_ok t)]
          cases hcontinue : t.state.canContinue with
          | false => exact hkeeps
          | true =>
            have hgo := Story.goesOn?_eq hstep (by simpa using hpending) hcontinue
            rw [hgo] at hP
            exact ih hkeeps hP.2

theorem continueLine {limited : Bool} {nodes : Nat} (h : s.Keeps G)
    (hP : ∀ t, Flow.openLine limited s = .ok () t → ∀ v ∈ t.steps nodes, P v) :
    ((Flow.continueLine limited nodes).after s).Keeps G := by
  cases hopen : Flow.openLine limited s with
  | ok _ t =>
    obtain ⟨ended, -, hafter⟩ := Flow.after_continueLine nodes hopen
    have hend := hG.endLine (hG.runLine nodes (hG.openLine h hopen) (hP t hopen)) ended
    obtain ⟨warnings, events, shown, hreport⟩ :=
      Flow.after_reportIssues (((Flow.runLine nodes).after t).endLine ended)
    rw [hafter, hreport]
    exact hend.of_state rfl (hG.same hend.state (.of_eq rfl rfl rfl rfl rfl rfl)) rfl
  | error e t =>
    rw [Flow.after_continueLine_refused hopen]
    exact h.of_state rfl h.state rfl

/-- A call that continues one line. -/
theorem line (call : HostCall) {limited : Bool} {nodes : Nat}
    (hcall : call.line? = some (limited, nodes)) (hpending : s.pending = none) (h : s.Keeps G)
    (hP : ∀ v ∈ call.steps s, P v) : ((Flow.continueLine limited nodes).after s).Keeps G := by
  refine hG.continueLine h fun t hopen v hv => hP v ?_
  unfold HostCall.steps
  rw [hcall, hpending]
  dsimp only
  rwa [hopen]

theorem next (h : s.Keeps G) (hP : ∀ v ∈ HostCall.next.steps s, P v) :
    (Flow.next.after s).Keeps G := by
  rw [Flow.after_next]
  exact Flow.holds_refuseWaiting h fun hpending =>
    hG.line .next rfl hpending h hP

/-- It holds wherever a line makes a step. -/
theorem atSteps {nodes : Nat} (h : s.Keeps G) (hP : ∀ v ∈ s.steps nodes, P v) :
    ∀ v ∈ s.steps nodes, v.Keeps G := by
  induction nodes generalizing s with
  | zero => exact List.forall_mem_nil _
  | succ nodes ih =>
    rw [Story.steps, List.forall_mem_cons] at hP ⊢
    refine ⟨h, ?_⟩
    cases hgo : s.goesOn? with
    | none => exact List.forall_mem_nil _
    | some t =>
      rw [hgo] at hP
      have hstep := hG.lineStep h hP.1
      rw [Flow.after_of_ok (Flow.lineStep_of_goesOn? hgo).1] at hstep
      exact ih hstep hP.2

theorem atLineSteps {call : HostCall} (h : s.Keeps G) (hP : ∀ v ∈ call.steps s, P v) :
    ∀ v ∈ call.steps s, v.Keeps G := by
  rcases call.steps_cases s with hnone | ⟨limited, nodes, t, hopen, hsteps⟩
  · rw [hnone]
    exact List.forall_mem_nil _
  · rw [hsteps] at hP ⊢
    exact hG.atSteps (hG.openLine h hopen) hP

theorem lines (h : s.Keeps G) (budget : Nat) (text : String) (hP : ∀ v ∈ s.linesSteps budget, P v) :
    ((Flow.collectLines text budget).after s).Keeps G ∧ ∀ v ∈ s.linesSteps budget, v.Keeps G := by
  refine Story.linesSteps_induction
    (R := fun s steps u => s.Keeps G → (∀ v ∈ steps, P v) → u.Keeps G ∧ ∀ v ∈ steps, v.Keeps G)
    (fun _ h _ => ⟨h, List.forall_mem_nil _⟩) (fun s h hP => ⟨hG.next h hP, hG.atLineSteps h hP⟩)
    (fun hfront hrest h hP => ?_) budget text s h hP
  rw [List.forall_mem_append] at hP ⊢
  obtain ⟨ht, hfront⟩ := hfront h hP.1
  obtain ⟨hu, hrest⟩ := hrest ht hP.2
  exact ⟨hu, hfront, hrest⟩

/-! ## Calls of functions, and the global declarations -/

/-- What is kept over the content of a story is kept with the story over this content. -/
theorem withContent (c : Content) : State.Kept P fun c' state => c' = c ∧ G c' state where
  same h hsame := ⟨h.1, hG.same h.2 hsame⟩
  frame h height start := ⟨h.1, hG.frame h.2 height start⟩
  drop h hpop := ⟨h.1, hG.drop h.2 hpop⟩
  settle h := ⟨h.1, hG.settle h.2⟩
  change hfx hturns h hchange := ⟨h.1, hG.change hfx hturns h.2 hchange⟩
  step h hP := ⟨h.1, hG.step h.2 hP⟩

theorem startCall (h : s.Keeps G) (knot : NodeId) (arguments : List Value) :
    ((Flow.startCall knot arguments).after s).Keeps G := by
  obtain ⟨evaluation, hstart⟩ := Flow.after_startCall knot arguments s
  rw [hstart]
  have hframe := hG.frame h.state s.state.evaluation.length 0
  have hplace := hG.move hframe (some (.start knot))
  exact h.of_state rfl (hG.same hplace ⟨rfl, rfl, rfl, rfl, rfl, rfl, rfl⟩) rfl

theorem finishCall (h : s.Keeps G) : (Flow.finishCall.after s).Keeps G := by
  obtain ⟨evaluation, stack, hfinish, hstack⟩ := Flow.after_finishCall s
  rw [hfinish]
  rcases hstack with hsame | hpop
  · exact h.of_state rfl (hG.same h.state ⟨hsame, rfl, rfl, rfl, rfl, rfl, rfl⟩) rfl
  · exact h.of_state rfl (hG.same (hG.drop h.state hpop) ⟨rfl, rfl, rfl, rfl, rfl, rfl, rfl⟩) rfl

/-- A call of a function starts and finishes in the current thread, or is given up for the state
in front of it. -/
theorem called {arguments : List Value} {steps : List Story} (h : s.Keeps G)
    (hP : ∀ v ∈ steps, P v) (hcalled : s.Called arguments steps u) :
    u.Keeps G ∧ ∀ v ∈ steps, v.Keeps G := by
  -- The content is the same all along, so that the state in front of the call can be put back.
  let G' : Content → State → Prop := fun c state => c = s.content ∧ G c state
  have hG' : State.Kept P G' := hG.withContent s.content
  have hs : s.Keeps G' := ⟨⟨rfl, h.state⟩, fun hkept => ⟨rfl, h.lineState hkept⟩⟩
  have hback {v : Story} (hv : v.Keeps G') : (v.abandoned s.state).Keeps G' :=
    .of_none ⟨hv.state.1, hv.state.1 ▸ h.state⟩ rfl
  have hlines {knot : NodeId} {t : Story} (hstart : Flow.startCall knot arguments s = .ok () t)
      (hP : ∀ v ∈ t.linesSteps Flow.lineBudget, P v) :
      ((Flow.collectLines "" Flow.lineBudget).after t).Keeps G' ∧
        ∀ v ∈ t.linesSteps Flow.lineBudget, v.Keeps G' := by
    have ht := hG'.startCall hs knot arguments
    rw [Flow.after_of_ok hstart] at ht
    exact hG'.lines ht Flow.lineBudget "" hP
  have hkeeps {v : Story} (hv : v.Keeps G') : v.Keeps G := hv.mono fun _ _ => And.right
  suffices hends : u.Keeps G' ∧ ∀ v ∈ steps, v.Keeps G' from
    ⟨hkeeps hends.1, fun v hv => hkeeps (hends.2 v hv)⟩
  cases hcalled with
  | missing => exact ⟨hs, List.forall_mem_nil _⟩
  | @failed knot e t hstart =>
    have ht := hG'.startCall hs knot arguments
    rw [Flow.after_of_error hstart] at ht
    exact ⟨hback ht, List.forall_mem_nil _⟩
  | abandoned hstart =>
    obtain ⟨hends, hsteps⟩ := hlines hstart hP
    exact ⟨hback hends, hsteps⟩
  | @finished knot t v hstart hv =>
    obtain ⟨hends, hsteps⟩ := hlines hstart hP
    rw [← hv] at hends
    exact ⟨hG'.finishCall (hends.of_state rfl (hG'.same hends.state (.of_eq rfl rfl rfl rfl rfl rfl)) rfl),
      hsteps⟩

theorem jumpTo (h : s.Keeps G) (p : Path) : ((Flow.jumpTo p false).after s).Keeps G := by
  have hchanges : Changes s.content .still s ((Flow.jumpTo p false).after s) :=
    Flow.within_jumpTo p Bool.noConfusion s rfl
  exact hG.changes rfl Bool.noConfusion h rfl hchanges

theorem declared {steps : List Story} (hpending : s.pending = none) (h : s.Keeps G)
    (hP : ∀ v ∈ steps, P v) (hdeclared : s.Declared steps u) :
    u.Keeps G ∧ ∀ v ∈ steps, v.Keeps G := by
  have hline {t : Story} (hjump : Flow.jumpTo (Path.parse declarationsName) false s = .ok () t)
      (hP : ∀ v ∈ HostCall.next.steps t, P v) :
      ((Flow.continueLine false Flow.nodeBudget).after t).Keeps G ∧
        ∀ v ∈ HostCall.next.steps t, v.Keeps G := by
    have hchanges : Changes s.content .silent s
        ((Flow.jumpTo (Path.parse declarationsName) false).after s) :=
      Flow.within_jumpTo _ Bool.noConfusion s rfl
    have ht := hG.jumpTo h (Path.parse declarationsName)
    rw [Flow.after_of_ok hjump] at ht hchanges
    have hidle : t.pending = none := by rw [(hchanges.state_only rfl).2]; exact hpending
    exact ⟨hG.line .next rfl hidle ht hP, hG.atLineSteps ht hP⟩
  cases hdeclared with
  | absent => exact ⟨h.of_state rfl (hG.settle h.state) rfl, List.forall_mem_nil _⟩
  | failed hjump =>
    have ht := hG.jumpTo h (Path.parse declarationsName)
    rw [Flow.after_of_error hjump] at ht
    exact ⟨ht, List.forall_mem_nil _⟩
  | stopped _ hjump => exact hline hjump hP
  | done _ hjump hv =>
    obtain ⟨hends, hsteps⟩ := hline hjump hP
    rw [← hv] at hends
    have hplace := hG.move hends.state s.state.cursor
    exact ⟨hends.of_state rfl (hG.settle hplace) rfl, hsteps⟩

/-- What is kept holds of a new story if it holds of the start. -/
theorem ofContent {content : Content} {seed : Int32} (hstart : G content (.start seed))
    (hP : ∀ v ∈ (Story.unstarted content seed).declarationSteps, P v)
    (h : Story.ofContent content seed = .ok s) : s.Keeps G := by
  obtain ⟨v, warnings, hv, rfl⟩ := Story.ofContent_ok h
  have hunstarted : (Story.unstarted content seed).Keeps G := .of_none hstart rfl
  obtain ⟨hdeclared, -⟩ := hG.declared rfl hunstarted hP (Story.declared _)
  rw [Flow.after_of_ok hv] at hdeclared
  exact hdeclared.of_state rfl (hG.same hdeclared.state (.of_eq rfl rfl rfl rfl rfl rfl)) rfl

/-! ## Every call -/

/-- The calls of a host leave true what is kept, and it holds wherever a call makes a step, if it
holds of what is loaded and restored, of the start, where a variable is set, and where a turn is
counted. -/
theorem of_leads {call : HostCall} {steps : List Story} (h : s.Keeps G) (hP : ∀ v ∈ steps, P v)
    (hset : ∀ name v vars, call = .setVariable name v → s.state.vars.set name v = .ok vars →
      G s.content { s.state with vars })
    (hload : ∀ text state, call = .load text → s.state.ofText s.tree text = .ok state →
      G s.content state)
    (hrestore : ∀ snapshot, call = .restore snapshot → G s.content snapshot.state)
    (hstart : ∀ seed, call = .resetState seed → G s.content (.start seed))
    (hturn : call.effects.turns = true →
      ∀ {c state}, G c state → G c { state with turn := state.turn + 1 })
    (hleads : call.Leads s steps u) : u.Keeps G ∧ ∀ v ∈ steps, v.Keeps G := by
  cases hleads with
  | line hcall hpending => exact ⟨hG.line call hcall hpending h hP, hG.atLineSteps h hP⟩
  | lines => exact hG.lines h Flow.lineBudget "" hP
  | called hcalled => exact hG.called h hP hcalled
  | @declared seed _ _ hpending hdeclared =>
    let fresh : Story := { s with state := .start seed }
    have hfresh : fresh.Keeps G := h.of_state rfl (hstart seed rfl) rfl
    exact hG.declared (s := fresh) hpending hfresh hP hdeclared
  | loaded hread => exact ⟨h.of_state rfl (hload _ _ rfl hread) rfl, List.forall_mem_nil _⟩
  | restored snapshot => exact ⟨h.of_state rfl (hrestore snapshot rfl) rfl, List.forall_mem_nil _⟩
  | @set name v vars w hvars hw =>
    obtain ⟨events, hlog⟩ := w.logAll_eq (w.notifications (name, v))
    rw [hlog, hw]
    exact ⟨h.of_state rfl (hset name v vars rfl hvars) rfl, List.forall_mem_nil _⟩
  | moves _ hmoves =>
    exact ⟨hG.changes call.assigns_effects hturn h rfl hmoves, List.forall_mem_nil _⟩
  | aside _ haside =>
    obtain ⟨evaluation, errors, warnings, firstError, hstate⟩ := haside.state
    refine ⟨h.of_state haside.content ?_ haside.lineState, List.forall_mem_nil _⟩
    rw [hstate]
    exact hG.same h.state ⟨rfl, rfl, rfl, rfl, rfl, rfl, rfl⟩

end State.Kept

/-! ## What lasts, whatever is assigned -/

/-- What holds of a state over some content, and stays true of all states like it, and whatever a
step changes. -/
structure State.Lasting (G : Content → State → Prop) : Prop where
  same {c : Content} {s u : State} (h : G c s) (hsame : s.Resembles u) : G c u
  change {c : Content} {fx : Effects} {s u : State} (h : G c s) (hchange : StateChange c fx s u) :
    G c u

namespace State.Lasting

variable (hG : State.Lasting G)

include hG

theorem changes {c : Content} {fx : Effects} (h : G c s.state) (hchanges : Changes c fx s u) :
    G c u.state := by
  induction hchanges with
  | refl => exact h
  | tail _ hchange ih =>
    cases hchange with
    | state hstate => exact hG.change ih hstate
    | called | wait | unsafeCall => exact ih

theorem turn {c : Content} {state : State} (h : G c state) :
    G c { state with turn := state.turn + 1 } :=
  hG.change h (.turn state rfl : StateChange c .silent state _)

/-- What lasts is kept, from whatever stories steps are made. -/
theorem kept : State.Kept (fun _ => True) G where
  same h hsame := hG.same h (.of_eq hsame.callStack hsame.choices hsame.visits)
  frame h _ _ := hG.same h ⟨rfl, rfl, rfl, rfl, rfl⟩
  drop h hpop :=
    have hthreads := CallStack.threads_of_pop hpop
    hG.same h ⟨hthreads.1, hthreads.2.1, hthreads.2.2, rfl, rfl⟩
  settle h := hG.same h (.of_eq rfl rfl rfl)
  change _ _ h hchange := hG.change h hchange
  step {s} h _ := hG.changes h (Flow.changes_plainStep s)

/-- What lasts over the content of a story lasts with the story over this content. -/
theorem withContent (c : Content) : State.Lasting fun c' state => c' = c ∧ G c' state :=
  ⟨fun h hsame => ⟨h.1, hG.same h.2 hsame⟩, fun h hchange => ⟨h.1, hG.change h.2 hchange⟩⟩

/-! ## Every call -/

/-- The calls of a host leave true what lasts, if it holds of what is loaded and restored, and of
the start. -/
theorem callInvariant {P R : Story → Prop} {A : HostCall → Story → Prop}
    (hload : ∀ (s : Story) text state, A (.load text) s → s.Keeps G →
      s.state.ofText s.tree text = .ok state → G s.content state)
    (hrestore : ∀ s snapshot, A (.restore snapshot) s → s.Keeps G → G s.content snapshot.state)
    (hstart : ∀ s seed, A (.resetState seed) s → s.Keeps G → G s.content (.start seed)) :
    Story.CallInvariant P A R fun s => s.Orderly (fun _ => True) ∧ s.Keeps G := by
  have horderly : Story.CallInvariant P A (fun _ => True) (Story.Orderly fun _ => True) :=
    Flow.trivialLine.callInvariant
  exact {
    same := fun hs h => ⟨horderly.same hs.1 h,
      hs.2.of_state h.content (hG.same hs.2.state (.of_eq h.callStack h.choices h.visits))
        h.lineState⟩
    silent := fun hs hidle hchanges => ⟨horderly.silent hs.1 hidle hchanges,
      hG.kept.changes rfl (fun _ _ _ h => hG.turn h) hs.2 rfl hchanges⟩
    line := fun hnodes hs hpending _ hvisits =>
      ⟨horderly.line hnodes hs.1 hpending (fun _ _ _ => trivial) hvisits,
        hG.kept.continueLine hs.2 fun _ _ _ _ => trivial⟩
    evaluate := fun {s} name arguments hs hidle => ⟨horderly.evaluate name arguments hs.1 hidle,
      (hG.kept.called hs.2 (fun _ _ => trivial) (s.called name arguments)).1⟩
    load := fun hallowed hs hidle hread => ⟨horderly.load hallowed hs.1 hidle hread,
      hs.2.of_state rfl (hload _ _ _ hallowed hs.2 hread) rfl⟩
    restore := fun hallowed hs hidle hkey => ⟨horderly.restore hallowed hs.1 hidle hkey,
      hs.2.of_state rfl (hrestore _ _ hallowed hs.2) rfl⟩
    start := fun hallowed hs hidle => ⟨horderly.start hallowed hs.1 hidle,
      hs.2.of_state rfl (hstart _ _ hallowed hs.2) rfl⟩
    back := fun place hs => ⟨horderly.back place hs.1,
      hs.2.of_state rfl (hG.same hs.2.state ⟨rfl, rfl, rfl, rfl, rfl⟩) rfl⟩ }

theorem keptByLines : Story.KeptByLines fun u => u.Keeps G where
  opened h hopen := hG.kept.openLine h hopen
  step h := hG.kept.lineStep h trivial
  next h := hG.kept.next h fun _ _ => trivial
  declared h := hG.kept.jumpTo h _

end State.Lasting

end StoryMachine
