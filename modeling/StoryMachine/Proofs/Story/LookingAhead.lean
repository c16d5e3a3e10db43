import StoryMachine.Proofs.Story.OnceOnly

/-!
# Looking ahead

Behind a line end the machine keeps the state and goes on, and what it does there may be taken back.
As long as a state is kept, the story has come from it by steps, and by what leaves lines alone. So
what is kept from any state on leads from the state kept to the state, whatever the host calls.

* `Story.LooksAhead` : a relation that leads from the state kept to the state;
* `Story.LooksAhead.continueLine` : lines respect it;
* `Story.LooksAhead.after_call` : calls do so, those apart that bring in a state.
-/

namespace StoryMachine

/-- Where a state is kept, `R` leads from there to the state. -/
def Story.LooksAhead (R : State → Content → State → Prop) (s : Story) : Prop :=
  ∀ kept, s.lineState = some kept → R kept s.content s.state

variable {R : State → Content → State → Prop} {s u : Story}

namespace Story.LooksAhead

theorem of_none (h : s.lineState = none) : s.LooksAhead R :=
  fun _ hkept => nomatch h.symm.trans hkept

section Kept

variable (hR : ∀ base, State.Kept (fun _ => True) (R base)) (hrefl : ∀ base c, R base c base)

include hrefl

/-- What leads from the state kept to the state holds of both. -/
theorem keeps (h : s.LooksAhead R) {kept : State} (hkept : s.lineState = some kept) :
    s.Keeps (R kept) where
  state := h kept hkept
  lineState hsame := Option.some.inj (hkept.symm.trans hsame) ▸ hrefl kept s.content

/-- What keeps the relations from all states, and leaves the state kept alone. -/
theorem of_keeps (h : s.LooksAhead R) (hsame : u.lineState = s.lineState)
    (hkeeps : ∀ base, s.Keeps (R base) → u.Keeps (R base)) : u.LooksAhead R :=
  fun kept hkept => (hkeeps kept (h.keeps hrefl (hsame.symm.trans hkept))).state

/-! ## Lines -/

theorem keepLineState (h : s.LooksAhead R) : s.keepLineState.LooksAhead R := by
  unfold Story.keepLineState
  split
  · split
    · exact of_none rfl
    · split
      · intro kept hkept
        cases hkept
        exact hrefl s.state s.content
      · exact h
  · exact h

theorem watchLine (h : s.LooksAhead R) : s.watchLine.2.LooksAhead R := by
  unfold Story.watchLine
  split
  · exact h.keepLineState hrefl
  · dsimp only
    split
    · obtain ⟨state, hrestore⟩ := s.restoreLineState_eq
      rw [hrestore]
      exact of_none rfl
    · split
      · have hdropped : ({ s with lineState := none } : Story).LooksAhead R := of_none rfl
        exact hdropped.keepLineState hrefl
      · exact h.keepLineState hrefl

omit hrefl in
theorem endLine (h : s.LooksAhead R) (ended : Bool) : (s.endLine ended).LooksAhead R := by
  unfold Story.endLine
  split
  · obtain ⟨state, events, hclose, -⟩ := s.closeLine_eq
    rw [hclose]
    exact of_none rfl
  · exact h

include hR

theorem stepped (h : s.LooksAhead R) : s.stepped.LooksAhead R :=
  have hchanges := Flow.changes_plainStep s
  h.of_keeps hrefl hchanges.lineState_eq fun base hs =>
    hs.of_state hchanges.content_eq ((hR base).step hs.state trivial) hchanges.lineState_eq

theorem lineStep (h : s.LooksAhead R) : (Flow.lineStep.after s).LooksAhead R := by
  have hplain := h.stepped hR hrefl
  cases hstep : Flow.lineStep s with
  | error e u =>
    rw [Story.stepped, Flow.after_of_error (Flow.plainStep_of_lineStep_error hstep)] at hplain
    rwa [Flow.after_of_error hstep]
  | ok ended u =>
    rw [Flow.after_of_ok hstep]
    obtain ⟨v, hv, ⟨-, -, rfl⟩ | ⟨-, -, hwatch⟩⟩ := Flow.lineStep_cases hstep
    · rwa [Story.stepped, Flow.after_of_ok hv] at hplain
    · rw [Story.stepped, Flow.after_of_ok hv] at hplain
      have hwatched := hplain.watchLine hrefl
      rwa [hwatch] at hwatched

theorem runLine (nodes : Nat) (h : s.LooksAhead R) :
    ((Flow.runLine nodes).after s).LooksAhead R :=
  Flow.runLine_invariant (fun h => h)
    (fun {t} e h => h.of_keeps hrefl rfl fun base ht =>
      ht.of_state rfl ((hR base).fail ht.state t.tree e) rfl)
    (fun h => h.lineStep hR hrefl) nodes h

theorem continueLine {limited : Bool} {nodes : Nat} (h : s.LooksAhead R) :
    ((Flow.continueLine limited nodes).after s).LooksAhead R := by
  cases hopen : Flow.openLine limited s with
  | ok _ t =>
    have hkept : t.lineState = s.lineState := by
      rcases Flow.openLine_cases hopen with ⟨-, rfl⟩ | ⟨-, -, rfl⟩
      · rfl
      · rfl
    have ht : t.LooksAhead R := h.of_keeps hrefl hkept fun base hs => (hR base).openLine hs hopen
    obtain ⟨ended, -, hafter⟩ := Flow.after_continueLine nodes hopen
    have hend := (ht.runLine hR hrefl nodes).endLine ended
    obtain ⟨warnings, events, shown, hreport⟩ :=
      Flow.after_reportIssues (((Flow.runLine nodes).after t).endLine ended)
    rw [hafter, hreport]
    exact hend.of_keeps hrefl rfl fun base hs =>
      hs.of_state rfl ((hR base).same hs.state (.of_eq rfl rfl rfl rfl rfl rfl)) rfl
  | error e t =>
    rw [Flow.after_continueLine_refused hopen]
    exact h

theorem next (h : s.LooksAhead R) : (Flow.next.after s).LooksAhead R := by
  rw [Flow.after_next]
  exact Flow.holds_refuseWaiting h fun _ => h.continueLine hR hrefl

theorem lines (h : s.LooksAhead R) (budget : Nat) (text : String) :
    ((Flow.collectLines text budget).after s).LooksAhead R :=
  Story.linesSteps_induction (R := fun s _ u => s.LooksAhead R → u.LooksAhead R)
    (fun _ h => h) (fun _ h => h.next hR hrefl) (fun hfront hrest h => hrest (hfront h))
    budget text s h

/-! ## Calls -/

/-- The global declarations run between lines. -/
theorem declared {steps : List Story} (hnone : s.lineState = none)
    (hdeclared : s.Declared steps u) : u.LooksAhead R := by
  have hline {t : Story} (hjump : Flow.jumpTo (Path.parse declarationsName) false s = .ok () t) :
      ((Flow.continueLine false Flow.nodeBudget).after t).LooksAhead R := by
    have hchanges : Changes s.content .still s
        ((Flow.jumpTo (Path.parse declarationsName) false).after s) :=
      Flow.within_jumpTo _ Bool.noConfusion s rfl
    rw [Flow.after_of_ok hjump] at hchanges
    have ht : t.LooksAhead R := of_none (hchanges.lineState_eq.trans hnone)
    exact ht.continueLine hR hrefl
  cases hdeclared with
  | absent => exact of_none hnone
  | @failed e t hjump =>
    have hchanges : Changes s.content .still s
        ((Flow.jumpTo (Path.parse declarationsName) false).after s) :=
      Flow.within_jumpTo _ Bool.noConfusion s rfl
    rw [Flow.after_of_error hjump] at hchanges
    exact of_none (hchanges.lineState_eq.trans hnone)
  | stopped _ hjump => exact hline hjump
  | @done t v _ hjump hv =>
    have hends := hline hjump
    rw [← hv] at hends
    exact hends.of_keeps hrefl rfl fun base hs =>
      hs.of_state rfl ((hR base).settle ((hR base).move hs.state s.state.cursor)) rfl

theorem called {arguments : List Value} {steps : List Story} (h : s.LooksAhead R)
    (hcalled : s.Called arguments steps u) : u.LooksAhead R := by
  cases hcalled with
  | missing => exact h
  | failed hstart => exact of_none rfl
  | abandoned hstart => exact of_none rfl
  | @finished knot t v hstart hv =>
    have ht : t.LooksAhead R := by
      rw [← Flow.after_of_ok hstart]
      obtain ⟨evaluation, hbegin⟩ := Flow.after_startCall knot arguments s
      exact h.of_keeps hrefl (by rw [hbegin]) fun base hs => (hR base).startCall hs knot arguments
    have hlines := ht.lines hR hrefl Flow.lineBudget ""
    rw [← hv] at hlines
    have hback : ({ v with state := { v.state with output := s.state.output } } : Story).LooksAhead R :=
      hlines.of_keeps hrefl rfl fun base hs =>
        hs.of_state rfl ((hR base).same hs.state (.of_eq rfl rfl rfl rfl rfl rfl)) rfl
    obtain ⟨evaluation, stack, hfinish, -⟩ :=
      Flow.after_finishCall { v with state := { v.state with output := s.state.output } }
    exact hback.of_keeps hrefl (by rw [hfinish]) fun base hs => (hR base).finishCall hs

/-- It leads to a new story from wherever a state is kept. -/
theorem ofContent {content : Content} {seed : Int32} (h : Story.ofContent content seed = .ok s) :
    s.LooksAhead R := by
  obtain ⟨v, warnings, hv, rfl⟩ := Story.ofContent_ok h
  have hdeclared : (Flow.declareGlobals.after (.unstarted content seed)).LooksAhead R :=
    declared hR hrefl rfl (Story.declared _)
  rw [Flow.after_of_ok hv] at hdeclared
  exact hdeclared.of_keeps hrefl rfl fun base hs =>
    hs.of_state rfl ((hR base).same hs.state (.of_eq rfl rfl rfl rfl rfl rfl)) rfl

/-- The calls of a host respect what leads from the state kept to the state, if setting variables
does. Calls are set apart that bring in a state or may count turns. -/
theorem after_call {call : HostCall} (h : s.LooksAhead R) (hgoes : call.GoesOn)
    (hturns : call.effects.turns = false)
    (hset : ∀ base c state vars, R base c state → R base c { state with vars }) :
    (call.after s).LooksAhead R := by
  have hleads := call.leads s
  generalize call.executed s = steps at hleads
  generalize call.after s = u at hleads ⊢
  cases hleads with
  | line => exact h.continueLine hR hrefl
  | lines => exact h.lines hR hrefl _ _
  | called hcalled => exact h.called hR hrefl hcalled
  | declared | loaded | restored => exact hgoes.elim
  | @set name v vars w hvars hw =>
    obtain ⟨events, hlog⟩ := w.logAll_eq (w.notifications (name, v))
    rw [hlog, hw]
    exact h.of_keeps hrefl rfl fun base hs =>
      hs.of_state rfl (hset base s.content s.state vars hs.state) rfl
  | moves _ hmoves =>
    refine h.of_keeps hrefl hmoves.lineState_eq fun base hs => ?_
    exact (hR base).changes call.assigns_effects (fun hcounts => nomatch hturns.symm.trans hcounts)
      hs rfl hmoves
  | aside _ haside =>
    obtain ⟨evaluation, errors, warnings, firstError, hstate⟩ := haside.state
    refine h.of_keeps hrefl haside.lineState fun base hs => hs.of_state haside.content ?_
      haside.lineState
    rw [hstate]
    exact (hR base).same hs.state (.of_eq rfl rfl rfl rfl rfl rfl)

end Kept

end Story.LooksAhead

end StoryMachine
