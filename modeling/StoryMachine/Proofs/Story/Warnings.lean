import StoryMachine.Proofs.Story.Executions
import StoryMachine.Proofs.Story.Resets

/-!
# Warnings and the handler

The warnings that a step raises are recorded in the state. If the state is taken back, the record
is kept. Where a continue ends, whether or not the line does, the handler is told of the record,
and the record is cleared. So a handler is told once for every execution that raises a warning, in
the very call in which it takes place: also for the executions that are taken back, and again when
they are repeated.

* `Story.warned` : what the handler has been told of;
* `Story.raised` : the warnings that a step raises;
* `Flow.warnings_runLine` : the run of a line records what its steps raise;
* `Story.Tells` : the handler is told of what steps have raised;
* `Story.Handled` : the calls of a host, where a handler is installed;
* `Flow.warnings_reach_handler` : how often the handler is told.
-/

namespace StoryMachine

/-- The warning that an event tells of. -/
def Event.warning? : Event → Option String
  | .warning message => some message
  | _ => none

namespace Story

/-- The warnings that the handler has been told of, in order. -/
def warned (s : Story) : List String :=
  s.events.reverse.filterMap Event.warning?

/-- The warnings that a step raises, in order. -/
def raised (s : Story) : List String :=
  s.stepped.state.warnings.drop s.state.warnings.length

theorem warned_logAll (s : Story) (es : List Event) :
    (s.logAll es).warned = s.warned ++ es.filterMap Event.warning? := by
  rw [warned, events_logAll, List.reverse_append, List.reverse_reverse, List.filterMap_append, warned]

end Story

/-! ## Steps -/

/-- What a step changes adds to the record. -/
theorem StateChange.warnings_grow {c : Content} {fx : Effects} {s u : State}
    (h : StateChange c fx s u) : s.warnings <+: u.warnings := by
  cases h with
  | warn message => exact List.prefix_append _ _
  | enter id atStart =>
    obtain ⟨visits, turns, henter⟩ := s.exists_enter_eq c.tree id atStart
    rw [henter]
  | «return» hpop =>
    obtain ⟨output, stack, -, rfl⟩ := State.popFrame_ok hpop
    exact List.prefix_rfl
  | markText =>
    obtain ⟨thread, hmark, -⟩ := s.exists_markText_eq
    rw [hmark]
  | _ => exact List.prefix_rfl

namespace Changes

variable {c : Content} {fx : Effects} {s u : Story}

theorem warnings_grow (h : Changes c fx s u) : s.state.warnings <+: u.state.warnings := by
  induction h with
  | refl => exact List.prefix_rfl
  | tail _ h ih =>
    cases h with
    | state h => exact ih.trans h.warnings_grow
    | called | wait | unsafeCall => exact ih

/-- No step tells the handler. -/
theorem warned_eq (h : Changes c fx s u) : u.warned = s.warned := by
  induction h with
  | refl => rfl
  | tail _ h ih =>
    rw [← ih]
    cases h with
    | state | wait | unsafeCall => rfl
    | called => simp [Story.warned, Story.log, Event.warning?]

end Changes

namespace Story

/-- A step adds what it raises to the record. -/
theorem warnings_stepped (s : Story) :
    s.stepped.state.warnings = s.state.warnings ++ s.raised :=
  (List.prefix_iff_eq_append.mp (Flow.changes_plainStep s).warnings_grow).symm

/-- The record is kept where the state is taken back. -/
theorem warnings_restoreLineState (s : Story) :
    s.restoreLineState.state.warnings = s.state.warnings := by
  unfold restoreLineState
  split
  · rfl
  · rfl

end Story

/-! ## Lines -/

namespace Flow

variable {s t u : Story} {limited : Bool} {nodes : Nat}

theorem warnings_lineStep (s : Story) :
    (lineStep.after s).state.warnings = s.state.warnings ++ s.raised := by
  rw [← s.warnings_stepped]
  cases h : lineStep s with
  | error e u =>
    rw [after_of_error h, Story.stepped, after_of_error (plainStep_of_lineStep_error h)]
  | ok ended u =>
    obtain ⟨-, hback, hon⟩ := stepped_of_lineStep h
    rw [after_of_ok h]
    cases ended with
    | true => rw [hback rfl, Story.warnings_restoreLineState]
    | false => rw [hon rfl]

/-- The run of a line records what its steps raise, whether they are taken back or not. -/
theorem warnings_runLine (nodes : Nat) (s : Story) : ((runLine nodes).after s).state.warnings =
    s.state.warnings ++ (s.steps nodes).flatMap Story.raised := by
  induction nodes generalizing s with
  | zero => exact (List.append_nil _).symm
  | succ nodes ih =>
    have hfirst := warnings_lineStep s
    rw [runLine, Story.steps, List.flatMap_cons, ← List.append_assoc, ← hfirst]
    cases hstep : lineStep s with
    | error e u =>
      rw [after_bind_ok (attempt_error hstep), after_of_error hstep,
        show s.goesOn? = none by rw [Story.goesOn?, hstep], List.flatMap_nil, List.append_nil]
      rfl
    | ok ended u =>
      rw [after_bind_ok (attempt_ok hstep), after_of_ok hstep, Story.goesOn?_of_ok hstep]
      dsimp only
      rw [after_bind_ok (get_ok u)]
      cases hpending : u.pending with
      | some call =>
        rw [Option.isSome_some, if_pos rfl, Option.isNone_some, Bool.false_and, Bool.and_false,
          if_neg Bool.false_ne_true]
        exact (List.append_nil _).symm
      | none =>
        rw [Option.isSome_none, if_neg Bool.false_ne_true, Option.isNone_none, Bool.true_and]
        cases ended with
        | true => exact (List.append_nil _).symm
        | false =>
          rw [if_neg Bool.false_ne_true, after_bind_ok (state_ok u)]
          cases hcontinue : u.state.canContinue with
          | false => exact (List.append_nil _).symm
          | true => exact ih u

theorem warned_runLine (nodes : Nat) (s : Story) : ((runLine nodes).after s).warned = s.warned :=
  runLine_keeps (lineStep_keeps (fun s => (changes_plainStep s).warned_eq) fun _ _ _ => rfl)
    (fun _ _ _ => rfl) (fun _ => rfl) nodes s

end Flow

theorem State.warnings_checkEnd (s : State) (t : ContentTree) :
    (s.checkEnd t).warnings = s.warnings := by
  unfold checkEnd
  split
  · rfl
  · dsimp only
    split
    · split <;> rfl
    · split <;> rfl

namespace Story

/-- What observers are told is no warning. -/
theorem filterMap_notifications (s : Story) (change : String × Value) :
    (s.notifications change).filterMap Event.warning? = [] := by
  rw [notifications, List.filterMap_map]
  exact List.filterMap_eq_nil_iff.mpr fun _ _ => rfl

/-- Where a line is ended, nothing is added to the record, and the handler is told of nothing. -/
theorem warnings_endLine (s : Story) (ended : Bool) :
    (s.endLine ended).state.warnings = s.state.warnings ∧ (s.endLine ended).warned = s.warned := by
  have htell (u : Story) : u.tellObservers.warned = u.warned := by
    show (u.logAll (u.state.vars.changes.flatMap u.notifications)).warned = u.warned
    rw [warned_logAll, List.filterMap_flatMap, List.flatMap_eq_nil_iff.mpr fun change _ =>
      u.filterMap_notifications change, List.append_nil]
  unfold endLine
  split
  · constructor
    · show (s.restoreLineState.state.checkEnd s.restoreLineState.tree).warnings = _
      rw [State.warnings_checkEnd, warnings_restoreLineState]
    · refine (htell _).trans ?_
      obtain ⟨kept, hrestore⟩ := s.restoreLineState_eq
      rw [hrestore]
      rfl
  · exact ⟨rfl, rfl⟩

end Story

namespace Flow

/-- A handler is told of the record, which is cleared. -/
theorem reportIssues_tells {s : Story} (hhandler : s.hasHandler = true) :
    (reportIssues.after s).warned = s.warned ++ s.state.warnings ∧
      (reportIssues.after s).state.warnings = [] ∧ (reportIssues.after s).hasHandler = true := by
  unfold reportIssues
  rw [after_bind_ok (get_ok s)]
  split
  · rw [after_bind_ok (modify_ok _ s), after_of_ok (modifyState_ok _ _)]
    obtain ⟨events, hlog⟩ :=
      s.logAll_eq (s.state.errors.map .error ++ s.state.warnings.map .warning)
    refine ⟨?_, rfl, by rw [hlog]; exact hhandler⟩
    show (s.logAll (s.state.errors.map .error ++ s.state.warnings.map .warning)).warned = _
    have herrors : (s.state.errors.map Event.error).filterMap Event.warning? = [] := by
      rw [List.filterMap_map]
      exact List.filterMap_eq_nil_iff.mpr fun _ _ => rfl
    have hwarnings : (s.state.warnings.map Event.warning).filterMap Event.warning? =
        s.state.warnings := by
      rw [List.filterMap_map]
      exact List.filterMap_some
    rw [Story.warned_logAll, List.filterMap_append, herrors, hwarnings, List.nil_append]
  · next hnone =>
    rw [Bool.not_eq_true, Bool.or_eq_false_iff] at hnone
    have hwarnings : s.state.warnings = [] := by
      simpa [State.hasWarning] using hnone.2
    refine ⟨?_, hwarnings, hhandler⟩
    rw [hwarnings, List.append_nil]
    rfl

end Flow

/-! ## What the handler is told of -/

namespace Story

/-- A handler is installed at a story, and steps lead to another story. Either no steps are made,
and the handler is told of nothing, or it is told of what has been on record and of what the steps
raise, in order, and nothing is left on record. -/
inductive Reported (s : Story) : List Story → Story → Prop
  | quiet {u : Story} (hhandler : u.hasHandler = true) (hwarned : u.warned = s.warned)
      (hrecord : u.state.warnings ⊆ s.state.warnings) : Reported s [] u
  | told {steps : List Story} {u : Story} {due : List String} (hhandler : u.hasHandler = true)
      (hdue : due ⊆ s.state.warnings)
      (hwarned : u.warned = s.warned ++ (due ++ steps.flatMap raised))
      (hrecord : u.state.warnings = []) : Reported s steps u

namespace Reported

variable {s t u : Story} {front rest : List Story}

theorem refl (hhandler : s.hasHandler = true) : s.Reported [] s :=
  .quiet hhandler rfl (List.Subset.refl _)

theorem hasHandler (h : s.Reported front u) : u.hasHandler = true := by
  cases h with
  | quiet hhandler => exact hhandler
  | told hhandler => exact hhandler

/-- What is left on record has been there before. -/
theorem record (h : s.Reported front u) : u.state.warnings ⊆ s.state.warnings := by
  cases h with
  | quiet _ _ hrecord => exact hrecord
  | told _ _ _ hrecord =>
    rw [hrecord]
    exact List.nil_subset _

/-- What the handler is told of: what has been on record, and what the steps raise. -/
theorem exists_due (h : s.Reported front u) : ∃ due, due ⊆ s.state.warnings ∧
    u.warned = s.warned ++ (due ++ front.flatMap raised) := by
  cases h with
  | quiet _ hwarned => exact ⟨[], List.nil_subset _, hwarned.trans (List.append_nil _).symm⟩
  | told _ hdue hwarned => exact ⟨_, hdue, hwarned⟩

theorem trans (h : s.Reported front t) (h' : t.Reported rest u) : s.Reported (front ++ rest) u := by
  cases h with
  | quiet _ hwarned hrecord =>
    cases h' with
    | quiet hhandler hwarned' hrecord' =>
      exact .quiet hhandler (hwarned'.trans hwarned) (List.Subset.trans hrecord' hrecord)
    | told hhandler hdue hwarned' hrecord' =>
      exact .told hhandler (List.Subset.trans hdue hrecord) (hwarned ▸ hwarned') hrecord'
  | told _ hdue hwarned hrecord =>
    -- Nothing is on record any longer, so that only the steps have something to tell.
    obtain ⟨more, hmore, hwarned'⟩ := h'.exists_due
    rw [hrecord] at hmore
    obtain rfl := List.subset_nil.mp hmore
    refine .told h'.hasHandler hdue ?_ (List.subset_nil.mp (hrecord ▸ h'.record))
    rw [hwarned', hwarned, List.flatMap_append]
    simp only [List.append_assoc, List.nil_append]

end Reported

end Story

namespace Flow

variable {s t u : Story} {limited : Bool} {nodes : Nat}

/-- A line that is begun, or gone on with. -/
theorem reported_continueLine (hhandler : s.hasHandler = true)
    (hopen : openLine limited s = .ok () t) :
    s.Reported (t.steps nodes) ((continueLine limited nodes).after s) := by
  have ht : t.state.warnings ⊆ s.state.warnings ∧ t.warned = s.warned ∧ t.hasHandler = true := by
    rcases openLine_cases hopen with ⟨-, rfl⟩ | ⟨-, -, rfl⟩
    · exact ⟨List.Subset.refl _, rfl, hhandler⟩
    · refine ⟨?_, rfl, hhandler⟩
      unfold Story.freshLine
      dsimp only
      split
      · exact List.nil_subset _
      · exact List.Subset.refl _
  obtain ⟨hdue, hwarned, hhandled⟩ := ht
  obtain ⟨ended, -, hafter⟩ := after_continueLine nodes hopen
  obtain ⟨hrecord, hend⟩ := ((runLine nodes).after t).warnings_endLine ended
  have hkept : (((runLine nodes).after t).endLine ended).hasHandler = true := by
    rw [hasHandler_endLine, hasHandler_runLine, hhandled]
  obtain ⟨htold, hcleared, hstays⟩ := reportIssues_tells hkept
  rw [hafter]
  refine .told hstays hdue ?_ hcleared
  rw [htold, hend, hrecord, warned_runLine, hwarned, warnings_runLine]

/-- A line that cannot be begun. -/
theorem reported_refused {e : StoryError} (hhandler : s.hasHandler = true)
    (hopen : openLine limited s = .error e t) :
    s.Reported [] ((continueLine limited nodes).after s) := by
  rw [after_continueLine_refused hopen]
  exact .quiet hhandler rfl (List.Subset.refl _)

/-- A call that continues one line. -/
theorem reported_line {call : HostCall} (hcall : call.line? = some (limited, nodes))
    (hhandler : s.hasHandler = true) (hpending : s.pending = none) :
    s.Reported (call.steps s) ((continueLine limited nodes).after s) := by
  unfold HostCall.steps
  rw [hcall, hpending]
  dsimp only
  cases hopen : openLine limited s with
  | ok _ t => exact reported_continueLine hhandler hopen
  | error e t => exact reported_refused hhandler hopen

end Flow

namespace Story

variable {s t u : Story}

theorem reported_call {call : HostCall} (hcall : call.line?.isSome = true)
    (hhandler : s.hasHandler = true) : s.Reported (call.steps s) (call.after s) := by
  obtain ⟨⟨limited, nodes⟩, hline⟩ := Option.isSome_iff_exists.mp hcall
  cases hpending : s.pending with
  | none =>
    rw [HostCall.after_of_line? hline hpending]
    exact Flow.reported_line hline hhandler hpending
  | some waiting =>
    rw [HostCall.after_of_waiting hcall (by rw [hpending]; rfl), HostCall.steps, hline, hpending]
    exact .refl hhandler

theorem reported_linesSteps (hhandler : s.hasHandler = true) (budget : Nat) (text : String) :
    s.Reported (s.linesSteps budget) ((Flow.collectLines text budget).after s) := by
  refine linesSteps_induction (R := fun s steps u => s.hasHandler = true → s.Reported steps u)
    (fun s => .refl) (fun s hs => ?_) (fun h h' hs => (h hs).trans (h' (h hs).hasHandler))
    budget text s hhandler
  rw [← show HostCall.next.after s = Flow.next.after s from Flow.after_discard Flow.next s]
  exact reported_call rfl hs

end Story

/-! ## Every call -/

/-- The warnings that the handler is told of in a call. -/
def HostCall.warned (call : HostCall) (s : Story) : List String :=
  (call.after s).warned.drop s.warned.length

namespace Story

variable {s u : Story} {steps : List Story}

/-- With a handler installed, a call in which steps are made leads from one story to another: the
handler is told of what has been on record, and of what the steps raise. Calls without steps may
put something on record themselves. -/
structure Handles (s : Story) (steps : List Story) (u : Story) : Prop where
  hasHandler : u.hasHandler = true
  told : ∃ due, due ⊆ s.state.warnings ∧
    u.warned.drop s.warned.length = due ++ steps.flatMap raised
  record : steps = [] ∨ u.state.warnings ⊆ s.state.warnings

theorem Reported.handles (h : s.Reported steps u) : s.Handles steps u where
  hasHandler := h.hasHandler
  told := by
    obtain ⟨due, hdue, hwarned⟩ := h.exists_due
    exact ⟨due, hdue, by rw [hwarned, List.drop_left]⟩
  record := .inr h.record

/-- A call that makes no steps and tells nothing. -/
theorem Handles.quiet (hhandler : u.hasHandler = true) (hwarned : u.warned = s.warned) :
    s.Handles [] u where
  hasHandler := hhandler
  told := ⟨[], List.nil_subset _, by rw [hwarned, List.drop_length]; rfl⟩
  record := .inl rfl

theorem Handles.refl (hhandler : s.hasHandler = true) : s.Handles [] s :=
  .quiet hhandler rfl

/-- The global declarations, behind a reset. -/
theorem Declared.handles (hhandler : s.hasHandler = true) (hpending : s.pending = none)
    (h : s.Declared steps u) : s.Handles steps u := by
  have hjumped {t : Story} (hdeclares : s.tree.declaresGlobals = true)
      (hjump : Flow.jumpTo (Path.parse declarationsName) false s = .ok () t) :
      s.Reported [] t ∧ t.pending = none := by
    have hquiet := State.warnings_jump_declarations hdeclares s.state false
    rw [Flow.jumpTo_eq] at hjump
    split at hjump
    · next v hfound =>
      cases hjump
      obtain ⟨visits, turns, henter⟩ := v.exists_enterByJump_eq s.tree
      rw [hfound] at hquiet
      rw [henter]
      exact ⟨.quiet hhandler rfl fun w hw => hquiet ▸ hw, hpending⟩
    · cases hjump
  have hline {t : Story} (ht : s.Reported [] t ∧ t.pending = none) :
      s.Reported (HostCall.next.steps t) ((Flow.continueLine false Flow.nodeBudget).after t) :=
    ht.1.trans (Flow.reported_line rfl ht.1.hasHandler ht.2)
  cases h with
  | absent => exact .quiet hhandler rfl
  | failed hjump =>
    have hchanges : Changes s.content .silent s
        ((Flow.jumpTo (Path.parse declarationsName) false).after s) :=
      Flow.within_jumpTo _ Bool.noConfusion s rfl
    rw [Flow.after_of_error hjump] at hchanges
    exact .quiet (hchanges.hasHandler_eq.trans hhandler) hchanges.warned_eq
  | stopped hdeclares hjump => exact (hline (hjumped hdeclares hjump)).handles
  | done hdeclares hjump hv =>
    have hreported := (hline (hjumped hdeclares hjump)).handles
    rw [← hv] at hreported
    exact ⟨hreported.hasHandler, hreported.told, hreported.record⟩

/-- A call of a function: its lines are reported, whether or not it is given up. -/
theorem Called.handles {arguments : List Value} (hhandler : s.hasHandler = true)
    (h : s.Called arguments steps u) : s.Handles steps u := by
  have hlines {knot : NodeId} {t : Story} (hstart : Flow.startCall knot arguments s = .ok () t) :
      s.Reported (t.linesSteps Flow.lineBudget)
        ((Flow.collectLines "" Flow.lineBudget).after t) := by
    obtain ⟨evaluation, hafter⟩ := Flow.after_startCall knot arguments s
    rw [Flow.after_of_ok hstart] at hafter
    have hstarted : s.Reported [] t := by
      rw [hafter]
      exact .quiet hhandler rfl (List.Subset.refl _)
    exact hstarted.trans (reported_linesSteps hstarted.hasHandler Flow.lineBudget "")
  cases h with
  | missing => exact .refl hhandler
  | @failed knot e u hstart =>
    obtain ⟨evaluation, hafter⟩ := Flow.after_startCall knot arguments s
    rw [Flow.after_of_error hstart] at hafter
    rw [hafter]
    exact .quiet hhandler rfl
  | abandoned hstart =>
    have hreported := (hlines hstart).handles
    exact ⟨hreported.hasHandler, hreported.told, .inr (List.Subset.refl _)⟩
  | @finished knot t v hstart hv =>
    have hreported := (hlines hstart).handles
    rw [← hv] at hreported
    obtain ⟨evaluation, callStack, hfinish, -⟩ :=
      Flow.after_finishCall { v with state := { v.state with output := s.state.output } }
    rw [hfinish]
    exact ⟨hreported.hasHandler, hreported.told, hreported.record⟩

/-- Whatever a call leads to, the handler is told in this way. -/
theorem handles_of_leads {call : HostCall} (hhandler : s.hasHandler = true)
    (h : call.Leads s steps u) : s.Handles steps u := by
  cases h with
  | line hcall hpending => exact (Flow.reported_line hcall hhandler hpending).handles
  | lines => exact (reported_linesSteps hhandler Flow.lineBudget "").handles
  | called hcalled => exact hcalled.handles hhandler
  | @declared seed steps u hpending hdeclared =>
    let fresh : Story := { s with state := .start seed }
    have hfresh : fresh.Handles steps u := hdeclared.handles (s := fresh) hhandler hpending
    obtain ⟨due, hdue, htold⟩ := hfresh.told
    obtain rfl := List.subset_nil.mp hdue
    exact ⟨hfresh.hasHandler, ⟨[], List.nil_subset _, htold⟩,
      hfresh.record.imp_right fun hrecord => List.Subset.trans hrecord (List.nil_subset _)⟩
  | loaded | restored => exact .quiet hhandler rfl
  | @set name v vars u hset hu =>
    obtain ⟨events, hlog⟩ := u.logAll_eq (u.notifications (name, v))
    refine .quiet (by rw [hlog, hu]; exact hhandler) ?_
    rw [warned_logAll, filterMap_notifications, List.append_nil, hu]
    rfl
  | moves _ hmoves => exact .quiet (hmoves.hasHandler_eq.trans hhandler) hmoves.warned_eq
  | aside _ haside =>
    rcases haside.events with hsame | htaken
    · exact .quiet (haside.hasHandler hhandler) (by rw [warned, warned, hsame])
    · refine ⟨haside.hasHandler hhandler, ⟨[], List.nil_subset _, ?_⟩, .inl rfl⟩
      rw [show u.warned = [] by rw [warned, htaken]; rfl]
      exact List.drop_nil

theorem handles_call (call : HostCall) (hhandler : s.hasHandler = true) :
    s.Handles (call.executed s) (call.after s) :=
  handles_of_leads hhandler (call.leads s)

/-- The calls of a host from a story where a handler is installed, with the stories from which
steps are made in them, and the warnings that the handler is told of. Noted is what has been on
record at first, or is on record behind a call that makes no steps: so what a host has brought in
itself, by a jump or with a state. -/
inductive Handled (first : Story) : List Story → (told noted : List String) → Story → Prop
  | start : Handled first [] [] first.state.warnings first
  | call {steps : List Story} {told noted : List String} {s : Story}
      (h : Handled first steps told noted s) (call : HostCall) :
    Handled first (steps ++ call.executed s) (told ++ call.warned s)
      (noted ++ if (call.executed s).isEmpty then (call.after s).state.warnings else [])
      (call.after s)

/-- What is on record has been noted; all else has been told, once for each step that raised it. -/
theorem Handled.ledger {first : Story} {told noted : List String}
    (hhandler : first.hasHandler = true) (h : first.Handled steps told noted s) :
    s.hasHandler = true ∧ s.state.warnings ⊆ noted ∧
      ∃ own, own ⊆ noted ∧ told.Perm (own ++ steps.flatMap raised) := by
  induction h with
  | start => exact ⟨hhandler, List.Subset.refl _, [], List.nil_subset _, .refl _⟩
  | @call steps told noted s _ call ih =>
    obtain ⟨hhandler, hrecord, own, hown, htold⟩ := ih
    have hcall := handles_call call hhandler
    obtain ⟨due, hdue, hwarned⟩ := hcall.told
    have hnoted : noted ⊆ noted ++ if (call.executed s).isEmpty then (call.after s).state.warnings
        else [] := List.subset_append_left _ _
    refine ⟨hcall.hasHandler, ?_, own ++ due, ?_, ?_⟩
    · rcases hcall.record with hnone | hkept
      · rw [hnone]
        exact List.subset_append_right _ _
      · exact List.Subset.trans (List.Subset.trans hkept hrecord) hnoted
    · exact List.append_subset.mpr ⟨List.Subset.trans hown hnoted,
        List.Subset.trans (List.Subset.trans hdue hrecord) hnoted⟩
    · rw [HostCall.warned, hwarned, List.flatMap_append]
      have hswap : (steps.flatMap raised ++ (due ++ (call.executed s).flatMap raised)).Perm
          (due ++ (steps.flatMap raised ++ (call.executed s).flatMap raised)) := by
        rw [← List.append_assoc, ← List.append_assoc]
        exact List.perm_append_comm.append_right _
      rw [List.append_assoc]
      refine (htold.append_right _).trans ?_
      rw [List.append_assoc]
      exact hswap.append_left own

end Story

namespace Flow

/-- With a handler installed, what it is told of is, in whatever order, what the host has brought
in, and the warnings of all steps: each once for every step that raises it, whether the step stands
or is taken back and perhaps repeated. It is told in the very call in which the step is made, in the
order of the steps, behind what has been on record. -/
theorem warnings_reach_handler {first s : Story} {steps : List Story} {told noted : List String}
    (hhandler : first.hasHandler = true) (h : first.Handled steps told noted s) :
    (∃ own, own ⊆ noted ∧ told.Perm (own ++ steps.flatMap Story.raised)) ∧
    ∀ call : HostCall, ∃ due, due ⊆ s.state.warnings ∧ due ⊆ noted ∧
      call.warned s = due ++ (call.executed s).flatMap Story.raised := by
  obtain ⟨hstays, hrecord, hledger⟩ := h.ledger hhandler
  refine ⟨hledger, fun call => ?_⟩
  obtain ⟨due, hdue, hwarned⟩ := (Story.handles_call call hstays).told
  exact ⟨due, hdue, List.Subset.trans hdue hrecord, hwarned⟩

end Flow

/-- A line, and a second one that shows a variable that is not there. -/
def astray : Content :=
  ⟨0, 21, .ofBlock (.container none ⟨false, false, false⟩
    [.leaf (.value (.text "One")), .leaf (.value (.text "\n")), .leaf (.command .evalStart),
      .leaf (.readVariable "nowhere"), .leaf (.command .evalOutput), .leaf (.command .evalEnd),
      .leaf (.value (.text "\n")), .leaf (.command .finish)] []), .empty⟩

/-- The story at its start, with a handler. -/
def astrayStory : Story :=
  HostCall.installHandler.after { Story.unstarted astray 0 with
    state := { State.start 0 with vars := Variables.empty.settle } }

/-- Where the steps that raise warnings are made, whether behind a line end, and the warnings. -/
def Story.raisings (steps : List Story) : List (Option Cursor × Bool × List String) :=
  (steps.filter fun v => !v.raised.isEmpty).map fun v =>
    (v.state.cursor, v.lineState.isSome, v.raised)

namespace Flow

/-- A warning is told for two lines, as often as it is raised. -/
theorem astray_is_told : ∃ (steps : List Story) (told : List String) (s : Story),
    astrayStory.hasHandler = true ∧ astrayStory.Handled steps told [] s ∧ told.length = 2 ∧
      told.Perm (steps.flatMap Story.raised) := by
  have hhandler : astrayStory.hasHandler = true := rfl
  have hstart : astrayStory.Handled [] [] astrayStory.state.warnings astrayStory := .start
  have hrun := (hstart.call .next).call .next
  have hnoted : ([] ++ (if (HostCall.next.executed astrayStory).isEmpty then
      (HostCall.next.after astrayStory).state.warnings else []) ++
        if (HostCall.next.executed (HostCall.next.after astrayStory)).isEmpty then
          (HostCall.next.after (HostCall.next.after astrayStory)).state.warnings else []) =
            ([] : List String) := by decide +kernel
  rw [show astrayStory.state.warnings = [] from rfl, hnoted] at hrun
  obtain ⟨⟨own, hown, htold⟩, -⟩ := warnings_reach_handler hhandler hrun
  rw [List.subset_nil.mp hown, List.nil_append] at htold
  exact ⟨_, _, _, hhandler, hrun, by decide +kernel, htold⟩

/-- One step raises a warning while the machine looks ahead behind the first line, is taken back,
and is made again for the second line: the handler is told both times. -/
theorem ahead_is_told_again : Reachable astrayStory ∧ astrayStory.hasHandler = true ∧
    ∃ (place : Cursor) (w : String),
      Story.raisings (HostCall.next.executed astrayStory) = [(some place, true, [w])] ∧
      HostCall.next.warned astrayStory = [w] ∧
      (HostCall.next.after astrayStory).state.output.text = "One\n" ∧
      Story.raisings (HostCall.next.executed (HostCall.next.after astrayStory)) =
        [(some place, false, [w])] ∧
      HostCall.next.warned (HostCall.next.after astrayStory) = [w] := by
  have hstart : Story.ofContent astray 0 = .ok { Story.unstarted astray 0 with
    state := { State.start 0 with vars := Variables.empty.settle } } := rfl
  refine ⟨.call (.start hstart fun u hu => by cases hu.1) .installHandler trivial
    (fun _ _ => trivial), rfl, ⟨0, 3⟩, (HostCall.next.warned astrayStory).headD "", ?_⟩
  decide +kernel

end Flow

end StoryMachine
