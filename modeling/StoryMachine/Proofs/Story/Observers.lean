import StoryMachine.Proofs.Story.OpenLines
import StoryMachine.Proofs.Story.Standing

/-!
# What observers are told

At the end of a line its observers are told of the global variables that the steps that stand have
assigned: of each variable once, in the order of their names, and of the value that it has now.
Before that they are told of nothing, however often the line is left open and continued, as long
as the host itself sets no variable.

* `Story.reports` : what observers have been told;
* `Story.Commits` : the variables that some steps have assigned, with their values;
* `Story.Line` : the calls of a host in one line, and the stories that steps are made from;
* `Flow.observers_see_lines` : what observers are told in a line, and at its end.
-/

namespace StoryMachine

/-! ## What observers are told -/

/-- What an observer is told of. -/
def Event.isReport : Event → Bool
  | .changed .. => true
  | _ => false

namespace Story

/-- What observers have been told, in order. -/
def reports (s : Story) : List Event :=
  s.events.reverse.filter Event.isReport

variable {s t u : Story}

theorem events_logAll (s : Story) (es : List Event) :
    (s.logAll es).events = es.reverse ++ s.events := by
  induction es generalizing s with
  | nil => rfl
  | cons e es ih =>
    show ((s.log e).logAll es).events = _
    rw [ih, List.reverse_cons, List.append_assoc]
    rfl

theorem reports_logAll (s : Story) (es : List Event) :
    (s.logAll es).reports = s.reports ++ es.filter Event.isReport := by
  rw [reports, events_logAll, List.reverse_append, List.reverse_reverse, List.filter_append, reports]

theorem reports_notifications (s : Story) (changes : List (String × Value)) :
    (changes.flatMap s.notifications).filter Event.isReport = changes.flatMap s.notifications := by
  rw [List.filter_eq_self]
  intro e he
  obtain ⟨change, -, he⟩ := List.mem_flatMap.mp he
  obtain ⟨observer, -, rfl⟩ := List.mem_map.mp he
  rfl

end Story

theorem Changes.reports_eq {c : Content} {fx : Effects} {s u : Story} (h : Changes c fx s u) :
    (u.observers, u.reports) = (s.observers, s.reports) := by
  induction h with
  | refl => rfl
  | tail _ h ih =>
    rw [← ih]
    cases h with
    | state | wait | unsafeCall => rfl
    | called => simp [Story.reports, Story.log, Event.isReport]


namespace Flow

/-- No step of a line tells an observer. -/
theorem reports_runLine (nodes : Nat) (s : Story) :
    (((runLine nodes).after s).observers, ((runLine nodes).after s).reports) =
      (s.observers, s.reports) :=
  runLine_keeps (f := fun s => (s.observers, s.reports))
    (lineStep_keeps (f := fun s => (s.observers, s.reports))
      (fun s => (changes_plainStep s).reports_eq) fun _ _ _ => rfl)
    (fun _ _ _ => rfl) (fun _ => rfl) nodes s

/-- Issues are no reports. -/
theorem reports_reportIssues (s : Story) : (reportIssues.after s).reports = s.reports := by
  have hissues : (s.state.errors.map Event.error ++ s.state.warnings.map Event.warning).filter
      Event.isReport = [] := by
    rw [List.filter_eq_nil_iff]
    intro e he
    rcases List.mem_append.mp he with he | he
    · obtain ⟨message, -, rfl⟩ := List.mem_map.mp he
      exact Bool.false_ne_true
    · obtain ⟨message, -, rfl⟩ := List.mem_map.mp he
      exact Bool.false_ne_true
  unfold reportIssues
  rw [after_bind_ok (get_ok s)]
  split
  · split
    · rw [after_bind_ok (modify_ok _ s)]
      show (s.logAll (s.state.errors.map .error ++ s.state.warnings.map .warning)).reports = _
      rw [Story.reports_logAll, hissues, List.append_nil]
    · split
      · rfl
      · rfl
  · rfl

end Flow

/-! ## The end of a line -/

/-- The variables that some steps have assigned: each once, in the order of their names, with the
value that it has. -/
structure Story.Commits (steps : List Story) (globals : Table Value)
    (changes : List (String × Value)) : Prop where
  ordered : changes.Pairwise KeyLt
  assigned (name : String) :
    name ∈ changes.map Prod.fst ↔ ∃ w ∈ steps, w.assigns? = some name
  now : ∀ change ∈ changes, globals.get? change.1 = some change.2

theorem Variables.Notes.commits {steps : List Story} {v : Variables} (h : v.Notes steps) :
    Story.Commits steps v.globals v.changes := by
  obtain ⟨hordered, hkeys, hnow⟩ := Variables.changes_spec h.known
  exact ⟨hordered, fun name => (hkeys name).trans (h.changed name), hnow⟩

theorem State.vars_checkEnd (s : State) (t : ContentTree) : (s.checkEnd t).vars = s.vars := by
  unfold State.checkEnd
  split
  · rfl
  · dsimp only
    split
    · split <;> rfl
    · split <;> rfl

namespace Story

variable {front rest : List Story} {s t u : Story}

/-- The observers are told of the variables noted, and nothing else happens. -/
theorem tellObservers_tells (s : Story) : s.tellObservers.observers = s.observers ∧
    s.tellObservers.state = { s.state with vars := s.state.vars.unwatch } ∧
      s.tellObservers.reports = s.reports ++ s.state.vars.changes.flatMap s.notifications := by
  refine ⟨?_, rfl, ?_⟩
  · obtain ⟨events, hlog⟩ := s.logAll_eq (s.state.vars.changes.flatMap s.notifications)
    unfold tellObservers
    rw [hlog]
  · show (s.logAll (s.state.vars.changes.flatMap s.notifications)).reports = _
    rw [reports_logAll, reports_notifications]

/-- Observers are told where a line is ended, at the state that it is ended at. -/
theorem closeLine_tells (s : Story) :
    s.closeLine.observers = s.observers ∧ s.closeLine.state.EndsAt s.restoreLineState.state ∧
      s.closeLine.reports =
        s.reports ++ s.restoreLineState.state.vars.changes.flatMap s.notifications := by
  let back : Story := s.restoreLineState
  let ended : Story :=
    { back with state := { back.state.checkEnd back.tree with safeExit := false }, metUnsafeCall := false }
  have hvars : ended.state.vars = back.state.vars := back.state.vars_checkEnd back.tree
  have hbeside : (ended.observers, ended.reports) = (s.observers, s.reports) := by
    obtain ⟨kept, hrestore⟩ := s.restoreLineState_eq
    show (s.restoreLineState.observers, s.restoreLineState.reports) = _
    rw [hrestore]
    rfl
  obtain ⟨hobservers, hreports⟩ := Prod.mk.inj hbeside
  obtain ⟨htold, hstate, hreport⟩ := ended.tellObservers_tells
  refine ⟨htold.trans hobservers, ?_, ?_⟩
  · show ended.tellObservers.state.EndsAt back.state
    have hends : ended.state.EndsAt back.state :=
      .trans (t := back.state.checkEnd back.tree) ⟨rfl, rfl⟩ (.checkEnd back.state back.tree)
    rw [hstate]
    exact .trans (t := ended.state) ⟨rfl, rfl⟩ hends
  · have hnotifications : ended.notifications = s.notifications := by
      unfold notifications
      rw [hobservers]
    show ended.tellObservers.reports = _
    rw [hreport, hvars, hreports, hnotifications]

/-- Observers have been told of the variables that the steps that stand have assigned. -/
def Tells (front : List Story) (s u : Story) : Prop :=
  ∃ changes, Commits front u.state.vars.globals changes ∧
    u.reports = s.reports ++ changes.flatMap s.notifications

/-- What becomes of a line that is continued: it is left open, and no observer has been told of
anything, or it has ended, and observers have been told. -/
theorem Looks.after_line {call : HostCall} {limited : Bool} {nodes : Nat} (h : t.Looks front rest)
    (hcall : call.line? = some (limited, nodes)) (hpending : s.pending = none)
    (hopen : Flow.openLine limited s = .ok () t) :
    (call.after s).observers = s.observers ∧
      ∃ front' rest', front ++ rest ++ t.steps nodes = front' ++ rest' ∧
        if (call.after s).lineOpen = true then
          (call.after s).Looks front' rest' ∧ (call.after s).reports = s.reports
        else Stands front' rest' (call.after s).state ∧ Tells front' s (call.after s) := by
  have hnodes : nodes ≠ 0 := by
    cases call with
    | next | nextTagged | continueFor =>
      cases hcall
      decide
    | continueSlice more =>
      cases hcall
      exact Nat.succ_ne_zero more
    | _ => cases hcall
  have ht : (t.observers, t.reports) = (s.observers, s.reports) ∧ t.pending = none := by
    rcases Flow.openLine_cases hopen with ⟨-, rfl⟩ | ⟨-, -, rfl⟩
    · exact ⟨rfl, hpending⟩
    · obtain ⟨warnings, hfresh⟩ := ({ s with lineOpen := limited } : Story).freshLine_eq
      dsimp only
      rw [hfresh]
      exact ⟨rfl, hpending⟩
  obtain ⟨ended, u, hrun⟩ := Flow.exists_runLine_eq nodes t
  obtain ⟨front', rest', hsplit, hline⟩ :=
    Flow.looks_runLine h ht.2 (fun hzero => absurd hzero hnodes) hrun
  have hu : (u.observers, u.reports) = (s.observers, s.reports) := by
    rw [← ht.1, ← Flow.reports_runLine nodes t, Flow.after_of_ok hrun]
  obtain ⟨hobservers, hreports⟩ := Prod.mk.inj hu
  have hafter : call.after s = Flow.reportIssues.after (u.endLine ended) := by
    rw [HostCall.after_of_line? hcall hpending, Flow.after, Flow.continueLine_eq hopen hrun]
    rfl
  have hissues := Flow.reports_reportIssues (u.endLine ended)
  obtain ⟨warnings, events, shown, heq⟩ := Flow.after_reportIssues (u.endLine ended)
  rw [hafter]
  generalize hlast : Flow.reportIssues.after (u.endLine ended) = v at hissues heq
  -- Issues are reported behind the line, and change nothing that matters here.
  have hobserved : v.observers = (u.endLine ended).observers := by rw [heq]
  have hstate : v.state.EndsAt (u.endLine ended).state := by
    rw [heq]
    exact ⟨rfl, rfl⟩
  have hvars : v.state.vars = (u.endLine ended).state.vars := by rw [heq]
  have hkept : v.lineState = (u.endLine ended).lineState := by rw [heq]
  have hmark : v.lineOpen = (u.endLine ended).lineOpen := by rw [heq]
  by_cases hends : (u.pending.isNone && (ended || !u.state.canContinue)) = true
  · have hclose : u.endLine ended = u.closeLine := if_pos hends
    rw [if_pos hends] at hline
    rw [hclose] at hissues hobserved hstate hvars hmark
    obtain ⟨htold, hback, hreport⟩ := u.closeLine_tells
    obtain ⟨⟨last, hfront, hstays, hahead⟩, hnotes⟩ := hline
    have hclosed : u.closeLine.lineOpen = false := by
      obtain ⟨state, events, hclosing, -⟩ := u.closeLine_eq
      rw [hclosing]
    have hglobals : v.state.vars.globals = u.restoreLineState.state.vars.globals := by
      show v.state.vars.unwatch.globals = u.restoreLineState.state.vars.unwatch.globals
      rw [hvars, hback.vars]
    have hnotifications : u.notifications = s.notifications := by
      unfold notifications
      rw [hobservers]
    refine ⟨hobserved.trans (htold.trans hobservers), front', rest', hsplit, ?_⟩
    rw [hmark, hclosed, if_neg Bool.false_ne_true]
    refine ⟨⟨last, hfront, hstate.trans (hback.trans hstays), hahead⟩,
      u.restoreLineState.state.vars.changes, ?_, ?_⟩
    · rw [hglobals]
      exact hnotes.commits
    · rw [hissues, hreport, hreports, hnotifications]
  · have hopen : u.endLine ended = u := if_neg hends
    rw [if_neg hends] at hline
    rw [hopen] at hissues hobserved hvars hkept hmark
    refine ⟨hobserved.trans hobservers, front', rest', hsplit, ?_⟩
    rw [hmark, hline.2, if_pos rfl]
    exact ⟨hline.1.same hvars hkept, hissues.trans hreports⟩

end Story

/-! ## A whole line -/

namespace HostCall

/-- What a call tells observers. -/
def reports (call : HostCall) (s : Story) : List Event :=
  (call.after s).reports.drop s.reports.length

/-- The stories from which steps of the line are made in a call that continues one line. -/
def steps (call : HostCall) (s : Story) : List Story :=
  match call.line?, s.pending with
  | some (limited, nodes), none =>
    match Flow.openLine limited s with
    | .ok _ t => t.steps nodes
    | .error _ _ => []
  | _, _ => []

theorem reports_eq {call : HostCall} {s : Story} {told : List Event}
    (h : (call.after s).reports = s.reports ++ told) : call.reports s = told := by
  rw [reports, h, List.drop_left]

end HostCall

namespace Story

/-- The calls of a host in one line that begins at the story `s`, with the stories that steps are
made from and what observers are told. In a line the host sets no variable. -/
inductive Line (s : Story) : List Story → List Event → Story → Prop
  | begin {call : HostCall} (hcall : call.line?.isSome = true) :
    Line s (call.steps s) (call.reports s) (call.after s)
  | go {steps : List Story} {told : List Event} {u : Story} (h : Line s steps told u)
      (hopen : u.lineOpen = true) (call : HostCall) (hset : ∀ name v, call ≠ .setVariable name v) :
    Line s (steps ++ call.steps u) (told ++ call.reports u) (call.after u)

/-- What matters to a line in progress has not been touched. -/
structure Undisturbed (s u : Story) : Prop where
  lineOpen : u.lineOpen = s.lineOpen
  lineState : u.lineState = s.lineState
  vars : u.state.vars = s.state.vars
  observers : u.observers = s.observers
  told : u.reports.drop s.reports.length = []

theorem Undisturbed.refl (s : Story) : s.Undisturbed s :=
  ⟨rfl, rfl, rfl, rfl, List.drop_length⟩

/-- In a line a host can do little besides going on with it. -/
theorem undisturbed_of_call {s : Story} {call : HostCall} (hopen : s.lineOpen = true)
    (hline : call.line? = none ∨ s.pending.isSome = true)
    (hset : ∀ name v, call ≠ .setVariable name v) : s.Undisturbed (call.after s) := by
  have hbusy {P : Prop} (hidle : s.Idle) : P := by
    rw [hidle.lineOpen] at hopen
    cases hopen
  have hwaits {P : Prop} (hcall : call.line?.isSome = true) (hpending : s.pending = none) : P := by
    rcases hline with hnone | hsome
    · rw [hnone] at hcall
      cases hcall
    · rw [hpending] at hsome
      cases hsome
  have hcontinue (hcall : call.line?.isSome = true) (limited : Bool) :
      s.Undisturbed ((Flow.continueFor limited).after s) :=
    Flow.holds_refuseWaiting (.refl s) (hwaits hcall)
  cases call with
  | next =>
    have hafter : HostCall.next.after s = (Flow.continueFor false).after s :=
      (Flow.after_discard Flow.next s).trans (Flow.after_next s)
    rw [hafter]
    exact hcontinue rfl false
  | nextTagged =>
    have hafter : HostCall.nextTagged.after s = (Flow.continueFor false).after s :=
      (Flow.after_discard Flow.nextTagged s).trans ((Flow.after_nextTagged s).trans (Flow.after_next s))
    rw [hafter]
    exact hcontinue rfl false
  | continueFor limited => exact hcontinue rfl limited
  | continueSlice more => exact Flow.holds_refuseWaiting (.refl s) (hwaits rfl)
  | nextAll =>
    have hafter : HostCall.nextAll.after s = Flow.nextAll.after s :=
      Flow.after_discard Flow.nextAll s
    rw [hafter]
    exact Flow.holds_whenIdle (.refl s) hbusy
  | evaluate name arguments =>
    have hafter : (HostCall.evaluate name arguments).after s =
      (Flow.evaluate name arguments).after s := Flow.after_discard _ s
    rw [hafter, Flow.after_evaluate_busy name arguments hbusy]
    exact .refl s
  | choose | choosePath | observe | unobserve | bind | unbind | resetCallStack | load | restore
  | resetState => exact Flow.holds_whenIdle (.refl s) hbusy
  | setVariable name v => exact absurd rfl (hset name v)
  | resolve result =>
    show s.Undisturbed ((Flow.resolve result).after s)
    unfold Flow.resolve
    rw [Flow.after_bind_ok (Flow.get_ok s)]
    cases hpending : s.pending with
    | none => exact .refl s
    | some call => exact ⟨rfl, rfl, rfl, rfl, List.drop_length⟩
  | resetErrors | installHandler | allowFallbacks => exact ⟨rfl, rfl, rfl, rfl, List.drop_length⟩
  | takeEvents => exact ⟨rfl, rfl, rfl, rfl, List.drop_nil⟩

/-- What is known of a line that begins at the story `s`, behind some calls of the host. -/
structure Known (s : Story) (steps : List Story) (told : List Event) (u : Story) : Prop where
  observers : u.observers = s.observers
  steps : ∃ front rest, steps = front ++ rest ∧
    if u.lineOpen = true then u.Looks front rest ∧ told = []
    else Stands front rest u.state ∧
      ∃ changes, Commits front u.state.vars.globals changes ∧ told = changes.flatMap s.notifications

/-- A call that continues the line, where steps have been made already. -/
theorem known_of_line {s t u : Story} {front rest : List Story} {call : HostCall} {limited : Bool}
    {nodes : Nat} (hobservers : u.observers = s.observers) (h : t.Looks front rest)
    (hcall : call.line? = some (limited, nodes)) (hpending : u.pending = none)
    (hopen : Flow.openLine limited u = .ok () t) :
    s.Known (front ++ rest ++ call.steps u) (call.reports u) (call.after u) := by
  have hsteps : call.steps u = t.steps nodes := by
    unfold HostCall.steps
    rw [hcall, hpending]
    dsimp only
    rw [hopen]
  obtain ⟨hbeside, front', rest', hsplit, hline⟩ := h.after_line hcall hpending hopen
  refine ⟨hbeside.trans hobservers, front', rest', by rw [hsteps]; exact hsplit, ?_⟩
  split at hline
  · next hstays =>
    rw [if_pos hstays]
    exact ⟨hline.1, HostCall.reports_eq (by rw [hline.2, List.append_nil])⟩
  · next hends =>
    obtain ⟨hstands, changes, hcommits, htold⟩ := hline
    have hnotifications : u.notifications = s.notifications := by
      unfold notifications
      rw [hobservers]
    rw [if_neg hends]
    exact ⟨hstands, changes, hcommits, hnotifications ▸ HostCall.reports_eq htold⟩

/-- What is known of a line from its beginning on. -/
theorem Line.known {s v : Story} {steps : List Story} {told : List Event}
    (hpending : s.pending = none) (hkept : s.lineState = none) (hopen : s.lineOpen = false)
    (hcontinue : s.state.canContinue = true) (h : s.Line steps told v) :
    s.Known steps told v := by
  induction h with
  | @begin call hcall =>
    obtain ⟨⟨limited, nodes⟩, hcall⟩ := Option.isSome_iff_exists.mp hcall
    have hfresh := Looks.start (s := { s with lineOpen := limited }) hkept
    have hlooks : ({ ({ s with lineOpen := limited } : Story).freshLine with
        metUnsafeCall := false } : Story).Looks [] [] := hfresh.same rfl rfl
    exact known_of_line rfl hlooks hcall hpending
      (Flow.openLine_of_canContinue limited hopen hcontinue)
  | @go steps told u _ hgoing call hset ih =>
    obtain ⟨hobservers, front, rest, rfl, hline⟩ := ih
    rw [if_pos hgoing] at hline
    obtain ⟨hlooks, rfl⟩ := hline
    have hquiet (hsteps : call.steps u = []) (hline : call.line? = none ∨ u.pending.isSome = true) :
        s.Known (front ++ rest ++ call.steps u) ([] ++ call.reports u) (call.after u) := by
      have hsame := undisturbed_of_call hgoing hline hset
      refine ⟨hsame.observers.trans hobservers, front, rest, by rw [hsteps, List.append_nil], ?_⟩
      rw [hsame.lineOpen, if_pos hgoing]
      exact ⟨hlooks.same hsame.vars hsame.lineState, hsame.told⟩
    cases hcall : call.line? with
    | none => exact hquiet (by rw [HostCall.steps, hcall]) (.inl hcall)
    | some line =>
      cases hwaits : u.pending with
      | some waiting => exact hquiet (by rw [HostCall.steps, hcall, hwaits]) (.inr (by rw [hwaits]; rfl))
      | none =>
        have hgoes : ({ u with metUnsafeCall := false } : Story).Looks front rest :=
          hlooks.same rfl rfl
        exact known_of_line hobservers hgoes hcall hwaits (Flow.openLine_of_open _ hgoing)

end Story

/-- In a line observers are told of nothing as long as the line is open, whether it has run out of
time or waits for the host. Where it ends, some steps stand, and those behind them have been taken
back; then the observers are told of the global variables that the steps that stand have assigned:
of each once, in the order of their names, and of the value that it has now. -/
theorem Flow.observers_see_lines {s v : Story} {steps : List Story} {told : List Event}
    (hs : Reachable s) (hopen : s.lineOpen = false) (hcontinue : s.state.canContinue = true)
    (h : s.Line steps told v) :
    (v.lineOpen = true → told = []) ∧
    (v.lineOpen = false → ∃ (front rest : List Story) (changes : List (String × Value)),
      steps = front ++ rest ∧ Story.Stands front rest v.state ∧
        Story.Commits front v.state.vars.globals changes ∧
        told = changes.flatMap s.notifications) := by
  have hkept : s.lineState = none :=
    (hs.orderly trivialLine fun _ _ _ _ _ _ => trivial).idle hopen
  have hpending : s.pending = none := by
    rw [← Option.isNone_iff_eq_none, ← Option.not_isSome, Bool.not_eq_true']
    cases hwaits : s.pending.isSome with
    | false => rfl
    | true => rw [← hs.waitsInLine hwaits, hopen]
  obtain ⟨-, front, rest, hsteps, hline⟩ := h.known hpending hkept hopen hcontinue
  constructor
  · intro hgoing
    rw [if_pos hgoing] at hline
    exact hline.2
  · intro hended
    rw [hended, if_neg Bool.false_ne_true] at hline
    obtain ⟨hstands, changes, hcommits, htold⟩ := hline
    exact ⟨front, rest, changes, hsteps, hstands, hcommits, htold⟩

/-- Three lines. In the second the answer of the host is assigned; behind its end, another variable
is assigned in front of the third. -/
def announced : Content :=
  ⟨0, 21, .ofBlock (.container none ⟨false, false, false⟩
    [.leaf (.command .evalStart), .leaf (.value (.int 1)), .leaf (.assign ⟨"x", true, true⟩),
      .leaf (.value (.int 1)), .leaf (.assign ⟨"y", true, true⟩), .leaf (.command .evalEnd),
      .leaf (.value (.text "One")), .leaf (.value (.text "\n")),
      .leaf (.command .evalStart), .leaf (.divert ⟨.external 0, .path ⟨[.name "ask"], false⟩, false⟩),
      .leaf (.assign ⟨"x", false, true⟩), .leaf (.command .evalEnd),
      .leaf (.value (.text "Two")), .leaf (.value (.text "\n")),
      .leaf (.command .evalStart), .leaf (.value (.int 3)), .leaf (.assign ⟨"y", false, true⟩),
      .leaf (.command .evalEnd), .leaf (.value (.text "Three")), .leaf (.command .done)] []), .empty⟩

/-- The story behind its first line, with an observer of both variables. -/
def announcedStory : Story :=
  (HostCall.observe "y" "o").after ((HostCall.observe "x" "o").after (HostCall.next.after
    { Story.unstarted announced 0 with
      state := { State.start 0 with vars := Variables.empty.settle } }))

/-- The line waits for the host, which is then told of one variable. -/
theorem Flow.answer_is_told : ∃ s steps told v, Reachable s ∧ s.lineOpen = false ∧
    s.state.canContinue = true ∧ s.Line steps told v ∧ v.lineOpen = false ∧ told.length = 1 ∧
    ∃ (front rest : List Story) (changes : List (String × Value)),
      steps = front ++ rest ∧ Story.Stands front rest v.state ∧
        Story.Commits front v.state.vars.globals changes ∧
        told = changes.flatMap s.notifications := by
  have hstart : Story.ofContent announced 0 = .ok { Story.unstarted announced 0 with
    state := { State.start 0 with vars := Variables.empty.settle } } := rfl
  have hs : Reachable announcedStory :=
    .call (.call (.call (.start hstart fun u hu => by cases hu.1) .next trivial fun _ _ => trivial)
      (.observe "x" "o") trivial fun _ _ => trivial) (.observe "y" "o") trivial fun _ _ => trivial
  have hidle : announcedStory.lineOpen = false ∧ announcedStory.state.canContinue = true := by
    decide +kernel
  have hwaits : (HostCall.next.after announcedStory).lineOpen = true := by decide +kernel
  have hanswered : ((HostCall.resolve (some (.int 2))).after
      (HostCall.next.after announcedStory)).lineOpen = true := by decide +kernel
  have hline := ((@Story.Line.begin announcedStory .next rfl).go hwaits
    (.resolve (some (.int 2))) (fun _ _ => nofun)).go hanswered .next fun _ _ => nofun
  have hended : (HostCall.next.after ((HostCall.resolve (some (.int 2))).after
      (HostCall.next.after announcedStory))).lineOpen = false := by decide +kernel
  exact ⟨announcedStory, _, _, _, hs, hidle.1, hidle.2, hline, hended, by decide +kernel,
    (observers_see_lines hs hidle.1 hidle.2 hline).2 hended⟩

end StoryMachine
