import StoryMachine.Proofs.Story.LineRuns

/-!
# What the calls of a host keep

A host may do most things only between lines, and what it may do in a line does not touch the
line. So a property of stories holds in every run if lines respect it, and a handful of other
changes do.

* `Story.Idle` : no line is in progress;
* `Story.LeavesLine` : what a host may change in a line;
* `Story.CallInvariant` : what a property has to respect;
* `Story.CallInvariant.after_call`, `Story.CallInvariant.run` : then every call keeps it, and it
  holds in every run.
-/

namespace StoryMachine

namespace Story

/-- No line is in progress, and no call waits for the host. -/
structure Idle (s : Story) : Prop where
  lineOpen : s.lineOpen = false
  pending : s.pending = none

/-- The line and the flow are as they were, except that a call may have got its result and errors
may have been forgotten. -/
structure LeavesLine (s u : Story) : Prop where
  lineOpen : u.lineOpen = s.lineOpen
  lineState : u.lineState = s.lineState
  pending : u.pending = none ∨ u.pending = s.pending
  callStack : u.state.callStack = s.state.callStack
  choices : u.state.choices = s.state.choices
  output : u.state.output = s.state.output
  errors : u.state.errors = [] ∨ u.state.errors = s.state.errors
  visits : u.state.visits = s.state.visits
  content : u.content = s.content

end Story

namespace Flow

variable {α β : Type} {I : Story → Prop}

/-- What has to wait is either refused or done between lines. -/
theorem whenIdle_cases (a : Activity) (s : Story) :
    whenIdle a s = .ok () s ∧ s.pending = none ∧ s.lineOpen = false ∨
      ∃ e, whenIdle a s = .error e s := by
  unfold whenIdle
  rw [bind_ok (get_ok s)]
  unfold Story.busy?
  cases hpending : s.pending with
  | some call => exact .inr ⟨_, rfl⟩
  | none =>
    cases hopen : s.lineOpen with
    | true => exact .inr ⟨_, rfl⟩
    | false => exact .inl ⟨rfl, rfl, rfl⟩

theorem whenIdle_ok {s : Story} (h : s.Idle) (a : Activity) : whenIdle a s = .ok () s := by
  unfold whenIdle
  rw [bind_ok (get_ok s), Story.busy?, h.pending]
  dsimp only
  rw [h.lineOpen]
  rfl

/-- What has to wait is seen to between lines only. -/
theorem holds_whenIdle {a : Activity} {k : Unit → Flow β} {s : Story} (hs : I s)
    (hk : s.Idle → I ((k ()).after s)) : I ((whenIdle a >>= k).after s) := by
  rcases whenIdle_cases a s with ⟨h, hpending, hopen⟩ | ⟨e, h⟩
  · rw [after_bind_ok h]
    exact hk ⟨hopen, hpending⟩
  · rw [after_bind_error h]
    exact hs

/-- Whatever a call that has to wait does, it does between lines. -/
theorem holds_idle {a : Activity} {k : Unit → Flow β} {s : Story} (hs : I s)
    (hk : s.Idle → I ((whenIdle a >>= k).after s)) : I ((whenIdle a >>= k).after s) :=
  holds_whenIdle hs fun hidle => by
    have hrun := hk hidle
    rwa [after_bind_ok (whenIdle_ok hidle a)] at hrun

/-- What has to be waited for is either refused or there is nothing. -/
theorem refuseWaiting_cases (s : Story) :
    refuseWaiting s = .ok () s ∧ s.pending = none ∨ ∃ e, refuseWaiting s = .error e s := by
  unfold refuseWaiting
  rw [bind_ok (get_ok s)]
  cases s.pending with
  | some call => exact .inr ⟨_, rfl⟩
  | none => exact .inl ⟨rfl, rfl⟩

theorem refuseWaiting_ok {s : Story} (h : s.pending = none) : refuseWaiting s = .ok () s := by
  unfold refuseWaiting
  rw [bind_ok (get_ok s), h]
  rfl

theorem holds_refuseWaiting {k : Unit → Flow β} {s : Story} (hs : I s)
    (hk : s.pending = none → I ((k ()).after s)) : I ((refuseWaiting >>= k).after s) := by
  rcases refuseWaiting_cases s with ⟨h, hpending⟩ | ⟨e, h⟩
  · rw [after_bind_ok h]
    exact hk hpending
  · rw [after_bind_error h]
    exact hs

/-- The result of a call does not matter to what it leaves behind. -/
theorem after_discard (x : Flow α) (s : Story) : (x >>= fun _ => pure ()).after s = x.after s := by
  cases h : x s with
  | ok a u =>
    rw [after_bind_ok h, after_of_ok h]
    rfl
  | error e u => rw [after_bind_error h, after_of_error h]

/-- Reading the text of a line changes nothing. -/
theorem after_next (s : Story) : next.after s = (continueFor false).after s := by
  unfold next
  cases hrun : continueFor false s with
  | error e u => rw [after_bind_error hrun, after_of_error hrun]
  | ok _ u =>
    rw [after_bind_ok hrun, after_of_ok hrun, after_bind_ok (get_ok u)]
    split
    · rfl
    · unfold currentText
      rcases whenIdle_cases .readText u with ⟨h, -⟩ | ⟨e, h⟩
      · rw [after_bind_ok h]
        rfl
      · rw [after_bind_error h]

/-- Reading the tags of a line changes nothing. -/
theorem after_nextTagged (s : Story) : nextTagged.after s = next.after s := by
  unfold nextTagged
  cases hrun : next s with
  | error e u => rw [after_bind_error hrun, after_of_error hrun]
  | ok text u =>
    rw [after_bind_ok hrun, after_of_ok hrun, after_bind_ok (get_ok u)]
    split
    · rfl
    · unfold currentTags
      rw [bind_assoc]
      rcases whenIdle_cases .readTags u with ⟨h, -⟩ | ⟨e, h⟩
      · rw [after_bind_ok h]
        rfl
      · rw [after_bind_error h]

/-! ## Calls between lines -/

/-- Choosing takes a choice, or is refused. -/
theorem changes_choose (index : Nat) (s : Story) :
    Changes s.content .silent s ((choose index).after s) := by
  refine holds_whenIdle (I := fun u => Changes s.content .silent s u) .refl fun _ => ?_
  rw [after_bind_ok (get_ok s)]
  dsimp only
  split
  · exact .refl
  · next o ho =>
    have hmem : o ∈ s.visibleChoices := List.mem_of_getElem? ho
    unfold Story.visibleChoices at hmem
    split at hmem
    · cases hmem
    · obtain ⟨i, hi, rfl⟩ := List.mem_mapIdx.mp hmem
      exact changes_takeChoice (List.mem_filter.mp (List.getElem_mem hi)).1 false _
        (fun _ => rfl) rfl

/-- Arguments change the evaluation stack alone. -/
theorem exists_pushArguments_eq (s : State) (arguments : List Value) :
    ∃ es, (s.pushArguments arguments).1 = { s with evaluation := es } := by
  induction arguments generalizing s with
  | nil => exact ⟨s.evaluation, rfl⟩
  | cons v rest ih =>
    unfold State.pushArguments
    split
    · exact ⟨s.evaluation, rfl⟩
    · exact ⟨s.evaluation, rfl⟩
    · obtain ⟨es, h⟩ := ih (s.push (.value v))
      exact ⟨es, h⟩

theorem within_pushArguments {c : Content} {fx : Effects} (arguments : List Value) :
    Within c fx (orFail fun s => s.pushArguments arguments) := by
  intro s _
  rw [after_orFail]
  obtain ⟨es, h⟩ := exists_pushArguments_eq s.state arguments
  rw [h]
  exact .single (.state (.evaluation s.state es))

theorem after_refuseInFunction (path : String) (s : Story) : (refuseInFunction path).after s = s := by
  unfold refuseInFunction
  rw [after_bind_ok (tree_ok s), after_bind_ok (state_ok s)]
  dsimp only
  split
  · rfl
  · rfl

/-- Jumping to a path is done between lines, or refused. -/
theorem changes_choosePath (path : String) (reset : Bool) (arguments : List Value) (s : Story) :
    Changes s.content .silent s ((choosePath path reset arguments).after s) := by
  refine holds_whenIdle (I := fun u => Changes s.content .silent s u) .refl fun hidle => ?_
  have hjump : Within s.content .silent (do
      orFail fun s => s.pushArguments arguments
      jumpTo (Path.parse path) true : Flow Unit) :=
    within_bind (within_pushArguments arguments) fun _ => within_jumpTo _ fun _ => rfl
  have hend : Within s.content .silent resetCallStack := fun u _ =>
    holds_whenIdle (I := fun v => Changes s.content .silent u v) .refl fun _ =>
      .single (.state (.finish u.state))
  have hrefuse : Within s.content .silent (refuseInFunction path) := fun u _ => by
    rw [after_refuseInFunction]
  exact within_ite (within_bind hend fun _ => hjump) (within_bind hrefuse fun _ => hjump) s rfl

theorem load_of_read {text : String} {s : Story} {state : State} (hidle : s.Idle)
    (hread : s.state.ofText s.tree text = .ok state) :
    load text s = .ok () { s with state } := by
  unfold load
  rw [bind_ok (whenIdle_ok hidle .load), bind_ok (tree_ok s)]
  exact tryState_run_ok (by rw [hread]; rfl)

/-- What is loaded is read from the text, between lines. -/
theorem load_cases (text : String) (s : Story) :
    (∃ state, s.Idle ∧ s.state.ofText s.tree text = .ok state ∧
      load text s = .ok () { s with state }) ∨ ∃ e, load text s = .error e s := by
  rcases whenIdle_cases .load s with ⟨hrun, hpending, hopen⟩ | ⟨e, hbusy⟩
  · have hidle : s.Idle := ⟨hopen, hpending⟩
    cases hread : s.state.ofText s.tree text with
    | ok state => exact .inl ⟨state, hidle, rfl, load_of_read hidle hread⟩
    | error e =>
      refine .inr ⟨e, ?_⟩
      unfold load
      rw [bind_ok hrun, bind_ok (tree_ok s)]
      exact tryState_run_error (by rw [hread]; rfl)
  · exact .inr ⟨e, bind_error hbusy⟩

/-- Setting a variable changes the variables, and tells their observers. -/
theorem after_setVariable (name : String) (v : Value) (s : Story) :
    (setVariable name v).after s = s ∨ ∃ vars events, (setVariable name v).after s =
      { s with state := { s.state with vars }, events } := by
  unfold setVariable
  cases hset : s.state.vars.set name v with
  | ok vars =>
    have hrun : tryState (fun s => return ((), { s with vars := ← s.vars.set name v })) s =
        .ok () { s with state := { s.state with vars } } :=
      tryState_run_ok (by rw [hset]; rfl)
    rw [after_bind_ok hrun]
    obtain ⟨events, hlog⟩ := Story.logAll_eq { s with state := { s.state with vars } }
      (Story.notifications { s with state := { s.state with vars } } (name, v))
    rw [after_of_ok (modify_ok _ _), hlog]
    exact .inr ⟨vars, events, rfl⟩
  | error e =>
    have hrun : tryState (fun s => return ((), { s with vars := ← s.vars.set name v })) s =
        .error e s := tryState_run_error (by rw [hset]; rfl)
    rw [after_bind_error hrun]
    exact .inl rfl

/-- A function is called only between lines. -/
theorem after_evaluate_busy (name : String) (arguments : List Value) {s : Story}
    (h : ¬ s.Idle) : (evaluate name arguments).after s = s := by
  have hfind : ∃ e, findFunction name s = .error e s := by
    unfold findFunction
    rcases whenIdle_cases .evaluate s with ⟨-, hpending, hopen⟩ | ⟨e, hbusy⟩
    · exact absurd ⟨hopen, hpending⟩ h
    · exact ⟨e, bind_error hbusy⟩
  obtain ⟨e, hfind⟩ := hfind
  unfold evaluate
  rw [after_bind_ok (attempt_error hfind)]
  rfl

end Flow

/-! ## Every call -/

/-- The call has a limit of time. -/
def HostCall.IsLimited : HostCall → Prop
  | continueFor limited => limited = true
  | continueSlice _ => True
  | _ => False

namespace Story

/-- What `I` has to respect for every call of a host to keep it: calls that `A` allows, from
stories where `R` holds if the call is a continue with a limit of time that is refused. Steps of
lines are made from stories that satisfy `P`. -/
structure CallInvariant (P : Story → Prop) (A : HostCall → Story → Prop) (R I : Story → Prop) :
    Prop where
  same {s u : Story} (h : I s) (hsame : s.LeavesLine u) : I u
  silent {s u : Story} (h : I s) (hidle : s.Idle) (hchanges : Changes s.content .silent s u) : I u
  line {s : Story} {limited : Bool} {nodes : Nat} (hnodes : 0 < nodes) (h : I s)
    (hpending : s.pending = none)
    (hrefused : limited = true → s.lineOpen = false → s.state.canContinue = false → R s)
    (hvisits : ∀ u, s.Visits limited nodes u → P u) :
    I ((Flow.continueLine limited nodes).after s)
  evaluate {s : Story} (name : String) (arguments : List Value) (h : I s) (hidle : s.Idle) :
    I ((Flow.evaluate name arguments).after s)
  load {s : Story} {text : String} {state : State} (hallowed : A (.load text) s) (h : I s)
    (hidle : s.Idle) (hread : s.state.ofText s.tree text = .ok state) : I { s with state }
  restore {s : Story} {snapshot : Snapshot} (hallowed : A (.restore snapshot) s) (h : I s)
    (hidle : s.Idle) (hkey : s.content.key = snapshot.key) : I { s with state := snapshot.state }
  start {s : Story} {seed : Int32} (hallowed : A (.resetState seed) s) (h : I s) (hidle : s.Idle) :
    I { s with state := .start seed }
  back {s : Story} (place : Cursor) (h : I s) :
    I { s with state := s.state.setCursor (some place) }

namespace CallInvariant

variable {P R I : Story → Prop} {A : HostCall → Story → Prop} (hI : CallInvariant P A R I)
include hI

theorem continueFor {s : Story} {limited : Bool} (hs : I s)
    (hrefused : limited = true → s.lineOpen = false → s.state.canContinue = false → R s)
    (hvisits : ∀ u, s.Visits limited Flow.nodeBudget u → P u) :
    I ((Flow.continueFor limited).after s) :=
  Flow.holds_refuseWaiting hs fun hpending => hI.line (by decide) hs hpending hrefused hvisits

theorem next {s : Story} (hs : I s) (hvisits : ∀ u, s.Visits false Flow.nodeBudget u → P u) :
    I (Flow.next.after s) := by
  rw [Flow.after_next]
  exact hI.continueFor hs (fun h => by cases h) hvisits

theorem nextLines (budget : Nat) (text : String) {s : Story} (hs : I s)
    (hvisits : ∀ u, s.VisitsLines u → P u) : I ((Flow.nextLines text budget).after s) := by
  induction budget generalizing text s with
  | zero => exact hs
  | succ budget ih =>
    have hline : I (Flow.next.after s) := hI.next hs fun u hu => hvisits u (.here hu)
    unfold Flow.nextLines
    rw [Flow.after_bind_ok (Flow.get_ok s)]
    split
    · cases hrun : Flow.next s with
      | error e u =>
        rw [Flow.after_bind_error hrun]
        rwa [Flow.after_of_error hrun] at hline
      | ok line u =>
        rw [Flow.after_bind_ok hrun]
        rw [Flow.after_of_ok hrun] at hline
        exact ih _ hline fun v hv => hvisits v (.next hrun hv)
    · exact hs

theorem declareGlobals {s : Story} {place : Cursor} (hs : I s) (hidle : s.Idle)
    (hplace : s.state.cursor = some place) (hvisits : ∀ u, s.VisitsDeclarations u → P u) :
    I (Flow.declareGlobals.after s) := by
  have hsettle : ∀ u, I u → I ((Flow.modifyState fun s =>
      { s with vars := s.vars.settle }).after u) := fun u hu =>
    hI.same hu ⟨rfl, rfl, .inr rfl, rfl, rfl, rfl, .inr rfl, rfl, rfl⟩
  unfold Flow.declareGlobals
  rw [Flow.after_bind_ok (Flow.tree_ok s)]
  split
  · next hdeclares =>
    dsimp only
    rw [Flow.after_bind_ok (Flow.state_ok s), hplace]
    have hjump : Changes s.content .silent s
        ((Flow.jumpTo (Path.parse declarationsName) false).after s) :=
      Flow.within_jumpTo (Path.parse declarationsName) Bool.noConfusion s rfl
    cases hrun : Flow.jumpTo (Path.parse declarationsName) false s with
    | error e u =>
      rw [Flow.after_bind_error hrun]
      rw [Flow.after_of_error hrun] at hjump
      exact hI.silent hs hidle hjump
    | ok _ u =>
      rw [Flow.after_bind_ok hrun]
      rw [Flow.after_of_ok hrun] at hjump
      have hpending : u.pending = none := by
        rw [(hjump.state_only rfl).2]
        exact hidle.pending
      have hline : I ((Flow.continueLine false Flow.nodeBudget).after u) :=
        hI.line (by decide) (hI.silent hs hidle hjump) hpending (fun h => by cases h)
          fun v hv => hvisits v ⟨hdeclares, u, hrun, hv⟩
      cases hcontinue : Flow.continueLine false Flow.nodeBudget u with
      | error e v =>
        rw [Flow.after_bind_error hcontinue]
        rwa [Flow.after_of_error hcontinue] at hline
      | ok _ v =>
        rw [Flow.after_bind_ok hcontinue]
        rw [Flow.after_of_ok hcontinue] at hline
        exact hsettle _ (hI.back place hline)
  · exact hsettle s hs

/-- What a property has to respect is all there is to calls. -/
theorem after_call {s : Story} (hs : I s) (call : HostCall) (hallowed : A call s)
    (hrefused : call.IsLimited → s.lineOpen = false → s.state.canContinue = false → R s)
    (hvisits : ∀ u, call.Visits s u → P u) : I (call.after s) := by
  cases call with
  | next =>
    have hafter : HostCall.next.after s = Flow.next.after s := Flow.after_discard Flow.next s
    rw [hafter]
    exact hI.next hs hvisits
  | nextTagged =>
    have hafter : HostCall.nextTagged.after s = Flow.next.after s :=
      (Flow.after_discard Flow.nextTagged s).trans (Flow.after_nextTagged s)
    rw [hafter]
    exact hI.next hs hvisits
  | nextAll =>
    have hafter : HostCall.nextAll.after s = Flow.nextAll.after s :=
      Flow.after_discard Flow.nextAll s
    rw [hafter]
    exact Flow.holds_whenIdle hs fun _ => hI.nextLines _ _ hs hvisits
  | continueFor limited => exact hI.continueFor hs hrefused hvisits
  | continueSlice more =>
    exact Flow.holds_refuseWaiting hs fun hpending =>
      hI.line (Nat.succ_pos more) hs hpending (fun _ => hrefused trivial) hvisits
  | choose index =>
    exact Flow.holds_idle hs fun hidle => hI.silent hs hidle (Flow.changes_choose index s)
  | choosePath path reset arguments =>
    exact Flow.holds_idle hs fun hidle =>
      hI.silent hs hidle (Flow.changes_choosePath path reset arguments s)
  | setVariable name v =>
    rcases Flow.after_setVariable name v s with h | ⟨vars, events, h⟩
    · exact (congrArg I h).mpr hs
    · exact (congrArg I h).mpr (hI.same hs ⟨rfl, rfl, .inr rfl, rfl, rfl, rfl, .inr rfl, rfl, rfl⟩)
  | observe name observer =>
    refine Flow.holds_whenIdle hs fun _ => ?_
    rw [Flow.after_bind_ok (Flow.state_ok s)]
    dsimp only
    split
    · exact hs
    · exact hI.same hs ⟨rfl, rfl, .inr rfl, rfl, rfl, rfl, .inr rfl, rfl, rfl⟩
  | unobserve observer name =>
    exact Flow.holds_whenIdle hs fun _ =>
      hI.same hs ⟨rfl, rfl, .inr rfl, rfl, rfl, rfl, .inr rfl, rfl, rfl⟩
  | bind name f lookaheadSafe =>
    refine Flow.holds_whenIdle hs fun _ => ?_
    rw [Flow.after_bind_ok (Flow.get_ok s)]
    dsimp only
    split
    · exact hs
    · exact hI.same hs ⟨rfl, rfl, .inr rfl, rfl, rfl, rfl, .inr rfl, rfl, rfl⟩
  | unbind name =>
    refine Flow.holds_whenIdle hs fun _ => ?_
    rw [Flow.after_bind_ok (Flow.get_ok s)]
    dsimp only
    split
    · exact hs
    · exact hI.same hs ⟨rfl, rfl, .inr rfl, rfl, rfl, rfl, .inr rfl, rfl, rfl⟩
  | resolve result =>
    show I ((Flow.resolve result).after s)
    unfold Flow.resolve
    rw [Flow.after_bind_ok (Flow.get_ok s)]
    cases hpending : s.pending with
    | none => exact hs
    | some call => exact hI.same hs ⟨rfl, rfl, .inl rfl, rfl, rfl, rfl, .inr rfl, rfl, rfl⟩
  | resetCallStack =>
    exact Flow.holds_whenIdle hs fun hidle =>
      hI.silent hs hidle (.single (.state (.finish s.state)))
  | evaluate name arguments =>
    have hafter : (HostCall.evaluate name arguments).after s =
      (Flow.evaluate name arguments).after s := Flow.after_discard _ s
    rw [hafter]
    by_cases hidle : s.Idle
    · exact hI.evaluate name arguments hs hidle
    · rw [Flow.after_evaluate_busy name arguments hidle]
      exact hs
  | load text =>
    rcases Flow.load_cases text s with ⟨state, hidle, hread, hrun⟩ | ⟨e, hrun⟩
    · have hafter : (HostCall.load text).after s = { s with state } := Flow.after_of_ok hrun
      rw [hafter]
      exact hI.load hallowed hs hidle hread
    · have hafter : (HostCall.load text).after s = s := Flow.after_of_error hrun
      rwa [hafter]
  | restore snapshot =>
    refine Flow.holds_whenIdle hs fun hidle => ?_
    rw [Flow.after_bind_ok (Flow.get_ok s)]
    dsimp only
    split
    · exact hs
    · next hkey => exact hI.restore hallowed hs hidle (Decidable.of_not_not hkey)
  | resetState seed =>
    exact Flow.holds_whenIdle hs fun hidle =>
      hI.declareGlobals (hI.start hallowed hs hidle) ⟨hidle.lineOpen, hidle.pending⟩ rfl hvisits
  | resetErrors => exact hI.same hs ⟨rfl, rfl, .inr rfl, rfl, rfl, rfl, .inl rfl, rfl, rfl⟩
  | installHandler => exact hI.same hs ⟨rfl, rfl, .inr rfl, rfl, rfl, rfl, .inr rfl, rfl, rfl⟩
  | allowFallbacks allow => exact hI.same hs ⟨rfl, rfl, .inr rfl, rfl, rfl, rfl, .inr rfl, rfl, rfl⟩
  | takeEvents => exact hI.same hs ⟨rfl, rfl, .inr rfl, rfl, rfl, rfl, .inr rfl, rfl, rfl⟩

end CallInvariant

end Story

namespace Flow

theorem checkVersion_ok (s : Story) : ∃ warnings, checkVersion s =
    .ok () { s with state := { s.state with warnings } } := by
  unfold checkVersion
  rw [bind_ok (get_ok s)]
  dsimp only
  split
  · exact ⟨_, rfl⟩
  · exact ⟨s.state.warnings, rfl⟩

end Flow

/-- A new story has run the global declarations, and may warn of its version. -/
theorem Story.ofContent_ok {content : Content} {seed : Int32} {s : Story}
    (h : Story.ofContent content seed = .ok s) :
    ∃ v warnings, Flow.declareGlobals (.unstarted content seed) = .ok () v ∧
      s = { v with state := { v.state with warnings } } := by
  unfold Story.ofContent at h
  split at h
  · next u hrun =>
    cases h
    obtain ⟨_, v, hv, hu⟩ := Flow.exists_of_bind_eq_ok hrun
    obtain ⟨warnings, hcheck⟩ := Flow.checkVersion_ok v
    cases hcheck.symm.trans hu
    exact ⟨v, warnings, hv, rfl⟩
  · cases h

/-- What holds of a story that has not been started, and is respected by the calls of a host,
holds in every run. -/
theorem Story.CallInvariant.run {P R I : Story → Prop} {A : HostCall → Story → Prop}
    (hI : Story.CallInvariant P A R I)
    (hstart : ∀ content seed, I (.unstarted content seed))
    (hrefused : ∀ call s, A call s → call.IsLimited → s.lineOpen = false →
      s.state.canContinue = false → R s) {s : Story} (hs : Run P A s) : I s := by
  induction hs with
  | @start content seed s h hvisits =>
    have hdeclare : I (Flow.declareGlobals.after (.unstarted content seed)) :=
      hI.declareGlobals (hstart content seed) ⟨rfl, rfl⟩ rfl hvisits
    obtain ⟨v, warnings, hv, rfl⟩ := Story.ofContent_ok h
    rw [Flow.after_of_ok hv] at hdeclare
    exact hI.same hdeclare ⟨rfl, rfl, .inr rfl, rfl, rfl, rfl, .inr rfl, rfl, rfl⟩
  | call _ call hallowed hvisits ih =>
    exact hI.after_call ih call hallowed (hrefused call _ hallowed) hvisits

end StoryMachine
