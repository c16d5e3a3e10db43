import StoryMachine.Proofs.Story.LineRuns
import StoryMachine.Proofs.Story.SoundLoads
import StoryMachine.Proofs.Story.SoundSteps

/-!
# Runs keep stories sound

A host that brings in values of some kind only, and goes back only to states it has had, keeps its
story sound: what lines do is done by steps, and going back to the end of a line, or to the state in
front of a call, leads to states that were sound before.

* `Flow.keeps_continueLine`, `Flow.keeps_evaluate` : lines and calls of functions;
* `HostCall.Brings`, `Flow.keeps_run` : the calls of such a host;
* `ValueRun`, `ValueRun.sound` : the stories that it brings about are sound, by induction on the run;
* `ValueRun.assigned_is_read` : without references of open scope, assignments are read.
-/

namespace StoryMachine

namespace Story.Sound

variable {c : Content} {V : Value → Prop} {s : Story}

/-! ## Lines -/

/-- The story goes back, or on, to a sound state. -/
theorem backTo (h : s.Sound c V) {u : State} (hu : u.Sound c.tree V) :
    Story.Sound c V { s with state := u, lineState := none } :=
  ⟨h.content, hu, fun kept hkept => absurd hkept (Option.not_mem_none kept), h.answers⟩

theorem restoreLineState (h : s.Sound c V) : s.restoreLineState.Sound c V := by
  unfold Story.restoreLineState
  split
  · next kept hkept =>
    have hstate := h.lineState kept hkept
    exact h.backTo (hstate.same rfl)
  · exact h

theorem keepLineState (h : s.Sound c V) : s.keepLineState.Sound c V := by
  unfold Story.keepLineState
  split
  · split
    · exact h.backTo h.state
    · split
      · exact ⟨h.content, h.state, fun _ hk => Option.mem_some.mp hk ▸ h.state, h.answers⟩
      · exact h
  · exact h

theorem watchLine (h : s.Sound c V) : s.watchLine.2.Sound c V := by
  unfold Story.watchLine
  split
  · exact h.keepLineState
  · dsimp only
    split
    · exact h.restoreLineState
    · split
      · exact (h.backTo h.state).keepLineState
      · exact h.keepLineState

theorem logAll (h : s.Sound c V) (es : List Event) : (s.logAll es).Sound c V := by
  obtain ⟨events, hlog⟩ := s.logAll_eq es
  rw [hlog]
  exact ⟨h.content, h.state, h.lineState, h.answers⟩

theorem freshLine (h : s.Sound c V) : s.freshLine.Sound c V := by
  obtain ⟨warnings, hfresh⟩ := s.freshLine_eq
  rw [hfresh]
  exact ⟨h.content, ⟨h.state.callStack, ⟨h.state.vars.globals, h.state.vars.defaults⟩,
    h.state.evaluation, h.state.choices, h.state.diverted⟩, h.lineState, h.answers⟩

theorem tellObservers (h : s.Sound c V) : s.tellObservers.Sound c V := by
  have hlog := h.logAll (s.state.vars.changes.flatMap s.notifications)
  exact ⟨hlog.content, ⟨h.state.callStack, ⟨h.state.vars.globals, h.state.vars.defaults⟩,
    h.state.evaluation, h.state.choices, h.state.diverted⟩, hlog.lineState, hlog.answers⟩

theorem closeLine (h : s.Sound c V) : s.closeLine.Sound c V := by
  have hline := h.restoreLineState
  have hend : s.restoreLineState.state.checkEnd s.restoreLineState.tree |>.Sound c.tree V := by
    rw [hline.tree]
    exact hline.state.checkEnd
  have hclosed : Story.Sound c V { s.restoreLineState with
      state := { s.restoreLineState.state.checkEnd s.restoreLineState.tree with safeExit := false }
      metUnsafeCall := false } :=
    ⟨hline.content, hend.same rfl, hline.lineState, hline.answers⟩
  have htold := hclosed.tellObservers
  exact ⟨htold.content, htold.state, htold.lineState, htold.answers⟩

theorem endLine (h : s.Sound c V) (ended : Bool) : (s.endLine ended).Sound c V := by
  unfold Story.endLine
  split
  · exact h.closeLine
  · exact h

end Story.Sound

namespace Flow

variable {α : Type} {c : Content} {V : Value → Prop} {Q : α → Prop}

theorem keeps_modify {f : Story → Story} (h : ∀ s, s.Sound c V → (f s).Sound c V) :
    Keeps (Story.Sound c V) (modify f) :=
  fun s hs => ⟨h s hs, trivial⟩

/-- What is neither the content nor a state, nor the functions bound, is of no account. -/
theorem keeps_mark {f : Story → Story} (h : ∀ s, (f s).content = s.content ∧
    (f s).state = s.state ∧ (f s).lineState = s.lineState ∧ (f s).bindings = s.bindings) :
    Keeps (Story.Sound c V) (modify f) := by
  refine keeps_modify fun s hs => ?_
  obtain ⟨hcontent, hstate, hline, hbindings⟩ := h s
  refine ⟨hcontent.trans hs.content, ?_, ?_, ?_⟩
  · rw [hstate]
    exact hs.state
  · rw [hline]
    exact hs.lineState
  · rw [hbindings]
    exact hs.answers

theorem gives_attempt {x : Flow α} (h : Gives (Story.Sound c V) Q x) :
    Gives (Story.Sound c V) (fun r => ∀ a, r = .ok a → Q a) (attempt x) := by
  intro s hs
  have hrun := h s hs
  unfold attempt
  cases hx : x s with
  | ok a u =>
    rw [hx] at hrun
    exact ⟨hrun.1, fun b hb => Except.ok.inj hb ▸ hrun.2⟩
  | error e u =>
    rw [hx] at hrun
    exact ⟨hrun, nofun⟩

theorem keeps_attempt {x : Flow α} (h : Keeps (Story.Sound c V) x) :
    Keeps (Story.Sound c V) (attempt x) :=
  (gives_attempt h).mono fun _ _ => trivial

theorem keeps_recordError (e : StoryError) : Keeps (Story.Sound c V) (recordError e) :=
  gives_tree_bind (keeps_modifyState fun _ hs => hs.fail e)

theorem keeps_whenIdle (a : Activity) : Keeps (Story.Sound c V) (whenIdle a) := by
  refine gives_bind gives_get fun s _ => ?_
  split
  · exact gives_throw _
  · exact keeps_pure ()

theorem keeps_openLine (limited : Bool) : Keeps (Story.Sound c V) (openLine limited) := by
  have hmark : Keeps (Story.Sound c V) (modify fun s => { s with metUnsafeCall := false }) :=
    keeps_mark fun _ => ⟨rfl, rfl, rfl, rfl⟩
  have hbegin : Keeps (Story.Sound c V) (beginLine limited) := by
    refine gives_bind (keeps_mark fun _ => ⟨rfl, rfl, rfl, rfl⟩) fun _ _ =>
      gives_bind gives_get fun s _ => gives_unless _ ?_
    exact keeps_modify fun _ hs => hs.freshLine
  refine gives_bind gives_get fun s _ => ?_
  exact gives_ite (gives_bind hbegin fun _ _ => hmark) hmark

theorem keeps_reportIssues : Keeps (Story.Sound c V) reportIssues := by
  refine gives_bind gives_get fun s _ => gives_ite (gives_ite ?_ (gives_ite (gives_throw _) ?_))
    (keeps_pure ())
  · refine gives_bind (keeps_modify fun _ hs => hs.logAll _) fun _ _ =>
      keeps_modifyState fun _ hs => ?_
    exact hs.same rfl
  · exact keeps_mark fun _ => ⟨rfl, rfl, rfl, rfl⟩

theorem keeps_refuseWaiting : Keeps (Story.Sound c V) refuseWaiting := by
  refine gives_bind gives_get fun s _ => ?_
  split
  · exact gives_throw _
  · exact keeps_pure ()

section

variable (hV : c.Carries V)
include hV

theorem keeps_lineStep : Keeps (Story.Sound c V) lineStep :=
  gives_bind (keeps_plainStep hV) fun _ _ => gives_bind gives_get fun _ _ =>
    gives_ite (keeps_pure _) fun _ hs => ⟨hs.watchLine, trivial⟩

theorem keeps_runLine (nodes : Nat) : Keeps (Story.Sound c V) (runLine nodes) := by
  have hleave : Keeps (Story.Sound c V) (do
      modify fun s => { s with lineOpen := true }
      return false) :=
    gives_bind (keeps_mark fun _ => ⟨rfl, rfl, rfl, rfl⟩) fun _ _ => keeps_pure _
  induction nodes with
  | zero => exact hleave
  | succ nodes ih =>
    refine gives_bind (keeps_attempt (keeps_lineStep hV)) fun r _ => ?_
    split
    · exact gives_bind (keeps_recordError _) fun _ _ => keeps_pure _
    · refine gives_bind gives_get fun s _ => gives_ite hleave (gives_ite (keeps_pure _) ?_)
      exact gives_bind gives_state fun _ _ => gives_ite (keeps_pure _) ih

theorem keeps_continueLine (limited : Bool) (nodes : Nat) :
    Keeps (Story.Sound c V) (continueLine limited nodes) :=
  gives_bind (keeps_openLine limited) fun _ _ => gives_bind (keeps_runLine hV nodes) fun ended _ =>
    gives_bind (keeps_modify fun _ hs => hs.endLine ended) fun _ _ => keeps_reportIssues

theorem keeps_continueFor (limited : Bool) : Keeps (Story.Sound c V) (continueFor limited) :=
  gives_bind keeps_refuseWaiting fun _ _ => keeps_continueLine hV limited _

theorem keeps_next : Keeps (Story.Sound c V) next := by
  have htext : Keeps (Story.Sound c V) currentText :=
    gives_bind (keeps_whenIdle _) fun _ _ => gives_bind gives_state fun _ _ => keeps_pure _
  exact gives_bind (keeps_continueFor hV false) fun _ _ => gives_bind gives_get fun _ _ =>
    gives_ite (keeps_pure _) htext

theorem keeps_nextTagged : Keeps (Story.Sound c V) nextTagged := by
  have htags : Keeps (Story.Sound c V) currentTags :=
    gives_bind (keeps_whenIdle _) fun _ _ => gives_bind gives_state fun _ _ => keeps_pure _
  exact gives_bind (keeps_next hV) fun text _ => gives_bind gives_get fun _ _ =>
    gives_ite (keeps_pure _) (gives_bind htags fun _ _ => keeps_pure _)

theorem keeps_nextLines (text : String) (budget : Nat) :
    Keeps (Story.Sound c V) (nextLines text budget) := by
  induction budget generalizing text with
  | zero => exact keeps_pure _
  | succ budget ih =>
    exact gives_bind gives_get fun _ _ =>
      gives_ite (gives_bind (keeps_next hV) fun line _ => ih _) (keeps_pure _)

theorem keeps_nextAll : Keeps (Story.Sound c V) nextAll :=
  gives_bind (keeps_whenIdle _) fun _ _ => keeps_nextLines hV "" _

/-! ## Calls of functions -/

theorem keeps_collectLines (text : String) (budget : Nat) :
    Keeps (Story.Sound c V) (collectLines text budget) := by
  induction budget generalizing text with
  | zero => exact keeps_pure _
  | succ budget ih =>
    refine gives_bind gives_get fun s _ => gives_ite ?_ (keeps_pure _)
    refine gives_bind (keeps_attempt (keeps_next hV)) fun r _ => ?_
    split
    · exact ih _
    · exact keeps_pure _

theorem keeps_pushArguments (arguments : List Value) :
    Keeps (Story.Sound c V) (orFail fun s => s.pushArguments arguments) :=
  keeps_orFail fun _ hs => hs.pushArguments hV arguments

theorem keeps_startCall {knot : NodeId} (hknot : c.tree.isContainer knot = true)
    (arguments : List Value) : Keeps (Story.Sound c V) (startCall knot arguments) := by
  refine gives_bind (keeps_modifyState fun s hs => ?_) fun _ _ => keeps_pushArguments hV arguments
  have hpushed : State.Sound c.tree V { s with
      output := .empty, callStack := s.callStack.push .hostCall s.evaluation.length 0 } :=
    (hs.ofCallStack (hs.callStack.push _ _ _)).same rfl
  exact hpushed.setCursor fun k hk => Option.mem_some.mp hk ▸ ContentTree.isPlace_start hknot

omit hV in
theorem gives_findFunction (name : String) :
    Gives (Story.Sound c V) (fun knot => c.tree.isContainer knot = true) (findFunction name) := by
  refine gives_bind (keeps_whenIdle _) fun _ _ => gives_unless _ (gives_tree_bind ?_)
  split
  · next hknot => exact gives_pure (ContentTree.isContainer_of_knot? hknot)
  · exact gives_throw _

omit hV in
theorem keeps_abandonCall {before : State} (h : before.Sound c.tree V) :
    Keeps (Story.Sound c V) (abandonCall before) := by
  refine keeps_modify fun _ hs => ?_
  have hback := hs.backTo h
  exact ⟨hback.content, hback.state, hback.lineState, hback.answers⟩

omit hV in
theorem keeps_finishCall : Keeps (Story.Sound c V) finishCall := by
  refine gives_tree_bind (gives_bind gives_state fun s _ => gives_unless _ ?_)
  refine gives_bind (gives_withState (Q := fun _ => True) fun u hu => ⟨hu.ofEvaluation
    fun token htoken => hu.evaluation token (List.mem_of_mem_drop htoken), trivial⟩) fun result _ => ?_
  refine gives_bind (gives_tryState (Q := fun _ => True) fun u _ w hu hpop => ⟨?_, trivial⟩)
    fun _ _ => keeps_pure _
  obtain ⟨callStack, hstack, hpop⟩ := Except.bind_eq_ok.mp hpop
  cases hpop
  exact (hu.ofCallStack (hu.callStack.popKind hstack)).same rfl

theorem keeps_evaluate (name : String) (arguments : List Value) :
    Keeps (Story.Sound c V) (evaluate name arguments) := by
  refine gives_bind (gives_attempt (gives_findFunction name)) fun r hr => ?_
  split
  · exact keeps_pure _
  · next knot =>
    refine gives_bind gives_state fun before hbefore => ?_
    have hgiveUp {β : Type} (b : β) : Keeps (Story.Sound c V) (do
        abandonCall before
        return b) :=
      gives_bind (keeps_abandonCall hbefore) fun _ _ => keeps_pure b
    refine gives_bind (keeps_attempt (keeps_startCall hV (hr knot rfl) arguments)) fun r _ => ?_
    split
    · exact hgiveUp _
    · refine gives_bind (keeps_collectLines hV "" _) fun ⟨text, failure⟩ _ => ?_
      dsimp only
      split
      · exact hgiveUp _
      · refine gives_bind gives_get fun s _ => ?_
        split
        · exact hgiveUp _
        · refine gives_bind (keeps_modifyState fun u hu => ?_) fun _ _ =>
            gives_bind (keeps_attempt keeps_finishCall) fun _ _ => keeps_pure _
          exact hu.same rfl

end

end Flow

/-! ## What a host does -/

/-- The values that the host brings in by a call are of a kind, and it brings in no state. -/
def HostCall.Brings (V : Value → Prop) : HostCall → Prop
  | setVariable _ v => V v
  | bind _ f _ => f.Answers V
  | resolve (some v) => V v
  | load _ => ReadsAs V
  | restore _ => False
  | _ => True

namespace Flow

variable {c : Content} {V : Value → Prop}

theorem keeps_setVariable (hV : c.Carries V) (name : String) {v : Value} (hv : V v) :
    Keeps (Story.Sound c V) (setVariable name v) := by
  refine gives_bind (gives_tryState (Q := fun _ => True) fun s _ u hs hset => ⟨?_, trivial⟩)
    fun _ _ => keeps_modify fun _ hs => hs.logAll _
  obtain ⟨vars, hvars, hset⟩ := Except.bind_eq_ok.mp hset
  cases hset
  unfold Variables.set at hvars
  split at hvars
  · cases hvars
    exact ⟨hs.callStack, hs.vars.put hV name hv, hs.evaluation, hs.choices, hs.diverted⟩
  · cases hvars

theorem keeps_observe (name observer : String) : Keeps (Story.Sound c V) (observe name observer) :=
  gives_bind (keeps_whenIdle _) fun _ _ => gives_bind gives_state fun _ _ =>
    gives_unless _ (keeps_mark fun _ => ⟨rfl, rfl, rfl, rfl⟩)

theorem keeps_unobserve (observer : String) (name : Option String) :
    Keeps (Story.Sound c V) (unobserve observer name) :=
  gives_bind (keeps_whenIdle _) fun _ _ => keeps_mark fun _ => ⟨rfl, rfl, rfl, rfl⟩

theorem keeps_bindFunction (name : String) {f : HostFunction} (hf : f.Answers V)
    (lookaheadSafe : Bool) : Keeps (Story.Sound c V) (bind name f lookaheadSafe) := by
  refine gives_bind (keeps_whenIdle _) fun _ _ => gives_bind gives_get fun _ _ =>
    gives_unless _ (keeps_modify fun s hs => ⟨hs.content, hs.state, hs.lineState, ?_⟩)
  exact Entries.of_mem_insert (P := fun b : Binding => b.function.Answers V) hs.answers hf

theorem keeps_unbind (name : String) : Keeps (Story.Sound c V) (unbind name) := by
  refine gives_bind (keeps_whenIdle _) fun _ _ => gives_bind gives_get fun _ _ =>
    gives_unless _ (keeps_modify fun s hs => ⟨hs.content, hs.state, hs.lineState, fun e he => ?_⟩)
  exact hs.answers e (List.mem_of_mem_filter he)

theorem keeps_resolve {result : Option Value} (h : ∀ v ∈ result, V v) :
    Keeps (Story.Sound c V) (resolve result) := by
  refine gives_bind gives_get fun _ _ => gives_unless _ (gives_bind
    (keeps_mark fun _ => ⟨rfl, rfl, rfl, rfl⟩) fun _ _ => keeps_push ?_)
  split
  · next v => exact Token.sound_value (h v rfl)
  · exact Token.sound_of_not_value rfl

theorem keeps_choose (index : Nat) : Keeps (Story.Sound c V) (choose index) := by
  refine gives_bind (keeps_whenIdle _) fun _ _ => gives_bind gives_get fun s hs => ?_
  dsimp only
  split
  · exact gives_throw _
  · next o ho =>
    refine gives_bind (keeps_resumeThread ?_) fun _ _ => keeps_jumpTo _ _
    have hmem : o ∈ s.visibleChoices := List.mem_of_getElem? ho
    unfold Story.visibleChoices at hmem
    split at hmem
    · cases hmem
    · obtain ⟨i, hi, rfl⟩ := List.mem_mapIdx.mp hmem
      have hsound := hs.state.choices _ (List.mem_filter.mp (List.getElem_mem hi)).1
      exact hsound

theorem keeps_choosePath (hV : c.Carries V) (path : String) (reset : Bool) (arguments : List Value) :
    Keeps (Story.Sound c V) (choosePath path reset arguments) := by
  have hreset : Keeps (Story.Sound c V) resetCallStack :=
    gives_bind (keeps_whenIdle _) fun _ _ => keeps_modifyState fun _ hs => hs.forceEnd
  have hrefuse : Keeps (Story.Sound c V) (refuseInFunction path) :=
    gives_tree_bind (gives_bind gives_state fun _ _ => gives_ite (gives_throw _) (keeps_pure ()))
  have hjump : Keeps (Story.Sound c V) (do
      orFail fun s => s.pushArguments arguments
      jumpTo (Path.parse path) true) :=
    gives_bind (keeps_pushArguments hV arguments) fun _ _ => keeps_jumpTo _ _
  exact gives_bind (keeps_whenIdle _) fun _ _ =>
    gives_ite (gives_bind hreset fun _ _ => hjump) (gives_bind hrefuse fun _ _ => hjump)

theorem keeps_load (hread : ReadsAs V) (text : String) : Keeps (Story.Sound c V) (load text) := by
  refine gives_bind (keeps_whenIdle _) fun _ _ => gives_tree_bind ?_
  refine gives_tryState fun s _ u hs hload => ⟨?_, trivial⟩
  obtain ⟨v, hv, hload⟩ := Except.bind_eq_ok.mp hload
  cases hload
  exact hs.ofText hread hv

theorem keeps_restore {snapshot : Snapshot} (h : snapshot.state.Sound c.tree V) :
    Keeps (Story.Sound c V) (restore snapshot) :=
  gives_bind (keeps_whenIdle _) fun _ _ => gives_bind gives_get fun _ _ =>
    gives_unless _ (keeps_modifyState fun _ _ => h)

theorem keeps_declareGlobals (hV : c.Carries V) : Keeps (Story.Sound c V) declareGlobals := by
  have hsettle : Keeps (Story.Sound c V) (modifyState fun s => { s with vars := s.vars.settle }) :=
    keeps_modifyState fun _ hs =>
      ⟨hs.callStack, ⟨hs.vars.globals, hs.vars.globals⟩, hs.evaluation, hs.choices, hs.diverted⟩
  refine gives_tree_bind (gives_ite ?_ hsettle)
  refine gives_bind gives_state fun start hstart => gives_bind (keeps_jumpTo _ _) fun _ _ =>
    gives_bind (keeps_continueLine hV _ _) fun _ _ => ?_
  exact gives_bind (keeps_modifyState fun _ hs => hs.setCursor hstart.cursor) fun _ _ => hsettle

theorem keeps_resetState (hV : c.Carries V) (seed : Int32) :
    Keeps (Story.Sound c V) (resetState seed) :=
  gives_bind (keeps_whenIdle _) fun _ _ =>
    gives_bind (keeps_modifyState fun _ _ => State.sound_start hV.root seed) fun _ _ =>
      keeps_declareGlobals hV

/-- A call keeps the story sound if the values brought in are of the kind. -/
theorem keeps_run (hV : c.Carries V) {call : HostCall} (h : call.Brings V) :
    Keeps (Story.Sound c V) call.run := by
  cases call with
  | next => exact gives_bind (keeps_next hV) fun _ _ => keeps_pure ()
  | nextTagged => exact gives_bind (keeps_nextTagged hV) fun _ _ => keeps_pure ()
  | nextAll => exact gives_bind (keeps_nextAll hV) fun _ _ => keeps_pure ()
  | continueFor limited => exact keeps_continueFor hV limited
  | continueSlice more =>
    exact gives_bind keeps_refuseWaiting fun _ _ => keeps_continueLine hV true _
  | choose index => exact keeps_choose index
  | choosePath path reset arguments => exact keeps_choosePath hV path reset arguments
  | setVariable name v => exact keeps_setVariable hV name h
  | observe name observer => exact keeps_observe name observer
  | unobserve observer name => exact keeps_unobserve observer name
  | bind name f lookaheadSafe => exact keeps_bindFunction name h lookaheadSafe
  | unbind name => exact keeps_unbind name
  | resolve result =>
    refine keeps_resolve fun v hv => ?_
    cases hv
    exact h
  | resetCallStack =>
    exact gives_bind (keeps_whenIdle _) fun _ _ => keeps_modifyState fun _ hs => hs.forceEnd
  | evaluate name arguments =>
    exact gives_bind (keeps_evaluate hV name arguments) fun _ _ => keeps_pure ()
  | load text => exact keeps_load h text
  | restore snapshot => exact h.elim
  | resetState seed => exact keeps_resetState hV seed
  | resetErrors => exact keeps_modifyState fun _ hs => hs.same rfl
  | installHandler => exact keeps_mark fun _ => ⟨rfl, rfl, rfl, rfl⟩
  | allowFallbacks allow => exact keeps_mark fun _ => ⟨rfl, rfl, rfl, rfl⟩
  | takeEvents => exact keeps_mark fun _ => ⟨rfl, rfl, rfl, rfl⟩

end Flow

/-! ## Runs -/

/-- The stories over some content of a host that brings in values of a kind only, and restores only
snapshots that have been taken in such a way. -/
inductive ValueRun (c : Content) (V : Value → Prop) : Story → Prop
  | start {seed : Int32} {s : Story} (h : Story.ofContent c seed = .ok s) : ValueRun c V s
  | call {s : Story} (h : ValueRun c V s) (call : HostCall) (hbrings : call.Brings V) :
      ValueRun c V (call.after s)
  | restore {s taken : Story} (h : ValueRun c V s) (htaken : ValueRun c V taken) :
      ValueRun c V ((HostCall.restore taken.snapshot).after s)

theorem Story.sound_ofContent {c : Content} {V : Value → Prop} (hV : c.Carries V) {seed : Int32}
    {s : Story} (h : Story.ofContent c seed = .ok s) : s.Sound c V := by
  have hunstarted : (Story.unstarted c seed).Sound c V :=
    ⟨rfl, State.sound_start hV.root seed, fun kept hkept => absurd hkept (Option.not_mem_none kept),
      nofun⟩
  have hversion : Flow.Keeps (Story.Sound c V) Flow.checkVersion :=
    Flow.gives_bind Flow.gives_get fun _ _ =>
      Flow.gives_ite (Flow.keeps_warn _) (Flow.keeps_pure ())
  have hrun : Flow.Keeps (Story.Sound c V) (do Flow.declareGlobals; Flow.checkVersion) :=
    Flow.gives_bind (Flow.keeps_declareGlobals hV) fun _ _ => hversion
  have hsound := hrun _ hunstarted
  unfold Story.ofContent at h
  split at h
  · next u heq =>
    cases h
    rw [heq] at hsound
    exact hsound.1
  · cases h

/-- A host that brings in values of a kind only keeps its story sound, if the content carries such
values. -/
theorem ValueRun.sound {c : Content} {V : Value → Prop} (hV : c.Carries V) {s : Story}
    (hs : ValueRun c V s) : s.Sound c V := by
  induction hs with
  | start h => exact Story.sound_ofContent hV h
  | call _ call hbrings ih => exact (Flow.keeps_run hV hbrings).after ih
  | restore _ _ ih ihtaken => exact (Flow.keeps_restore ihtaken.state).after ih

/-! ## References -/

/-- A reference knows its scope. -/
def Value.ScopeKnown (v : Value) : Prop :=
  ∀ name, v ≠ .reference name unknownScope

/-- Where a reference of the content does not know its scope, it gets one. -/
theorem Content.carries_scopeKnown {c : Content}
    (hroot : c.tree.isContainer ContentTree.rootId = true) : c.Carries Value.ScopeKnown where
  root := hroot
  passable v hv := by
    rintro name rfl
    exact hv.elim
  known name scope hscope := by
    rintro other h
    injection h with _ h
    subst h
    exact absurd hscope (by decide)
  literal _ h := h

theorem Variables.Follows.scope_known {c : Content} {t : ContentTree} {v : Variables} {s : CallStack}
    {x last : String × Int} {path : List (String × Int)} (hV : c.Carries Value.ScopeKnown)
    (hv : v.Sound Value.ScopeKnown) (hs : s.Sound t Value.ScopeKnown)
    (h : v.Follows c.lists s x path last) : path = [] ∨ last.2 ≠ unknownScope := by
  induction h with
  | ends => exact .inl rfl
  | @step x y last path hstep hrest ih =>
    rcases ih with rfl | hlast
    · cases hrest
      exact .inr fun hscope => hv.raw? hV hs hstep y.1 (by rw [hscope])
    · exact .inr hlast

/-- As long as a host brings in no reference of open scope, reading a name behind an assignment finds
the value assigned. -/
theorem ValueRun.assigned_is_read {c : Content}
    (hroot : c.tree.isContainer ContentTree.rootId = true) {s : Story}
    (hs : ValueRun c Value.ScopeKnown s) {a : Assignment} {value : Value} {path : List (String × Int)}
    {last : String × Int} {vars : Variables} {callStack : CallStack} (ha : a.isDeclaration = false)
    (hname : c.lists.single? a.name = none) (hvalue : value.IsPlain)
    (hfollows : s.state.vars.Follows c.lists s.state.callStack (a.name, unknownScope) path last)
    (hassign : s.state.vars.assign c.lists s.state.callStack a value = .ok (vars, callStack)) :
    ∃ slot, s.state.vars.slot? c.lists s.state.callStack a = some slot ∧
      vars.read? c.lists callStack a.name =
        some (.replacing (slot.value? s.state.vars s.state.callStack) value) := by
  have hV := Content.carries_scopeKnown hroot
  have hsound := (hs.sound hV).state
  rcases s.state.vars.assign_slot ha c.lists s.state.callStack value with
    ⟨slot, _, _, hslot, -⟩ | ⟨fault, hfailed, -⟩
  · refine ⟨slot, hslot,
      (Variables.read?_of_assign ha hname hvalue hfollows hassign hslot).resolve_right ?_⟩
    rintro ⟨⟨hpath, hscope, -⟩, -⟩
    exact (hfollows.scope_known hV hsound.vars hsound.callStack).elim hpath fun h => h hscope
  · rw [hfailed] at hassign
    cases hassign

end StoryMachine
