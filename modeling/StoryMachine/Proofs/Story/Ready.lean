import StoryMachine.Proofs.Story.Moving

/-!
# Between the steps of a line

In front of every step of a line there is no error and no call met looking ahead; and where no
state is kept, the output does not end in a line end, unless a string is being put out. So there is
nothing to watch for behind a step that puts nothing out.

* `Story.Ready` : what holds in front of every step of a line;
* `Story.Ready.goesOn` : it holds again in front of the next step;
* `Story.Ready.quiet` : it is kept by changes that put nothing out;
* `Flow.settle`, `Story.Ready.settle` : what is seen to behind a step.
-/

namespace StoryMachine

/-! ## What changes keep -/

theorem Output.endsLine_of_dropSpacing : ∀ (count : Nat) (ts : List Token),
    endsLine (dropSpacing count ts) = true → endsLine ts = true
  | 0, ts, h => by rwa [dropSpacing] at h
  | _ + 1, [], h => h
  | _ + 1, .command _ :: _, h => h
  | count + 1, .value (.text s) :: rest, h => by
    rw [dropSpacing] at h
    split at h
    · exact h
    · next hvisible =>
      rw [endsLine, Output.endsLine_of_dropSpacing count rest h]
      simp [hvisible]
  | count + 1, .value (.bool _) :: rest, h | count + 1, .value (.int _) :: rest, h
  | count + 1, .value (.float _) :: rest, h | count + 1, .value (.list _) :: rest, h
  | count + 1, .value (.target _) :: rest, h | count + 1, .value (.reference ..) :: rest, h
  | count + 1, .tag _ :: rest, h | count + 1, .glue :: rest, h | count + 1, .void :: rest, h =>
    Output.endsLine_of_dropSpacing count rest h

theorem StateChange.messages_eq {c : Content} {fx : Effects} {s u : State}
    (h : StateChange c fx s u) : u.errors = s.errors ∧ u.firstError = s.firstError := by
  cases h with
  | enter id atStart =>
    obtain ⟨visits, turns, henter⟩ := s.exists_enter_eq c.tree id atStart
    rw [henter]
    exact ⟨rfl, rfl⟩
  | «return» hpop =>
    obtain ⟨output, stack, -, rfl⟩ := State.popFrame_ok hpop
    exact ⟨rfl, rfl⟩
  | markText =>
    obtain ⟨thread, hmark, -⟩ := s.exists_markText_eq
    rw [hmark]
    exact ⟨rfl, rfl⟩
  | _ => exact ⟨rfl, rfl⟩

theorem StateChange.endsInLineEnd {c : Content} {fx : Effects} (hfx : fx.output = false)
    {s u : State} (h : StateChange c fx s u) (hu : u.output.endsInLineEnd = true) :
    s.output.endsInLineEnd = true := by
  cases h with
  | enter id atStart =>
    obtain ⟨visits, turns, henter⟩ := s.exists_enter_eq c.tree id atStart
    rwa [henter] at hu
  | «return» hpop =>
    unfold State.popFrame at hpop
    dsimp only at hpop
    obtain ⟨callStack, -, hstate⟩ := Except.bind_eq_ok.mp hpop
    cases hstate
    dsimp only at hu
    split at hu
    · exact Output.endsLine_of_dropSpacing _ _ hu
    · exact hu
  | putOut o hput =>
    rw [hfx] at hput
    cases hput
  | markText hput =>
    rw [hfx] at hput
    cases hput
  | _ => exact hu

namespace Changes

variable {c : Content} {fx : Effects} {s u : Story}

/-- Errors are recorded by no change of a step. -/
theorem hasError_eq (h : Changes c fx s u) : u.state.hasError = s.state.hasError := by
  induction h with
  | refl => rfl
  | tail _ h ih =>
    cases h with
    | state h => rw [← ih, State.hasError, State.hasError, h.messages_eq.1]
    | called | wait | unsafeCall => exact ih

/-- What puts nothing out brings no line end about. -/
theorem endsInLineEnd (hfx : fx.output = false) (h : Changes c fx s u)
    (hu : u.state.output.endsInLineEnd = true) : s.state.output.endsInLineEnd = true := by
  induction h with
  | refl => exact hu
  | tail _ h ih =>
    cases h with
    | state h => exact ih (h.endsInLineEnd hfx hu)
    | called | wait | unsafeCall => exact ih hu

theorem inString_eq (hfx : fx.output = false) (h : Changes c fx s u) :
    u.state.output.inString = s.state.output.inString :=
  (h.trimmed hfx).hasBegun_eq

/-- A call is met only while a state is kept, and outside strings. -/
theorem met_eq_or (h : Changes c fx s u) : u.metUnsafeCall = s.metUnsafeCall ∨
    fx.calls = true ∧ s.lineState.isSome = true ∧
      (fx.output = false → u.state.output.inString = false) := by
  induction h with
  | refl => exact .inl rfl
  | @tail v w hv h ih =>
    refine ih.elim (fun hmet => ?_) fun ⟨hcalls, hkept, hstring⟩ => .inr ⟨hcalls, hkept, fun hfx => ?_⟩
    · cases h with
      | state | called | wait => exact .inl hmet
      | unsafeCall hcalls hkept hstring =>
        rw [Changes.lineState_eq hv] at hkept
        exact .inr ⟨hcalls, hkept, fun _ => hstring⟩
    · rw [Changes.inString_eq hfx (.single h), hstring hfx]

/-- A call begins to wait only while no state is kept. -/
theorem pending_eq_or (h : Changes c fx s u) :
    u.pending = s.pending ∨ fx.calls = true ∧ s.lineState = none := by
  induction h with
  | refl => exact .inl rfl
  | @tail v w hv h ih =>
    refine ih.elim (fun hpending => ?_) .inr
    cases h with
    | state | called | unsafeCall => exact .inl hpending
    | wait _ hcalls hkept => exact .inr ⟨hcalls, (Changes.lineState_eq hv).symm.trans hkept⟩

end Changes

namespace Flow

theorem resolve_ok {s : Story} {call : PendingCall} (h : s.pending = some call)
    (answer : Option Value) : resolve answer s =
      .ok () { s with pending := none, state := s.state.push (.ofAnswer answer) } := by
  unfold resolve
  rw [bind_ok (get_ok s), h]
  cases answer with
  | none => rfl
  | some v => rfl

theorem step_of_none {s : Story} (h : s.state.cursor = none) : step s = .ok () s := by
  unfold step
  rw [bind_ok (state_ok s), h]
  rfl

/-- A step changes what carrying out its leaf changes. -/
theorem changes_step_of_leaf {fx : Effects} {s : Story}
    (h : Within s.content fx (executeLeaf s.nextLeaf?)) : Changes s.content fx s (step.after s) := by
  cases hcursor : s.state.cursor with
  | none =>
    rw [after_of_ok (step_of_none hcursor)]
  | some place =>
    obtain ⟨visits, turns, hreach⟩ := exists_reachLeaf_eq hcursor
    have hreached := @within_reachLeaf s.content fx place s rfl
    rw [after_of_ok hreach] at hreached
    refine hreached.trans ?_
    unfold step
    rw [after_bind_ok (state_ok s), hcursor]
    dsimp only
    rw [after_bind_ok hreach]
    exact within_bind h (fun _ => within_leaveLeaf s.nextLeaf?) _ rfl

/-- A step that carries out a divert puts nothing out. -/
theorem quiet_step {s : Story} {id : NodeId} {d : Divert}
    (h : s.nextLeaf? = some (id, .divert d)) : Changes s.content .quiet s (step.after s) := by
  refine changes_step_of_leaf ?_
  rw [h, executeLeaf_divert]
  exact within_performDivert rfl id d

/-- A step puts nothing out, or makes no call. -/
theorem changes_step (s : Story) : Changes s.content .quiet s (step.after s) ∨
    Changes s.content .uncalled s (step.after s) := by
  by_cases hdivert : ∃ id d, s.nextLeaf? = some (id, .divert d)
  · obtain ⟨id, d, hleaf⟩ := hdivert
    exact .inl (quiet_step hleaf)
  · exact .inr (changes_step_of_leaf
      (within_executeLeaf rfl s.leaf?_of_mem_nextLeaf?
        (fun id d hleaf => absurd ⟨id, d, hleaf⟩ hdivert) fun _ _ _ => rfl))

/-- Errors come before a call begins to wait. -/
def WaitsLast {α : Type} (x : Flow α) : Prop :=
  ∀ s e u, x s = .error e u → u.pending = s.pending

theorem pending_of_within {α : Type} {x : Flow α} {s u : Story} {e : StoryError}
    (h : Within s.content .uncalled x) (hu : x s = .error e u) : u.pending = s.pending := by
  have hchanges := h s rfl
  rw [after_of_error hu] at hchanges
  exact hchanges.pending_eq_or.resolve_right fun h => Bool.false_ne_true h.1

theorem waitsLast_of_within {α : Type} {x : Flow α} (h : ∀ c, Within c .uncalled x) :
    WaitsLast x :=
  fun s _ _ hu => pending_of_within (h s.content) hu

theorem waitsLast_bind {α β : Type} {x : Flow α} {k : α → Flow β}
    (hx : ∀ c, Within c .uncalled x) (hk : ∀ a, WaitsLast (k a)) : WaitsLast (x >>= k) := by
  intro s e u hu
  have hchanges := hx s.content s rfl
  cases hrun : x s with
  | error e' v =>
    rw [bind_error hrun] at hu
    cases hu
    exact waitsLast_of_within hx s _ _ hrun
  | ok a v =>
    rw [bind_ok hrun] at hu
    rw [after_of_ok hrun] at hchanges
    exact (hk a v e u hu).trans
      (hchanges.pending_eq_or.resolve_right fun h => Bool.false_ne_true h.1)

theorem waitsLast_callExternal (name : String) (count : Nat) :
    WaitsLast (callExternal name count) := by
  intro s e u hu
  unfold callExternal at hu
  rw [bind_ok (get_ok s)] at hu
  dsimp only at hu
  generalize (if ((s.bindings.get? name).isNone && s.fallbacks) = true then s.tree.knot? name
    else none) = standIn at hu
  cases standIn with
  | some knot => cases hu
  | none =>
    dsimp only at hu
    split at hu
    · split at hu
      · cases hu
        rfl
      · cases hu
    · refine waitsLast_bind (fun _ => within_popArguments name [] count) (fun arguments => ?_) s e u hu
      intro s' e u hu
      cases hb : s.bindings.get? name with
      | some b =>
        rw [hb] at hu
        cases (callBound_ok name b arguments s').symm.trans hu
      | none =>
        rw [hb] at hu
        cases hu

/-- A divert that calls no function of the host makes no call. -/
theorem within_takeDivert_of_no_call {c : Content} {fx : Effects} {id : NodeId} {d : Divert}
    (hcall : ¬∃ p count, d.destination = .path p ∧ d.kind = .external count) :
    Within c fx (takeDivert id d) := by
  unfold takeDivert
  split
  · exact within_bind (within_divertThrough _) fun _ => within_pushFrame _
  · next p count hpath hkind => exact absurd ⟨p, count, hpath, hkind⟩ hcall
  · refine within_tree_bind ?_
    split
    · exact within_bind (within_modifyState fun s => .divert s _) fun _ => within_pushFrame _
    · exact within_bind (within_throw _) fun _ => within_pushFrame _

theorem waitsLast_performDivert (id : NodeId) (d : Divert) : WaitsLast (performDivert id d) := by
  have htake : WaitsLast (takeDivert id d) := by
    by_cases hcall : ∃ p count, d.destination = .path p ∧ d.kind = .external count
    · obtain ⟨p, count, hpath, hkind⟩ := hcall
      unfold takeDivert
      rw [hpath, hkind]
      exact waitsLast_callExternal _ _
    · exact waitsLast_of_within fun _ => within_takeDivert_of_no_call hcall
  intro s e u hu
  unfold performDivert at hu
  split at hu
  · refine waitsLast_bind (fun _ => within_pop) (fun condition => ?_) s e u hu
    refine waitsLast_bind (fun _ => within_ofExcept _) fun holds => ?_
    cases holds with
    | true => exact htake
    | false => exact waitsLast_of_within fun _ => within_pure ()
  · exact htake s e u hu

/-- A step that meets a call looks ahead, and is not in a string behind it. -/
theorem step_met (s : Story) : (step.after s).metUnsafeCall = s.metUnsafeCall ∨
    s.lineState.isSome = true ∧ (step.after s).state.output.inString = false :=
  (changes_step s).elim (fun h => h.met_eq_or.imp_right fun h => ⟨h.2.1, h.2.2 rfl⟩)
    fun h => h.met_eq_or.imp_right fun h => absurd h.1 Bool.false_ne_true

/-! ## What is seen to behind a step -/

/-- Where there is nothing to go on with, an invisible choice is taken. -/
def followOn : Flow Unit := do
  let s ← get
  if s.pending.isNone && !s.state.canContinue && !s.state.callStack.inHostCall then
    followInvisibleChoice

theorem within_followOn {c : Content} {fx : Effects} : Within c fx followOn :=
  within_get_any fun _ => within_ite within_followInvisibleChoice (within_pure ())

/-- The line is watched, unless a call waits for the host or a string is being put out. -/
def watch : Flow Bool := do
  let s ← get
  if s.pending.isSome || s.state.output.inString then return false
  modifyGet Story.watchLine

/-- What is seen to behind a step of a line. -/
def settle : Flow Bool := do
  followOn
  watch

/-- Behind a step that waits for the host there is nothing to see to. -/
theorem settle_waits {s : Story} (h : s.pending.isSome = true) : settle s = .ok false s := by
  have hfollow : followOn s = .ok () s := by
    unfold followOn
    rw [bind_ok (get_ok s), ← Option.not_isSome, h]
    rfl
  unfold settle
  rw [bind_ok hfollow]
  unfold watch
  rw [bind_ok (get_ok s), h]
  rfl

theorem lineStep_eq : lineStep = step >>= fun _ => settle := by
  show (step >>= fun _ => followOn) >>= (fun _ => watch) = _
  rw [bind_assoc]
  rfl

/-- A step of a line that fails has not begun to wait. -/
theorem pending_of_lineStep_error {s u : Story} {e : StoryError} (hpending : s.pending = none)
    (h : lineStep s = .error e u) : u.pending = none := by
  have hplain := plainStep_of_lineStep_error h
  have hstep : ∀ e u, step s = .error e u → u.pending = s.pending := by
    intro e u hu
    cases hcursor : s.state.cursor with
    | none =>
      rw [step_of_none hcursor] at hu
      cases hu
    | some place =>
      obtain ⟨w, hstep, visits, turns, place, hw⟩ := exists_step_eq (s := s) (by rw [hcursor]; rfl)
      have hwpending : w.pending = s.pending := by rw [hw]
      rw [hstep] at hu
      cases hexecute : executeLeaf s.nextLeaf? w with
      | error e' v =>
        rw [bind_error hexecute] at hu
        cases hu
        rw [← hwpending]
        by_cases hdivert : ∃ id d, s.nextLeaf? = some (id, .divert d)
        · obtain ⟨id, d, hleaf⟩ := hdivert
          rw [hleaf, executeLeaf_divert] at hexecute
          exact waitsLast_performDivert id d w e u hexecute
        · have hfound : ∀ leaf ∈ s.nextLeaf?, w.tree.leaf? leaf.1 = some leaf.2 := by
            rw [hw]
            exact s.leaf?_of_mem_nextLeaf?
          exact pending_of_within (within_executeLeaf rfl hfound (fun id d hleaf =>
            absurd ⟨id, d, hleaf⟩ hdivert) fun _ _ _ => rfl) hexecute
      | ok _ v =>
        -- Moving on does not fail.
        obtain ⟨_, t, n, hmoves⟩ := moves_leaveLeaf s.nextLeaf? v
        rw [bind_ok hexecute] at hu
        cases (hmoves v.state.evaluation v.pending).symm.trans hu
  cases hrun : step s with
  | error e' v =>
    rw [show plainStep s = .error e' v from bind_error hrun] at hplain
    cases hplain
    exact (hstep _ _ hrun).trans hpending
  | ok _ v =>
    have hfollow : followOn v = .error e u := (bind_ok hrun).symm.trans hplain
    have hsilent : Changes v.content .silent v u := by
      rw [← after_of_error hfollow]
      exact within_followOn v rfl
    unfold followOn at hfollow
    rw [bind_ok (get_ok v)] at hfollow
    split at hfollow
    · next hnone =>
      rw [Bool.and_eq_true, Bool.and_eq_true, Option.isNone_iff_eq_none] at hnone
      rw [(hsilent.state_only rfl).2]
      exact hnone.1.1
    · cases hfollow

/-- A step of a line that begins to wait puts nothing out, and is taken while no state is
kept. -/
theorem lineStep_waits {s u : Story} {ended : Bool} (hpending : s.pending = none)
    (h : lineStep s = .ok ended u) (hwaits : u.pending.isSome = true) :
    step s = .ok () u ∧ s.lineState = none ∧ Changes s.content .quiet s u := by
  rw [lineStep_eq] at h
  obtain ⟨_, v, hv, h⟩ := exists_of_bind_eq_ok h
  obtain ⟨_, w, hw, h⟩ := exists_of_bind_eq_ok h
  have hsilent : Changes v.content .silent v w := by
    rw [← after_of_ok hw]
    exact within_followOn v rfl
  have hupending : u.pending = w.pending := by
    unfold watch at h
    rw [bind_ok (get_ok w)] at h
    split at h
    · cases h
      rfl
    · exact Story.pending_of_watchLine  (by
        cases h
        rfl)
  have hvwaits : v.pending.isSome = true := by
    rw [hupending, (hsilent.state_only rfl).2] at hwaits
    exact hwaits
  have hvw : w = v := by
    unfold followOn at hw
    rw [bind_ok (get_ok v), ← Option.not_isSome, hvwaits] at hw
    cases hw
    rfl
  have huv : u = v := by
    unfold watch at h
    rw [hvw, bind_ok (get_ok v), hvwaits] at h
    cases h
    rfl
  rw [huv]
  have hchanges := changes_step s
  rw [after_of_ok hv] at hchanges
  have hnot : ¬ Changes s.content .uncalled s v := by
    intro hcalls
    rw [hcalls.pending_eq_or.resolve_right fun h => Bool.false_ne_true h.1, hpending] at hvwaits
    cases hvwaits
  have hquiet := hchanges.resolve_right hnot
  refine ⟨hv, (hquiet.pending_eq_or.resolve_left fun hsame => ?_).2, hquiet⟩
  rw [hsame, hpending] at hvwaits
  cases hvwaits

end Flow

namespace Story

/-- What holds of a story in front of every step of a line. -/
structure Ready (s : Story) : Prop where
  error : s.state.hasError = false
  met : s.metUnsafeCall = false
  lineEnd : s.lineState = none → s.state.output.inString = false →
    s.state.output.endsInLineEnd = false

/-- Where watching does not end the line, no call has been met, and a state is kept if the output
ends in a line end and there is more to come. -/
theorem watchLine_goesOn {s t : Story} (hwatch : s.watchLine = (false, t)) :
    t.state = s.state ∧ t.metUnsafeCall = s.metUnsafeCall ∧
      (s.lineState.isSome = true → s.metUnsafeCall = false) ∧
      (s.state.canContinue = true → t.lineState = none → s.state.output.endsInLineEnd = false) := by
  have hkeep : ∀ v : Story, v.keepLineState.state = v.state ∧
      v.keepLineState.metUnsafeCall = v.metUnsafeCall ∧ (v.state.canContinue = true →
        v.keepLineState.lineState = none → v.state.output.endsInLineEnd = false) := by
    intro v
    refine ⟨?_, ?_, fun hcontinue hnone => ?_⟩
    · obtain ⟨kept, heq⟩ := v.keepLineState_eq
      rw [heq]
    · obtain ⟨kept, heq⟩ := v.keepLineState_eq
      rw [heq]
    · unfold keepLineState at hnone
      rw [hcontinue] at hnone
      cases hends : v.state.output.endsInLineEnd with
      | false => rfl
      | true =>
        rw [if_pos hends, if_neg (by simp)] at hnone
        split at hnone
        · cases hnone
        · next hsome =>
          rw [hnone] at hsome
          exact absurd rfl hsome
  unfold watchLine at hwatch
  split at hwatch
  · next hnone =>
    cases hwatch
    obtain ⟨hstate, hmet, hends⟩ := hkeep s
    refine ⟨hstate, hmet, fun hsome => ?_, hends⟩
    rw [hnone] at hsome
    cases hsome
  · dsimp only at hwatch
    split at hwatch
    · cases hwatch
    · next hgoes =>
      rw [not_or, Bool.not_eq_true] at hgoes
      split at hwatch
      · cases hwatch
        obtain ⟨hstate, hmet, hends⟩ := hkeep { s with lineState := none }
        exact ⟨hstate, hmet, fun _ => hgoes.2, hends⟩
      · cases hwatch
        obtain ⟨hstate, hmet, hends⟩ := hkeep s
        exact ⟨hstate, hmet, fun _ => hgoes.2, hends⟩

namespace Ready

variable {s t : Story}

/-- In front of the next step of the line the same holds. -/
theorem goesOn (h : s.Ready) (hgo : s.goesOn? = some t) : t.Ready := by
  obtain ⟨hstep, hpending, hcontinue⟩ := Flow.lineStep_of_goesOn? hgo
  have herror : t.state.hasError = false := by
    rw [State.canContinue, Bool.and_eq_true, Bool.not_eq_true'] at hcontinue
    exact hcontinue.2
  obtain ⟨v, hv, hrest⟩ := Flow.lineStep_cases hstep
  have hkept : v.lineState = s.lineState := by
    rw [← Flow.after_of_ok hv]
    exact (Flow.changes_plainStep s).lineState_eq
  have hmet : v.metUnsafeCall = false ∨
      v.lineState.isSome = true ∧ v.state.output.inString = false := by
    obtain ⟨_, w, hw, hwv⟩ := Flow.exists_of_bind_eq_ok hv
    have hfollow : Changes w.content .silent w v := by
      rw [← Flow.after_of_ok hwv]
      exact Flow.within_followOn w rfl
    have hstepmet := Flow.step_met s
    rw [Flow.after_of_ok hw, h.met] at hstepmet
    rw [hkept, hfollow.inString_eq rfl, (hfollow.state_only rfl).2]
    exact hstepmet
  rcases hrest with ⟨hleft, -, rfl⟩ | ⟨-, hstring, hwatch⟩
  · rw [hpending, Option.isSome_none] at hleft
    have hstring := hleft.resolve_left Bool.false_ne_true
    refine ⟨herror, hmet.resolve_right fun hmet => ?_, fun _ hnot => ?_⟩
    · rw [hstring] at hmet
      cases hmet.2
    · rw [hstring] at hnot
      cases hnot
  · obtain ⟨hstate, hsame, hnot, hends⟩ := watchLine_goesOn hwatch
    refine ⟨herror, ?_, fun hnone _ => ?_⟩
    · rw [hsame]
      exact hmet.elim id fun hmet => hnot hmet.1
    · rw [hstate] at hcontinue ⊢
      exact hends hcontinue hnone

/-- A step that puts nothing out, while no state is kept, keeps all this. -/
theorem quiet {c : Content} (h : s.Ready) (hu : Changes c .quiet s t)
    (hkept : s.lineState = none) : t.Ready where
  error := hu.hasError_eq.trans h.error
  met := by
    refine (hu.met_eq_or.resolve_right fun hmet => ?_).trans h.met
    rw [hkept] at hmet
    cases hmet.2.1
  lineEnd _ hstring := by
    rw [hu.inString_eq rfl] at hstring
    cases hends : t.state.output.endsInLineEnd with
    | false => rfl
    | true => exact (hu.endsInLineEnd rfl hends).symm.trans (h.lineEnd hkept hstring)

/-- So does a step that begins to wait for the host. -/
theorem waits {ended : Bool} (h : s.Ready) (hpending : s.pending = none)
    (hstep : Flow.lineStep s = .ok ended t) (hwaits : t.pending.isSome = true) : t.Ready :=
  have hcall := Flow.lineStep_waits hpending hstep hwaits
  h.quiet hcall.2.2 hcall.2.1

/-- At its start a line is ready for the first step. -/
theorem openLine (hopen : s.lineOpen = true → s.Ready)
    (h : Flow.openLine false s = .ok () t) : t.Ready := by
  cases hline : s.lineOpen with
  | true =>
    rw [Flow.openLine_of_open false hline] at h
    cases h
    exact { hopen hline with met := rfl }
  | false =>
    cases hcontinue : s.state.canContinue with
    | true =>
      rw [Flow.openLine_of_canContinue false hline hcontinue] at h
      cases h
      refine ⟨?_, rfl, fun _ _ => rfl⟩
      rw [State.canContinue, Bool.and_eq_true, Bool.not_eq_true'] at hcontinue
      show ({ s with lineOpen := false } : Story).freshLine.state.hasError = false
      rw [← hcontinue.2]
      unfold freshLine State.hasError
      dsimp only
      split
      · rfl
      · rfl
    | false =>
      obtain ⟨e, herror⟩ := Flow.openLine_refused false hline hcontinue
      rw [herror] at h
      cases h

/-- There is nothing to see to behind such a step, if there is more to come. -/
theorem settle (h : s.Ready) (hkept : s.lineState = none) (hcontinue : s.state.canContinue = true) :
    Flow.settle s = .ok false s := by
  have hfollow : Flow.followOn s = .ok () s := by
    unfold Flow.followOn
    rw [Flow.bind_ok (Flow.get_ok s), hcontinue, if_neg (by simp)]
    rfl
  unfold Flow.settle
  rw [Flow.bind_ok hfollow]
  unfold Flow.watch
  rw [Flow.bind_ok (Flow.get_ok s)]
  split
  · rfl
  · next hleft =>
    rw [Bool.or_eq_true, not_or, Bool.not_eq_true, Bool.not_eq_true] at hleft
    show EStateM.Result.ok s.watchLine.1 s.watchLine.2 = _
    unfold watchLine keepLineState
    rw [hkept]
    dsimp only
    rw [h.lineEnd hkept hleft.2, if_neg Bool.false_ne_true]

end Ready

end Story

end StoryMachine
