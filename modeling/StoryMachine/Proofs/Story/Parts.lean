import StoryMachine.Proofs.Story.Changes

/-!
# The parts of a step

What the parts of a step may do. Diverts may call functions of the host; only content and
the commands for strings, tags and output work on what has been put out.

* `Command.PutsOut` : the commands that work on what has been put out;
* `Flow.within_execute` : carrying out an instruction;
* `Flow.within_performChoicePoint`, `Flow.within_nextContent`,
  `Flow.within_leaveLeaf`, `Flow.within_followInvisibleChoice` : generating choices and
  moving on;
* `Flow.within_step` : a whole step.
-/

namespace StoryMachine

/-- The command puts something out, or takes something back that was put out. -/
def Command.PutsOut : Command → Prop
  | .evalOutput | .beginString | .endString | .beginTag | .endTag => True
  | _ => False

/-- The token of an answer. -/
def Token.ofAnswer : Option Value → Token
  | some v => .value v
  | none => .void

namespace Flow

variable {c : Content} {fx : Effects}

/-! ## Diverts and returns -/

theorem within_divertThrough (name : String) : Within c fx (divertThrough name) := by
  refine within_bind (within_readVariable? name) fun value => ?_
  split
  · exact within_divertTo _
  · exact within_throw _
  · exact within_throw _
  · exact within_throw _

theorem within_pushFrame (kind : DivertKind) : Within c fx (pushFrame kind) := by
  unfold pushFrame
  split
  · exact within_modifyState fun s => .call s .function (by decide)
  · exact within_modifyState fun s => .call s .tunnel (by decide)
  · exact within_pure ()

theorem within_callKnot (knot : NodeId) : Within c fx (callKnot knot) := by
  intro s _
  exact .tail (.single (.state (.call s.state .function (by decide)))) (.state (.divert _ _))

theorem callBound_ok (name : String) (b : Binding) (arguments : List Value) (s : Story) :
    callBound name b arguments s = .ok () { s with
      bindings := s.bindings.insert name { b with calls := b.calls + 1 }
      events := .called name arguments :: s.events
      state := s.state.push (.ofAnswer (b.function (b.calls + 1) arguments)) } := by
  unfold callBound
  rw [bind_ok (modify_ok _ s)]
  cases b.function (b.calls + 1) arguments with
  | none => rfl
  | some v => rfl

theorem changes_callBound (hcalls : fx.calls = true) {s : Story} (hs : s.content = c)
    {name : String} {b : Binding} (hb : s.bindings.get? name = some b)
    (hsafe : b.lookaheadSafe = true ∨ s.lineState = none) (arguments : List Value) :
    Changes c fx s ((callBound name b arguments).after s) := by
  have hcall : Changes c fx s _ := .single (.called arguments hcalls hb hsafe)
  rw [after_of_ok (callBound_ok name b arguments s)]
  exact hcall.trans (within_push (.ofAnswer (b.function (b.calls + 1) arguments)) _ hs)

/-- While the machine looks ahead only functions that allow it are called, and no call
waits. -/
theorem within_callExternal (hcalls : fx.calls = true) (name : String) (count : Nat) :
    Within c fx (callExternal name count) := by
  refine within_get_bind fun s hs => ?_
  dsimp only
  split
  · exact within_callKnot _ s hs
  · split
    · next hunsafe =>
      have hline : s.lineState.isSome = true := by
        rw [Bool.and_eq_true] at hunsafe
        exact hunsafe.2
      split
      · exact .refl
      · next hstring => exact .single (.unsafeCall hcalls hline (by simpa using hstring))
    · next hsafe =>
      have hpop : Changes c .still s ((popArguments name [] count).after s) :=
        within_popArguments name [] count s hs
      cases hrun : popArguments name [] count s with
      | error e u =>
        rw [after_bind_error hrun]
        rw [after_of_error hrun] at hpop
        exact hpop.of_still
      | ok arguments u =>
        rw [after_bind_ok hrun]
        rw [after_of_ok hrun] at hpop
        refine hpop.of_still.trans ?_
        have hu : u.content = c := hpop.content_eq.trans hs
        have hline : u.lineState = s.lineState := hpop.lineState_eq
        have hbindings : u.bindings = s.bindings := by rw [(hpop.state_only rfl).2]
        cases hb : s.bindings.get? name with
        | some b =>
          refine changes_callBound hcalls hu (hbindings ▸ hb) ?_ arguments
          rw [hline]
          cases hsafely : b.lookaheadSafe with
          | true => exact .inl rfl
          | false => exact .inr (by simpa [hb, hsafely] using hsafe)
        | none =>
          refine .single (.wait _ hcalls ?_)
          rw [hline]
          simpa [hb] using hsafe

theorem within_takeDivert (hcalls : fx.calls = true) (id : NodeId) (d : Divert) :
    Within c fx (takeDivert id d) := by
  unfold takeDivert
  split
  · exact within_bind (within_divertThrough _) fun _ => within_pushFrame _
  · exact within_callExternal hcalls _ _
  · refine within_tree_bind ?_
    split
    · exact within_bind (within_modifyState fun s => .divert s _) fun _ => within_pushFrame _
    · exact within_bind (within_throw _) fun _ => within_pushFrame _

theorem within_performDivert (hcalls : fx.calls = true) (id : NodeId) (d : Divert) :
    Within c fx (performDivert id d) := by
  refine within_ite (within_bind within_pop fun condition => ?_) (within_takeDivert hcalls id d)
  refine within_bind (within_ofExcept _) fun holds => ?_
  exact within_ite (within_takeDivert hcalls id d) (within_pure ())

theorem within_popOverride : Within c fx popOverride := by
  refine within_bind within_pop fun token => ?_
  split
  · exact within_pure _
  · exact within_pure _
  · exact within_throw _

theorem within_popFrame : Within c fx (tryState fun s => return ((), ← s.popFrame)) := by
  refine within_tryState fun s a u h => ?_
  cases hpop : s.popFrame with
  | ok v =>
    rw [hpop] at h
    cases h
    exact .return hpop
  | error e =>
    rw [hpop] at h
    cases h

theorem within_popThread :
    Within c fx (tryState fun s => return ((), { s with callStack := ← s.callStack.popThread })) := by
  refine within_tryState fun s a u h => ?_
  cases hpop : s.callStack.popThread with
  | ok v =>
    rw [hpop] at h
    cases h
    exact .endThread hpop
  | error e =>
    rw [hpop] at h
    cases h

theorem within_leaveHostCall : Within c fx (modifyState State.leaveHostCall) := by
  intro s _
  have hrun : (modifyState State.leaveHostCall).after s =
      { s with state := s.state.leaveHostCall } := rfl
  rw [hrun, State.leaveHostCall]
  split
  · exact .tail (.single (.state (.move s.state none))) (.state (.safeExit _))
  · exact .refl

/-- Return from a frame of the given kind, once it is known where to. -/
def returnWith (kind : FrameKind) (override : Option Path) : Flow Unit := do
  let stack := (← state).callStack
  if stack.inHostCall then
    modifyState State.leaveHostCall
  else if stack.top.kind ≠ kind ∨ ¬ stack.canPop then
    let expected := if stack.canPop then returnOf stack.top.kind else .flowEnd
    throw (.flow (.wrongReturn (returnOf kind) expected))
  else
    tryState fun s => return ((), ← s.popFrame)
    match override with
    | some p => divertTo p
    | none => return ()

theorem performReturn_eq (kind : FrameKind) : performReturn kind =
    if kind = .tunnel then popOverride >>= returnWith kind else pure none >>= returnWith kind := rfl

theorem within_returnWith (kind : FrameKind) (override : Option Path) :
    Within c fx (returnWith kind override) := by
  refine within_state_any fun s => within_ite within_leaveHostCall (within_ite ?_ ?_)
  · exact within_throw _
  · refine within_bind within_popFrame fun _ => ?_
    cases override
    · exact within_pure ()
    · exact within_divertTo _

theorem within_performReturn (kind : FrameKind) : Within c fx (performReturn kind) := by
  rw [performReturn_eq]
  exact within_ite (within_bind within_popOverride (within_returnWith kind))
    (within_bind (within_pure none) (within_returnWith kind))

/-! ## Counts and random numbers -/

theorem within_visitsOf (id : NodeId) : Within c fx (visitsOf id) := by
  refine within_tree_bind fun s _ => ?_
  have hrun : (withState fun s => s.visitsOrWarn c.tree id).after s =
      { s with state := (s.state.visitsOrWarn c.tree id).2 } := rfl
  rw [hrun, State.visitsOrWarn]
  split
  · exact .refl
  · exact .single (.state (.warn s.state _))

theorem within_turnsSinceOf (id : NodeId) : Within c fx (turnsSinceOf id) := by
  refine within_tree_bind fun s _ => ?_
  have hrun : (withState fun s => s.turnsSinceOrWarn c.tree id).after s =
      { s with state := (s.state.turnsSinceOrWarn c.tree id).2 } := rfl
  rw [hrun, State.turnsSinceOrWarn]
  split
  · exact .refl
  · exact .single (.state (.warn s.state _))

theorem within_popCountTarget (command : Command) : Within c fx (popCountTarget command) := by
  refine within_bind within_pop fun token => ?_
  split
  · exact within_pure _
  · exact within_throw _
  · exact within_throw _

theorem within_pushCount (command : Command) {count : NodeId → Flow Int}
    (hcount : ∀ id, Within c fx (count id)) (unknown : Int) :
    Within c fx (pushCount command count unknown) := by
  refine within_bind (within_popCountTarget command) fun p => within_tree_bind ?_
  dsimp only
  split
  · exact within_bind (hcount _) fun n => within_pushInt _
  · exact within_bind (within_warn _) fun _ => within_pushInt _

theorem within_currentContainer (fault : FlowFault) : Within c fx (currentContainer fault) := by
  refine within_state_any fun s => ?_
  split
  · exact within_pure _
  · exact within_throw _

theorem within_nextWord : Within c fx nextWord :=
  within_state_any fun _ => within_pure _

theorem within_pushRandom : Within c fx pushRandom :=
  within_bind (within_popInt _) fun _ => within_bind (within_popInt _) fun _ =>
    within_unless _ (within_bind within_nextWord fun _ => within_bind (within_pushInt _) fun _ =>
      within_modifyState fun s => .random s _ _)

theorem within_setSeed : Within c fx setSeed :=
  within_bind (within_popInt _) fun seed =>
    within_bind (within_modifyState fun s => .random s seed 0) fun _ => within_push _

theorem within_pushShuffled : Within c fx pushShuffled := by
  refine within_bind within_pop fun token => ?_
  split
  · refine within_unless _ (within_bind (within_currentContainer _) fun id =>
      within_bind within_pop fun token => ?_)
    split
    · refine within_tree_bind (within_state_any fun s => ?_)
      split
      · exact within_pushInt _
      · exact within_throw _
    · exact within_throw _
  · exact within_throw _

/-! ## Lists -/

theorem within_pushListOfRank : Within c fx pushListOfRank := by
  refine within_bind (within_popInt _) fun rank => within_bind within_pop fun token => ?_
  split
  · refine within_get_any fun s => ?_
    split
    · exact within_throw _
    · split
      · exact within_push _
      · exact within_push _
  · exact within_throw _

theorem within_pushListRange : Within c fx pushListRange :=
  within_bind (within_popValue _) fun _ => within_bind (within_popValue _) fun _ =>
    within_bind (within_popList _) fun _ => within_push _

theorem within_pushListRandom : Within c fx pushListRandom := by
  refine within_bind (within_popList _) fun list => within_ite (within_push _) ?_
  refine within_bind within_nextWord fun word => ?_
  split
  · exact within_bind (within_modifyState fun s => .random s _ _) fun _ => within_push _
  · exact within_push _

/-! ## Putting out -/

theorem changes_emitText (hfx : fx.output = true) (s : State) (text : String) :
    StateChanges c fx s (s.emitText text) := by
  have hput : StateChanges c fx s { s with output := (s.output.pushText s.functionStart text).1 } :=
    .single (.putOut s _ hfx)
  unfold State.emitText
  dsimp only
  split
  · exact hput.tail (.markText _ hfx)
  · exact hput

theorem changes_emit (hfx : fx.output = true) (s : State) (t : Token) :
    StateChanges c fx s (s.emit t) := by
  have hparts : ∀ (parts : List String) (s : State),
      StateChanges c fx s (parts.foldl State.emitText s) := by
    intro parts
    induction parts with
    | nil => exact fun s => .refl
    | cons part rest ih => exact fun s => (changes_emitText hfx s part).trans (ih _)
  unfold State.emit
  split
  · split
    · exact hparts _ s
    · exact changes_emitText hfx s _
  · exact .single (.putOut s _ hfx)
  · exact .single (.putOut s _ hfx)

theorem within_emit (hfx : fx.output = true) (t : Token) : Within c fx (emit t) :=
  fun s _ => .of_state (changes_emit hfx s.state t)

theorem within_putOut (hfx : fx.output = true) : Within c fx putOut := by
  refine within_state_any fun s => within_ite (within_pure ()) ?_
  refine within_bind within_pop fun token => ?_
  split
  · exact within_pure ()
  · exact within_emit hfx _

theorem within_beginString (hfx : fx.output = true) : Within c fx beginString :=
  within_bind (within_emit hfx _) fun _ => within_state_any fun _ =>
    within_unless _ (within_modifyState fun s => .expression s false)

theorem within_endString (hfx : fx.output = true) : Within c fx endString := by
  intro s _
  have hput : ∀ o, StateChanges c fx s.state { s.state with output := o } :=
    fun o => .single (.putOut s.state o hfx)
  exact .of_state (((hput _).tail (.expression _ true)).tail (.evaluation _ _))

theorem within_endTag (hfx : fx.output = true) : Within c fx endTag := by
  refine within_state_any fun s => within_ite (within_unless _ fun u _ => ?_) (within_emit hfx _)
  have hput : ∀ o, StateChanges c fx u.state { u.state with output := o } :=
    fun o => .single (.putOut u.state o hfx)
  exact .of_state ((hput _).tail (.evaluation _ _))

/-! ## Commands -/

theorem within_finishThread : Within c fx finishThread := by
  refine within_state_any fun s => within_ite within_popThread ?_
  intro s _
  exact .tail (.single (.state (.safeExit s.state))) (.state (.move _ none))

theorem within_performCommand {command : Command} (h : command.PutsOut → fx.output = true) :
    Within c fx (performCommand command) := by
  cases command with
  | evalOutput => exact within_putOut (h trivial)
  | beginString => exact within_beginString (h trivial)
  | endString => exact within_endString (h trivial)
  | beginTag => exact within_emit (h trivial) _
  | endTag => exact within_endTag (h trivial)
  | evalStart =>
    exact within_state_any fun _ => within_unless _ (within_modifyState fun s => .expression s true)
  | evalEnd =>
    exact within_state_any fun _ => within_unless _ (within_modifyState fun s => .expression s false)
  | duplicate =>
    refine within_state_any fun s => ?_
    split
    · exact within_push _
    · exact within_throw _
  | popValue => exact within_bind within_pop fun _ => within_pure ()
  | popFunction => exact within_performReturn .function
  | popTunnel => exact within_performReturn .tunnel
  | noOp => exact within_pure ()
  | choiceCount => exact within_state_any fun s => within_pushInt _
  | turns => exact within_state_any fun s => within_pushInt _
  | turnsSince => exact within_pushCount _ within_turnsSinceOf _
  | readCount => exact within_pushCount _ within_visitsOf _
  | random => exact within_pushRandom
  | seedRandom => exact within_setSeed
  | visitIndex =>
    exact within_bind (within_currentContainer _) fun id =>
      within_bind (within_visitsOf id) fun n => within_pushInt _
  | shuffleIndex => exact within_pushShuffled
  | startThread => exact within_pure ()
  | done => exact within_finishThread
  | finish => exact within_modifyState fun s => .finish s
  | listFromInt => exact within_pushListOfRank
  | listRange => exact within_pushListRange
  | listRandom => exact within_pushListRandom

/-! ## Variables and operators -/

/-- Assign a value to a variable. -/
def assignValue (lists : ListDefinitions) (a : Assignment) (v : Value) (s : State) :
    Except StoryError (Unit × State) := do
  let (vars, callStack) ← s.vars.assign lists s.callStack a v
  return ((), { s with vars, callStack })

theorem assignValue_ok {lists : ListDefinitions} {a : Assignment} {v : Value} {s : State}
    {vars : Variables} {callStack : CallStack}
    (h : s.vars.assign lists s.callStack a v = .ok (vars, callStack)) :
    assignValue lists a v s = .ok ((), { s with vars, callStack }) := by
  rw [assignValue, h]
  rfl

theorem assignValue_error {lists : ListDefinitions} {a : Assignment} {v : Value} {s : State}
    {e : StoryError} (h : s.vars.assign lists s.callStack a v = .error e) :
    assignValue lists a v s = .error e := by
  rw [assignValue, h]
  rfl

theorem within_performAssignment (hfx : fx.assigns = true) (a : Assignment) :
    Within c fx (performAssignment a) := by
  refine within_bind within_pop fun token => ?_
  split
  · next v =>
    refine within_get_bind fun s hs => ?_
    have hassign : Within c fx (tryState (assignValue c.lists a v)) := by
      refine within_tryState fun s r u h => ?_
      cases hassign : s.vars.assign c.lists s.callStack a v with
      | ok p =>
        rw [assignValue_ok hassign] at h
        cases h
        exact .assign hassign hfx
      | error e =>
        rw [assignValue_error hassign] at h
        cases h
    rw [hs]
    exact hassign s hs
  · exact within_throw _

theorem within_pushVariable (name : String) : Within c fx (pushVariable name) := by
  refine within_bind (within_readVariable? name) fun value => ?_
  split
  · exact within_push _
  · exact within_bind (within_warn _) fun _ => within_pushInt _

theorem within_pushReadCount (id : NodeId) (p : Path) : Within c fx (pushReadCount id p) := by
  refine within_tree_bind ?_
  split
  · exact within_bind (within_visitsOf _) fun n => within_pushInt _
  · exact within_throw _

theorem within_performOperator (o : Operator) : Within c fx (performOperator o) := by
  refine within_bind (within_popMany o.arity) fun tokens => ?_
  refine within_bind (within_ofExcept _) fun operands => within_get_any fun s => ?_
  exact within_bind (within_ofExcept _) fun result => within_push _

/-- Unless it is a command that puts something out, carrying out an instruction puts nothing
out; and only an assignment assigns a variable. -/
theorem within_execute (id : NodeId) {i : Instruction}
    (hcalls : ∀ d, i = .divert d → fx.calls = true)
    (h : ∀ command, i = .command command → command.PutsOut → fx.output = true)
    (hassigns : ∀ a, i = .assign a → fx.assigns = true) : Within c fx (execute id i) := by
  unfold execute
  split
  · exact within_bind (within_performDivert (hcalls _ rfl) id _) fun _ => within_pure _
  · exact within_bind (within_performCommand (h _ rfl)) fun _ => within_pure _
  · exact within_bind (within_performAssignment (hassigns _ rfl) _) fun _ => within_pure _
  · exact within_bind (within_pushVariable _) fun _ => within_pure _
  · exact within_bind (within_pushReadCount id _) fun _ => within_pure _
  · exact within_bind (within_performOperator _) fun _ => within_pure _
  · exact within_pure _

/-! ## Choices -/

theorem within_popTags : Within c fx popTags :=
  within_withState fun s => .evaluation s _

theorem within_popChoiceText : Within c fx popChoiceText := by
  refine within_bind within_pop fun token => ?_
  split
  · exact within_bind within_popTags fun _ => within_pure _
  · exact within_throw _

theorem within_popTextIf (present : Bool) : Within c fx (popTextIf present) :=
  within_ite within_popChoiceText (within_pure _)

theorem within_popCondition (p : ChoicePoint) : Within c fx (popCondition p) :=
  within_ite (within_bind within_pop fun _ => within_ofExcept _) (within_pure _)

theorem within_isTaken (p : ChoicePoint) (target : Option NodeId) : Within c fx (isTaken p target) := by
  unfold isTaken
  split
  · exact within_ite (within_bind (within_visitsOf _) fun _ => within_pure _) (within_pure _)
  · exact within_pure _

theorem within_makeOffer (id : NodeId) (p : ChoicePoint) : Within c fx (makeOffer id p) := by
  refine within_bind (within_popCondition p) fun holds => ?_
  refine within_bind (within_popTextIf _) fun only => within_bind (within_popTextIf _) fun start => ?_
  refine within_tree_bind (within_bind (within_isTaken p _) fun taken => within_ite (within_pure _) ?_)
  split
  · exact within_throw _
  · exact within_pure _

/-- Counting visits changes nothing but warnings. -/
theorem visitsOf_ok (id : NodeId) (s : Story) : ∃ warnings, visitsOf id s =
    .ok ((s.state.visits? s.tree id).getD 0) { s with state := { s.state with warnings } } := by
  have hrun : visitsOf id s = .ok (s.state.visitsOrWarn s.tree id).1
      { s with state := (s.state.visitsOrWarn s.tree id).2 } := rfl
  rw [hrun, State.visitsOrWarn]
  cases s.state.visits? s.tree id with
  | some n => exact ⟨s.state.warnings, rfl⟩
  | none => exact ⟨_, rfl⟩

/-- A once-only choice that has not been taken leads to a container without visits. -/
theorem isTaken_false {s u : Story} {p : ChoicePoint} {container : NodeId}
    (h : isTaken p (some container) s = .ok false u) :
    u.content = s.content ∧
      (p.onceOnly = true → (u.state.visits? u.tree container).getD 0 ≤ 0) := by
  unfold isTaken at h
  dsimp only at h
  cases honce : p.onceOnly with
  | false =>
    rw [honce, if_neg Bool.false_ne_true] at h
    cases h
    exact ⟨rfl, fun h => by cases h⟩
  | true =>
    obtain ⟨warnings, hvisits⟩ := visitsOf_ok container s
    rw [honce, if_pos rfl, bind_ok hvisits] at h
    injection h with hnone hu
    subst hu
    exact ⟨rfl, fun _ => Int.not_lt.mp (of_decide_eq_false hnone)⟩

/-- What a choice point offers can be offered. -/
theorem canOffer_of_makeOffer {s u : Story} {id : NodeId} {p : ChoicePoint} {o : Offer}
    (hleaf : s.tree.leaf? id = some (.choicePoint p)) (h : makeOffer id p s = .ok (some o) u) :
    u.tree = s.tree ∧ u.state.CanOffer s.tree id p o := by
  have hcontent {α : Type} {x : Flow α} {v w : Story} {a : α}
      (hx : Within v.content .ofStep x) (hrun : x v = .ok a w) : w.content = v.content := by
    have hchanges := hx v rfl
    rw [after_of_ok hrun] at hchanges
    exact hchanges.content_eq
  obtain ⟨holds, v₁, h₁, h⟩ := exists_of_bind_eq_ok h
  obtain ⟨⟨onlyText, onlyTags⟩, v₂, h₂, h⟩ := exists_of_bind_eq_ok h
  obtain ⟨⟨startText, startTags⟩, v₃, h₃, h⟩ := exists_of_bind_eq_ok h
  have hv₃ : v₃.content = s.content := (hcontent (within_popTextIf _) h₃).trans
    ((hcontent (within_popTextIf _) h₂).trans (hcontent (within_popCondition p) h₁))
  dsimp only at h
  rw [bind_ok (tree_ok v₃)] at h
  obtain ⟨taken, v₄, htaken, h⟩ := exists_of_bind_eq_ok h
  cases hoffered : !holds || taken with
  | true =>
    rw [if_pos hoffered] at h
    cases h
  | false =>
    rw [if_neg (by rw [hoffered]; exact Bool.false_ne_true)] at h
    rw [Bool.or_eq_false_iff] at hoffered
    cases hleads : v₃.tree.targetContainer? id p.path with
    | none =>
      rw [hleads] at h
      cases h
    | some container =>
      rw [hleads] at h htaken
      cases h
      rw [hoffered.2] at htaken
      obtain ⟨hv₄, hvisits⟩ := isTaken_false htaken
      have htree : u.tree = v₃.tree := congrArg Content.tree hv₄
      have htree₃ : v₃.tree = s.tree := congrArg Content.tree hv₃
      rw [htree, htree₃] at hvisits
      rw [htree₃] at hleads ⊢
      exact ⟨htree.trans htree₃, container, ⟨hleaf, hleads, rfl, rfl⟩, hvisits⟩

theorem within_performChoicePoint {id : NodeId} {p : ChoicePoint}
    (hleaf : c.tree.leaf? id = some (.choicePoint p)) :
    Within c fx (performChoicePoint id p) := by
  intro s hs
  have hchanges : Changes c fx s ((makeOffer id p).after s) := within_makeOffer id p s hs
  unfold performChoicePoint
  cases hoffer : makeOffer id p s with
  | error e u =>
    rw [after_of_error hoffer] at hchanges
    rwa [after_bind_error hoffer]
  | ok offer u =>
    rw [after_of_ok hoffer] at hchanges
    rw [after_bind_ok hoffer]
    cases offer with
    | none => exact hchanges
    | some o =>
      have hcan := (canOffer_of_makeOffer (by rw [Story.tree, hs, hleaf]) hoffer).2
      rw [Story.tree, hs] at hcan
      exact hchanges.tail (.state (.offer hcan))

/-! ## Moving on -/

theorem changes_warnAll (s : State) (messages : List String) :
    StateChanges c fx s (s.warnAll c.tree messages) := by
  induction messages generalizing s with
  | nil => exact .refl
  | cons message rest ih => exact .head (.warn s message) (ih _)

theorem changes_jump (s : State) (p : Path) {countTurn : Bool}
    (hfx : countTurn = true → fx.turns = true) :
    StateChanges c fx s (s.jump c.tree p countTurn).1 := by
  have hclear : StateChanges c fx s { s with choices := [] } := .single (.withdraw s)
  unfold State.jump
  dsimp only
  split
  · exact hclear
  · next place warning _ =>
    have hmove := (hclear.trans (changes_warnAll _ warning.toList)).tail
      (.move _ (place.map fun c => if c.index = -1 then { c with index := 0 } else c))
    cases countTurn
    · exact hmove
    · exact hmove.tail (.turn _ (hfx rfl))

theorem after_orFail (f : State → State × Option StoryError) (s : Story) :
    (orFail f).after s = { s with state := (f s.state).1 } := by
  have hrun : withState (fun s => ((f s).2, (f s).1)) s =
      .ok (f s.state).2 { s with state := (f s.state).1 } := rfl
  show ((withState fun s => ((f s).2, (f s).1)) >>= _).after s = _
  rw [after_bind_ok hrun]
  cases (f s.state).2 <;> rfl

theorem within_jump (p : Path) {countTurn : Bool} (hfx : countTurn = true → fx.turns = true) :
    Within c fx (orFail fun s => s.jump c.tree p countTurn) := by
  intro s _
  rw [after_orFail]
  exact .of_state (changes_jump s.state p hfx)

theorem changes_enterAncestors (openBefore : List NodeId) (s : State) (child : NodeId)
    (atStart : Bool) (ids : List NodeId) :
    StateChanges c fx s (State.enterAncestors c.tree openBefore s child atStart ids) := by
  induction ids generalizing s child atStart with
  | nil => exact .refl
  | cons id rest ih =>
    rw [State.enterAncestors]
    split
    · exact .refl
    · dsimp only
      split
      · exact .refl
      · exact .head (.enter s id _) (ih _ _ _)

theorem changes_enterByJump (s : State) : StateChanges c fx s (s.enterByJump c.tree) := by
  unfold State.enterByJump
  split
  · exact .refl
  · split
    · exact .refl
    · split
      · exact .refl
      · exact changes_enterAncestors _ s _ _ _

/-- A jump changes the state alone. -/
theorem jumpTo_eq (p : Path) (countTurn : Bool) (s : Story) :
    jumpTo p countTurn s = match s.state.jump s.tree p countTurn with
      | (t, none) => .ok () { s with state := t.enterByJump s.tree }
      | (t, some e) => .error e { s with state := t } := by
  have hrun : withState (fun u => ((u.jump s.tree p countTurn).2, (u.jump s.tree p countTurn).1)) s =
      .ok (s.state.jump s.tree p countTurn).2
        { s with state := (s.state.jump s.tree p countTurn).1 } := rfl
  have hjump : jumpTo p countTurn s =
      ((orFail fun u => u.jump s.tree p countTurn) >>= fun _ =>
        modifyState fun u => u.enterByJump s.tree) s := rfl
  rw [hjump]
  unfold orFail
  rw [bind_assoc, bind_ok hrun]
  obtain ⟨t, e⟩ := s.state.jump s.tree p countTurn
  cases e <;> rfl

theorem jumpTo_run_ok {p : Path} {countTurn : Bool} {s : Story} {t : State}
    (h : s.state.jump s.tree p countTurn = (t, none)) :
    jumpTo p countTurn s = .ok () { s with state := t.enterByJump s.tree } := by
  rw [jumpTo_eq, h]

theorem jumpTo_run_error {p : Path} {countTurn : Bool} {s : Story} {t : State} {e : StoryError}
    (h : s.state.jump s.tree p countTurn = (t, some e)) :
    jumpTo p countTurn s = .error e { s with state := t } := by
  rw [jumpTo_eq, h]

theorem within_jumpTo (p : Path) {countTurn : Bool} (hfx : countTurn = true → fx.turns = true) :
    Within c fx (jumpTo p countTurn) :=
  within_tree_bind (within_bind (within_jump p hfx) fun _ => fun s _ =>
    .of_state (changes_enterByJump s.state))

/-- A choice is taken by going on with its thread, or with a copy of it, and by a jump. -/
theorem changes_takeChoice {s : Story} {o : Choice} (ho : o ∈ s.state.choices) (copies : Bool)
    (p : Path) {countTurn : Bool} (hfx : countTurn = true → fx.turns = true)
    (hs : s.content = c) : Changes c fx s ((do
      resumeThread o.thread
      if copies then modifyState State.resumeCopy
      jumpTo p countTurn : Flow Unit).after s) := by
  let resumed : Story := { s with state :=
    { s.state with callStack := s.state.callStack.resume o.thread, choices := [] } }
  have hresume : Changes c fx s resumed := .single (.state (.resume ho))
  cases copies with
  | false => exact hresume.trans (within_jumpTo p hfx resumed hs)
  | true =>
    have hcopy : Within c fx (do modifyState State.resumeCopy; jumpTo p countTurn) :=
      within_bind (within_modifyState fun s => .copy s) fun _ => within_jumpTo p hfx
    exact hresume.trans (hcopy resumed hs)

theorem within_followInvisibleChoice : Within c fx followInvisibleChoice := by
  refine within_state_bind fun s hs => ?_
  dsimp only
  split
  · exact .refl
  · next o rest hchoices =>
    split
    · exact changes_takeChoice (hchoices ▸ List.mem_cons_self) s.lineState.isSome o.target
        Bool.noConfusion hs
    · exact .refl

theorem within_enterContainers (depth : Nat) (place : Cursor) :
    Within c fx (enterContainers c.tree depth place) := by
  induction depth generalizing place with
  | zero => exact within_pure _
  | succ depth ih =>
    rw [enterContainers]
    split
    · exact within_pure _
    · exact within_bind (within_modifyState fun s => .enter s _ true) fun _ =>
        within_ite (within_pure _) (ih _)

theorem within_followDivert : Within c fx followDivert := by
  refine within_state_bind fun s hs => ?_
  split
  · exact .refl
  · next place _ =>
    refine within_tree_bind (within_bind (fun s _ => ?_) fun _ => within_pure _) s hs
    have hmove : StateChanges c fx s.state
        ({ s.state with diverted := none }.setCursor (some place)) :=
      .tail (.single (.divert s.state none)) (.move _ _)
    exact .of_state (hmove.trans (changes_enterByJump _))

theorem within_leaveFinished : Within c fx leaveFinished := by
  refine within_state_any fun s => within_ite ?_ (within_ite ?_ ?_)
  · refine within_bind within_popFrame fun _ => within_state_any fun s => ?_
    dsimp only
    split
    · exact within_bind (within_push _) fun _ => within_state_any fun s => within_pure _
    · exact within_state_any fun s => within_pure _
  · exact within_bind within_popThread fun _ => within_state_any fun s => within_pure _
  · exact within_bind within_leaveHostCall fun _ => within_pure _

theorem within_moveHere : Within c fx moveHere := by
  refine within_bind (within_modifyState fun s => .notePlace s) fun _ => ?_
  refine within_bind within_followDivert fun followed => within_ite (within_pure _) ?_
  exact within_tree_bind (within_withState fun s => .move s _)

theorem within_unwind (frames : Nat) : Within c fx (unwind frames) := by
  induction frames with
  | zero => exact within_pure ()
  | succ frames ih =>
    refine within_bind within_leaveFinished fun left => within_ite ?_ (within_pure ())
    exact within_bind within_moveHere fun moved => within_ite ih (within_pure ())

theorem within_nextContent : Within c fx nextContent := by
  refine within_bind within_moveHere fun moved => within_ite ?_ (within_pure ())
  exact within_state_any fun s => within_unwind _

theorem within_leaveLeaf (leaf : Option (NodeId × Instruction)) : Within c fx (leaveLeaf leaf) := by
  refine within_state_any fun s => within_ite (within_pure ()) ?_
  refine within_bind within_nextContent fun _ => ?_
  split
  · exact within_modifyState fun s => .thread s
  · exact within_pure ()

/-! ## Steps -/

theorem within_putContent (hfx : fx.output = true) (token : Token) :
    Within c fx (putContent token) :=
  within_state_any fun _ => within_ite (within_push _) (within_emit hfx _)

/-- Put an instruction where content goes, if it is content. -/
def putInstruction (i : Instruction) : Flow Unit :=
  match Token.ofInstruction? i with
  | some token => putContent token
  | none => return ()

theorem within_executeAt (hfx : fx.output = true) {id : NodeId} {i : Instruction}
    (hleaf : c.tree.leaf? id = some i) (hcalls : ∀ d, i = .divert d → fx.calls = true)
    (hassigns : ∀ a, i = .assign a → fx.assigns = true) : Within c fx (executeAt id i) := by
  refine within_bind (within_execute id hcalls (fun _ _ _ => hfx) hassigns) fun carriedOut => ?_
  refine within_state_any fun s => within_ite (within_pure ()) ?_
  split
  · exact within_performChoicePoint hleaf
  · refine within_ite ?_ (within_pure ())
    split
    · exact within_putContent hfx _
    · exact within_pure ()

theorem within_executeLeaf (hfx : fx.output = true) {leaf : Option (NodeId × Instruction)}
    (hleaf : ∀ l ∈ leaf, c.tree.leaf? l.1 = some l.2)
    (hcalls : ∀ id d, leaf = some (id, .divert d) → fx.calls = true)
    (hassigns : ∀ id a, leaf = some (id, .assign a) → fx.assigns = true) :
    Within c fx (executeLeaf leaf) := by
  cases leaf with
  | none => exact within_pure ()
  | some leaf =>
    exact within_executeAt hfx (hleaf leaf rfl) (fun d hd => hcalls leaf.1 d (by rw [← hd]))
      fun a ha => hassigns leaf.1 a (by rw [← ha])

theorem within_reachLeaf (place : Cursor) : Within c fx (reachLeaf place) :=
  within_tree_bind (within_bind (within_enterContainers _ place) fun _ =>
    within_bind (within_modifyState fun s => .move s _) fun _ => within_pure _)

/-- The leaf that is reached is one of the content. -/
theorem leaf?_of_reachLeaf {s u : Story} {place : Cursor} {leaf : Option (NodeId × Instruction)}
    (h : reachLeaf place s = .ok leaf u) : ∀ l ∈ leaf, s.tree.leaf? l.1 = some l.2 := by
  unfold reachLeaf at h
  rw [bind_ok (tree_ok s)] at h
  obtain ⟨place, v, -, h⟩ := exists_of_bind_eq_ok h
  cases h
  intro l hl
  obtain ⟨id, -, hid⟩ := Option.bind_eq_some_iff.mp hl
  obtain ⟨i, hleaf, rfl⟩ := Option.map_eq_some_iff.mp hid
  exact hleaf

/-- A step makes only the changes listed. -/
theorem within_step (hcalls : fx.calls = true) (hfx : fx.output = true)
    (hassigns : fx.assigns = true) : Within c fx step := by
  refine within_state_bind fun s hs => ?_
  split
  · exact .refl
  · next place _ =>
    have hreached : Changes c fx s ((reachLeaf place).after s) := within_reachLeaf place s hs
    cases hreach : reachLeaf place s with
    | error e u =>
      rw [after_of_error hreach] at hreached
      rwa [after_bind_error hreach]
    | ok leaf u =>
      rw [after_of_ok hreach] at hreached
      rw [after_bind_ok hreach]
      have hleaf := leaf?_of_reachLeaf hreach
      rw [Story.tree, hs] at hleaf
      have hexecute : Within c fx (do executeLeaf leaf; leaveLeaf leaf) :=
        within_bind (within_executeLeaf hfx hleaf (fun _ _ _ => hcalls) fun _ _ _ => hassigns)
          fun _ => within_leaveLeaf leaf
      exact hreached.trans (hexecute u (hreached.content_eq.trans hs))

end Flow

end StoryMachine
