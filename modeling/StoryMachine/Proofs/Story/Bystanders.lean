import StoryMachine.Proofs.Story.LineRuns

/-!
# What stands beside a story

Observers of variables, the handler for problems, the mark that warnings have been available and
the events logged so far stand beside a story: none of them decides how it goes on. A step does
the same whatever they are, and leaves them as they are, except that the calls it makes of
functions of the host are logged.

* `Story.Bystanders`, `Story.beside` : what stands beside a story;
* `Flow.Apart` : a computation that does the same whatever stands beside the story;
* `Flow.apart_bind` and its like : how such computations are put together;
* `Flow.apart_lineStep`, `Flow.apart_runLine` : steps of lines are such computations.
-/

namespace StoryMachine

/-- What stands beside a story: observers, the handler, the mark that the warnings have been
available, and earlier events. -/
structure Story.Bystanders where
  observers : Table (List String)
  hasHandler : Bool
  warningsShown : Bool
  earlier : List Event

/-- The story with other bystanders. -/
def Story.beside (s : Story) (b : Story.Bystanders) : Story :=
  { s with
    observers := b.observers
    hasHandler := b.hasHandler
    warningsShown := b.warningsShown
    events := s.events ++ b.earlier }

namespace Flow

variable {α β : Type}

/-- The same outcome, with other bystanders. -/
def outcomeBeside (r : EStateM.Result StoryError Story α) (b : Story.Bystanders) :
    EStateM.Result StoryError Story α :=
  match r with
  | .ok a s => .ok a (s.beside b)
  | .error e s => .error e (s.beside b)

/-- A computation that does the same whatever stands beside the story. -/
def Apart (x : Flow α) : Prop :=
  ∀ (s : Story) (b : Story.Bystanders), x (s.beside b) = outcomeBeside (x s) b

/-! ## Putting computations together -/

theorem apart_pure (a : α) : Apart (pure a) := fun _ _ => rfl

theorem apart_throw (e : StoryError) : Apart (throw e : Flow α) := fun _ _ => rfl

theorem apart_bind {x : Flow α} {k : α → Flow β} (hx : Apart x) (hk : ∀ a, Apart (k a)) :
    Apart (x >>= k) := by
  intro s b
  have hfirst := hx s b
  cases h : x s with
  | ok a u =>
    rw [h] at hfirst
    rw [bind_ok hfirst, bind_ok h]
    exact hk a u b
  | error e u =>
    rw [h] at hfirst
    rw [bind_error hfirst, bind_error h]
    rfl

theorem apart_ite {p : Prop} [Decidable p] {x y : Flow α} (hx : Apart x) (hy : Apart y) :
    Apart (if p then x else y) := by
  split
  · exact hx
  · exact hy

/-- A check in front of a computation. -/
theorem apart_unless {p : Prop} [Decidable p] (e : StoryError) {x : Flow β} (hx : Apart x) : Apart (do
    if p then throw e
    x) := by
  dsimp only
  split
  · exact apart_bind (apart_throw e) fun _ : Unit => hx
  · exact hx

/-- What follows may use the story, but nothing that stands beside it. -/
theorem apart_get_bind {k : Story → Flow β} (hk : ∀ s, Apart (k s))
    (hsame : ∀ s b, k (Story.beside s b) = k s) : Apart (get >>= k) := by
  intro s b
  show k (s.beside b) (s.beside b) = _
  rw [hsame]
  exact hk s s b

theorem apart_state_bind {k : State → Flow β} (hk : ∀ s, Apart (k s)) : Apart (state >>= k) :=
  fun s b => hk s.state s b

theorem apart_tree_bind {k : ContentTree → Flow β} (hk : ∀ t, Apart (k t)) : Apart (tree >>= k) :=
  fun s b => hk s.tree s b

theorem apart_modifyState (f : State → State) : Apart (modifyState f) := fun _ _ => rfl

theorem apart_withState (f : State → α × State) : Apart (withState f) := fun _ _ => rfl

theorem apart_tryState (f : State → Except StoryError (α × State)) : Apart (tryState f) := by
  intro s b
  cases hf : f s.state with
  | ok r =>
    obtain ⟨a, u⟩ := r
    have hrun : tryState f s = .ok a { s with state := u } := tryState_run_ok hf
    have hbeside : tryState f (s.beside b) = .ok a { s.beside b with state := u } :=
      tryState_run_ok hf
    rw [hrun, hbeside]
    rfl
  | error e =>
    have hrun : tryState f s = .error e s := tryState_run_error hf
    have hbeside : tryState f (s.beside b) = .error e (s.beside b) := tryState_run_error hf
    rw [hrun, hbeside]
    rfl

theorem apart_orFail (f : State → State × Option StoryError) : Apart (orFail f) := by
  refine apart_bind (apart_withState _) fun failure => ?_
  cases failure
  · exact apart_pure ()
  · exact apart_throw _

theorem apart_ofExcept (x : Except StoryError α) : Apart (ofExcept x) := by
  cases x
  · exact apart_throw _
  · exact apart_pure _

/-! ## The evaluation stack, warnings and places -/

theorem apart_pop : Apart pop :=
  apart_tryState _

theorem apart_push (token : Token) : Apart (push token) :=
  apart_modifyState _

theorem apart_pushInt (n : Int32) : Apart (pushInt n) :=
  apart_push _

theorem apart_emit (token : Token) : Apart (emit token) :=
  apart_modifyState _

theorem apart_warn (message : String) : Apart (warn message) :=
  apart_tree_bind fun _ => apart_modifyState _

theorem apart_warnIfSome (message : Option String) : Apart (warnIfSome message) := by
  cases message
  · exact apart_pure ()
  · exact apart_warn _

theorem apart_popInt (cause : TypeFault) : Apart (popInt cause) := by
  refine apart_bind apart_pop fun token => ?_
  split
  · exact apart_pure _
  · exact apart_throw _

theorem apart_popValue (cause : TypeFault) : Apart (popValue cause) := by
  refine apart_bind apart_pop fun token => ?_
  split
  · exact apart_pure _
  · exact apart_throw _

theorem apart_popList (cause : TypeFault) : Apart (popList cause) := by
  refine apart_bind apart_pop fun token => ?_
  split
  · exact apart_pure _
  · exact apart_throw _

theorem apart_divertTo (p : Path) : Apart (divertTo p) :=
  apart_tree_bind fun _ => apart_bind (apart_ofExcept _) fun ⟨_, warning⟩ =>
    apart_bind (apart_warnIfSome warning) fun _ => apart_modifyState _

theorem apart_readVariable? (name : String) : Apart (readVariable? name) :=
  apart_get_bind (fun _ => apart_pure _) fun _ _ => rfl

theorem apart_popArguments (name : String) (popped : List Value) (count : Nat) :
    Apart (popArguments name popped count) := by
  induction count generalizing popped with
  | zero => exact apart_pure _
  | succ count ih =>
    refine apart_bind apart_pop fun token => ?_
    split
    · exact ih _
    · exact apart_throw _

/-! ## Diverts and returns -/

theorem apart_divertThrough (name : String) : Apart (divertThrough name) := by
  refine apart_bind (apart_readVariable? name) fun value => ?_
  split
  · exact apart_divertTo _
  · exact apart_throw _
  · exact apart_throw _
  · exact apart_throw _

theorem apart_pushFrame (kind : DivertKind) : Apart (pushFrame kind) := by
  unfold pushFrame
  split
  · exact apart_modifyState _
  · exact apart_modifyState _
  · exact apart_pure ()

/-- A call of a function of the host is logged. -/
theorem apart_callBound (name : String) (binding : Binding) (arguments : List Value) :
    Apart (callBound name binding arguments) := by
  refine apart_bind (fun _ _ => rfl) fun _ => ?_
  split
  · exact apart_push _
  · exact apart_push _

theorem apart_callExternal (name : String) (count : Nat) : Apart (callExternal name count) := by
  refine apart_get_bind (fun s => ?_) fun _ _ => rfl
  dsimp only
  split
  · exact apart_modifyState _
  · split
    · split
      · exact apart_throw _
      · exact fun _ _ => rfl
    · refine apart_bind (apart_popArguments name [] count) fun arguments => ?_
      split
      · exact apart_callBound _ _ _
      · exact fun _ _ => rfl

theorem apart_takeDivert (id : NodeId) (d : Divert) : Apart (takeDivert id d) := by
  unfold takeDivert
  split
  · exact apart_bind (apart_divertThrough _) fun _ => apart_pushFrame _
  · exact apart_callExternal _ _
  · refine apart_tree_bind fun t => ?_
    split
    · exact apart_bind (apart_modifyState _) fun _ => apart_pushFrame _
    · exact apart_bind (apart_throw _) fun _ => apart_pushFrame _

theorem apart_performDivert (id : NodeId) (d : Divert) : Apart (performDivert id d) := by
  refine apart_ite (apart_bind apart_pop fun condition => ?_) (apart_takeDivert id d)
  exact apart_bind (apart_ofExcept _) fun holds =>
    apart_ite (apart_takeDivert id d) (apart_pure ())

theorem apart_popOverride : Apart popOverride := by
  refine apart_bind apart_pop fun token => ?_
  split
  · exact apart_pure _
  · exact apart_pure _
  · exact apart_throw _

theorem apart_returnWith (kind : FrameKind) (override : Option Path) :
    Apart (returnWith kind override) := by
  refine apart_state_bind fun s => apart_ite (apart_modifyState _) (apart_ite ?_ ?_)
  · exact apart_throw _
  · refine apart_bind (apart_tryState _) fun _ => ?_
    cases override
    · exact apart_pure ()
    · exact apart_divertTo _

theorem apart_performReturn (kind : FrameKind) : Apart (performReturn kind) := by
  rw [performReturn_eq]
  exact apart_ite (apart_bind apart_popOverride (apart_returnWith kind))
    (apart_bind (apart_pure none) (apart_returnWith kind))

/-! ## Counts and random numbers -/

theorem apart_visitsOf (id : NodeId) : Apart (visitsOf id) :=
  apart_tree_bind fun _ => apart_withState _

theorem apart_turnsSinceOf (id : NodeId) : Apart (turnsSinceOf id) :=
  apart_tree_bind fun _ => apart_withState _

theorem apart_popCountTarget (command : Command) : Apart (popCountTarget command) := by
  refine apart_bind apart_pop fun token => ?_
  split
  · exact apart_pure _
  · exact apart_throw _
  · exact apart_throw _

theorem apart_pushCount (command : Command) {count : NodeId → Flow Int}
    (hcount : ∀ id, Apart (count id)) (unknown : Int) :
    Apart (pushCount command count unknown) := by
  refine apart_bind (apart_popCountTarget command) fun p => apart_tree_bind fun t => ?_
  dsimp only
  split
  · exact apart_bind (hcount _) fun n => apart_pushInt _
  · exact apart_bind (apart_warn _) fun _ => apart_pushInt _

theorem apart_currentContainer (fault : FlowFault) : Apart (currentContainer fault) := by
  refine apart_state_bind fun s => ?_
  split
  · exact apart_pure _
  · exact apart_throw _

theorem apart_nextWord : Apart nextWord :=
  apart_state_bind fun _ => apart_pure _

theorem apart_pushRandom : Apart pushRandom :=
  apart_bind (apart_popInt _) fun _ => apart_bind (apart_popInt _) fun _ =>
    apart_unless _ (apart_bind apart_nextWord fun _ => apart_bind (apart_pushInt _) fun _ =>
      apart_modifyState _)

theorem apart_setSeed : Apart setSeed :=
  apart_bind (apart_popInt _) fun _ => apart_bind (apart_modifyState _) fun _ => apart_push _

theorem apart_pushShuffled : Apart pushShuffled := by
  refine apart_bind apart_pop fun token => ?_
  split
  · refine apart_unless _ (apart_bind (apart_currentContainer _) fun id =>
      apart_bind apart_pop fun token => ?_)
    split
    · refine apart_tree_bind fun t => apart_state_bind fun s => ?_
      split
      · exact apart_pushInt _
      · exact apart_throw _
    · exact apart_throw _
  · exact apart_throw _

/-! ## Lists -/

theorem apart_pushListOfRank : Apart pushListOfRank := by
  refine apart_bind (apart_popInt _) fun rank => apart_bind apart_pop fun token => ?_
  split
  · refine apart_get_bind (fun s => ?_) fun _ _ => rfl
    split
    · exact apart_throw _
    · split
      · exact apart_push _
      · exact apart_push _
  · exact apart_throw _

theorem apart_pushListRange : Apart pushListRange :=
  apart_bind (apart_popValue _) fun _ => apart_bind (apart_popValue _) fun _ =>
    apart_bind (apart_popList _) fun _ => apart_push _

theorem apart_pushListRandom : Apart pushListRandom := by
  refine apart_bind (apart_popList _) fun list => apart_ite (apart_push _) ?_
  refine apart_bind apart_nextWord fun word => ?_
  split
  · exact apart_bind (apart_modifyState _) fun _ => apart_push _
  · exact apart_push _

/-! ## Commands -/

theorem apart_putOut : Apart putOut := by
  refine apart_state_bind fun s => apart_ite (apart_pure ()) (apart_bind apart_pop fun token => ?_)
  split
  · exact apart_pure ()
  · exact apart_emit _

theorem apart_beginString : Apart beginString :=
  apart_bind (apart_emit _) fun _ => apart_state_bind fun _ => apart_unless _ (apart_modifyState _)

theorem apart_endTag : Apart endTag := by
  refine apart_state_bind fun s => apart_ite ?_ (apart_emit _)
  exact apart_unless _ (apart_modifyState _)

theorem apart_finishThread : Apart finishThread :=
  apart_state_bind fun _ => apart_ite (apart_tryState _) (apart_modifyState _)

theorem apart_performCommand (command : Command) : Apart (performCommand command) := by
  cases command with
  | evalOutput => exact apart_putOut
  | beginString => exact apart_beginString
  | endString => exact fun _ _ => rfl
  | beginTag => exact apart_emit _
  | endTag => exact apart_endTag
  | evalStart => exact apart_state_bind fun _ => apart_unless _ (apart_modifyState _)
  | evalEnd => exact apart_state_bind fun _ => apart_unless _ (apart_modifyState _)
  | duplicate =>
    refine apart_state_bind fun s => ?_
    split
    · exact apart_push _
    · exact apart_throw _
  | popValue => exact apart_bind apart_pop fun _ => apart_pure ()
  | popFunction => exact apart_performReturn .function
  | popTunnel => exact apart_performReturn .tunnel
  | noOp => exact apart_pure ()
  | choiceCount => exact apart_state_bind fun s => apart_pushInt _
  | turns => exact apart_state_bind fun s => apart_pushInt _
  | turnsSince => exact apart_pushCount _ apart_turnsSinceOf _
  | readCount => exact apart_pushCount _ apart_visitsOf _
  | random => exact apart_pushRandom
  | seedRandom => exact apart_setSeed
  | visitIndex =>
    exact apart_bind (apart_currentContainer _) fun id =>
      apart_bind (apart_visitsOf id) fun n => apart_pushInt _
  | shuffleIndex => exact apart_pushShuffled
  | startThread => exact apart_pure ()
  | done => exact apart_finishThread
  | finish => exact apart_modifyState _
  | listFromInt => exact apart_pushListOfRank
  | listRange => exact apart_pushListRange
  | listRandom => exact apart_pushListRandom

/-! ## Variables and operators -/

theorem apart_performAssignment (a : Assignment) : Apart (performAssignment a) := by
  refine apart_bind apart_pop fun token => ?_
  split
  · exact apart_get_bind (fun _ => apart_tryState _) fun _ _ => rfl
  · exact apart_throw _

theorem apart_pushVariable (name : String) : Apart (pushVariable name) := by
  refine apart_bind (apart_readVariable? name) fun value => ?_
  split
  · exact apart_push _
  · exact apart_bind (apart_warn _) fun _ => apart_pushInt _

theorem apart_pushReadCount (id : NodeId) (p : Path) : Apart (pushReadCount id p) := by
  refine apart_tree_bind fun t => ?_
  split
  · exact apart_bind (apart_visitsOf _) fun n => apart_pushInt _
  · exact apart_throw _

theorem apart_performOperator (o : Operator) : Apart (performOperator o) := by
  refine apart_bind (apart_tryState _) fun tokens => apart_bind (apart_ofExcept _) fun operands => ?_
  exact apart_get_bind (fun s => apart_bind (apart_ofExcept _) fun result => apart_push _)
    fun _ _ => rfl

theorem apart_execute (id : NodeId) (i : Instruction) : Apart (execute id i) := by
  unfold execute
  split
  · exact apart_bind (apart_performDivert id _) fun _ => apart_pure _
  · exact apart_bind (apart_performCommand _) fun _ => apart_pure _
  · exact apart_bind (apart_performAssignment _) fun _ => apart_pure _
  · exact apart_bind (apart_pushVariable _) fun _ => apart_pure _
  · exact apart_bind (apart_pushReadCount id _) fun _ => apart_pure _
  · exact apart_bind (apart_performOperator _) fun _ => apart_pure _
  · exact apart_pure _

/-! ## Choices -/

theorem apart_popChoiceText : Apart popChoiceText := by
  refine apart_bind apart_pop fun token => ?_
  split
  · exact apart_bind (apart_withState _) fun _ => apart_pure _
  · exact apart_throw _

theorem apart_popTextIf (present : Bool) : Apart (popTextIf present) :=
  apart_ite apart_popChoiceText (apart_pure _)

theorem apart_popCondition (p : ChoicePoint) : Apart (popCondition p) :=
  apart_ite (apart_bind apart_pop fun _ => apart_ofExcept _) (apart_pure _)

theorem apart_isTaken (p : ChoicePoint) (target : Option NodeId) : Apart (isTaken p target) := by
  unfold isTaken
  split
  · exact apart_ite (apart_bind (apart_visitsOf _) fun _ => apart_pure _) (apart_pure _)
  · exact apart_pure _

theorem apart_makeOffer (id : NodeId) (p : ChoicePoint) : Apart (makeOffer id p) := by
  refine apart_bind (apart_popCondition p) fun holds => ?_
  refine apart_bind (apart_popTextIf _) fun only => apart_bind (apart_popTextIf _) fun start => ?_
  refine apart_tree_bind fun t => apart_bind (apart_isTaken p _) fun taken =>
    apart_ite (apart_pure _) ?_
  split
  · exact apart_throw _
  · exact apart_pure _

theorem apart_performChoicePoint (id : NodeId) (p : ChoicePoint) :
    Apart (performChoicePoint id p) := by
  refine apart_bind (apart_makeOffer id p) fun offer => ?_
  split
  · exact apart_modifyState _
  · exact apart_pure ()

theorem apart_jumpTo (p : Path) (countTurn : Bool) : Apart (jumpTo p countTurn) :=
  apart_tree_bind fun _ => apart_bind (apart_orFail _) fun _ => apart_modifyState _

theorem apart_followInvisibleChoice : Apart followInvisibleChoice := by
  refine apart_state_bind fun s => ?_
  dsimp only
  split
  · exact apart_pure ()
  · refine apart_ite (apart_bind (apart_modifyState _) fun _ => ?_) (apart_pure ())
    refine apart_get_bind (fun s => ?_) fun _ _ => rfl
    split
    · exact apart_bind (apart_modifyState _) fun _ => apart_jumpTo _ _
    · exact apart_jumpTo _ _

/-! ## Moving on -/

theorem apart_enterContainers (t : ContentTree) (depth : Nat) (place : Cursor) :
    Apart (enterContainers t depth place) := by
  induction depth generalizing place with
  | zero => exact apart_pure _
  | succ depth ih =>
    rw [enterContainers]
    split
    · exact apart_pure _
    · exact apart_bind (apart_modifyState _) fun _ => apart_ite (apart_pure _) (ih _)

theorem apart_followDivert : Apart followDivert := by
  refine apart_state_bind fun s => ?_
  split
  · exact apart_pure _
  · exact apart_tree_bind fun t => apart_bind (apart_modifyState _) fun _ => apart_pure _

theorem apart_leaveFinished : Apart leaveFinished := by
  refine apart_state_bind fun s => apart_ite ?_ (apart_ite ?_ ?_)
  · refine apart_bind (apart_tryState _) fun _ => apart_state_bind fun s => ?_
    dsimp only
    split
    · exact apart_bind (apart_push _) fun _ => apart_state_bind fun s => apart_pure _
    · exact apart_state_bind fun s => apart_pure _
  · exact apart_bind (apart_tryState _) fun _ => apart_state_bind fun s => apart_pure _
  · exact apart_bind (apart_modifyState _) fun _ => apart_pure _

theorem apart_moveHere : Apart moveHere := by
  refine apart_bind (apart_modifyState _) fun _ => apart_bind apart_followDivert fun followed => ?_
  exact apart_ite (apart_pure _) (apart_tree_bind fun t => apart_withState _)

theorem apart_unwind (frames : Nat) : Apart (unwind frames) := by
  induction frames with
  | zero => exact apart_pure ()
  | succ frames ih =>
    refine apart_bind apart_leaveFinished fun left => apart_ite ?_ (apart_pure ())
    exact apart_bind apart_moveHere fun moved => apart_ite ih (apart_pure ())

theorem apart_nextContent : Apart nextContent := by
  refine apart_bind apart_moveHere fun moved => apart_ite ?_ (apart_pure ())
  exact apart_state_bind fun s => apart_unwind _

theorem apart_leaveLeaf (leaf : Option (NodeId × Instruction)) : Apart (leaveLeaf leaf) := by
  refine apart_state_bind fun s => apart_ite (apart_pure ()) ?_
  refine apart_bind apart_nextContent fun _ => ?_
  split
  · exact apart_modifyState _
  · exact apart_pure ()

/-! ## Steps -/

theorem apart_executeAt (id : NodeId) (i : Instruction) : Apart (executeAt id i) := by
  refine apart_bind (apart_execute id i) fun carriedOut => ?_
  refine apart_state_bind fun s => apart_ite (apart_pure ()) ?_
  split
  · exact apart_performChoicePoint id _
  · refine apart_ite ?_ (apart_pure ())
    split
    · exact apart_state_bind fun s => apart_ite (apart_push _) (apart_emit _)
    · exact apart_pure ()

theorem apart_executeLeaf (leaf : Option (NodeId × Instruction)) : Apart (executeLeaf leaf) := by
  cases leaf with
  | none => exact apart_pure ()
  | some leaf => exact apart_executeAt _ _

theorem apart_reachLeaf (place : Cursor) : Apart (reachLeaf place) :=
  apart_tree_bind fun t => apart_bind (apart_enterContainers t _ place) fun _ =>
    apart_bind (apart_modifyState _) fun _ => apart_pure _

theorem apart_step : Apart step := by
  refine apart_state_bind fun s => ?_
  split
  · exact apart_pure ()
  · exact apart_bind (apart_reachLeaf _) fun leaf =>
      apart_bind (apart_executeLeaf leaf) fun _ => apart_leaveLeaf leaf

theorem apart_plainStep : Apart plainStep := by
  refine apart_bind apart_step fun _ => apart_get_bind (fun s => ?_) fun _ _ => rfl
  exact apart_ite apart_followInvisibleChoice (apart_pure ())

end Flow

/-! ## Lines -/

namespace Story

variable (s : Story) (b : Bystanders)

theorem keepLineState_beside : (s.beside b).keepLineState = s.keepLineState.beside b := by
  unfold keepLineState
  simp only [apply_ite (fun u : Story => u.beside b)]
  rfl

theorem restoreLineState_beside : (s.beside b).restoreLineState = s.restoreLineState.beside b := by
  unfold restoreLineState
  rw [show (s.beside b).lineState = s.lineState from rfl]
  cases s.lineState <;> rfl

theorem watchLine_beside :
    (s.beside b).watchLine = (s.watchLine.1, s.watchLine.2.beside b) := by
  have hdropped : { s.beside b with lineState := none }.keepLineState =
      ({ s with lineState := none } : Story).keepLineState.beside b :=
    keepLineState_beside { s with lineState := none } b
  unfold watchLine
  rw [keepLineState_beside, restoreLineState_beside, hdropped]
  rw [show (s.beside b).lineState = s.lineState from rfl]
  cases s.lineState with
  | none => rfl
  | some kept =>
    dsimp only
    show (if lineChange kept s.state = .extended ∨ s.metUnsafeCall = true then _ else
      if lineChange kept s.state = .removed then _ else _) = _
    split
    · rfl
    · split
      · rfl
      · rfl

end Story

namespace Flow

theorem apart_lineStep : Apart lineStep := by
  refine apart_bind apart_plainStep fun _ => apart_get_bind (fun s => ?_) fun _ _ => rfl
  refine apart_ite (apart_pure _) fun u b => ?_
  show EStateM.Result.ok (u.beside b).watchLine.1 (u.beside b).watchLine.2 = _
  rw [Story.watchLine_beside]
  rfl

theorem apart_attempt {α : Type} {x : Flow α} (hx : Apart x) : Apart (attempt x) := by
  intro s b
  unfold attempt
  rw [hx s b]
  cases x s <;> rfl

theorem apart_runLine (nodes : Nat) : Apart (runLine nodes) := by
  induction nodes with
  | zero => exact fun _ _ => rfl
  | succ nodes ih =>
    refine apart_bind (apart_attempt apart_lineStep) fun r => ?_
    split
    · exact apart_bind (apart_tree_bind fun t => apart_modifyState _) fun _ => apart_pure _
    · refine apart_get_bind (fun s => ?_) fun _ _ => rfl
      split
      · exact apart_bind (fun _ _ => rfl) fun _ => apart_pure _
      · exact apart_ite (apart_pure _) (apart_state_bind fun s => apart_ite (apart_pure _) ih)

end Flow

end StoryMachine
