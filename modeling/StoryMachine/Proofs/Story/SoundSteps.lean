import StoryMachine.Proofs.Story.Sound
import StoryMachine.Story.Line

/-!
# Steps keep stories sound

A step of a story whose states are sound leaves them sound, and so does whatever it consists of. What
it is about is where values and places come from: values from the content, from operators and from
functions of the host, and places from paths, from knots and from the order of content.

* `HostFunction.Answers` : functions of the host with answers of a kind;
* `Story.Sound` : stories whose states are sound;
* `Flow.Gives`, `Flow.Keeps` : computations that keep a property, with results of a kind;
* `Flow.keeps_execute`, `Flow.keeps_plainStep` : instructions and steps keep stories sound.
-/

namespace StoryMachine

/-- The answers of the function are of a kind if its arguments are. -/
def HostFunction.Answers (V : Value → Prop) (f : HostFunction) : Prop :=
  ∀ call arguments answer, (∀ v ∈ arguments, V v) → f call arguments = some answer → V answer

/-- The states of the story are sound, and the functions bound have answers of a kind. -/
structure Story.Sound (c : Content) (V : Value → Prop) (s : Story) : Prop where
  content : s.content = c
  state : s.state.Sound c.tree V
  lineState : ∀ kept ∈ s.lineState, kept.Sound c.tree V
  answers : ∀ e ∈ s.bindings.entries, e.2.function.Answers V

theorem Story.Sound.withState {c : Content} {V : Value → Prop} {s : Story} (h : s.Sound c V) {u : State}
    (hu : u.Sound c.tree V) : Story.Sound c V { s with state := u } :=
  ⟨h.content, hu, h.lineState, h.answers⟩

theorem Story.Sound.tree {c : Content} {V : Value → Prop} {s : Story} (h : s.Sound c V) :
    s.tree = c.tree :=
  congrArg Content.tree h.content

namespace Flow

/-! ## Computations that keep a property -/

section

variable {α β : Type} {I : Story → Prop} {P Q : α → Prop} {R : β → Prop}

/-- The computation keeps a property of stories, whether or not it fails, and its results are of a
kind. -/
def Gives (I : Story → Prop) (Q : α → Prop) (x : Flow α) : Prop :=
  ∀ s, I s → match x s with
    | .ok a u => I u ∧ Q a
    | .error _ u => I u

/-- The computation keeps a property of stories, whether or not it fails. -/
abbrev Keeps (I : Story → Prop) (x : Flow α) : Prop :=
  Gives I (fun _ => True) x

theorem Gives.after {x : Flow α} (h : Gives I Q x) {s : Story} (hs : I s) : I (x.after s) := by
  have hrun := h s hs
  cases hx : x s with
  | ok a u =>
    rw [hx] at hrun
    rw [after_of_ok hx]
    exact hrun.1
  | error e u =>
    rw [hx] at hrun
    rwa [after_of_error hx]

theorem Gives.mono {x : Flow α} (h : Gives I P x) (hPQ : ∀ a, P a → Q a) : Gives I Q x := by
  intro s hs
  have hrun := h s hs
  split at hrun
  · exact ⟨hrun.1, hPQ _ hrun.2⟩
  · exact hrun

theorem gives_pure {a : α} (h : Q a) : Gives I Q (pure a) := fun _ hs => ⟨hs, h⟩

theorem keeps_pure (a : α) : Keeps I (pure a) := gives_pure trivial

theorem gives_throw (e : StoryError) : Gives I Q (throw e : Flow α) := fun _ hs => hs

theorem gives_get : Gives I I (get : Flow Story) := fun _ hs => ⟨hs, hs⟩

theorem gives_bind {x : Flow α} {k : α → Flow β} (hx : Gives I P x) (hk : ∀ a, P a → Gives I R (k a)) :
    Gives I R (x >>= k) := by
  intro s hs
  have hrun := hx s hs
  cases h : x s with
  | ok a u =>
    rw [h] at hrun
    rw [bind_ok h]
    exact hk a hrun.2 u hrun.1
  | error e u =>
    rw [h] at hrun
    rw [bind_error h]
    exact hrun

theorem gives_ite {p : Prop} [Decidable p] {x y : Flow α} (hx : Gives I Q x) (hy : Gives I Q y) :
    Gives I Q (if p then x else y) := by
  split
  · exact hx
  · exact hy

/-- A check in front of a computation. -/
theorem gives_unless {p : Prop} [Decidable p] (e : StoryError) {x : Flow β} (hx : Gives I R x) :
    Gives I R (do
      if p then throw e
      x) := by
  dsimp only
  split
  · exact gives_bind (gives_throw e (Q := fun _ : Unit => True)) fun _ _ => hx
  · exact hx

theorem gives_ofExcept {x : Except StoryError α} (h : ∀ a, x = .ok a → Q a) :
    Gives I Q (ofExcept x) := by
  cases x with
  | ok a => exact gives_pure (h a rfl)
  | error e => exact gives_throw e

theorem keeps_ofExcept (x : Except StoryError α) : Keeps I (ofExcept x) :=
  gives_ofExcept fun _ _ => trivial

end

section

variable {α β : Type} {c : Content} {V : Value → Prop} {Q : α → Prop}

theorem gives_state : Gives (Story.Sound c V) (State.Sound c.tree V) state := fun _ hs => ⟨hs, hs.state⟩

theorem gives_tree_bind {k : ContentTree → Flow α} (hk : Gives (Story.Sound c V) Q (k c.tree)) :
    Gives (Story.Sound c V) Q (tree >>= k) := by
  intro s hs
  have hrun := hk s hs
  rw [← hs.tree] at hrun
  exact hrun

theorem keeps_modifyState {f : State → State} (h : ∀ s, s.Sound c.tree V → (f s).Sound c.tree V) :
    Keeps (Story.Sound c V) (modifyState f) :=
  fun _ hs => ⟨hs.withState (h _ hs.state), trivial⟩

theorem gives_withState {f : State → α × State}
    (h : ∀ s, s.Sound c.tree V → (f s).2.Sound c.tree V ∧ Q (f s).1) :
    Gives (Story.Sound c V) Q (withState f) :=
  fun _ hs => ⟨hs.withState (h _ hs.state).1, (h _ hs.state).2⟩

theorem gives_tryState {f : State → Except StoryError (α × State)}
    (h : ∀ s a u, s.Sound c.tree V → f s = .ok (a, u) → u.Sound c.tree V ∧ Q a) :
    Gives (Story.Sound c V) Q (tryState f) := by
  intro s hs
  cases hf : f s.state with
  | ok r =>
    obtain ⟨a, u⟩ := r
    have hrun : tryState f s = .ok a { s with state := u } := tryState_run_ok hf
    rw [hrun]
    obtain ⟨hu, ha⟩ := h s.state a u hs.state hf
    exact ⟨hs.withState hu, ha⟩
  | error e =>
    have hrun : tryState f s = .error e s := tryState_run_error hf
    rw [hrun]
    exact hs

theorem keeps_orFail {f : State → State × Option StoryError}
    (h : ∀ s, s.Sound c.tree V → (f s).1.Sound c.tree V) : Keeps (Story.Sound c V) (orFail f) := by
  refine gives_bind (gives_withState (Q := fun _ => True) fun s hs => ⟨h s hs, trivial⟩) fun e _ => ?_
  split
  · exact gives_throw _
  · exact keeps_pure ()

/-! ## The evaluation stack, warnings and places -/

theorem gives_pop : Gives (Story.Sound c V) (Token.Sound V) pop :=
  gives_tryState fun _ _ _ hs hpop => hs.pop hpop

theorem keeps_push {token : Token} (h : token.Sound V) : Keeps (Story.Sound c V) (push token) :=
  keeps_modifyState fun _ hs => hs.push h

theorem keeps_warn (message : String) : Keeps (Story.Sound c V) (warn message) :=
  gives_tree_bind (keeps_modifyState fun _ hs => hs.same rfl)

theorem keeps_warnIfSome (message : Option String) : Keeps (Story.Sound c V) (warnIfSome message) := by
  cases message
  · exact keeps_pure ()
  · exact keeps_warn _

theorem keeps_popInt (cause : TypeFault) : Keeps (Story.Sound c V) (popInt cause) := by
  refine gives_bind gives_pop fun token _ => ?_
  split
  · exact keeps_pure _
  · exact gives_throw _

theorem keeps_popValue (cause : TypeFault) : Keeps (Story.Sound c V) (popValue cause) := by
  refine gives_bind gives_pop fun token _ => ?_
  split
  · exact keeps_pure _
  · exact gives_throw _

theorem keeps_popList (cause : TypeFault) : Keeps (Story.Sound c V) (popList cause) := by
  refine gives_bind gives_pop fun token _ => ?_
  split
  · exact keeps_pure _
  · exact gives_throw _

theorem gives_popMany (count : Nat) : Gives (Story.Sound c V) (fun tokens => ∀ token ∈ tokens,
    token.Sound V) (tryState fun s => s.popMany count) :=
  gives_tryState fun _ _ _ hs hpop => hs.popMany hpop

theorem gives_popArguments (name : String) {popped : List Value} (hpopped : ∀ v ∈ popped, V v)
    (count : Nat) :
    Gives (Story.Sound c V) (fun arguments => ∀ v ∈ arguments, V v)
      (popArguments name popped count) := by
  induction count generalizing popped with
  | zero => exact gives_pure hpopped
  | succ count ih =>
    refine gives_bind gives_pop fun token htoken => ?_
    split
    · next v => exact ih (List.forall_mem_cons.mpr ⟨htoken v rfl, hpopped⟩)
    · exact gives_throw _

theorem keeps_setDiverted {place : Option Cursor} (h : ∀ k ∈ place, k.IsPlace c.tree) :
    Keeps (Story.Sound c V) (modifyState fun s => { s with diverted := place }) :=
  keeps_modifyState fun _ hs => ⟨hs.callStack, hs.vars, hs.evaluation, hs.choices, h⟩

theorem keeps_divertTo (p : Path) : Keeps (Story.Sound c V) (divertTo p) := by
  refine gives_tree_bind (gives_bind (P := fun found => ∀ k ∈ found.1, k.IsPlace c.tree) ?_ ?_)
  · refine gives_ofExcept fun ⟨place, warning⟩ hfound k hk => ?_
    have hplace : place = some k := hk
    rw [hplace] at hfound
    exact ContentTree.isPlace_of_cursorAt hfound
  · rintro ⟨place, warning⟩ hplace
    exact gives_bind (keeps_warnIfSome warning) fun _ _ => keeps_setDiverted hplace

/-! ## Diverts and returns -/

theorem keeps_pushFrame (kind : DivertKind) : Keeps (Story.Sound c V) (pushFrame kind) := by
  have henter (k : FrameKind) : Keeps (Story.Sound c V) (modifyState fun s =>
      { s with callStack := s.callStack.push k 0 s.output.length }) :=
    keeps_modifyState fun _ hs => hs.ofCallStack (hs.callStack.push k 0 _)
  unfold pushFrame
  split
  · exact henter .function
  · exact henter .tunnel
  · exact keeps_pure ()

theorem keeps_callKnot {knot : NodeId} (h : c.tree.isContainer knot = true) :
    Keeps (Story.Sound c V) (callKnot knot) :=
  keeps_modifyState fun _ hs => ⟨hs.callStack.push .function 0 _, hs.vars, hs.evaluation, hs.choices,
    fun _ hk => Option.mem_some.mp hk ▸ ContentTree.isPlace_start h⟩

theorem keeps_callBound {name : String} {b : Binding} (hb : b.function.Answers V)
    {arguments : List Value} (harguments : ∀ v ∈ arguments, V v) :
    Keeps (Story.Sound c V) (callBound name b arguments) := by
  intro s hs
  rw [callBound_ok]
  refine ⟨⟨hs.content, hs.state.push ?_, hs.lineState,
    Entries.of_mem_insert (P := fun b : Binding => b.function.Answers V) hs.answers hb⟩, trivial⟩
  cases hanswer : b.function (b.calls + 1) arguments with
  | none => exact Token.sound_of_not_value rfl
  | some answer => exact Token.sound_value (hb _ _ _ harguments hanswer)

theorem keeps_callExternal (name : String) (count : Nat) :
    Keeps (Story.Sound c V) (callExternal name count) := by
  refine gives_bind gives_get fun s hs => ?_
  dsimp only
  split
  · next knot hknot =>
    refine keeps_callKnot ?_
    split at hknot
    · rw [← hs.tree]
      exact ContentTree.isContainer_of_knot? hknot
    · cases hknot
  · refine gives_ite (gives_ite (gives_throw _) ?_) ?_
    · exact fun _ hu => ⟨⟨hu.content, hu.state, hu.lineState, hu.answers⟩, trivial⟩
    · refine gives_bind (gives_popArguments name nofun count) fun arguments harguments => ?_
      split
      · next b hb =>
        exact keeps_callBound (hs.answers (name, b) (SortedMap.mem_entries_iff.mpr hb)) harguments
      · exact fun _ hu => ⟨⟨hu.content, hu.state, hu.lineState, hu.answers⟩, trivial⟩

theorem keeps_popFrame : Keeps (Story.Sound c V) (tryState fun s => return ((), ← s.popFrame)) := by
  refine gives_tryState fun s _ u hs hpop => ⟨?_, trivial⟩
  obtain ⟨v, hv, hpop⟩ := Except.bind_eq_ok.mp hpop
  cases hpop
  exact hs.popFrame hv

theorem keeps_popThread : Keeps (Story.Sound c V)
    (tryState fun s => return ((), { s with callStack := ← s.callStack.popThread })) := by
  refine gives_tryState fun s _ u hs hpop => ⟨?_, trivial⟩
  obtain ⟨v, hv, hpop⟩ := Except.bind_eq_ok.mp hpop
  cases hpop
  exact hs.ofCallStack (hs.callStack.popThread hv)

theorem keeps_popOverride : Keeps (Story.Sound c V) popOverride := by
  refine gives_bind gives_pop fun token _ => ?_
  split
  · exact keeps_pure _
  · exact keeps_pure _
  · exact gives_throw _

theorem keeps_leaveHostCall : Keeps (Story.Sound c V) (modifyState State.leaveHostCall) :=
  keeps_modifyState fun _ hs => hs.leaveHostCall

theorem keeps_returnWith (kind : FrameKind) (override : Option Path) :
    Keeps (Story.Sound c V) (returnWith kind override) := by
  refine gives_bind gives_state fun s _ => gives_ite keeps_leaveHostCall (gives_ite ?_ ?_)
  · exact gives_throw _
  · refine gives_bind keeps_popFrame fun _ _ => ?_
    cases override
    · exact keeps_pure ()
    · exact keeps_divertTo _

theorem keeps_performReturn (kind : FrameKind) : Keeps (Story.Sound c V) (performReturn kind) := by
  rw [performReturn_eq]
  exact gives_ite (gives_bind keeps_popOverride fun _ _ => keeps_returnWith kind _)
    (gives_bind (keeps_pure none) fun _ _ => keeps_returnWith kind _)

/-! ## Counts -/

theorem keeps_visitsOf (id : NodeId) : Keeps (Story.Sound c V) (visitsOf id) := by
  refine gives_tree_bind (gives_withState fun s hs => ⟨?_, trivial⟩)
  unfold State.visitsOrWarn
  split
  · exact hs
  · exact hs.same rfl

theorem keeps_turnsSinceOf (id : NodeId) : Keeps (Story.Sound c V) (turnsSinceOf id) := by
  refine gives_tree_bind (gives_withState fun s hs => ⟨?_, trivial⟩)
  unfold State.turnsSinceOrWarn
  split
  · exact hs
  · exact hs.same rfl

theorem keeps_popCountTarget (command : Command) :
    Keeps (Story.Sound c V) (popCountTarget command) := by
  refine gives_bind gives_pop fun token _ => ?_
  split
  · exact keeps_pure _
  · exact gives_throw _
  · exact gives_throw _

theorem keeps_currentContainer (fault : FlowFault) :
    Keeps (Story.Sound c V) (currentContainer fault) := by
  refine gives_bind gives_state fun s _ => ?_
  split
  · exact keeps_pure _
  · exact gives_throw _

theorem keeps_nextWord : Keeps (Story.Sound c V) nextWord :=
  gives_bind gives_state fun _ _ => keeps_pure _

theorem keeps_setRandom (f : State → Int32) (g : State → Int32) :
    Keeps (Story.Sound c V) (modifyState fun s => { s with seed := f s, drawn := g s }) :=
  keeps_modifyState fun _ hs => hs.same rfl

theorem keeps_setSeed : Keeps (Story.Sound c V) setSeed :=
  gives_bind (keeps_popInt _) fun seed _ =>
    gives_bind (keeps_setRandom (fun _ => seed) fun _ => 0) fun _ _ =>
      keeps_push (Token.sound_of_not_value rfl)

/-! ## Output -/

theorem keeps_emit (token : Token) : Keeps (Story.Sound c V) (emit token) :=
  keeps_modifyState fun _ hs => hs.emit token

theorem keeps_putOut : Keeps (Story.Sound c V) putOut := by
  refine gives_bind gives_state fun s _ => gives_ite (keeps_pure ()) ?_
  refine gives_bind gives_pop fun token _ => ?_
  split
  · exact keeps_pure ()
  · exact keeps_emit _

theorem keeps_setInExpression (b : Bool) :
    Keeps (Story.Sound c V) (modifyState fun s => s.setInExpression b) :=
  keeps_modifyState fun _ hs => hs.setInExpression b

theorem keeps_beginString : Keeps (Story.Sound c V) beginString :=
  gives_bind (keeps_emit _) fun _ _ => gives_bind gives_state fun _ _ =>
    gives_unless _ (keeps_setInExpression false)

theorem keeps_endTag : Keeps (Story.Sound c V) endTag := by
  refine gives_bind gives_state fun s _ => gives_ite (gives_unless _ ?_) (keeps_emit _)
  refine keeps_modifyState fun s hs => ?_
  have hput (output : Output) : State.Sound c.tree V { s with output } := hs.same rfl
  exact (hput _).push (Token.sound_of_not_value rfl)

theorem keeps_finishThread : Keeps (Story.Sound c V) finishThread := by
  refine gives_bind gives_state fun s _ => gives_ite keeps_popThread (keeps_modifyState fun s hs => ?_)
  have hsafe : State.Sound c.tree V { s with safeExit := true } := hs.same rfl
  exact hsafe.setCursor nofun

/-! ## Choices -/

theorem keeps_popTags : Keeps (Story.Sound c V) popTags :=
  gives_withState fun _ hs =>
    ⟨hs.ofEvaluation fun token htoken => hs.evaluation token (List.mem_of_mem_drop htoken), trivial⟩

theorem keeps_popTextIf (present : Bool) : Keeps (Story.Sound c V) (popTextIf present) := by
  have hpop : Keeps (Story.Sound c V) popChoiceText := by
    refine gives_bind gives_pop fun token _ => ?_
    split
    · exact gives_bind keeps_popTags fun _ _ => keeps_pure _
    · exact gives_throw _
  exact gives_ite hpop (keeps_pure _)

theorem keeps_popCondition (p : ChoicePoint) : Keeps (Story.Sound c V) (popCondition p) :=
  gives_ite (gives_bind gives_pop fun _ _ => keeps_ofExcept _) (keeps_pure _)

theorem keeps_isTaken (p : ChoicePoint) (target : Option NodeId) :
    Keeps (Story.Sound c V) (isTaken p target) := by
  unfold isTaken
  split
  · exact gives_ite (gives_bind (keeps_visitsOf _) fun _ _ => keeps_pure _) (keeps_pure _)
  · exact keeps_pure _

theorem keeps_makeOffer (id : NodeId) (p : ChoicePoint) : Keeps (Story.Sound c V) (makeOffer id p) := by
  refine gives_bind (keeps_popCondition p) fun holds _ => gives_bind (keeps_popTextIf _) fun only _ =>
    gives_bind (keeps_popTextIf _) fun start _ => gives_tree_bind ?_
  refine gives_bind (keeps_isTaken p _) fun taken _ => gives_ite (keeps_pure _) ?_
  split
  · exact gives_throw _
  · exact keeps_pure _

theorem keeps_performChoicePoint (id : NodeId) (p : ChoicePoint) :
    Keeps (Story.Sound c V) (performChoicePoint id p) := by
  refine gives_bind (keeps_makeOffer id p) fun offer _ => ?_
  split
  · exact keeps_modifyState fun _ hs => hs.offer _
  · exact keeps_pure ()

theorem keeps_jumpTo (p : Path) (countTurn : Bool) : Keeps (Story.Sound c V) (jumpTo p countTurn) :=
  gives_tree_bind (gives_bind (keeps_orFail fun _ hs => hs.jump p countTurn) fun _ _ =>
    keeps_modifyState fun _ hs => hs.enterByJump)

theorem keeps_resumeThread {thread : Thread} (h : thread.Sound c.tree V) :
    Keeps (Story.Sound c V) (resumeThread thread) :=
  keeps_modifyState fun _ hs => (hs.ofCallStack (CallStack.sound_resume h _)).same rfl

theorem keeps_followInvisibleChoice : Keeps (Story.Sound c V) followInvisibleChoice := by
  refine gives_bind gives_state fun s hs => ?_
  dsimp only
  split
  · exact keeps_pure ()
  · next o rest hchoices =>
    have ho : o.thread.Sound c.tree V := hs.choices o (by rw [hchoices]; exact List.mem_cons_self)
    have hcopy : Keeps (Story.Sound c V) (modifyState State.resumeCopy) :=
      keeps_modifyState fun _ hs => hs.resumeCopy
    exact gives_ite (gives_bind (keeps_resumeThread ho) fun _ _ => gives_bind gives_get fun _ _ =>
      gives_ite (gives_bind hcopy fun _ _ => keeps_jumpTo _ _) (keeps_jumpTo _ _)) (keeps_pure ())

/-! ## Moving on -/

/-- Containers are entered from a place on, down to a place. -/
theorem gives_enterContainers (depth : Nat) {place : Cursor} (h : place.IsPlace c.tree) :
    Gives (Story.Sound c V) (fun place => place.IsPlace c.tree)
      (enterContainers c.tree depth place) := by
  induction depth generalizing place with
  | zero => exact gives_pure h
  | succ depth ih =>
    rw [enterContainers]
    split
    · exact gives_pure h
    · next id hid =>
      refine gives_bind (keeps_modifyState fun _ hs => hs.enter id true) fun _ _ =>
        gives_ite (gives_pure h) (ih (ContentTree.isPlace_start ?_))
      exact (Option.filter_eq_some_iff.mp hid).2

theorem gives_reachLeaf {place : Cursor} (h : place.IsPlace c.tree) :
    Gives (Story.Sound c V) (fun leaf => ∀ l ∈ leaf, c.tree.leaf? l.1 = some l.2)
      (reachLeaf place) := by
  refine gives_tree_bind (gives_bind (gives_enterContainers _ h) fun place hplace =>
    gives_bind (keeps_modifyState fun _ hs => hs.setCursor fun k hk => ?_) fun _ _ =>
      gives_pure fun l hl => ?_)
  · cases hk
    exact hplace
  · obtain ⟨id, -, hid⟩ := Option.bind_eq_some_iff.mp hl
    obtain ⟨i, hleaf, rfl⟩ := Option.map_eq_some_iff.mp hid
    exact hleaf

theorem keeps_followDivert : Keeps (Story.Sound c V) followDivert := by
  refine gives_bind gives_state fun s hs => ?_
  split
  · exact keeps_pure _
  · next place hplace =>
    refine gives_tree_bind (gives_bind (keeps_modifyState fun u hu => ?_) fun _ _ => keeps_pure _)
    have hdiverted : State.Sound c.tree V { u with diverted := none } :=
      ⟨hu.callStack, hu.vars, hu.evaluation, hu.choices, nofun⟩
    refine (hdiverted.setCursor fun k hk => hs.diverted k ?_).enterByJump
    rw [hplace]
    exact hk

theorem keeps_leaveFinished : Keeps (Story.Sound c V) leaveFinished := by
  refine gives_bind gives_state fun s _ => gives_ite ?_ (gives_ite ?_ ?_)
  · refine gives_bind keeps_popFrame fun _ _ => gives_bind gives_state fun s _ => ?_
    dsimp only
    split
    · exact gives_bind (keeps_push (Token.sound_of_not_value rfl)) fun _ _ =>
        gives_bind gives_state fun _ _ => keeps_pure _
    · exact gives_bind gives_state fun _ _ => keeps_pure _
  · exact gives_bind keeps_popThread fun _ _ => gives_bind gives_state fun _ _ => keeps_pure _
  · exact gives_bind keeps_leaveHostCall fun _ _ => keeps_pure _

theorem keeps_moveHere : Keeps (Story.Sound c V) moveHere := by
  refine gives_bind (keeps_modifyState fun _ hs => hs.notePlace) fun _ _ => ?_
  refine gives_bind keeps_followDivert fun followed _ => gives_ite (keeps_pure _) ?_
  exact gives_tree_bind (gives_withState fun _ hs => ⟨hs.advance, trivial⟩)

theorem keeps_unwind (frames : Nat) : Keeps (Story.Sound c V) (unwind frames) := by
  induction frames with
  | zero => exact keeps_pure ()
  | succ frames ih =>
    refine gives_bind keeps_leaveFinished fun left _ => gives_ite ?_ (keeps_pure ())
    exact gives_bind keeps_moveHere fun moved _ => gives_ite ih (keeps_pure ())

theorem keeps_nextContent : Keeps (Story.Sound c V) nextContent :=
  gives_bind keeps_moveHere fun _ _ =>
    gives_ite (gives_bind gives_state fun _ _ => keeps_unwind _) (keeps_pure ())

theorem keeps_leaveLeaf (leaf : Option (NodeId × Instruction)) :
    Keeps (Story.Sound c V) (leaveLeaf leaf) := by
  refine gives_bind gives_state fun s _ => gives_ite (keeps_pure ()) ?_
  refine gives_bind keeps_nextContent fun _ _ => ?_
  split
  · exact keeps_modifyState fun _ hs => hs.ofCallStack hs.callStack.pushThread
  · exact keeps_pure ()

end

/-! ## Values -/

section

variable {c : Content} {V : Value → Prop} (hV : c.Carries V)
include hV

theorem keeps_pushPassable {v : Value} (h : v.Passable) : Keeps (Story.Sound c V) (push (.value v)) :=
  keeps_push (Token.sound_value (hV.passable v h))

theorem keeps_pushInt (n : Int32) : Keeps (Story.Sound c V) (pushInt n) :=
  keeps_pushPassable hV (v := .int n) trivial

theorem gives_readVariable? (name : String) :
    Gives (Story.Sound c V) (fun found => ∀ v ∈ found, V v) (readVariable? name) :=
  gives_bind gives_get fun _ hs => gives_pure fun _ hv =>
    hs.state.vars.read? hV hs.state.callStack hv

theorem keeps_divertThrough (name : String) : Keeps (Story.Sound c V) (divertThrough name) := by
  refine gives_bind (gives_readVariable? hV name) fun found _ => ?_
  split
  · exact keeps_divertTo _
  · exact gives_throw _
  · exact gives_throw _
  · exact gives_throw _

theorem keeps_takeDivert (id : NodeId) (d : Divert) : Keeps (Story.Sound c V) (takeDivert id d) := by
  unfold takeDivert
  split
  · exact gives_bind (keeps_divertThrough hV _) fun _ _ => keeps_pushFrame _
  · exact keeps_callExternal _ _
  · refine gives_tree_bind ?_
    split
    · next place hplace =>
      refine gives_bind (keeps_setDiverted fun k hk => ?_) fun _ _ => keeps_pushFrame _
      cases hk
      exact ContentTree.isPlace_of_divertCursor? hplace
    · exact gives_bind (gives_throw _ (Q := fun _ : Unit => True)) fun _ _ => keeps_pushFrame _

theorem keeps_performDivert (id : NodeId) (d : Divert) :
    Keeps (Story.Sound c V) (performDivert id d) := by
  refine gives_ite (gives_bind gives_pop fun condition _ => ?_) (keeps_takeDivert hV id d)
  refine gives_bind (keeps_ofExcept _) fun holds _ => ?_
  exact gives_ite (keeps_takeDivert hV id d) (keeps_pure ())

theorem keeps_endString : Keeps (Story.Sound c V) endString := by
  refine keeps_modifyState fun s hs => ?_
  have hput (output : Output) : State.Sound c.tree V { s with output } := hs.same rfl
  exact ((hput _).setInExpression true).push (Token.sound_value (hV.passable _ trivial))

theorem keeps_pushCount (command : Command) {count : NodeId → Flow Int}
    (hcount : ∀ id, Keeps (Story.Sound c V) (count id)) (unknown : Int) :
    Keeps (Story.Sound c V) (pushCount command count unknown) := by
  refine gives_bind (keeps_popCountTarget command) fun p _ => gives_tree_bind ?_
  dsimp only
  split
  · exact gives_bind (hcount _) fun n _ => keeps_pushInt hV _
  · exact gives_bind (keeps_warn _) fun _ _ => keeps_pushInt hV _

theorem keeps_pushRandom : Keeps (Story.Sound c V) pushRandom :=
  gives_bind (keeps_popInt _) fun _ _ => gives_bind (keeps_popInt _) fun _ _ =>
    gives_unless _ (gives_bind keeps_nextWord fun _ _ => gives_bind (keeps_pushInt hV _) fun _ _ =>
      keeps_setRandom State.seed fun s => s.drawn + 1)

theorem keeps_pushShuffled : Keeps (Story.Sound c V) pushShuffled := by
  refine gives_bind gives_pop fun token _ => ?_
  split
  · refine gives_unless _ (gives_bind (keeps_currentContainer _) fun id _ =>
      gives_bind gives_pop fun token _ => ?_)
    split
    · refine gives_tree_bind (gives_bind gives_state fun s _ => ?_)
      split
      · exact keeps_pushInt hV _
      · exact gives_throw _
    · exact gives_throw _
  · exact gives_throw _

theorem keeps_pushListOfRank : Keeps (Story.Sound c V) pushListOfRank := by
  refine gives_bind (keeps_popInt _) fun rank _ => gives_bind gives_pop fun token _ => ?_
  split
  · refine gives_bind gives_get fun s _ => ?_
    split
    · exact gives_throw _
    · split
      · exact keeps_pushPassable hV trivial
      · exact keeps_pushPassable hV trivial
  · exact gives_throw _

theorem keeps_pushListRange : Keeps (Story.Sound c V) pushListRange :=
  gives_bind (keeps_popValue _) fun _ _ => gives_bind (keeps_popValue _) fun _ _ =>
    gives_bind (keeps_popList _) fun _ _ => keeps_pushPassable hV trivial

theorem keeps_pushListRandom : Keeps (Story.Sound c V) pushListRandom := by
  refine gives_bind (keeps_popList _) fun list _ => gives_ite (keeps_pushPassable hV trivial) ?_
  refine gives_bind keeps_nextWord fun word _ => ?_
  split
  · exact gives_bind (keeps_setRandom State.seed fun _ => word.toInt32) fun _ _ =>
      keeps_pushPassable hV trivial
  · exact keeps_pushPassable hV trivial

/-! ## Instructions -/

theorem keeps_performCommand (command : Command) :
    Keeps (Story.Sound c V) (performCommand command) := by
  cases command with
  | evalOutput => exact keeps_putOut
  | beginString => exact keeps_beginString
  | endString => exact keeps_endString hV
  | beginTag => exact keeps_emit _
  | endTag => exact keeps_endTag
  | evalStart =>
    exact gives_bind gives_state fun _ _ => gives_unless _ (keeps_setInExpression true)
  | evalEnd =>
    exact gives_bind gives_state fun _ _ => gives_unless _ (keeps_setInExpression false)
  | duplicate =>
    refine gives_bind gives_state fun s hs => ?_
    split
    · next token rest hstack =>
      exact keeps_push (hs.evaluation token (by rw [hstack]; exact List.mem_cons_self))
    · exact gives_throw _
  | popValue => exact gives_bind gives_pop fun _ _ => keeps_pure ()
  | popFunction => exact keeps_performReturn .function
  | popTunnel => exact keeps_performReturn .tunnel
  | noOp => exact keeps_pure ()
  | choiceCount => exact gives_bind gives_state fun s _ => keeps_pushInt hV _
  | turns => exact gives_bind gives_state fun s _ => keeps_pushInt hV _
  | turnsSince => exact keeps_pushCount hV _ keeps_turnsSinceOf _
  | readCount => exact keeps_pushCount hV _ keeps_visitsOf _
  | random => exact keeps_pushRandom hV
  | seedRandom => exact keeps_setSeed
  | visitIndex =>
    exact gives_bind (keeps_currentContainer _) fun id _ =>
      gives_bind (keeps_visitsOf id) fun n _ => keeps_pushInt hV _
  | shuffleIndex => exact keeps_pushShuffled hV
  | startThread => exact keeps_pure ()
  | done => exact keeps_finishThread
  | finish => exact keeps_modifyState fun _ hs => hs.forceEnd
  | listFromInt => exact keeps_pushListOfRank hV
  | listRange => exact keeps_pushListRange hV
  | listRandom => exact keeps_pushListRandom hV

theorem keeps_performAssignment (a : Assignment) :
    Keeps (Story.Sound c V) (performAssignment a) := by
  refine gives_bind gives_pop fun token htoken => ?_
  split
  · next v =>
    refine gives_bind gives_get fun s _ => gives_tryState fun s _ u hs hassign => ⟨?_, trivial⟩
    obtain ⟨⟨vars, callStack⟩, hassigned, hassign⟩ := Except.bind_eq_ok.mp hassign
    cases hassign
    obtain ⟨hvars, hstack⟩ := hs.vars.assign hV hs.callStack (htoken v rfl) hassigned
    exact ⟨hstack, hvars, hs.evaluation, hs.choices, hs.diverted⟩
  · exact gives_throw _

theorem keeps_pushVariable (name : String) : Keeps (Story.Sound c V) (pushVariable name) := by
  refine gives_bind (gives_readVariable? hV name) fun found hfound => ?_
  split
  · next v => exact keeps_push (Token.sound_value (hfound v rfl))
  · exact gives_bind (keeps_warn _) fun _ _ => keeps_pushInt hV 0

theorem keeps_pushReadCount (id : NodeId) (p : Path) :
    Keeps (Story.Sound c V) (pushReadCount id p) := by
  refine gives_tree_bind ?_
  split
  · exact gives_bind (keeps_visitsOf _) fun n _ => keeps_pushInt hV _
  · exact gives_throw _

theorem keeps_performOperator (o : Operator) : Keeps (Story.Sound c V) (performOperator o) := by
  refine gives_bind (gives_popMany _) fun tokens _ => gives_bind (keeps_ofExcept _) fun operands _ =>
    gives_bind gives_get fun s _ => gives_bind (P := Value.Passable) ?_ fun result hresult =>
      keeps_pushPassable hV hresult
  exact gives_ofExcept fun result hresult => Operator.passable_apply hresult

theorem keeps_execute (id : NodeId) (i : Instruction) : Keeps (Story.Sound c V) (execute id i) := by
  unfold execute
  split
  · exact gives_bind (keeps_performDivert hV id _) fun _ _ => keeps_pure _
  · exact gives_bind (keeps_performCommand hV _) fun _ _ => keeps_pure _
  · exact gives_bind (keeps_performAssignment hV _) fun _ _ => keeps_pure _
  · exact gives_bind (keeps_pushVariable hV _) fun _ _ => keeps_pure _
  · exact gives_bind (keeps_pushReadCount hV id _) fun _ _ => keeps_pure _
  · exact gives_bind (keeps_performOperator hV _) fun _ _ => keeps_pure _
  · exact keeps_pure _

/-! ## Steps -/

/-- A reference of the content gets a scope that is known. -/
theorem keeps_putContent {id : NodeId} {i : Instruction} (hleaf : c.tree.leaf? id = some i)
    {token : Token} (htoken : Token.ofInstruction? i = some token) :
    Keeps (Story.Sound c V) (putContent token) := by
  have hvalue : ∀ v, token = .value v → c.tree.leaf? id = some (.value v) := by
    rintro v rfl
    cases i <;> cases htoken
    exact hleaf
  refine gives_bind gives_state fun s _ => ?_
  dsimp only
  refine gives_ite (keeps_push ?_) (keeps_emit _)
  split
  · next name scope =>
    split
    · refine Token.sound_value (hV.known name ?_)
      unfold CallStack.scopeOf
      split
      · exact Int.natCast_nonneg _
      · exact Int.le_refl 0
    · next hscope =>
      refine Token.sound_value (hV.literal (hvalue _ rfl) fun other h => hscope ?_)
      cases h
      rfl
  · next hreference =>
    intro v hv
    exact hV.literal (hvalue v hv) fun name h => hreference name unknownScope (h ▸ hv)

theorem keeps_executeAt {id : NodeId} {i : Instruction} (hleaf : c.tree.leaf? id = some i) :
    Keeps (Story.Sound c V) (executeAt id i) := by
  refine gives_bind (keeps_execute hV id i) fun carriedOut _ => ?_
  refine gives_bind gives_state fun s _ => gives_ite (keeps_pure ()) ?_
  split
  · exact keeps_performChoicePoint id _
  · refine gives_ite ?_ (keeps_pure ())
    split
    · next htoken => exact keeps_putContent hV hleaf htoken
    · exact keeps_pure ()

theorem keeps_executeLeaf {leaf : Option (NodeId × Instruction)}
    (hleaf : ∀ l ∈ leaf, c.tree.leaf? l.1 = some l.2) :
    Keeps (Story.Sound c V) (executeLeaf leaf) := by
  cases leaf with
  | none => exact keeps_pure ()
  | some leaf => exact keeps_executeAt hV (hleaf leaf rfl)

theorem keeps_step : Keeps (Story.Sound c V) step := by
  refine gives_bind gives_state fun s hs => ?_
  split
  · exact keeps_pure ()
  · next place hplace =>
    refine gives_bind (gives_reachLeaf (hs.cursor place hplace)) fun leaf hleaf => ?_
    exact gives_bind (keeps_executeLeaf hV hleaf) fun _ _ => keeps_leaveLeaf leaf

theorem keeps_plainStep : Keeps (Story.Sound c V) plainStep :=
  gives_bind (keeps_step hV) fun _ _ => gives_bind gives_get fun _ _ =>
    gives_ite keeps_followInvisibleChoice (keeps_pure ())

end

end Flow

end StoryMachine
