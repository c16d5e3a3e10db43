import StoryMachine.Proofs.Alike.Flows
import StoryMachine.Proofs.Story.Emission
import StoryMachine.Proofs.Story.Inside

/-!
# The parts of a step on stories that are alike

The parts of a step that put nothing out are blind: none of them looks at the output, at warnings
or at the numbers of threads. What they do to frames and threads changes the shapes, and so is
asked of the relation of the shapes. Calls of functions of the host are left to the relation of
the rest of the stories, too.

* `Stable` : a relation of shapes that is kept by whatever happens to frames and threads;
* `Flow.blind_performCommand` : the commands that put nothing out;
* `Flow.blind_performChoicePoint`, `Flow.blind_jumpTo`, `Flow.blind_followInvisibleChoice` :
  choices and jumps;
* `Flow.blind_reachLeaf`, `Flow.blind_leaveLeaf` : moving to a leaf and behind it.
-/

open List (Forall₂)

namespace StoryMachine

variable {c : Content}

/-- The relation `ρ` of shapes is kept where frames are pushed and dropped, and threads started,
ended and resumed. -/
structure Stable (K : Likeness) (ρ : Shape → Shape → Prop) : Prop where
  mark {s u : State} (h : ρ s.shape u.shape) :
    K.mark (some s.output.length) (some u.output.length)
  push {s u : State} (k : FrameKind) (hs : s.Alike K u) (h : ρ s.shape u.shape) :
    ρ (State.shape { s with callStack := s.callStack.push k 0 s.output.length })
      (State.shape { u with callStack := u.callStack.push k 0 u.output.length })
  pop {s u s' u' : State} (hs : s.Alike K u) (h : ρ s.shape u.shape) (hpop : s.popFrame = .ok s')
    (hpop' : u.popFrame = .ok u') : ρ s'.shape u'.shape
  startThread {s u : State} (hs : s.Alike K u) (h : ρ s.shape u.shape) :
    ρ (State.shape { s with callStack := s.callStack.pushThread })
      (State.shape { u with callStack := u.callStack.pushThread })
  endThread {s u : State} {a b : CallStack} (hs : s.Alike K u) (h : ρ s.shape u.shape)
    (hpop : s.callStack.popThread = .ok a) (hpop' : u.callStack.popThread = .ok b) :
    ρ (State.shape { s with callStack := a }) (State.shape { u with callStack := b })
  resume {s u : State} {a b : Thread} (hs : s.Alike K u) (hab : a.Alike K b)
    (h : ρ s.shape u.shape) :
    ρ (State.shape { s with callStack := s.callStack.resume a })
      (State.shape { u with callStack := u.callStack.resume b })
  finish {s u : State} (hs : s.Alike K u) (h : ρ s.shape u.shape) :
    ρ s.forceEnd.shape u.forceEnd.shape

/-! ## Shapes -/

namespace State

theorem shape_leaveHostCall (s : State) : s.leaveHostCall.shape = s.shape := by
  unfold State.leaveHostCall
  split
  · rfl
  · rfl

theorem shape_visitsOrWarn (s : State) (t : ContentTree) (id : NodeId) :
    (s.visitsOrWarn t id).2.shape = s.shape := by
  unfold State.visitsOrWarn
  split
  · rfl
  · rfl

theorem shape_turnsSinceOrWarn (s : State) (t : ContentTree) (id : NodeId) :
    (s.turnsSinceOrWarn t id).2.shape = s.shape := by
  unfold State.turnsSinceOrWarn
  split
  · rfl
  · rfl

theorem shape_enter (s : State) (t : ContentTree) (id : NodeId) (atStart : Bool) :
    (s.enter t id atStart).shape = s.shape := by
  obtain ⟨visits, turns, henter⟩ := s.exists_enter_eq t id atStart
  rw [henter]
  rfl

theorem shape_enterByJump (s : State) (t : ContentTree) :
    (s.enterByJump t).shape = s.shape := by
  obtain ⟨visits, turns, henter⟩ := s.exists_enterByJump_eq t
  rw [henter]
  rfl

theorem shape_warnAll (s : State) (t : ContentTree) (messages : List String) :
    (s.warnAll t messages).shape = s.shape := by
  obtain ⟨warnings, heq⟩ := s.exists_warnAll_eq t messages
  rw [heq]
  rfl

theorem shape_jump (s : State) (t : ContentTree) (p : Path) (countTurn : Bool) :
    (s.jump t p countTurn).1.shape = s.shape := by
  unfold State.jump
  dsimp only
  split
  · rfl
  · dsimp only
    split
    · exact shape_warnAll _ _ _
    · exact shape_warnAll _ _ _

end State

theorem map_modify_eq {α β : Type} {f : α → α} {g : α → β} (h : ∀ a, g (f a) = g a) (l : List α)
    (i : Nat) : (l.modify i f).map g = l.map g := by
  refine List.ext_getElem? fun j => ?_
  rw [List.getElem?_map, List.getElem?_map, List.getElem?_modify]
  cases l[j]? with
  | none => rfl
  | some a =>
    show some (g (if i = j then f a else a)) = some (g a)
    split
    · rw [h]
    · rfl

/-- Temporary variables do not belong to the shape. -/
theorem State.shape_putTemporary (s : State) (scope : Int) (name : String) (value : Value) :
    State.shape { s with callStack := s.callStack.putTemporary scope name value } = s.shape := by
  unfold CallStack.putTemporary CallStack.modifyScopeFrame
  split
  · rfl
  · split
    · unfold Thread.modifyFrame
      split
      · rfl
      · split
        · have hbelow := map_modify_eq (g := Frame.outputStart)
            (f := fun f => { f with temporaries := f.temporaries.insert name value })
            (fun _ => rfl) s.callStack.current.below
            (s.callStack.current.below.length - 1 - (scope - 1).toNat)
          unfold State.shape CallStack.top
          rw [List.map_cons, List.map_cons, hbelow]
        · rfl
    · rfl

theorem State.Alike.popFrame {K : Likeness} {s u : State} (h : s.Alike K u) :
    Agree (fun s' u' => s'.Alike K u' ∧ s.popFrame = .ok s' ∧ u.popFrame = .ok u')
      s.popFrame u.popFrame := by
  have hpop := h.callStack.pop
  unfold State.popFrame
  dsimp only
  generalize s.callStack.pop = a at hpop
  generalize u.callStack.pop = b at hpop
  cases hpop with
  | ok hstack => exact .ok ⟨{ h with callStack := hstack }, rfl, rfl⟩
  | error => exact .error _

namespace State

/-- Go on with the thread of a choice, or with a copy of it. -/
def resumed (s : State) (thread : Thread) (copy : Bool) : State :=
  let s := { s with callStack := s.callStack.resume thread }
  if copy then s.resumeCopy else s

theorem shape_resumed (s : State) (thread : Thread) (copy : Bool) :
    (s.resumed thread copy).shape =
      State.shape { s with callStack := s.callStack.resume thread } := by
  unfold resumed
  split
  · rfl
  · rfl

theorem Alike.resumed {K : Likeness} {s u : State} (h : s.Alike K u) {a b : Thread}
    (hab : a.Alike K b) (copy copy' : Bool) :
    (s.resumed a copy).Alike K (u.resumed b copy') := by
  have hstack : ∀ {v : State} (d : Thread) (copy : Bool),
      ∃ index made, (v.resumed d copy) =
        { v with callStack := ⟨{ d with index }, [], made⟩ } := by
    intro v d copy
    unfold State.resumed
    split
    · exact ⟨_, _, rfl⟩
    · exact ⟨_, _, rfl⟩
  obtain ⟨index, made, hs⟩ := hstack (v := s) a copy
  obtain ⟨index', made', hu⟩ := hstack (v := u) b copy'
  rw [hs, hu]
  exact { h with callStack := ⟨⟨hab.top, hab.below, hab.previous⟩, .nil⟩ }

end State

variable {K : Likeness} {κ : Story → Story → Prop} {ρ : Shape → Shape → Prop}

namespace Flow

/-! ## Diverts and returns -/

theorem blind_divertThrough (name : String) : Blind c K κ ρ (divertThrough name) := by
  refine blind_bind (blind_readVariable? name) fun value => ?_
  split
  · exact blind_divertTo _
  · exact blind_throw _
  · exact blind_throw _
  · exact blind_throw _

theorem blind_enterFrame (hρ : Stable K ρ) (k : FrameKind) : Blind c K κ ρ
    (modifyState fun s => { s with callStack := s.callStack.push k 0 s.output.length }) := by
  intro s u hp
  have hstack := hp.state.callStack.push (k := k) 0 fun _ => hρ.mark hp.shapes
  exact .ok ⟨hp.left, hp.right, { hp.state with callStack := hstack },
    hρ.push k hp.state hp.shapes, hp.others⟩

theorem blind_pushFrame (hρ : Stable K ρ) (kind : DivertKind) :
    Blind c K κ ρ (pushFrame kind) := by
  unfold pushFrame
  split
  · exact blind_enterFrame hρ .function
  · exact blind_enterFrame hρ .tunnel
  · exact blind_pure ()

theorem blind_setDiverted (place : Option Cursor) :
    Blind c K κ ρ (modifyState fun s => { s with diverted := place }) :=
  blind_modifyState (fun _ _ h => { h with diverted := rfl }) fun _ => rfl

theorem blind_callKnot (hρ : Stable K ρ) (knot : NodeId) : Blind c K κ ρ (callKnot knot) :=
  blind_bind (blind_enterFrame hρ .function) fun _ => blind_setDiverted (some (.start knot))

theorem blind_takeDivert (hρ : Stable K ρ) (id : NodeId) {d : Divert}
    (hcalls : ∀ name count, d.destination = .path name → d.kind = .external count →
      Blind c K κ ρ (callExternal name.render count)) : Blind c K κ ρ (takeDivert id d) := by
  unfold takeDivert
  split
  · exact blind_bind (blind_divertThrough _) fun _ => blind_pushFrame hρ _
  · next hpath hkind => exact hcalls _ _ hpath hkind
  · refine blind_tree_bind ?_
    split
    · exact blind_bind (blind_setDiverted _) fun _ => blind_pushFrame hρ _
    · exact blind_bind (blind_throw _) fun _ : Unit => blind_pushFrame hρ _

theorem blind_popOverride : Blind c K κ ρ popOverride := by
  refine blind_bind blind_pop fun token => ?_
  split
  · exact blind_pure _
  · exact blind_pure _
  · exact blind_throw _

theorem blind_popFrame (hρ : Stable K ρ) :
    Blind c K κ ρ (tryState fun s => return ((), ← s.popFrame)) := by
  refine blind_tryState fun s u h => ?_
  have hpop := h.popFrame
  generalize hs : s.popFrame = a at hpop
  generalize hu : u.popFrame = b at hpop
  cases hpop with
  | ok hpop => exact .ok ⟨rfl, hpop.1, fun hshapes => hρ.pop h hshapes hs hu⟩
  | error => exact .error _

theorem blind_popThread (hρ : Stable K ρ) : Blind c K κ ρ
    (tryState fun s => return ((), { s with callStack := ← s.callStack.popThread })) := by
  refine blind_tryState fun s u h => ?_
  have hpop := h.callStack.popThread
  generalize hs : s.callStack.popThread = a at hpop
  generalize hu : u.callStack.popThread = b at hpop
  cases hpop with
  | ok hstack => exact .ok ⟨rfl, { h with callStack := hstack },
      fun hshapes => hρ.endThread h hshapes hs hu⟩
  | error => exact .error _

theorem blind_leaveHostCall : Blind c K κ ρ (modifyState State.leaveHostCall) :=
  blind_modifyState (fun _ _ h => h.leaveHostCall) State.shape_leaveHostCall

theorem blind_returnWith (hρ : Stable K ρ) (kind : FrameKind) (override : Option Path) :
    Blind c K κ ρ (returnWith kind override) := by
  refine together_state_bind fun s u h => ?_
  dsimp only
  rw [h.callStack.inHostCall_eq, h.callStack.top.kind, h.callStack.canPop_eq]
  refine blind_ite blind_leaveHostCall (blind_ite (blind_throw _) ?_)
  refine blind_bind (blind_popFrame hρ) fun _ => ?_
  cases override
  · exact blind_pure ()
  · exact blind_divertTo _

theorem blind_performReturn (hρ : Stable K ρ) (kind : FrameKind) :
    Blind c K κ ρ (performReturn kind) := by
  rw [performReturn_eq]
  exact blind_ite (blind_bind blind_popOverride (blind_returnWith hρ kind))
    (blind_bind (blind_pure none) (blind_returnWith hρ kind))

/-! ## Counts and random numbers -/

theorem blind_visitsOf (id : NodeId) : Blind c K κ ρ (visitsOf id) := by
  refine blind_tree_bind (blind_withState (fun s u h => ?_) fun s => s.shape_visitsOrWarn _ _)
  unfold State.visitsOrWarn State.visits?
  rw [h.visits]
  split
  · exact ⟨rfl, h⟩
  · exact ⟨rfl, { h with }⟩

theorem blind_turnsSinceOf (id : NodeId) : Blind c K κ ρ (turnsSinceOf id) := by
  refine blind_tree_bind (blind_withState (fun s u h => ?_) fun s => s.shape_turnsSinceOrWarn _ _)
  unfold State.turnsSinceOrWarn State.turnsSince?
  rw [h.turns, h.turn]
  split
  · exact ⟨rfl, h⟩
  · exact ⟨rfl, { h with }⟩

theorem blind_popCountTarget (command : Command) : Blind c K κ ρ (popCountTarget command) := by
  refine blind_bind blind_pop fun token => ?_
  split
  · exact blind_pure _
  · exact blind_throw _
  · exact blind_throw _

theorem blind_pushCount (command : Command) {count : NodeId → Flow Int}
    (hcount : ∀ id, Blind c K κ ρ (count id)) (unknown : Int) :
    Blind c K κ ρ (pushCount command count unknown) := by
  refine blind_bind (blind_popCountTarget command) fun p => blind_tree_bind ?_
  dsimp only
  split
  · exact blind_bind (hcount _) fun n => blind_pushInt _
  · exact blind_bind (blind_warn _) fun _ => blind_pushInt _

theorem blind_currentContainer (fault : FlowFault) :
    Blind c K κ ρ (currentContainer fault) := by
  refine together_state_bind fun s u h => ?_
  rw [h.cursor_eq]
  split
  · exact blind_pure _
  · exact blind_throw _

theorem blind_nextWord : Blind c K κ ρ nextWord :=
  together_state_bind fun s u h => by
    rw [h.seed, h.drawn]
    exact blind_pure _

theorem blind_pushRandom : Blind c K κ ρ pushRandom :=
  blind_bind (blind_popInt _) fun _ => blind_bind (blind_popInt _) fun _ =>
    blind_unless _ (blind_bind blind_nextWord fun _ => blind_bind (blind_pushInt _) fun _ =>
      blind_modifyState (fun _ _ h => { h with drawn := congrArg (· + 1) h.drawn }) fun _ => rfl)

theorem blind_setSeed : Blind c K κ ρ setSeed :=
  blind_bind (blind_popInt _) fun _ => blind_bind
    (blind_modifyState (fun _ _ h => { h with seed := rfl, drawn := rfl }) fun _ => rfl)
    fun _ => blind_push _

theorem blind_pushShuffled : Blind c K κ ρ pushShuffled := by
  refine blind_bind blind_pop fun token => ?_
  split
  · refine blind_unless _ (blind_bind (blind_currentContainer _) fun id =>
      blind_bind blind_pop fun token => ?_)
    split
    · refine blind_tree_bind (together_state_bind fun s u h => ?_)
      rw [h.seed]
      split
      · exact blind_pushInt _
      · exact blind_throw _
    · exact blind_throw _
  · exact blind_throw _

/-! ## Lists -/

theorem blind_pushListOfRank : Blind c K κ ρ pushListOfRank := by
  refine blind_bind (blind_popInt _) fun rank => blind_bind blind_pop fun token => ?_
  split
  · refine together_get_bind fun s u h => ?_
    rw [h.left, h.right]
    split
    · exact blind_throw _
    · split
      · exact blind_push _
      · exact blind_push _
  · exact blind_throw _

theorem blind_pushListRange : Blind c K κ ρ pushListRange :=
  blind_bind (blind_popValue _) fun _ => blind_bind (blind_popValue _) fun _ =>
    blind_bind (blind_popList _) fun _ => blind_push _

theorem blind_pushListRandom : Blind c K κ ρ pushListRandom := by
  refine blind_bind (blind_popList _) fun list => blind_ite (blind_push _) ?_
  refine blind_bind blind_nextWord fun word => ?_
  split
  · exact blind_bind (blind_modifyState (fun _ _ h => { h with drawn := rfl }) fun _ => rfl)
      fun _ => blind_push _
  · exact blind_push _

/-! ## Commands -/

theorem blind_finish (hρ : Stable K ρ) : Blind c K κ ρ (modifyState State.forceEnd) :=
  together_modifyState (fun _ _ h => h.forceEnd) fun _ _ h hshapes => hρ.finish h hshapes

theorem blind_finishThread (hρ : Stable K ρ) : Blind c K κ ρ finishThread := by
  refine together_state_bind fun s u h => ?_
  rw [h.callStack.canPopThread_eq]
  refine blind_ite (blind_popThread hρ) (blind_modifyState (fun s u h => ?_) fun _ => rfl)
  have hexit : State.Alike K { s with safeExit := true } { u with safeExit := true } :=
    { h with safeExit := K.exit_refl true }
  exact hexit.setCursor none

theorem blind_setInExpression (b : Bool) :
    Blind c K κ ρ (modifyState fun s => s.setInExpression b) :=
  blind_modifyState (fun _ _ h => h.setInExpression b) fun _ => rfl

/-- Commands that put nothing out, and take nothing back. -/
theorem blind_performCommand (hρ : Stable K ρ) {command : Command} (hsilent : ¬ command.PutsOut) :
    Blind c K κ ρ (performCommand command) := by
  cases command with
  | evalStart =>
    refine together_state_bind fun s u h => ?_
    rw [h.inExpression_eq]
    exact blind_unless _ (blind_setInExpression true)
  | evalEnd =>
    refine together_state_bind fun s u h => ?_
    rw [h.inExpression_eq]
    exact blind_unless _ (blind_setInExpression false)
  | duplicate =>
    refine together_state_bind fun s u h => ?_
    rw [h.evaluation]
    split
    · exact blind_push _
    · exact blind_throw _
  | popValue => exact blind_bind blind_pop fun _ => blind_pure ()
  | popFunction => exact blind_performReturn hρ .function
  | popTunnel => exact blind_performReturn hρ .tunnel
  | noOp | startThread => exact blind_pure ()
  | choiceCount =>
    refine together_state_bind fun s u h => ?_
    rw [h.choices.length_eq]
    exact blind_pushInt _
  | turns =>
    refine together_state_bind fun s u h => ?_
    rw [h.turn]
    exact blind_pushInt _
  | turnsSince => exact blind_pushCount _ blind_turnsSinceOf _
  | readCount => exact blind_pushCount _ blind_visitsOf _
  | random => exact blind_pushRandom
  | seedRandom => exact blind_setSeed
  | visitIndex =>
    exact blind_bind (blind_currentContainer _) fun _ => blind_bind (blind_visitsOf _) fun _ =>
      blind_pushInt _
  | shuffleIndex => exact blind_pushShuffled
  | done => exact blind_finishThread hρ
  | finish => exact blind_finish hρ
  | listFromInt => exact blind_pushListOfRank
  | listRange => exact blind_pushListRange
  | listRandom => exact blind_pushListRandom
  | evalOutput | beginString | endString | beginTag | endTag => exact absurd trivial hsilent

/-! ## Variables and operators -/

theorem blind_performAssignment (a : Assignment) : Blind c K κ ρ (performAssignment a) := by
  refine blind_bind blind_pop fun token => ?_
  split
  · next v =>
    refine together_get_bind fun s u h => ?_
    rw [h.left, h.right]
    refine blind_tryState fun s u h => ?_
    have hassign := h.vars.assign h.callStack c.lists a v
    have hshape : ∀ {s : State} {vars stack},
        s.vars.assign c.lists s.callStack a v = .ok (vars, stack) →
          State.shape { s with vars := vars, callStack := stack } = s.shape := by
      intro s vars stack hs
      rcases s.vars.callStack_of_assign hs with rfl | ⟨scope, name, value, rfl, -⟩
      · rfl
      · exact s.shape_putTemporary scope name value
    generalize hs : s.vars.assign c.lists s.callStack a v = x at hassign
    generalize hu : u.vars.assign c.lists u.callStack a v = y at hassign
    cases hassign with
    | error e => exact .error e
    | @ok p q hpq =>
      refine .ok ⟨rfl, { h with vars := hpq.1, callStack := hpq.2 }, fun hshapes => ?_⟩
      rw [hshape hs, hshape hu]
      exact hshapes
  · exact blind_throw _

theorem blind_pushVariable (name : String) : Blind c K κ ρ (pushVariable name) := by
  refine blind_bind (blind_readVariable? name) fun value => ?_
  split
  · exact blind_push _
  · exact blind_bind (blind_warn _) fun _ => blind_pushInt _

theorem blind_pushReadCount (id : NodeId) (p : Path) : Blind c K κ ρ (pushReadCount id p) := by
  refine blind_tree_bind ?_
  split
  · exact blind_bind (blind_visitsOf _) fun _ => blind_pushInt _
  · exact blind_throw _

theorem blind_performOperator (o : Operator) : Blind c K κ ρ (performOperator o) := by
  refine blind_bind (blind_popMany _) fun _ => blind_bind (blind_ofExcept _) fun _ =>
    together_get_bind fun s u h => ?_
  rw [h.left, h.right]
  exact blind_bind (blind_ofExcept _) fun _ => blind_push _

/-- Carrying out an instruction, other than content. -/
theorem blind_execute (hρ : Stable K ρ) (id : NodeId) {i : Instruction}
    (hdivert : ∀ d, i = .divert d → Blind c K κ ρ (performDivert id d))
    (hcommand : ∀ command, i = .command command → command.PutsOut →
      Blind c K κ ρ (performCommand command)) : Blind c K κ ρ (execute id i) := by
  cases i with
  | divert d => exact blind_bind (hdivert d rfl) fun _ => blind_pure true
  | command command =>
    refine blind_bind ?_ fun _ => blind_pure true
    by_cases h : command.PutsOut
    · exact hcommand command rfl h
    · exact blind_performCommand hρ h
  | assign a => exact blind_bind (blind_performAssignment a) fun _ => blind_pure true
  | readVariable name => exact blind_bind (blind_pushVariable name) fun _ => blind_pure true
  | readCount p => exact blind_bind (blind_pushReadCount id p) fun _ => blind_pure true
  | operator o => exact blind_bind (blind_performOperator o) fun _ => blind_pure true
  | value _ | choicePoint _ | tag _ | glue | void => exact blind_pure false

/-! ## Choices -/

theorem blind_popTags : Blind c K κ ρ popTags :=
  blind_withState (fun s u h => by
    dsimp only
    rw [h.evaluation]
    exact ⟨rfl, { h with evaluation := rfl }⟩) fun _ => rfl

theorem blind_popTextIf (present : Bool) : Blind c K κ ρ (popTextIf present) := by
  refine blind_ite (blind_bind blind_pop fun token => ?_) (blind_pure _)
  split
  · exact blind_bind blind_popTags fun _ => blind_pure _
  · exact blind_throw _

theorem blind_popCondition (p : ChoicePoint) : Blind c K κ ρ (popCondition p) :=
  blind_ite (blind_bind blind_pop fun _ => blind_ofExcept _) (blind_pure true)

theorem blind_isTaken (p : ChoicePoint) (target : Option NodeId) :
    Blind c K κ ρ (isTaken p target) := by
  unfold isTaken
  split
  · exact blind_ite (blind_bind (blind_visitsOf _) fun _ => blind_pure _) (blind_pure false)
  · exact blind_pure false

theorem blind_makeOffer (id : NodeId) (p : ChoicePoint) : Blind c K κ ρ (makeOffer id p) := by
  refine blind_bind (blind_popCondition p) fun holds => ?_
  refine blind_bind (blind_popTextIf _) fun only => ?_
  refine blind_bind (blind_popTextIf _) fun start => blind_tree_bind ?_
  refine blind_bind (blind_isTaken p _) fun taken => blind_ite (blind_pure none) ?_
  split
  · exact blind_throw _
  · exact blind_pure _

theorem blind_performChoicePoint (id : NodeId) (p : ChoicePoint) :
    Blind c K κ ρ (performChoicePoint id p) := by
  refine blind_bind (blind_makeOffer id p) fun offer => ?_
  split
  · exact blind_modifyState (fun _ _ h => h.offer _) fun _ => rfl
  · exact blind_pure ()

theorem blind_orFail {f : State → State × Option StoryError}
    (h : ∀ s u : State, s.Alike K u → (f s).1.Alike K (f u).1 ∧ (f s).2 = (f u).2)
    (hf : ∀ s, (f s).1.shape = s.shape) : Blind c K κ ρ (orFail f) := by
  refine blind_bind (blind_withState (fun s u hs => ?_) hf) fun failure => ?_
  · exact ⟨(h s u hs).2, (h s u hs).1⟩
  · split
    · exact blind_throw _
    · exact blind_pure ()

theorem blind_jumpTo (p : Path) (countTurn : Bool) : Blind c K κ ρ (jumpTo p countTurn) := by
  refine blind_tree_bind (blind_bind ?_ fun _ => ?_)
  · exact blind_orFail (fun _ _ h => h.jump p countTurn) fun s => s.shape_jump _ p countTurn
  · exact blind_modifyState (fun _ _ h => h.enterByJump) fun s => s.shape_enterByJump _

/-- Taking an invisible choice. Going on with a copy of its thread differs in nothing but the
number from going on with the thread. -/
theorem followInvisibleChoice_eq (s : Story) : followInvisibleChoice s = match s.state.choices with
    | [] => .ok () s
    | choice :: _ =>
      if s.state.choices.all fun c => c.isInvisible then
        jumpTo choice.target false { s with state := s.state.resumed choice.thread s.lineState.isSome }
      else .ok () s := by
  unfold followInvisibleChoice
  rw [bind_ok (state_ok s)]
  dsimp only
  cases s.state.choices with
  | nil => rfl
  | cons choice rest =>
    dsimp only
    split
    · unfold State.resumed
      rw [bind_ok (show resumeThread choice.thread s = .ok () _ from rfl), bind_ok (get_ok _)]
      cases hkept : s.lineState.isSome with
      | true =>
        rw [if_pos rfl]
        rfl
      | false =>
        rw [if_neg Bool.false_ne_true]
        rfl
    · rfl

theorem blind_followInvisibleChoice (hρ : Stable K ρ) : Blind c K κ ρ followInvisibleChoice := by
  intro s u hp
  have hchoices := hp.state.choices
  have hinvisible : (s.state.choices.all fun c => c.isInvisible) =
      u.state.choices.all fun c => c.isInvisible := by
    generalize s.state.choices = cs at hchoices
    generalize u.state.choices = ds at hchoices
    induction hchoices with
    | nil => rfl
    | cons hab _ ih => rw [List.all_cons, List.all_cons, ih, hab.isInvisible]
  rw [followInvisibleChoice_eq, followInvisibleChoice_eq, hinvisible]
  cases hs : s.state.choices with
  | nil =>
    rw [hs, List.forall₂_nil_left_iff] at hchoices
    rw [hchoices]
    exact .ok hp
  | cons a as =>
    rw [hs] at hchoices
    obtain ⟨b, bs, hab, -, hu⟩ := List.forall₂_cons_left_iff.mp hchoices
    rw [hu]
    dsimp only
    split
    · rw [hab.target]
      refine blind_jumpTo _ false ⟨hp.left, hp.right, hp.state.resumed hab.thread _ _, ?_, hp.others⟩
      show ρ (State.resumed _ _ _).shape (State.resumed _ _ _).shape
      rw [State.shape_resumed, State.shape_resumed]
      exact hρ.resume hp.state hab.thread hp.shapes
    · exact .ok hp

/-! ## Moving on -/

theorem blind_setCursor (place : Option Cursor) :
    Blind c K κ ρ (modifyState fun s => s.setCursor place) :=
  blind_modifyState (fun _ _ h => h.setCursor place) fun _ => rfl

theorem blind_enterContainers (t : ContentTree) (depth : Nat) (place : Cursor) :
    Blind c K κ ρ (enterContainers t depth place) := by
  induction depth generalizing place with
  | zero => exact blind_pure place
  | succ depth ih =>
    unfold enterContainers
    split
    · exact blind_pure place
    · next id _ =>
      refine blind_bind ?_ fun _ => blind_ite (blind_pure place) (ih _)
      exact blind_modifyState (fun _ _ h => h.enter id true) fun s => s.shape_enter t id true

theorem blind_reachLeaf (place : Cursor) : Blind c K κ ρ (reachLeaf place) :=
  blind_tree_bind (blind_bind (blind_enterContainers _ _ place) fun place =>
    blind_bind (blind_setCursor (some place)) fun _ => blind_pure _)

theorem blind_followDivert : Blind c K κ ρ followDivert := by
  refine together_state_bind fun s u h => ?_
  rw [h.diverted]
  split
  · exact blind_pure false
  · next place _ =>
    refine blind_tree_bind (blind_bind (blind_modifyState (fun s u h => ?_) fun s => ?_) fun _ =>
      blind_pure true)
    · have hclear : State.Alike K { s with diverted := none } { u with diverted := none } :=
        { h with diverted := rfl }
      exact (hclear.setCursor (some place)).enterByJump
    · exact State.shape_enterByJump _ _

theorem blind_moveHere : Blind c K κ ρ moveHere := by
  refine blind_bind (blind_modifyState (fun s u h => ?_) fun _ => rfl) fun _ => ?_
  · rw [h.cursor_eq]
    exact h.setPrevious u.cursor
  · refine blind_bind blind_followDivert fun followed => blind_ite (blind_pure true) ?_
    exact blind_tree_bind (blind_withState (fun _ _ h => h.advance) fun _ => rfl)

theorem blind_hasCursor : Blind c K κ ρ (do return (← state).cursor.isSome) :=
  together_state_bind fun s u h => by
    rw [h.cursor_eq]
    exact blind_pure _

theorem blind_leaveFinished (hρ : Stable K ρ) : Blind c K κ ρ leaveFinished := by
  refine together_state_bind fun s u h => ?_
  dsimp only
  rw [h.callStack.canPopKind_eq, h.callStack.canPopThread_eq]
  refine blind_ite (blind_bind (blind_popFrame hρ) fun _ => ?_)
    (blind_ite (blind_bind (blind_popThread hρ) fun _ => blind_hasCursor)
      (blind_bind blind_leaveHostCall fun _ => blind_pure false))
  refine together_state_bind fun s u h => ?_
  rw [h.inExpression_eq]
  exact blind_ite (blind_bind (blind_push .void) fun _ => blind_hasCursor) blind_hasCursor

theorem blind_unwind (hρ : Stable K ρ) (frames : Nat) : Blind c K κ ρ (unwind frames) := by
  induction frames with
  | zero => exact blind_pure ()
  | succ frames ih =>
    refine blind_bind (blind_leaveFinished hρ) fun led => blind_ite ?_ (blind_pure ())
    exact blind_bind blind_moveHere fun moved => blind_ite ih (blind_pure ())

theorem blind_nextContent (hρ : Stable K ρ) : Blind c K κ ρ nextContent := by
  refine blind_bind blind_moveHere fun moved => blind_ite ?_ (blind_pure ())
  refine together_state_bind fun s u h => ?_
  dsimp only
  rw [h.callStack.depths_eq]
  exact blind_unwind hρ _

/-- Moving on behind a leaf. -/
theorem blind_leaveLeaf (hρ : Stable K ρ) (leaf : Option (NodeId × Instruction)) :
    Blind c K κ ρ (leaveLeaf leaf) := by
  refine together_state_bind fun s u h => ?_
  rw [h.cursor_eq]
  refine blind_ite (blind_pure ()) (blind_bind (blind_nextContent hρ) fun _ => ?_)
  split
  · exact together_modifyState (fun _ _ h => { h with callStack := h.callStack.pushThread })
      fun _ _ h hshapes => hρ.startThread h hshapes
  · exact blind_pure ()

/-! ## Carrying out a leaf -/

end Flow

/-- A token with the scope that a reference without one gets where it is put. -/
def State.scoped (s : State) (token : Token) : Token :=
  match token with
  | .value (.reference name scope) =>
    if scope = unknownScope then .value (.reference name (s.callStack.scopeOf name)) else token
  | token => token

theorem State.Alike.scoped_eq {s u : State} (h : s.Alike K u) (token : Token) :
    s.scoped token = u.scoped token := by
  unfold State.scoped
  split
  · rw [h.callStack.scopeOf_eq]
  · rfl

/-- Only references get a scope. -/
theorem State.scoped_cases (s : State) (token : Token) :
    s.scoped token = token ∨ ∃ name scope, s.scoped token = .value (.reference name scope) := by
  unfold State.scoped
  split
  · split
    · exact .inr ⟨_, _, rfl⟩
    · exact .inr ⟨_, _, rfl⟩
  · exact .inl rfl

namespace Flow

/-- Putting a token somewhere, when putting it out is blind. -/
theorem blind_putContent {token : Token}
    (hput : ∀ s : State, Blind c K κ ρ (emit (s.scoped token))) :
    Blind c K κ ρ (putContent token) := by
  refine together_state_bind fun s u h => ?_
  show Together c K κ ρ (if s.inExpression then push (s.scoped token) else emit (s.scoped token))
    (if u.inExpression then push (u.scoped token) else emit (u.scoped token))
  rw [h.scoped_eq, h.inExpression_eq]
  exact blind_ite (blind_push _) (hput u)

/-- A leaf whose instruction is carried out blindly, or put somewhere blindly. -/
theorem blind_executeLeaf {leaf : Option (NodeId × Instruction)}
    (hput : ∀ l ∈ leaf, ∀ token ∈ Token.ofInstruction? l.2, Blind c K κ ρ (putContent token))
    (h : ∀ l ∈ leaf, Blind c K κ ρ (execute l.1 l.2)) : Blind c K κ ρ (executeLeaf leaf) := by
  cases leaf with
  | none => exact blind_pure ()
  | some l =>
    obtain ⟨id, i⟩ := l
    refine blind_bind (h _ rfl) fun carriedOut => together_state_bind fun s u hs => ?_
    rw [hs.cursor_eq]
    refine blind_ite (blind_pure ()) ?_
    split
    · exact blind_performChoicePoint id _
    · refine blind_ite ?_ (blind_pure ())
      split
      · next token htoken => exact hput _ rfl token htoken
      · exact blind_pure ()

end Flow

end StoryMachine
