import StoryMachine.Proofs.Alike.Parts
import StoryMachine.Proofs.Essence.Flows

/-!
# Steps of twins

The parts of a step are put together as the step is, so a step runs in tandem with itself. Nothing
in it looks at what the essences leave out: lists with items are never asked what they remember of
definitions, only functions are asked where their texts begin, and of the place executed before only
the containers that are open there.

* `Flow.steady_performCommand`, `Flow.steady_performDivert`, `Flow.steady_performChoicePoint` : what
  an instruction does;
* `Flow.steady_followInvisibleChoice` : choices that nobody makes;
* `Flow.steady_step` : steps.
-/

open List (Forall₂)

namespace StoryMachine

namespace Flow

variable {c : Content} {running : Bool}

/-! ## Diverts and returns -/

theorem steady_divertTo (p : Path) : Steady c running (divertTo p) := by
  refine tandem_tree_bind (steady_bind (steady_ofExcept _) ?_)
  rintro ⟨place, warning⟩
  refine steady_bind (steady_warnIfSome warning) fun _ => ?_
  exact tandem_modifyState fun _ _ hs => { hs with diverted := rfl }

theorem tandem_readVariable? (name : String) :
    Tandem c running (Option.Rel Value.SameAs) (readVariable? name) (readVariable? name) := by
  refine tandem_get_bind fun s u hs => tandem_pure ?_
  rw [hs.left, hs.right]
  exact hs.state.vars.read? hs.state.callStack c.lists name

theorem steady_divertThrough (name : String) : Steady c running (divertThrough name) := by
  refine tandem_bind (tandem_readVariable? name) fun x y hxy => ?_
  cases hxy with
  | none => exact tandem_throw _
  | some h =>
    cases h with
    | list h =>
      dsimp only
      rw [(Value.SameAs.list h).render_eq]
      exact tandem_throw _
    | refl =>
      split
      · next hvalue =>
        cases hvalue
        exact steady_divertTo _
      · next hvalue =>
        cases hvalue
        exact tandem_throw _
      · next hvalue =>
        cases hvalue
        exact tandem_throw _
      · next hvalue => cases hvalue

theorem steady_enterFrame (k : FrameKind) : Steady c running
    (modifyState fun s => { s with callStack := s.callStack.push k 0 s.output.length }) :=
  tandem_modifyState fun _ _ hs =>
    { hs with callStack := hs.callStack.push k 0 0 hs.length_output_eq }

theorem steady_pushFrame (kind : DivertKind) : Steady c running (pushFrame kind) := by
  unfold pushFrame
  split
  · exact steady_enterFrame .function
  · exact steady_enterFrame .tunnel
  · exact tandem_pure rfl

theorem steady_setDiverted (place : Option Cursor) :
    Steady c running (modifyState fun s => { s with diverted := place }) :=
  tandem_modifyState fun _ _ hs => { hs with diverted := rfl }

theorem steady_callKnot (knot : NodeId) : Steady c running (callKnot knot) :=
  steady_bind (steady_enterFrame .function) fun _ => steady_setDiverted (some (.start knot))

/-- The function answers the same, and the call is counted. -/
theorem tandem_callBound (name : String) {b d : Binding} (h : b.Twin d) {xs ys : List Value}
    (hargs : Forall₂ Value.SameAs xs ys) :
    Tandem c running Eq (callBound name b xs) (callBound name d ys) := by
  have hcalled : Binding.Twin { b with calls := b.calls + 1 } { d with calls := d.calls + 1 } := by
    refine ⟨h.safe, fun later xs ys hargs => ?_⟩
    have hlater := h.answers (later + 1) hargs
    rwa [show b.calls + (later + 1) + 1 = b.calls + 1 + later + 1 by omega,
      show d.calls + (later + 1) + 1 = d.calls + 1 + later + 1 by omega] at hlater
  refine tandem_bind (A := Eq) (tandem_modify fun s u hs => ?_) fun _ _ _ => ?_
  · refine { hs with bindings := fun other => ?_ }
    show Option.Rel Binding.Twin ((s.bindings.insert name _).get? other)
      ((u.bindings.insert name _).get? other)
    by_cases hname : other = name
    · subst hname
      rw [SortedMap.get?_insert_self, SortedMap.get?_insert_self]
      exact .some hcalled
    · rw [SortedMap.get?_insert_of_ne _ _ hname, SortedMap.get?_insert_of_ne _ _ hname]
      exact hs.bindings other
  · have hanswer := h.answers 0 hargs
    rw [Nat.add_zero, Nat.add_zero] at hanswer
    generalize b.function (b.calls + 1) xs = x at hanswer ⊢
    generalize d.function (d.calls + 1) ys = y at hanswer ⊢
    cases hanswer with
    | none => exact steady_push .void
    | some hvw => exact tandem_push (.of_value hvw)

/-- What a call of a function of the host depends on, besides its arguments. -/
theorem Story.Twin.call_eq {s u : Story} (h : s.Twin c running u) (name : String) :
    (s.bindings.get? name).isNone = (u.bindings.get? name).isNone ∧
      (s.bindings.get? name).map Binding.lookaheadSafe =
        (u.bindings.get? name).map Binding.lookaheadSafe := by
  have hbinding := h.bindings name
  generalize s.bindings.get? name = x at hbinding
  generalize u.bindings.get? name = y at hbinding
  cases hbinding with
  | none => exact ⟨rfl, rfl⟩
  | some hbd => exact ⟨rfl, congrArg some hbd.safe⟩

theorem steady_callExternal (name : String) (count : Nat) :
    Steady c true (callExternal name count) := by
  refine tandem_get_bind fun s u hs => ?_
  obtain ⟨hbound, hsafe⟩ := Story.Twin.call_eq hs name
  have htree : s.tree = u.tree := congrArg Content.tree (hs.left.trans hs.right.symm)
  dsimp only
  rw [hbound, hsafe, htree, hs.fallbacks, isSome_eq_of_rel hs.lineState, hs.state.inString_eq]
  split
  · exact steady_callKnot _
  · refine tandem_ite ?_ ?_
    · exact tandem_unless _ (tandem_modify fun _ _ h => { h with met := fun _ => rfl })
    · refine tandem_bind (tandem_popArguments name .nil count) fun xs ys hargs => ?_
      have hbinding := hs.bindings name
      generalize s.bindings.get? name = x at hbinding ⊢
      generalize u.bindings.get? name = y at hbinding ⊢
      cases hbinding with
      | none => exact tandem_modify fun _ _ h => { h with pending := .some ⟨rfl, hargs⟩ }
      | some hbd => exact tandem_callBound name hbd hargs

theorem steady_takeDivert (id : NodeId) (d : Divert) : Steady c true (takeDivert id d) := by
  unfold takeDivert
  split
  · exact steady_bind (steady_divertThrough _) fun _ => steady_pushFrame _
  · exact steady_callExternal _ _
  · refine tandem_tree_bind ?_
    split
    · exact steady_bind (steady_setDiverted _) fun _ => steady_pushFrame _
    · exact steady_bind (tandem_throw _) fun _ : Unit => steady_pushFrame _

theorem steady_performDivert (id : NodeId) (d : Divert) : Steady c true (performDivert id d) := by
  refine tandem_ite (tandem_pop_bind fun a b hab => ?_) (steady_takeDivert id d)
  rw [hab.truth_eq]
  exact steady_bind (steady_ofExcept _) fun _ =>
    tandem_ite (steady_takeDivert id d) (tandem_pure rfl)

theorem steady_popOverride : Steady c running popOverride := by
  refine tandem_pop_cases (fun a => ?_) fun _ _ _ => tandem_throw _
  split
  · exact tandem_pure rfl
  · exact tandem_pure rfl
  · exact tandem_throw _

theorem steady_popFrame :
    Steady c running (tryState fun s => return ((), ← s.popFrame)) :=
  tandem_change fun _ _ hs => hs.popFrame

theorem steady_popThread : Steady c running
    (tryState fun s => return ((), { s with callStack := ← s.callStack.popThread })) :=
  tandem_tryState fun _ _ hs => hs.callStack.popThread.bind fun _ _ hstack =>
    .ok ⟨rfl, { hs with callStack := hstack }⟩

theorem steady_leaveHostCall : Steady c running (modifyState State.leaveHostCall) :=
  tandem_modifyState fun _ _ hs => hs.leaveHostCall

theorem steady_returnWith (kind : FrameKind) (override : Option Path) :
    Steady c running (returnWith kind override) := by
  refine tandem_state_bind fun s u hs => ?_
  dsimp only
  rw [hs.callStack.inHostCall_eq, hs.callStack.kind, hs.callStack.canPop_eq]
  refine tandem_ite steady_leaveHostCall (tandem_ite (tandem_throw _) ?_)
  refine steady_bind steady_popFrame fun _ => ?_
  cases override
  · exact tandem_pure rfl
  · exact steady_divertTo _

theorem steady_performReturn (kind : FrameKind) : Steady c running (performReturn kind) := by
  rw [performReturn_eq]
  exact tandem_ite (steady_bind steady_popOverride (steady_returnWith kind))
    (steady_bind (tandem_pure rfl) (steady_returnWith kind))

/-! ## Counts and random numbers -/

theorem steady_visitsOf (id : NodeId) : Steady c running (visitsOf id) := by
  refine tandem_tree_bind (tandem_withState fun s u hs => ?_)
  unfold State.visitsOrWarn State.visits?
  rw [hs.visits]
  split
  · exact ⟨rfl, hs⟩
  · exact ⟨rfl, hs.withWarnings _ _⟩

theorem steady_turnsSinceOf (id : NodeId) : Steady c running (turnsSinceOf id) := by
  refine tandem_tree_bind (tandem_withState fun s u hs => ?_)
  unfold State.turnsSinceOrWarn State.turnsSince?
  rw [hs.turns, hs.turn]
  split
  · exact ⟨rfl, hs⟩
  · exact ⟨rfl, hs.withWarnings _ _⟩

theorem steady_popCountTarget (command : Command) : Steady c running (popCountTarget command) := by
  refine tandem_pop_cases (fun a => ?_) fun x y h => ?_
  · split
    · exact tandem_pure rfl
    · exact tandem_throw _
    · exact tandem_throw _
  · dsimp only
    rw [(Token.SameAs.list h).render_eq]
    exact tandem_throw _

theorem steady_pushCount (command : Command) {count : NodeId → Flow Int}
    (hcount : ∀ id, Steady c running (count id)) (unknown : Int) :
    Steady c running (pushCount command count unknown) := by
  refine steady_bind (steady_popCountTarget command) fun p => tandem_tree_bind ?_
  dsimp only
  split
  · exact steady_bind (hcount _) fun n => steady_pushInt _
  · exact steady_bind (steady_warn _) fun _ => steady_pushInt _

theorem steady_currentContainer (fault : FlowFault) :
    Steady c running (currentContainer fault) := by
  refine tandem_state_bind fun s u hs => ?_
  rw [hs.cursor_eq]
  split
  · exact tandem_pure rfl
  · exact tandem_throw _

theorem steady_nextWord : Steady c running nextWord :=
  tandem_state_bind fun s u hs => by
    rw [hs.seed, hs.drawn]
    exact tandem_pure rfl

theorem steady_pushRandom : Steady c running pushRandom :=
  steady_bind (steady_popInt _) fun _ => steady_bind (steady_popInt _) fun _ =>
    tandem_unless _ (steady_bind steady_nextWord fun _ => steady_bind (steady_pushInt _) fun _ =>
      tandem_modifyState fun _ _ hs => { hs with drawn := congrArg (· + 1) hs.drawn })

theorem steady_setSeed : Steady c running setSeed :=
  steady_bind (steady_popInt _) fun _ => steady_bind
    (tandem_modifyState fun _ _ hs => { hs with seed := rfl, drawn := rfl })
    fun _ => steady_push _

theorem steady_pushShuffled : Steady c running pushShuffled := by
  refine tandem_pop_cases (fun a => ?_) fun _ _ _ => tandem_throw _
  split
  · refine tandem_unless _ (steady_bind (steady_currentContainer _) fun id =>
      tandem_pop_cases (fun a => ?_) fun _ _ _ => tandem_throw _)
    split
    · refine tandem_tree_bind (tandem_state_bind fun s u hs => ?_)
      rw [hs.seed]
      split
      · exact steady_pushInt _
      · exact tandem_throw _
    · exact tandem_throw _
  · exact tandem_throw _

/-! ## Lists -/

theorem steady_pushListOfRank : Steady c running pushListOfRank := by
  refine steady_bind (steady_popInt _) fun rank => tandem_pop_cases (fun a => ?_) fun x y h => ?_
  · split
    · refine tandem_get_bind fun s u hs => ?_
      rw [hs.left, hs.right]
      split
      · exact tandem_throw _
      · split
        · exact steady_push _
        · exact steady_push _
    · exact tandem_throw _
  · dsimp only
    rw [(Token.SameAs.list h).render_eq]
    exact tandem_throw _

theorem steady_pushListRange : Steady c running pushListRange :=
  tandem_bind (tandem_popValue _) fun _ _ hmost => tandem_bind (tandem_popValue _)
    fun _ _ hleast => tandem_bind (tandem_popList _) fun _ _ hlist => by
      rw [hmost.upperBound_eq, hleast.lowerBound_eq]
      exact tandem_push (.list (hlist.between _ _))

theorem steady_pushListRandom : Steady c running pushListRandom := by
  refine tandem_bind (tandem_popList _) fun x y hxy => ?_
  rw [hxy.isEmpty_eq]
  refine tandem_ite (steady_push _) (steady_bind steady_nextWord fun word => ?_)
  rw [hxy.congr (f := ListValue.descending) fun _ _ _ => rfl,
    hxy.congr (f := ListValue.size) fun _ _ _ => rfl]
  split
  · exact steady_bind (tandem_modifyState fun _ _ hs => { hs with drawn := rfl }) fun _ =>
      steady_push _
  · exact steady_push _

/-! ## Strings and tags -/

theorem tandem_emit {a b : Token} (h : a.SameAs b) : Tandem c running Eq (emit a) (emit b) :=
  tandem_modifyState fun _ _ hs => hs.emit h

theorem steady_emit (token : Token) : Steady c running (emit token) :=
  tandem_emit (.refl token)

theorem steady_setInExpression (value : Bool) :
    Steady c running (modifyState fun s => s.setInExpression value) :=
  tandem_modifyState fun _ _ hs => hs.setInExpression value

theorem steady_beginString : Steady c running beginString := by
  refine steady_bind (steady_emit _) fun _ => tandem_state_bind fun s u hs => ?_
  rw [hs.inExpression_eq]
  exact tandem_unless _ (steady_setInExpression false)

end Flow

namespace Output

/-- Outputs of the same essence are split alike. -/
theorem split_of_essence {o p : Output} (h : o.essence = p.essence) (command : Command) :
    (splitAtCommand command o.newest).1.map Token.essence =
        (splitAtCommand command p.newest).1.map Token.essence ∧
      (splitAtCommand command o.newest).2.map Token.essence =
        (splitAtCommand command p.newest).2.map Token.essence := by
  have hnewest : o.newest.map Token.essence = p.newest.map Token.essence :=
    (congrArg Output.newest h :)
  have hsplit := congrArg (splitAtCommand command) hnewest
  rw [splitAtCommand_essence, splitAtCommand_essence] at hsplit
  exact Prod.mk.inj hsplit

theorem joined_of_essence {ts us : List Token}
    (h : ts.map Token.essence = us.map Token.essence) : joined ts = joined us := by
  rw [← joined_essence, h, joined_essence]

/-- The tag tokens that stay in the output. -/
theorem kept_of_essence {ts us : List Token} (h : ts.map Token.essence = us.map Token.essence) :
    ts.filterMap Flow.tagToken? = us.filterMap Flow.tagToken? := by
  have hkept : ∀ ts : List Token,
      ts.filterMap Flow.tagToken? = (ts.map Token.essence).filterMap Flow.tagToken? := by
    intro ts
    rw [List.filterMap_map]
    refine congrArg (ts.filterMap ·) (funext fun token => ?_)
    cases token <;> rfl
  rw [hkept ts, h, ← hkept]

end Output

namespace Flow

variable {c : Content} {running : Bool}

theorem steady_endString : Steady c running endString := by
  refine tandem_modifyState fun s u hs => ?_
  obtain ⟨hbehind, hfront⟩ := Output.split_of_essence hs.output .beginString
  dsimp only
  rw [Output.kept_of_essence hbehind, Output.joined_of_essence hbehind]
  refine State.Twin.push (State.Twin.setInExpression (hs.withOutput ?_) true) (.refl _)
  unfold Output.essence
  rw [List.map_append, List.map_append, hfront]

theorem steady_endTag : Steady c running endTag := by
  refine tandem_state_bind fun s u hs => ?_
  rw [hs.inString_eq]
  refine tandem_ite ?_ (steady_emit _)
  obtain ⟨hbehind, hfront⟩ := Output.split_of_essence hs.output .beginTag
  have hany : ∀ p : Token → Bool, (∀ token, p token.essence = p token) →
      (Output.splitAtCommand .beginTag s.output.newest).1.any p =
        (Output.splitAtCommand .beginTag u.output.newest).1.any p := by
    intro p hp
    have hmap := congrArg (List.any · p) hbehind
    rwa [List.any_map, List.any_map, show p ∘ Token.essence = p from funext hp] at hmap
  dsimp only
  rw [hany _ fun token => ?_, Output.joined_of_essence hbehind]
  · refine tandem_unless _ (tandem_modifyState fun s' u' hs' => ?_)
    exact State.Twin.push (hs'.withOutput (congrArg Output.mk hfront)) (.refl _)
  · cases token <;> rfl

/-! ## Commands -/

theorem steady_putOut : Steady c running putOut := by
  refine tandem_state_bind fun s u hs => ?_
  rw [isEmpty_eq_of_forall₂ hs.evaluation]
  refine tandem_ite (tandem_pure rfl) (tandem_pop_cases (fun a => ?_) fun x y h => ?_)
  · split
    · exact tandem_pure rfl
    · exact steady_emit _
  · dsimp only
    rw [(Token.SameAs.list h).render_eq]
    exact steady_emit _

theorem steady_finishThread : Steady c running finishThread := by
  refine tandem_state_bind fun s u hs => ?_
  rw [hs.callStack.canPopThread_eq]
  refine tandem_ite steady_popThread (tandem_modifyState fun s u hs => ?_)
  have hexit : State.Twin c.tree running { s with safeExit := true } { u with safeExit := true } :=
    { hs with safeExit := fun _ => rfl }
  exact hexit.setCursor none

/-- Every command does the same to twins. -/
theorem steady_performCommand (command : Command) : Steady c running (performCommand command) := by
  cases command with
  | evalStart =>
    refine tandem_state_bind fun s u hs => ?_
    rw [hs.inExpression_eq]
    exact tandem_unless _ (steady_setInExpression true)
  | evalOutput => exact steady_putOut
  | evalEnd =>
    refine tandem_state_bind fun s u hs => ?_
    rw [hs.inExpression_eq]
    exact tandem_unless _ (steady_setInExpression false)
  | duplicate =>
    refine tandem_state_bind fun s u hs => ?_
    have hevaluation := hs.evaluation
    generalize s.evaluation = xs at hevaluation ⊢
    generalize u.evaluation = ys at hevaluation ⊢
    cases hevaluation with
    | nil => exact tandem_throw _
    | cons hab _ => exact tandem_push hab
  | popValue => exact tandem_pop_bind fun _ _ _ => tandem_pure rfl
  | popFunction => exact steady_performReturn .function
  | popTunnel => exact steady_performReturn .tunnel
  | beginString => exact steady_beginString
  | endString => exact steady_endString
  | noOp | startThread => exact tandem_pure rfl
  | choiceCount =>
    refine tandem_state_bind fun s u hs => ?_
    rw [hs.choices.length_eq]
    exact steady_pushInt _
  | turns =>
    refine tandem_state_bind fun s u hs => ?_
    rw [hs.turn]
    exact steady_pushInt _
  | turnsSince => exact steady_pushCount _ steady_turnsSinceOf _
  | readCount => exact steady_pushCount _ steady_visitsOf _
  | random => exact steady_pushRandom
  | seedRandom => exact steady_setSeed
  | visitIndex =>
    exact steady_bind (steady_currentContainer _) fun _ => steady_bind (steady_visitsOf _) fun _ =>
      steady_pushInt _
  | shuffleIndex => exact steady_pushShuffled
  | done => exact steady_finishThread
  | finish => exact tandem_modifyState fun _ _ hs => hs.forceEnd
  | listFromInt => exact steady_pushListOfRank
  | listRange => exact steady_pushListRange
  | listRandom => exact steady_pushListRandom
  | beginTag => exact steady_emit _
  | endTag => exact steady_endTag

/-! ## Variables and operators -/

theorem tandem_assignValue (a : Assignment) {v w : Value} (h : v.SameAs w) :
    Tandem c running Eq
      (do
        let lists := (← get).content.lists
        tryState fun s => do
          let (vars, callStack) ← s.vars.assign lists s.callStack a v
          return ((), { s with vars, callStack }))
      (do
        let lists := (← get).content.lists
        tryState fun s => do
          let (vars, callStack) ← s.vars.assign lists s.callStack a w
          return ((), { s with vars, callStack })) := by
  refine tandem_get_bind fun s u hs => ?_
  rw [hs.left, hs.right]
  refine tandem_tryState fun s u hs => ?_
  exact (hs.vars.assign hs.callStack c.lists a h).bind fun _ _ hassigned =>
    .ok ⟨rfl, { hs with vars := hassigned.1, callStack := hassigned.2 }⟩

theorem steady_performAssignment (a : Assignment) : Steady c running (performAssignment a) := by
  refine tandem_pop_cases (fun token => ?_) fun _ _ h => tandem_assignValue a (.list h)
  split
  · exact tandem_assignValue a (.refl _)
  · exact tandem_throw _

theorem steady_pushVariable (name : String) : Steady c running (pushVariable name) := by
  refine tandem_bind (tandem_readVariable? name) fun x y hxy => ?_
  cases hxy with
  | some h => exact tandem_push (.of_value h)
  | none => exact steady_bind (steady_warn _) fun _ => steady_pushInt _

theorem steady_pushReadCount (id : NodeId) (p : Path) : Steady c running (pushReadCount id p) := by
  refine tandem_tree_bind ?_
  split
  · exact steady_bind (steady_visitsOf _) fun _ => steady_pushInt _
  · exact tandem_throw _

theorem steady_performOperator (o : Operator) : Steady c running (performOperator o) := by
  refine tandem_bind (tandem_popMany _) fun as bs hab => ?_
  refine tandem_bind (tandem_ofExcept (Token.agree_operands o hab)) fun vs ws hvw => ?_
  refine tandem_get_bind fun s u hs => ?_
  rw [hs.left, hs.right]
  exact tandem_bind (tandem_ofExcept (o.agree_apply hvw)) fun _ _ h => tandem_push (.of_value h)

/-- Every instruction does the same to twins. -/
theorem steady_execute (id : NodeId) (i : Instruction) : Steady c true (execute id i) := by
  have hdone : ∀ {x : Flow Unit}, Steady c true x →
      Steady c true (do x; return true) :=
    fun h => steady_bind h fun _ => tandem_pure rfl
  cases i with
  | divert d => exact hdone (steady_performDivert id d)
  | command command => exact hdone (steady_performCommand command)
  | assign a => exact hdone (steady_performAssignment a)
  | readVariable name => exact hdone (steady_pushVariable name)
  | readCount p => exact hdone (steady_pushReadCount id p)
  | operator o => exact hdone (steady_performOperator o)
  | value _ | choicePoint _ | tag _ | glue | void => exact tandem_pure rfl

/-! ## Choices -/

/-- Tags are no lists, so the same tags are popped. -/
theorem steady_popTags : Steady c running popTags := by
  refine tandem_withState fun s u hs => ?_
  have hpopped : ∀ tag? : Token → Option String, (∀ token, tag? token.essence = tag? token) →
      (s.evaluation.takeWhile fun token => (tag? token).isSome).filterMap tag? =
        (u.evaluation.takeWhile fun token => (tag? token).isSome).filterMap tag? := by
    intro tag? htag
    have hsame := hs.evaluation
    generalize s.evaluation = xs at hsame
    generalize u.evaluation = ys at hsame
    induction hsame with
    | nil => rfl
    | @cons a b _ _ hab _ ih =>
      have hcase : tag? a = tag? b := by
        rw [← htag a, ← htag b, Token.essence_eq_iff.mpr hab]
      rw [List.takeWhile_cons, List.takeWhile_cons, hcase]
      split
      · rw [List.filterMap_cons, List.filterMap_cons, hcase, ih]
      · rfl
  dsimp only
  rw [hpopped _ fun token => ?_]
  · exact ⟨rfl, { hs with evaluation := List.forall₂_drop _ hs.evaluation }⟩
  · cases token <;> rfl

theorem steady_popTextIf (present : Bool) : Steady c running (popTextIf present) := by
  refine tandem_ite (tandem_pop_cases (fun token => ?_) fun x y h => ?_) (tandem_pure rfl)
  · split
    · exact steady_bind steady_popTags fun _ => tandem_pure rfl
    · exact tandem_throw _
  · dsimp only
    rw [(Token.SameAs.list h).render_eq]
    exact tandem_throw _

theorem steady_popCondition (p : ChoicePoint) : Steady c running (popCondition p) := by
  refine tandem_ite (tandem_pop_bind fun a b hab => ?_) (tandem_pure rfl)
  rw [hab.truth_eq]
  exact steady_ofExcept _

theorem steady_isTaken (p : ChoicePoint) (target : Option NodeId) :
    Steady c running (isTaken p target) := by
  unfold isTaken
  split
  · exact tandem_ite (steady_bind (steady_visitsOf _) fun _ => tandem_pure rfl) (tandem_pure rfl)
  · exact tandem_pure rfl

theorem steady_makeOffer (id : NodeId) (p : ChoicePoint) :
    Steady c running (makeOffer id p) := by
  refine steady_bind (steady_popCondition p) fun holds => ?_
  refine steady_bind (steady_popTextIf _) fun only => ?_
  refine steady_bind (steady_popTextIf _) fun start => tandem_tree_bind ?_
  refine steady_bind (steady_isTaken p _) fun taken => tandem_ite (tandem_pure rfl) ?_
  split
  · exact tandem_throw _
  · exact tandem_pure rfl

/-- A choice point offers the same to twins. -/
theorem steady_performChoicePoint (id : NodeId) (p : ChoicePoint) :
    Steady c running (performChoicePoint id p) := by
  refine steady_bind (steady_makeOffer id p) fun offer => ?_
  split
  · exact tandem_modifyState fun _ _ hs => hs.offer _
  · exact tandem_pure rfl

theorem steady_orFail {f : State → State × Option StoryError}
    (h : ∀ s u : State, s.Twin c.tree running u →
      (f s).1.Twin c.tree running (f u).1 ∧ (f s).2 = (f u).2) :
    Steady c running (orFail f) := by
  refine steady_bind (tandem_withState fun s u hs => ⟨(h s u hs).2, (h s u hs).1⟩) fun failure => ?_
  split
  · exact tandem_throw _
  · exact tandem_pure rfl

theorem steady_jumpTo (p : Path) (countTurn : Bool) : Steady c running (jumpTo p countTurn) :=
  tandem_tree_bind (steady_bind (steady_orFail fun _ _ hs => hs.jump p countTurn) fun _ =>
    tandem_modifyState fun _ _ hs => hs.enterByJump)

theorem tandem_resumeThread {a b : Thread} (h : a.essence c.tree = b.essence c.tree) :
    Tandem c running Eq (resumeThread a) (resumeThread b) :=
  tandem_modifyState fun _ _ hs => hs.resume h

/-- The same invisible choice is taken. -/
theorem steady_followInvisibleChoice : Steady c running followInvisibleChoice := by
  refine tandem_state_bind fun s u hs => ?_
  have hchoices := hs.choices
  have hinvisible : (s.choices.all fun c => c.isInvisible) =
      u.choices.all fun c => c.isInvisible := by
    have hall := congrArg (List.all · fun o => o.isInvisible) (Choice.Twin.offers_eq hchoices)
    rwa [List.all_map, List.all_map] at hall
  dsimp only
  rw [hinvisible]
  generalize s.choices = cs at hchoices ⊢
  generalize u.choices = ds at hchoices ⊢
  cases hchoices with
  | nil => exact tandem_pure rfl
  | cons hab _ =>
    refine tandem_ite (tandem_bind (tandem_resumeThread hab.thread) fun _ _ _ => ?_)
      (tandem_pure rfl)
    refine tandem_get_bind fun s u hs => ?_
    rw [isSome_eq_of_rel hs.lineState, (congrArg Offer.target hab.offer :)]
    refine tandem_ite (tandem_bind (tandem_modifyState fun _ _ hs => hs.resumeCopy) fun _ _ _ => ?_) ?_
    · exact steady_jumpTo _ _
    · exact steady_jumpTo _ _

/-! ## Moving on -/

theorem steady_setCursor (place : Option Cursor) :
    Steady c running (modifyState fun s => s.setCursor place) :=
  tandem_modifyState fun _ _ hs => hs.setCursor place

theorem steady_enterContainers (depth : Nat) (place : Cursor) :
    Steady c running (enterContainers c.tree depth place) := by
  induction depth generalizing place with
  | zero => exact tandem_pure rfl
  | succ depth ih =>
    unfold enterContainers
    split
    · exact tandem_pure rfl
    · next id _ =>
      refine steady_bind (tandem_modifyState fun _ _ hs => hs.enter id true) fun _ => ?_
      exact tandem_ite (tandem_pure rfl) (ih _)

theorem steady_reachLeaf (place : Cursor) : Steady c running (reachLeaf place) :=
  tandem_tree_bind (steady_bind (steady_enterContainers _ place) fun place =>
    steady_bind (steady_setCursor (some place)) fun _ => tandem_pure rfl)

theorem steady_followDivert : Steady c running followDivert := by
  refine tandem_state_bind fun s u hs => ?_
  rw [hs.diverted]
  split
  · exact tandem_pure rfl
  · next place _ =>
    refine tandem_tree_bind (steady_bind (tandem_modifyState fun s u hs => ?_) fun _ =>
      tandem_pure rfl)
    have hclear : State.Twin c.tree running { s with diverted := none }
        { u with diverted := none } := { hs with diverted := rfl }
    exact (hclear.setCursor (some place)).enterByJump

theorem steady_moveHere : Steady c running moveHere := by
  refine steady_bind (tandem_modifyState fun s u hs => ?_) fun _ => ?_
  · rw [hs.cursor_eq]
    exact hs.setPrevious u.cursor
  · refine steady_bind steady_followDivert fun followed => tandem_ite (tandem_pure rfl) ?_
    exact tandem_tree_bind (tandem_withState fun _ _ hs => hs.advance)

theorem steady_hasCursor : Steady c running (do return (← state).cursor.isSome) :=
  tandem_state_bind fun s u hs => by
    rw [hs.cursor_eq]
    exact tandem_pure rfl

theorem steady_leaveFinished : Steady c running leaveFinished := by
  refine tandem_state_bind fun s u hs => ?_
  dsimp only
  rw [hs.callStack.canPopKind_eq, hs.callStack.canPopThread_eq]
  refine tandem_ite (steady_bind steady_popFrame fun _ => ?_)
    (tandem_ite (steady_bind steady_popThread fun _ => steady_hasCursor)
      (steady_bind steady_leaveHostCall fun _ => tandem_pure rfl))
  refine tandem_state_bind fun s u hs => ?_
  rw [hs.inExpression_eq]
  exact tandem_ite (steady_bind (steady_push .void) fun _ => steady_hasCursor) steady_hasCursor

theorem steady_unwind (frames : Nat) : Steady c running (unwind frames) := by
  induction frames with
  | zero => exact tandem_pure rfl
  | succ frames ih =>
    refine steady_bind steady_leaveFinished fun led => tandem_ite ?_ (tandem_pure rfl)
    exact steady_bind steady_moveHere fun moved => tandem_ite ih (tandem_pure rfl)

theorem steady_nextContent : Steady c running nextContent := by
  refine steady_bind steady_moveHere fun moved => tandem_ite ?_ (tandem_pure rfl)
  refine tandem_state_bind fun s u hs => ?_
  dsimp only
  rw [hs.callStack.depths_eq]
  exact steady_unwind _

theorem steady_leaveLeaf (leaf : Option (NodeId × Instruction)) :
    Steady c running (leaveLeaf leaf) := by
  refine tandem_state_bind fun s u hs => ?_
  rw [hs.cursor_eq]
  refine tandem_ite (tandem_pure rfl) (steady_bind steady_nextContent fun _ => ?_)
  split
  · exact tandem_modifyState fun _ _ hs => { hs with callStack := hs.callStack.pushThread }
  · exact tandem_pure rfl

/-! ## Carrying out a leaf -/

theorem steady_putContent (token : Token) : Steady c running (putContent token) := by
  refine tandem_state_bind fun s u hs => ?_
  have hscoped : s.scoped token = u.scoped token := by
    unfold State.scoped
    split
    · rw [hs.callStack.scopeOf_eq]
    · rfl
  show Tandem c running Eq (if s.inExpression then push (s.scoped token) else emit (s.scoped token))
    (if u.inExpression then push (u.scoped token) else emit (u.scoped token))
  rw [hscoped, hs.inExpression_eq]
  exact tandem_ite (steady_push _) (steady_emit _)

theorem steady_executeLeaf (leaf : Option (NodeId × Instruction)) :
    Steady c true (executeLeaf leaf) := by
  cases leaf with
  | none => exact tandem_pure rfl
  | some l =>
    obtain ⟨id, i⟩ := l
    refine steady_bind (steady_execute id i) fun carriedOut => tandem_state_bind fun s u hs => ?_
    rw [hs.cursor_eq]
    refine tandem_ite (tandem_pure rfl) ?_
    split
    · exact steady_performChoicePoint id _
    · refine tandem_ite ?_ (tandem_pure rfl)
      split
      · exact steady_putContent _
      · exact tandem_pure rfl

/-- A step does the same to twins. -/
theorem steady_step : Steady c true step := by
  refine tandem_state_bind fun s u hs => ?_
  rw [hs.cursor_eq]
  split
  · exact tandem_pure rfl
  · exact steady_bind (steady_reachLeaf _) fun leaf =>
      steady_bind (steady_executeLeaf leaf) fun _ => steady_leaveLeaf leaf

end Flow

end StoryMachine
