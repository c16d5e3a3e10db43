import StoryMachine.Proofs.Alike.Answering

/-!
# Hosts of stories that stand beside each other

Besides continuing, a host may do the same to both stories: choose, jump, set variables, observe
them, bind other functions, give answers to calls of other functions, and so on. Afterwards the
stories stand beside each other again.

* `Story.IdleParts` : what is the same between lines;
* `Story.SideBySide.whenIdle` : calls that are refused while a line is in progress;
* `HostCall.Common` : the calls that both hosts may make;
* `Story.SideBySide.after_call` : such a call.
-/

open List (Forall₂)

namespace StoryMachine

namespace Story

/-- What is the same of the stories, besides the states, while no line is in progress. -/
structure IdleParts (name : String) (f : HostFunction) (answered : List (List Value))
    (d s : Story) : Prop extends HostParts name f answered d s where
  closed : d.lineOpen = false
  closed' : s.lineOpen = false

/-- The stories are beside each other, and no line is in progress. -/
abbrev Resting (c : Content) (name : String) (f : HostFunction) (answered : List (List Value)) :
    Story → Story → Prop :=
  Paired c .equal (IdleParts name f answered) SameOutput

variable {c : Content} {name : String} {f : HostFunction} {answered : List (List Value)}
  {d s : Story}

theorem SideBySide.resting (h : SideBySide c name f answered d s) (hopen : d.lineOpen = false) :
    Resting c name f answered d s :=
  ⟨h.beside.left, h.beside.right, h.beside.state, h.beside.shapes,
    ⟨h.beside.others, hopen, h.lineOpen.symm.trans hopen⟩⟩

theorem Resting.sideBySide (h : Resting c name f answered d s) :
    SideBySide c name f answered d s := by
  have hopen : d.lineOpen = false := h.others.closed
  refine ⟨⟨h.left, h.right, h.state, h.shapes, h.others.toHostParts⟩,
    hopen.trans (Eq.symm h.others.closed'), fun hline => ?_⟩
  rw [hopen] at hline
  cases hline

theorem Resting.parts (h : Resting c name f answered d s) : IdleParts name f answered d s :=
  { h.others with }

/-- Only the state and the host's parts count. -/
theorem Resting.of_parts {d' s' : Story} (h : Resting c name f answered d s)
    (hd : d'.content = d.content) (hs : s'.content = s.content)
    (hstate : SameState d'.state s'.state) (hparts : IdleParts name f answered d' s') :
    Resting c name f answered d' s' where
  left := hd.trans h.left
  right := hs.trans h.right
  state := hstate.state
  shapes := hstate.output
  others := { hparts with }

theorem busy?_eq_none {a : Activity} :
    s.busy? a = none ↔ s.pending = none ∧ s.lineOpen = false := by
  unfold busy?
  cases s.pending with
  | some call => simp
  | none => cases s.lineOpen <;> simp

end Story

namespace Flow

variable {α : Type} {c : Content} {name : String} {f : HostFunction}
  {answered : List (List Value)}

/-- A computation between lines that keeps the stories beside each other. -/
abbrev Shared (c : Content) (name : String) (f : HostFunction) (answered : List (List Value))
    (x : Flow α) : Prop :=
  Blind c .equal (Story.IdleParts name f answered) SameOutput x

theorem busy?_eq {d s : Story} (hpending : d.pending = s.pending) (hopen : d.lineOpen = s.lineOpen)
    (a : Activity) : d.busy? a = s.busy? a := by
  unfold Story.busy?
  rw [hpending, hopen]

theorem shared_whenIdle (a : Activity) : Shared c name f answered (whenIdle a) := by
  intro d s h
  have hparts := Story.Resting.parts h
  rw [whenIdle_run, whenIdle_run,
    busy?_eq hparts.pending (hparts.closed.trans hparts.closed'.symm)]
  cases s.busy? a with
  | some e => exact .error h
  | none => exact .ok h

theorem resting_after {x y : Flow α} {d s : Story}
    (hxy : Together c .equal (Story.IdleParts name f answered) SameOutput x y)
    (h : Story.Resting c name f answered d s) :
    Story.Resting c name f answered (x.after d) (y.after s) := by
  rcases (hxy h).cases with ⟨_, d', s', hd, hs, h'⟩ | ⟨_, d', s', hd, hs, h'⟩
  · rwa [after_of_ok hd, after_of_ok hs]
  · rwa [after_of_error hd, after_of_error hs]

/-- What has to wait for the end of a line is refused in both stories, or done in both. -/
theorem sideBySide_whenIdle {a : Activity} {k l : Unit → Flow α} {d s : Story}
    (hkl : d.pending = none → Story.Resting c name f answered d s →
      Story.SideBySide c name f answered ((k ()).after d) ((l ()).after s))
    (h : d.SideBySide c name f answered s) :
    Story.SideBySide c name f answered ((whenIdle a >>= k).after d)
      ((whenIdle a >>= l).after s) := by
  have hbusy := busy?_eq h.beside.parts.pending h.lineOpen a
  have hrun : ∀ (v : Story) (k : Unit → Flow α), (whenIdle a >>= k).after v =
      if v.busy? a = none then (k ()).after v else v := by
    intro v k
    have hwhen := whenIdle_run a v
    cases hcase : v.busy? a with
    | some e =>
      rw [hcase] at hwhen
      exact after_of_error (bind_error hwhen)
    | none =>
      rw [hcase] at hwhen
      exact after_bind_ok hwhen
  rw [hrun, hrun, hbusy]
  split
  · next hidle =>
    obtain ⟨hpending, hopen⟩ := Story.busy?_eq_none.mp (hbusy.trans hidle)
    exact hkl hpending (h.resting hopen)
  · exact h

theorem sideBySide_of_resting {a : Activity} {k l : Unit → Flow α} {d s : Story}
    (hkl : Together c .equal (Story.IdleParts name f answered) SameOutput (k ()) (l ()))
    (h : d.SideBySide c name f answered s) :
    Story.SideBySide c name f answered ((whenIdle a >>= k).after d)
      ((whenIdle a >>= l).after s) :=
  sideBySide_whenIdle (fun _ hresting => Story.Resting.sideBySide (resting_after hkl hresting)) h

/-! ## Choosing and jumping -/

theorem mapIdx_rel {α β : Type} {R : α → β → Prop} {S : α → β → Prop} {l : List α} {m : List β}
    (h : Forall₂ R l m) {g : Nat → α → α} {g' : Nat → β → β}
    (hg : ∀ i a b, R a b → S (g i a) (g' i b)) :
    Forall₂ S (l.mapIdx g) (m.mapIdx g') := by
  induction h generalizing g g' with
  | nil => exact .nil
  | cons hab _ ih =>
    rw [List.mapIdx_cons, List.mapIdx_cons]
    exact .cons (hg 0 _ _ hab) (ih fun i a b hab => hg (i + 1) a b hab)

/-- The visible choices are alike. -/
theorem visibleChoices_alike {d s : Story} (h : d.state.Alike .equal s.state) :
    Forall₂ (Choice.Alike .equal) d.visibleChoices s.visibleChoices := by
  have hvisible : Forall₂ (Choice.Alike .equal) (d.state.choices.filter fun c => !c.isInvisible)
      (s.state.choices.filter fun c => !c.isInvisible) := by
    have hchoices := h.choices
    generalize d.state.choices = as at hchoices
    generalize s.state.choices = bs at hchoices
    induction hchoices with
    | nil => exact .nil
    | cons hab _ ih =>
      rw [List.filter_cons, List.filter_cons, hab.isInvisible]
      split
      · exact .cons hab ih
      · exact ih
  unfold Story.visibleChoices
  rw [h.canContinue_eq]
  split
  · exact .nil
  · exact mapIdx_rel hvisible fun i a b hab =>
      ⟨congrArg (fun o : Offer => { o with index := i }) hab.offer, hab.thread⟩

theorem shared_resume {a b : Thread} (h : a.Alike .equal b) :
    Together c .equal (Story.IdleParts name f answered) SameOutput (resumeThread a)
      (resumeThread b) :=
  together_modifyState (fun _ _ hs => { hs with callStack := CallStack.alike_resume h _ _ })
    fun _ _ _ houtput => houtput

theorem shared_choose (index : Nat) : Shared c name f answered (do
    let choices := (← get).visibleChoices
    match choices[index]? with
    | none => throw (.flow (.choiceRange index choices.length))
    | some choice =>
      resumeThread choice.thread
      jumpTo choice.target true) := by
  refine together_get_bind fun d s h => ?_
  have hchoices := visibleChoices_alike h.state
  have hchoice := rel_getElem? hchoices index
  dsimp only
  rw [hchoices.length_eq]
  generalize d.visibleChoices[index]? = a at hchoice
  generalize s.visibleChoices[index]? = b at hchoice
  cases hchoice with
  | none => exact blind_throw _
  | some hab =>
    dsimp only
    rw [hab.target]
    exact together_bind (shared_resume hab.thread) fun _ => blind_jumpTo _ true

theorem shared_refuseInFunction (path : String) :
    Shared c name f answered (refuseInFunction path) := by
  refine blind_tree_bind (together_state_bind fun s u h => ?_)
  dsimp only
  rw [h.callStack.top.kind, h.callStack.top.cursor, h.callStack.trace_eq]
  refine blind_ite ?_ (blind_pure ())
  exact blind_throw _

theorem pushArguments_alike (arguments : List Value) {s u : State} (h : s.Alike .equal u) :
    (s.pushArguments arguments).1.Alike .equal (u.pushArguments arguments).1 ∧
      (s.pushArguments arguments).2 = (u.pushArguments arguments).2 := by
  induction arguments generalizing s u with
  | nil => exact ⟨h, rfl⟩
  | cons v rest ih =>
    cases v with
    | target p => exact ⟨h, rfl⟩
    | reference name scope => exact ⟨h, rfl⟩
    | _ => exact ih (h.push _)

theorem shape_pushArguments (arguments : List Value) (s : State) :
    (s.pushArguments arguments).1.shape = s.shape := by
  induction arguments generalizing s with
  | nil => rfl
  | cons v rest ih =>
    cases v with
    | target p => rfl
    | reference name scope => rfl
    | _ => exact ih _

theorem shared_pushArguments (arguments : List Value) :
    Shared c name f answered (orFail fun s => s.pushArguments arguments) :=
  blind_orFail (fun _ _ h => pushArguments_alike arguments h) fun s => shape_pushArguments arguments s

theorem shared_choosePath (path : String) (reset : Bool) (arguments : List Value) :
    Shared c name f answered (do
      if reset then resetCallStack else refuseInFunction path
      orFail fun s => s.pushArguments arguments
      jumpTo (Path.parse path) true) := by
  have hrest : Shared c name f answered (do
      orFail fun s => s.pushArguments arguments
      jumpTo (Path.parse path) true) :=
    blind_bind (shared_pushArguments arguments) fun _ => blind_jumpTo _ true
  refine blind_ite (blind_bind ?_ fun _ => hrest) (blind_bind (shared_refuseInFunction path)
    fun _ => hrest)
  exact blind_bind (shared_whenIdle _) fun _ => blind_finish stable_sameOutput

/-! ## Observing, and other functions -/

theorem shared_modify {g : Story → Story}
    (hg : ∀ v : Story, (g v).content = v.content ∧ (g v).state = v.state)
    (hparts : ∀ d s, Story.IdleParts name f answered d s →
      Story.IdleParts name f answered (g d) (g s)) : Shared c name f answered (modify g) := by
  refine fun d s h => .ok (Story.Resting.of_parts h (hg d).1 (hg s).1 ?_
    (hparts d s (Story.Resting.parts h)))
  rw [(hg d).2, (hg s).2]
  exact ⟨h.state, h.shapes⟩

theorem shared_observe (global observer : String) : Shared c name f answered (do
    if !(← state).vars.declares global then throw (.request (.unobservable global))
    modify fun s =>
      let present := (s.observers.get? global).getD []
      { s with observers := s.observers.insert global (present ++ [observer]) }) := by
  refine together_state_bind fun d s h => ?_
  rw [h.vars.declares_eq]
  exact blind_unless _ (shared_modify (fun _ => ⟨rfl, rfl⟩) fun _ _ hparts => { hparts with })

theorem shared_bind {other : String} (hother : other ≠ name) (g : HostFunction) (safe : Bool) :
    Shared c name f answered (do
      if (← get).bindings.contains other then throw (.request (.alreadyBound other))
      modify fun s => { s with bindings := s.bindings.insert other ⟨g, 0, safe⟩ }) := by
  refine together_get_bind fun d s h => ?_
  have hbound := (Story.Resting.parts h).bindings other hother
  unfold SortedMap.contains
  rw [hbound]
  refine blind_unless _ (shared_modify (fun _ => ⟨rfl, rfl⟩) fun d s hparts => { hparts with
    bound := (SortedMap.get?_insert_of_ne _ _ hother.symm).trans hparts.bound
    unbound := (SortedMap.get?_insert_of_ne _ _ hother.symm).trans hparts.unbound
    bindings := fun third hthird => ?_ })
  by_cases heq : third = other
  · subst heq
    exact (SortedMap.get?_insert_self _ _ _).trans (SortedMap.get?_insert_self _ _ _).symm
  · exact (SortedMap.get?_insert_of_ne _ _ heq).trans
      ((hparts.bindings third hthird).trans (SortedMap.get?_insert_of_ne _ _ heq).symm)

theorem shared_unbind {other : String} (hother : other ≠ name) :
    Shared c name f answered (do
      if !(← get).bindings.contains other then throw (.request (.notBound other))
      modify fun s => { s with bindings := s.bindings.erase other }) := by
  refine together_get_bind fun d s h => ?_
  have hbound := (Story.Resting.parts h).bindings other hother
  unfold SortedMap.contains
  rw [hbound]
  refine blind_unless _ (shared_modify (fun _ => ⟨rfl, rfl⟩) fun d s hparts => { hparts with
    bound := (SortedMap.get?_erase_of_ne _ hother.symm).trans hparts.bound
    unbound := (SortedMap.get?_erase_of_ne _ hother.symm).trans hparts.unbound
    bindings := fun third hthird => ?_ })
  by_cases heq : third = other
  · subst heq
    exact (SortedMap.get?_erase_self _ _).trans (SortedMap.get?_erase_self _ _).symm
  · exact (SortedMap.get?_erase_of_ne _ heq).trans
      ((hparts.bindings third hthird).trans (SortedMap.get?_erase_of_ne _ heq).symm)

/-! ## Saved states and snapshots -/

theorem agree_bind {α β γ : Type} {A : β → γ → Prop} (x : Except StoryError α)
    {k : α → Except StoryError β} {l : α → Except StoryError γ}
    (h : ∀ a, Agree A (k a) (l a)) : Agree A (x >>= k) (x >>= l) := by
  cases x with
  | error e => exact .error e
  | ok a => exact h a

/-- Saved values are read over the same defaults. -/
theorem agree_variables {v w : Variables} (h : v.Alike w) (j : Json) :
    Agree Variables.Alike (v.ofJson j) (w.ofJson j) := by
  unfold Variables.ofJson
  rw [h.defaults]
  exact agree_bind _ fun globals => .ok ⟨rfl, rfl⟩

/-- Reading a saved state over states that are alike. What is read does not depend on them, but
for the defaults of the variables and the messages. -/
theorem agree_ofFields {s u : State} (h : s.Alike .equal u) (t : ContentTree) (j : Json) :
    Agree Story.SameState (s.ofFields t j) (u.ofFields t j) := by
  have hread : ∀ (v w : State) (messages : List String), v.Alike .equal w → v.output = w.output →
      Agree Story.SameState (pure (v.warnAll t messages)) (pure (w.warnAll t messages)) :=
    fun v w messages hvw houtput => .ok ⟨hvw.warnAll messages, by
      have hshape := congrArg Shape.output (State.shape_warnAll v t messages)
      have hshape' := congrArg Shape.output (State.shape_warnAll w t messages)
      exact hshape.trans (houtput.trans hshape'.symm)⟩
  unfold State.ofFields
  refine agree_bind _ fun saved => agree_bind _ fun ⟨stack, _⟩ => agree_bind _ fun items =>
    agree_bind _ fun output => agree_bind _ fun saved => agree_bind _ fun offers =>
    agree_bind _ fun ⟨choices, _⟩ => agree_bind _ fun saved =>
    Agree.bind (agree_variables h.vars saved) fun v w hvars => agree_bind _ fun items =>
    agree_bind _ fun evaluation => ?_
  dsimp only
  split
  all_goals
    refine agree_bind _ fun ⟨diverted, _⟩ => agree_bind _ fun saved => agree_bind _ fun visits =>
      agree_bind _ fun saved => agree_bind _ fun turns => agree_bind _ fun turn =>
      agree_bind _ fun seed => hread _ _ _ ?_ rfl
    exact { h with
      callStack := stack.alike_refl fun _ => rfl
      vars := hvars
      evaluation := rfl
      choices := List.forall₂_same.mpr fun _ _ => ⟨rfl, Thread.alike_refl (fun _ => rfl) _⟩
      diverted := rfl
      visits := rfl
      turns := rfl
      turn := rfl
      seed := rfl
      drawn := rfl
      safeExit := rfl }

/-- Reading the text of a saved state. -/
theorem agree_ofText {s u : State} (h : s.Alike .equal u) (t : ContentTree) (text : String) :
    Agree Story.SameState (s.ofText t text) (u.ofText t text) := by
  have hunless : ∀ {p : Prop} [Decidable p] (e : StoryError) {x y : Except StoryError State},
      Agree Story.SameState x y → Agree Story.SameState
        (do
          if p then throw e
          x)
        (do
          if p then throw e
          y) := by
    intro p _ e x y hxy
    dsimp only
    split
    · exact .error e
    · exact hxy
  unfold State.ofText
  split
  · exact .error _
  · unfold State.ofJson
    refine hunless _ ?_
    split
    · exact .error _
    · exact hunless _ (agree_ofFields h t _)

/-- Both stories get a state, each its own. -/
theorem shared_load (text : String) : Shared c name f answered (do
    let t ← tree
    tryState fun s => return ((), ← s.ofText t text)) := by
  refine blind_tree_bind (blind_tryState fun s u h => ?_)
  exact Agree.bind (agree_ofText h c.tree text) fun v w hvw =>
    .ok ⟨rfl, hvw.state, fun _ => hvw.output⟩

theorem together_restore {a b : Snapshot} (hkey : a.key = b.key)
    (hab : Story.SameState a.state b.state) :
    Together c .equal (Story.IdleParts name f answered) SameOutput
      (do
        if (← get).content.key ≠ a.key then throw (.request .foreignState)
        modifyState fun _ => a.state)
      (do
        if (← get).content.key ≠ b.key then throw (.request .foreignState)
        modifyState fun _ => b.state) := by
  refine together_get_bind fun d s h => ?_
  rw [h.left, h.right, hkey]
  dsimp only
  split
  · exact blind_throw _
  · exact together_modifyState (fun _ _ _ => hab.state) fun _ _ _ _ => hab.output

theorem shared_unobserve (observer : String) (global : Option String) :
    Shared c name f answered (modify fun s : Story =>
      let concerns := fun n => global.all (n == ·)
      let left := s.observers.map fun n os =>
        if concerns n then os.filter (· != observer) else os
      { s with observers := left.filter fun _ os => !os.isEmpty }) :=
  shared_modify (fun _ => ⟨rfl, rfl⟩) fun _ _ hparts => { hparts with }

end Flow

/-! ## What need not wait for the end of a line -/

namespace Story.SideBySide

variable {c : Content} {name : String} {f : HostFunction} {answered : List (List Value)}
  {d s : Story}

/-- Only the state and the host's parts count, and what a line in progress relies on. -/
theorem of_parts {d' s' : Story} (h : SideBySide c name f answered d s)
    (hd : d'.content = d.content) (hs : s'.content = s.content)
    (hstate : SameState d'.state s'.state) (hparts : HostParts name f answered d' s')
    (hopen : d'.lineOpen = d.lineOpen) (hopen' : s'.lineOpen = s.lineOpen)
    (hready : d.Ready → d'.Ready) : SideBySide c name f answered d' s' where
  beside := h.beside.of_parts hd hs hstate hparts
  lineOpen := hopen.trans (h.lineOpen.trans hopen'.symm)
  ready hline := hready (h.ready (hopen.symm.trans hline))

theorem setVariable (global : String) (v : Value) (h : SideBySide c name f answered d s) :
    SideBySide c name f answered ((Flow.setVariable global v).after d)
      ((Flow.setVariable global v).after s) := by
  -- The variable is set, and the observers are told.
  have hset : ∀ u : Story, u.state.vars.defaults.contains global = true → ∃ events,
      (Flow.setVariable global v).after u =
        { u with state := { u.state with vars := u.state.vars.put global v }, events } ∧
      ((Flow.setVariable global v).after u).callsOf name = u.callsOf name := by
    intro u hdeclared
    have hrun : (Flow.setVariable global v).after u =
        Story.logAll { u with state := { u.state with vars := u.state.vars.put global v } }
          (u.notifications (global, v)) :=
      Flow.after_bind_ok (Flow.tryState_run_ok (by rw [Variables.set, if_pos hdeclared]; rfl))
    rw [hrun]
    obtain ⟨events, hlog⟩ := Story.logAll_eq
      { u with state := { u.state with vars := u.state.vars.put global v } }
      (u.notifications (global, v))
    refine ⟨events, hlog, callsOf_logAll (fun e he => ?_) _⟩
    obtain ⟨observer, -, rfl⟩ := List.mem_map.mp he
    rfl
  have hrefused : ∀ u : Story, u.state.vars.defaults.contains global = false →
      (Flow.setVariable global v).after u = u := fun u hundeclared =>
    Flow.after_of_error (Flow.bind_error (Flow.tryState_run_error
      (by rw [Variables.set, if_neg (by rw [hundeclared]; exact Bool.false_ne_true)]; rfl)))
  have hdefaults := h.beside.state.vars.defaults
  cases hdeclared : d.state.vars.defaults.contains global with
  | false =>
    rw [hrefused d hdeclared, hrefused s (hdefaults ▸ hdeclared)]
    exact h
  | true =>
    obtain ⟨_, hd, hdcalls⟩ := hset d hdeclared
    obtain ⟨_, hs, hscalls⟩ := hset s (hdefaults ▸ hdeclared)
    have hcalls : ((Flow.setVariable global v).after d).callsOf name =
        ((Flow.setVariable global v).after s).callsOf name ++ answered := by
      rw [hdcalls, hscalls, h.beside.parts.calls]
    rw [hd, hs] at hcalls ⊢
    exact h.of_parts rfl rfl
      ⟨{ h.beside.state with vars := h.beside.state.vars.put global v }, h.beside.sameState.output⟩
      { h.beside.parts with calls := hcalls } rfl rfl fun hready => { hready with }

theorem resolve (answer : Option Value) (h : SideBySide c name f answered d s) :
    SideBySide c name f answered ((Flow.resolve answer).after d)
      ((Flow.resolve answer).after s) := by
  cases hpending : d.pending with
  | none =>
    have hrefused : ∀ v : Story, v.pending = none → (Flow.resolve answer).after v = v := by
      intro v hv
      refine Flow.after_of_error (e := .request .nothingPending) ?_
      unfold Flow.resolve
      rw [Flow.bind_ok (Flow.get_ok v), hv]
      rfl
    rw [hrefused d hpending, hrefused s (h.beside.parts.pending.symm.trans hpending)]
    exact h
  | some call =>
    rw [Flow.after_of_ok (Flow.resolve_ok hpending answer),
      Flow.after_of_ok (Flow.resolve_ok (h.beside.parts.pending.symm.trans hpending) answer)]
    exact h.of_parts rfl rfl ⟨h.beside.state.push _, h.beside.sameState.output⟩
      { h.beside.parts with
        pending := rfl
        waits := fun _ hnone => nomatch hnone } rfl rfl fun hready => { hready with }

theorem resetErrors (h : SideBySide c name f answered d s) :
    SideBySide c name f answered d.resetErrors s.resetErrors :=
  h.of_parts rfl rfl
    ⟨{ h.beside.state with errors := rfl, firstError := rfl }, h.beside.sameState.output⟩
    { h.beside.parts with } rfl rfl fun hready => { hready with error := rfl }

theorem installHandler (h : SideBySide c name f answered d s) :
    SideBySide c name f answered d.installHandler s.installHandler :=
  h.of_parts rfl rfl h.beside.sameState { h.beside.parts with handler := rfl } rfl rfl
    fun hready => { hready with }

/-- Knots may stand in for other functions. -/
theorem allowFallbacks {allow : Bool} (hallow : allow = true → d.tree.knot? name = none)
    (h : SideBySide c name f answered d s) :
    SideBySide c name f answered (d.allowFallbacks allow) (s.allowFallbacks allow) :=
  h.of_parts rfl rfl h.beside.sameState
    { h.beside.parts with fallbacks := rfl, standIn := hallow } rfl rfl fun hready => { hready with }

end Story.SideBySide

end StoryMachine
