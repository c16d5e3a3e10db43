import Mathlib.Logic.Relation
import StoryMachine.Story.Step

/-!
# What a step can change

The computations that a step is made of change a story in few ways, which `Change` lists.
A computation is *within* some effects if it only makes changes of these effects, whether or
not it fails. What every single change respects, the computation respects.

* `Effects` : whether functions of the host are called, something is put out, and so on;
* `Offer.ComesFrom`, `State.CanOffer` : what choice points offer;
* `StateChange`, `Change` : the changes of a state and of a story;
* `State.exists_enter_eq`, `State.popFrame_ok`, `State.exists_markText_eq` : what the larger ones
  leave alone;
* `Flow.Within` : computations that make only such changes;
* `Flow.within_bind` and its like : how these computations are put together.
-/

namespace StoryMachine

/-- What a computation may do besides changing the logical part of a state.

* `calls` : call functions of the host, or wait for one;
* `output` : change the output, other than by trimming the text of a function;
* `assigns` : assign variables;
* `turns` : count turns. -/
structure Effects where
  calls : Bool
  output : Bool
  assigns : Bool
  turns : Bool

namespace Effects

/-- Neither calls nor output, nor assignments. -/
def silent : Effects := ⟨false, false, false, true⟩

/-- Nothing of all this. -/
def still : Effects := ⟨false, false, false, false⟩

/-- Calls, output and assignments, as in steps. -/
def ofStep : Effects := ⟨true, true, true, false⟩

/-- What steps do without output. -/
def quiet : Effects := { ofStep with output := false }

/-- What steps do without calls. -/
def uncalled : Effects := { ofStep with calls := false }

/-- What steps do without assignments. -/
def unassigned : Effects := { ofStep with assigns := false }

end Effects

/-- The offer is that of the choice point `p` at a node: it names the node, and leads to the
container that the path of the choice point means there. -/
structure Offer.ComesFrom (o : Offer) (t : ContentTree) (id : NodeId) (p : ChoicePoint)
    (container : NodeId) : Prop where
  leaf : t.leaf? id = some (.choicePoint p)
  leads : t.targetContainer? id p.path = some container
  source : o.source = (t.path id).render
  target : o.target = t.path container

/-- The choice point `p` at a node offers this, and if it does so once only, no visit to the
container that it leads to has been counted. -/
def State.CanOffer (s : State) (t : ContentTree) (id : NodeId) (p : ChoicePoint) (o : Offer) : Prop :=
  ∃ container, o.ComesFrom t id p container ∧
    (p.onceOnly = true → (s.visits? t container).getD 0 ≤ 0)

/-- A change of a state over some content. -/
inductive StateChange (c : Content) (fx : Effects) : State → State → Prop
  | evaluation (s : State) (es : List Token) : StateChange c fx s { s with evaluation := es }
  | assign {s : State} {a : Assignment} {v : Value} {vars : Variables} {callStack : CallStack}
      (h : s.vars.assign c.lists s.callStack a v = .ok (vars, callStack))
      (hfx : fx.assigns = true) : StateChange c fx s { s with vars, callStack }
  | enter (s : State) (id : NodeId) (atStart : Bool) :
      StateChange c fx s (s.enter c.tree id atStart)
  | warn (s : State) (message : String) : StateChange c fx s (s.warn c.tree message)
  | random (s : State) (seed drawn : Int32) : StateChange c fx s { s with seed, drawn }
  | divert (s : State) (place : Option Cursor) : StateChange c fx s { s with diverted := place }
  | move (s : State) (place : Option Cursor) : StateChange c fx s (s.setCursor place)
  | notePlace (s : State) : StateChange c fx s (s.setPrevious s.cursor)
  | expression (s : State) (b : Bool) : StateChange c fx s (s.setInExpression b)
  | offer {s : State} {id : NodeId} {p : ChoicePoint} {o : Offer} (h : s.CanOffer c.tree id p o) :
      StateChange c fx s (s.offer o)
  | withdraw (s : State) : StateChange c fx s { s with choices := [] }
  | turn (s : State) (hfx : fx.turns = true) : StateChange c fx s { s with turn := s.turn + 1 }
  | call (s : State) (k : FrameKind) (hk : k ≠ .hostCall) :
      StateChange c fx s { s with callStack := s.callStack.push k 0 s.output.length }
  | return {s u : State} (h : s.popFrame = .ok u) : StateChange c fx s u
  | thread (s : State) : StateChange c fx s { s with callStack := s.callStack.pushThread }
  | endThread {s : State} {callStack : CallStack} (h : s.callStack.popThread = .ok callStack) :
      StateChange c fx s { s with callStack }
  | resume {s : State} {o : Choice} (h : o ∈ s.choices) :
      StateChange c fx s { s with callStack := s.callStack.resume o.thread, choices := [] }
  | copy (s : State) : StateChange c fx s s.resumeCopy
  | safeExit (s : State) : StateChange c fx s { s with safeExit := true }
  | finish (s : State) : StateChange c fx s s.forceEnd
  | putOut (s : State) (o : Output) (hfx : fx.output = true) :
      StateChange c fx s { s with output := o }
  | markText (s : State) (hfx : fx.output = true) : StateChange c fx s s.markText

/-! ## What the larger changes leave -/

/-- Entering a container only counts it. -/
theorem State.exists_enter_eq (s : State) (t : ContentTree) (id : NodeId) (atStart : Bool) :
    ∃ visits turns, s.enter t id atStart = { s with visits, turns } := by
  unfold State.enter
  split
  · exact ⟨s.visits, s.turns, rfl⟩
  · split
    · exact ⟨s.visits, s.turns, rfl⟩
    · exact ⟨_, _, rfl⟩

/-- Dropping a frame only trims the output beside. -/
theorem State.popFrame_ok {s u : State} (h : s.popFrame = .ok u) :
    ∃ output stack, s.callStack.pop = .ok stack ∧ u = { s with output, callStack := stack } := by
  unfold popFrame at h
  cases hpop : s.callStack.pop with
  | error e =>
    rw [hpop] at h
    cases h
  | ok stack =>
    rw [hpop] at h
    cases h
    exact ⟨_, stack, rfl, rfl⟩

/-- Marking that a function has put out text only changes the current thread. -/
theorem State.exists_markText_eq (s : State) : ∃ thread : Thread,
    s.markText = { s with callStack := { s.callStack with current := thread } } ∧
      thread.index = s.callStack.current.index := by
  unfold markText
  dsimp only
  split
  · exact ⟨_, rfl, rfl⟩
  · exact ⟨s.callStack.current, rfl, rfl⟩

/-! ## Changes of a story -/

/-- A change of a story over some content. While the machine looks ahead, only functions of
the host that allow it are called, and no call waits; other calls are noted outside strings. -/
inductive Change (c : Content) (fx : Effects) : Story → Story → Prop
  | state {s : Story} {u : State} (h : StateChange c fx s.state u) :
      Change c fx s { s with state := u }
  | called {s : Story} {name : String} {b : Binding} (arguments : List Value)
      (hcalls : fx.calls = true) (hb : s.bindings.get? name = some b)
      (hsafe : b.lookaheadSafe = true ∨ s.lineState = none) :
      Change c fx s
        ({ s with bindings := s.bindings.insert name { b with calls := b.calls + 1 } }.log
          (.called name arguments))
  | wait {s : Story} (call : PendingCall) (hcalls : fx.calls = true) (hline : s.lineState = none) :
      Change c fx s { s with pending := some call }
  | unsafeCall {s : Story} (hcalls : fx.calls = true) (hline : s.lineState.isSome = true)
      (hstring : s.state.output.inString = false) :
      Change c fx s { s with metUnsafeCall := true }

/-- Any number of changes, one behind the other. -/
abbrev Changes (c : Content) (fx : Effects) : Story → Story → Prop :=
  Relation.ReflTransGen (Change c fx)

/-- Any number of changes of the state alone. -/
abbrev StateChanges (c : Content) (fx : Effects) : State → State → Prop :=
  Relation.ReflTransGen (StateChange c fx)

theorem Changes.of_state {c : Content} {fx : Effects} {s : Story} {u : State}
    (h : StateChanges c fx s.state u) : Changes c fx s { s with state := u } := by
  induction h with
  | refl => exact .refl
  | @tail v w _ hvw ih => exact ih.tail (.state (s := { s with state := v }) hvw)

theorem Changes.content_eq {c : Content} {fx : Effects} {s u : Story} (h : Changes c fx s u) :
    u.content = s.content := by
  induction h with
  | refl => rfl
  | tail _ h ih => cases h <;> exact ih

theorem Changes.lineState_eq {c : Content} {fx : Effects} {s u : Story} (h : Changes c fx s u) :
    u.lineState = s.lineState := by
  induction h with
  | refl => rfl
  | tail _ h ih => cases h <;> exact ih

/-- Without calls nothing but the state changes. -/
theorem Changes.state_only {c : Content} {fx : Effects} {s u : Story} (hfx : fx.calls = false)
    (h : Changes c fx s u) : StateChanges c fx s.state u.state ∧ u = { s with state := u.state } := by
  induction h with
  | refl => exact ⟨.refl, rfl⟩
  | tail _ h ih =>
    obtain ⟨hchanges, heq⟩ := ih
    cases h with
    | state h => exact ⟨hchanges.tail h, by rw [heq]⟩
    | called _ hcalls | wait _ hcalls | unsafeCall hcalls => cases hfx.symm.trans hcalls

/-- A change is one of other effects, which allow its output and assignments, or it counts a
turn. -/
theorem StateChange.or_turn {c : Content} {fx : Effects} {s u : State} (h : StateChange c fx s u)
    (gx : Effects) (houtput : fx.output = true → gx.output = true)
    (hassigns : fx.assigns = true → gx.assigns = true) :
    StateChange c gx s u ∨ fx.turns = true ∧ u = { s with turn := s.turn + 1 } := by
  cases h with
  | turn hfx => exact .inr ⟨hfx, rfl⟩
  | evaluation es => exact .inl (.evaluation s es)
  | assign h hfx => exact .inl (.assign h (hassigns hfx))
  | enter id atStart => exact .inl (.enter s id atStart)
  | warn message => exact .inl (.warn s message)
  | random seed drawn => exact .inl (.random s seed drawn)
  | divert place => exact .inl (.divert s place)
  | move place => exact .inl (.move s place)
  | notePlace => exact .inl (.notePlace s)
  | expression b => exact .inl (.expression s b)
  | offer h => exact .inl (.offer h)
  | withdraw => exact .inl (.withdraw s)
  | call k hk => exact .inl (.call s k hk)
  | «return» h => exact .inl (.return h)
  | thread => exact .inl (.thread s)
  | endThread h => exact .inl (.endThread h)
  | resume h => exact .inl (.resume h)
  | copy => exact .inl (.copy s)
  | safeExit => exact .inl (.safeExit s)
  | finish => exact .inl (.finish s)
  | putOut o hfx => exact .inl (.putOut s o (houtput hfx))
  | markText hfx => exact .inl (.markText s (houtput hfx))

theorem StateChange.of_still {c : Content} {fx : Effects} {s u : State}
    (h : StateChange c .still s u) : StateChange c fx s u :=
  (h.or_turn fx Bool.noConfusion Bool.noConfusion).resolve_right fun hturn => Bool.noConfusion hturn.1

theorem Changes.of_still {c : Content} {fx : Effects} {s u : Story}
    (h : Changes c .still s u) : Changes c fx s u := by
  obtain ⟨hchanges, heq⟩ := h.state_only rfl
  rw [heq]
  exact .of_state (Relation.ReflTransGen.mono (fun _ _ => StateChange.of_still) _ _ hchanges)

namespace Flow

variable {α β : Type} {c : Content} {fx : Effects}

/-- The story behind a computation, whether or not it fails. -/
def after (x : Flow α) (s : Story) : Story :=
  match x s with
  | .ok _ u => u
  | .error _ u => u

/-- The result of a computation, unless it fails. -/
def result? (x : Flow α) (s : Story) : Option α :=
  match x s with
  | .ok a _ => some a
  | .error _ _ => none

theorem exists_of_result? {x : Flow α} {s : Story} {a : α} (h : x.result? s = some a) :
    ∃ u, x s = .ok a u := by
  unfold result? at h
  split at h
  · next b u hrun => exact ⟨u, Option.some.inj h ▸ hrun⟩
  · cases h

/-- Over the content `c`, the computation makes only changes of the effects `fx`. -/
def Within (c : Content) (fx : Effects) (x : Flow α) : Prop :=
  ∀ s : Story, s.content = c → Changes c fx s (x.after s)

/-! ## Putting computations together -/

theorem after_of_ok {x : Flow α} {s u : Story} {a : α} (h : x s = .ok a u) : x.after s = u := by
  rw [after, h]

theorem after_of_error {x : Flow α} {s u : Story} {e : StoryError} (h : x s = .error e u) :
    x.after s = u := by
  rw [after, h]

theorem get_ok (s : Story) : (get : Flow Story) s = .ok s s := rfl

theorem state_ok (s : Story) : state s = .ok s.state s := rfl

theorem tree_ok (s : Story) : tree s = .ok s.tree s := rfl

theorem modify_ok (f : Story → Story) (s : Story) :
    (modify f : Flow Unit) s = .ok () (f s) := rfl

theorem modifyState_ok (f : State → State) (s : Story) :
    modifyState f s = .ok () { s with state := f s.state } := rfl

theorem bind_ok {x : Flow α} {k : α → Flow β} {s u : Story} {a : α} (h : x s = .ok a u) :
    (x >>= k) s = k a u := by
  simp only [bind, EStateM.bind, h]

theorem bind_error {x : Flow α} {k : α → Flow β} {s u : Story} {e : StoryError}
    (h : x s = .error e u) : (x >>= k) s = .error e u := by
  simp only [bind, EStateM.bind, h]

theorem after_bind_ok {x : Flow α} {k : α → Flow β} {s u : Story} {a : α} (h : x s = .ok a u) :
    (x >>= k).after s = (k a).after u := by
  rw [after, after, bind_ok h]

theorem after_bind_error {x : Flow α} {k : α → Flow β} {s u : Story} {e : StoryError}
    (h : x s = .error e u) : (x >>= k).after s = u := by
  rw [after, bind_error h]

/-- What holds of a story behind a computation, holds behind what follows too. -/
theorem after_bind_holds {I : Story → Prop} {x : Flow α} {k : α → Flow β}
    {s : Story} (hx : I (x.after s)) (hk : ∀ a u, x s = .ok a u → I u → I ((k a).after u)) :
    I ((x >>= k).after s) := by
  cases h : x s with
  | ok a u =>
    rw [after_of_ok h] at hx
    rw [after_bind_ok h]
    exact hk a u h hx
  | error e u =>
    rw [after_of_error h] at hx
    rwa [after_bind_error h]

theorem after_tryState_holds {I : Story → Prop} {f : State → Except StoryError (α × State)}
    {s : Story} (hs : I s)
    (h : ∀ a state, f s.state = .ok (a, state) → I { s with state }) : I ((tryState f).after s) := by
  cases hf : f s.state with
  | ok r =>
    rw [after_of_ok (show tryState f s = .ok r.1 { s with state := r.2 } from tryState_run_ok hf)]
    exact h r.1 r.2 hf
  | error e => rwa [after_of_error (show tryState f s = .error e s from tryState_run_error hf)]

/-- A run that ends well has passed through the end of its first part. -/
theorem exists_of_bind_eq_ok {x : Flow α} {k : α → Flow β} {s u : Story} {b : β}
    (h : (x >>= k) s = .ok b u) : ∃ a v, x s = .ok a v ∧ k a v = .ok b u := by
  cases hx : x s with
  | ok a v =>
    rw [bind_ok hx] at h
    exact ⟨a, v, rfl, h⟩
  | error e v =>
    rw [bind_error hx] at h
    cases h

theorem within_pure (a : α) : Within c fx (pure a) := fun _ _ => .refl

theorem within_throw (e : StoryError) : Within c fx (throw e : Flow α) := fun _ _ => .refl

theorem within_bind {x : Flow α} {k : α → Flow β} (hx : Within c fx x) (hk : ∀ a, Within c fx (k a)) :
    Within c fx (x >>= k) := by
  intro s hs
  have hfirst := hx s hs
  cases h : x s with
  | ok a u =>
    rw [after_of_ok h] at hfirst
    rw [after_bind_ok h]
    exact hfirst.trans (hk a u (hfirst.content_eq.trans hs))
  | error e u =>
    rw [after_of_error h] at hfirst
    rwa [after_bind_error h]

theorem within_ite {p : Prop} [Decidable p] {x y : Flow α} (hx : Within c fx x) (hy : Within c fx y) :
    Within c fx (if p then x else y) := by
  split
  · exact hx
  · exact hy

/-- A check in front of a computation. -/
theorem within_unless {p : Prop} [Decidable p] (e : StoryError) {x : Flow β} (hx : Within c fx x) :
    Within c fx (do
      if p then throw e
      x) := by
  dsimp only
  split
  · exact within_bind (within_throw e) fun _ : Unit => hx
  · exact hx

/-- What follows may use the story it is run on. -/
theorem within_get_bind {k : Story → Flow β}
    (hk : ∀ s : Story, s.content = c → Changes c fx s ((k s).after s)) : Within c fx (get >>= k) := hk

theorem within_state_bind {k : State → Flow β}
    (hk : ∀ s : Story, s.content = c → Changes c fx s ((k s.state).after s)) :
    Within c fx (state >>= k) := hk

theorem within_get_any {k : Story → Flow β} (hk : ∀ s, Within c fx (k s)) : Within c fx (get >>= k) :=
  within_get_bind fun s hs => hk s s hs

theorem within_state_any {k : State → Flow β} (hk : ∀ s, Within c fx (k s)) :
    Within c fx (state >>= k) :=
  within_state_bind fun s hs => hk s.state s hs

theorem within_tree_bind {k : ContentTree → Flow β} (hk : Within c fx (k c.tree)) :
    Within c fx (tree >>= k) := by
  intro s hs
  have hrun : (tree >>= k).after s = (k s.content.tree).after s := rfl
  rw [hrun, hs]
  exact hk s hs

theorem within_modifyState {f : State → State} (h : ∀ s, StateChange c fx s (f s)) :
    Within c fx (modifyState f) :=
  fun s _ => .single (.state (h s.state))

theorem within_withState {f : State → α × State} (h : ∀ s, StateChange c fx s (f s).2) :
    Within c fx (withState f) :=
  fun s _ => .single (.state (h s.state))

theorem within_tryState {f : State → Except StoryError (α × State)}
    (h : ∀ s a u, f s = .ok (a, u) → StateChange c fx s u) : Within c fx (tryState f) := by
  intro s _
  cases hf : f s.state with
  | ok r =>
    obtain ⟨a, u⟩ := r
    have hrun : tryState f s = .ok a { s with state := u } := tryState_run_ok hf
    rw [after_of_ok hrun]
    exact .single (.state (h s.state a u hf))
  | error e =>
    have hrun : tryState f s = .error e s := tryState_run_error hf
    rw [after_of_error hrun]

theorem within_ofExcept (x : Except StoryError α) : Within c fx (ofExcept x) := by
  cases x
  · exact within_throw _
  · exact within_pure _

/-! ## The evaluation stack, warnings and places -/

theorem within_pop : Within c fx pop := by
  refine within_tryState fun s a u h => ?_
  unfold State.pop at h
  split at h
  · cases h
    exact .evaluation s _
  · cases h

theorem within_push (token : Token) : Within c fx (push token) :=
  within_modifyState fun s => .evaluation s _

theorem within_pushInt (n : Int32) : Within c fx (pushInt n) :=
  within_push _

theorem within_warn (message : String) : Within c fx (warn message) :=
  within_tree_bind (within_modifyState fun s => .warn s message)

theorem within_warnIfSome (message : Option String) : Within c fx (warnIfSome message) := by
  cases message
  · exact within_pure ()
  · exact within_warn _

theorem within_popInt (cause : TypeFault) : Within c fx (popInt cause) := by
  refine within_bind within_pop fun token => ?_
  split
  · exact within_pure _
  · exact within_throw _

theorem within_popValue (cause : TypeFault) : Within c fx (popValue cause) := by
  refine within_bind within_pop fun token => ?_
  split
  · exact within_pure _
  · exact within_throw _

theorem within_popList (cause : TypeFault) : Within c fx (popList cause) := by
  refine within_bind within_pop fun token => ?_
  split
  · exact within_pure _
  · exact within_throw _

theorem within_popMany (count : Nat) : Within c fx (tryState fun s => s.popMany count) := by
  refine within_tryState fun s tokens u h => ?_
  unfold State.popMany at h
  dsimp only at h
  split at h
  · cases h
  · cases h
    exact .evaluation s _

theorem within_divertTo (p : Path) : Within c fx (divertTo p) := by
  refine within_tree_bind (within_bind (within_ofExcept _) fun ⟨place, warning⟩ => ?_)
  exact within_bind (within_warnIfSome warning) fun _ =>
    within_modifyState fun s => .divert s place

theorem within_readVariable? (name : String) : Within c fx (readVariable? name) :=
  within_get_any fun _ => within_pure _

theorem within_popArguments (name : String) (popped : List Value) (count : Nat) :
    Within c fx (popArguments name popped count) := by
  induction count generalizing popped with
  | zero => exact within_pure _
  | succ count ih =>
    refine within_bind within_pop fun token => ?_
    split
    · exact ih _
    · exact within_throw _

end Flow

end StoryMachine
