import StoryMachine.Proofs.Alike.States
import StoryMachine.Proofs.Story.Changes

/-!
# Computations on stories that are alike

Two stories over the same content are *paired* if their states are alike, the shapes of their
outputs are related in some way, and so is the rest of them. A computation is *blind* if it leads
from every such pair to such a pair, with the same result, or fails in the same way in both. A
computation that does not look at the output is blind however the shapes are related, and blind
computations are put together like the computations themselves.

* `Shape` : what the output and the marks in frames say about a state;
* `Story.Paired` : stories that are paired;
* `Flow.Together`, `Flow.Blind` : computations that go together, and blind ones;
* `Flow.together_bind` and its like : how they are put together.
-/

open List (Forall₂)

namespace StoryMachine

/-- What putting out depends on: the output, the marks of the current thread's frames, from
the innermost one on, and the number of threads besides it. -/
structure Shape where
  output : Output
  marks : List (Option Nat)
  threads : Nat

/-- The shape of a state. -/
def State.shape (s : State) : Shape where
  output := s.output
  marks := (s.callStack.top :: s.callStack.current.below).map Frame.outputStart
  threads := s.callStack.others.length

/-- A story but for its state. -/
def Story.rest (s : Story) : Story :=
  { s with state := default }

variable {c : Content}

/-- Stories over the content `c` whose states are alike, with shapes and other parts that are
related. -/
structure Story.Paired (c : Content) (K : Likeness) (rest : Story → Story → Prop)
    (shape : Shape → Shape → Prop) (s u : Story) : Prop where
  left : s.content = c
  right : u.content = c
  state : s.state.Alike K u.state
  shapes : shape s.state.shape u.state.shape
  others : rest s.rest u.rest

/-- Two runs both succeed with the same result, or fail in the same way; the stories behind them
are related accordingly. -/
inductive Outcome {α : Type} (R E : Story → Story → Prop) :
    EStateM.Result StoryError Story α → EStateM.Result StoryError Story α → Prop
  | ok {a : α} {s u : Story} (h : R s u) : Outcome R E (.ok a s) (.ok a u)
  | error {e : StoryError} {s u : Story} (h : E s u) : Outcome R E (.error e s) (.error e u)

variable {K : Likeness} {κ : Story → Story → Prop} {ρ σ : Shape → Shape → Prop} {α β : Type}

theorem Outcome.cases {R E : Story → Story → Prop} {x y : EStateM.Result StoryError Story α}
    (h : Outcome R E x y) :
    (∃ a s u, x = .ok a s ∧ y = .ok a u ∧ R s u) ∨
      ∃ e s u, x = .error e s ∧ y = .error e u ∧ E s u := by
  cases h with
  | ok h => exact .inl ⟨_, _, _, rfl, rfl, h⟩
  | error h => exact .inr ⟨_, _, _, rfl, rfl, h⟩

theorem Outcome.bind {R R' E : Story → Story → Prop} {x y : Flow α} {k l : α → Flow β}
    {s u : Story} (h : Outcome R E (x s) (y u))
    (hk : ∀ a s' u', R s' u' → Outcome R' E (k a s') (l a u')) :
    Outcome R' E ((x >>= k) s) ((y >>= l) u) := by
  rcases h.cases with ⟨a, s', u', hs, hu, h⟩ | ⟨e, s', u', hs, hu, h⟩
  · rw [Flow.bind_ok hs, Flow.bind_ok hu]
    exact hk a s' u' h
  · rw [Flow.bind_error hs, Flow.bind_error hu]
    exact .error h

namespace Flow

/-- Computations that lead from paired stories to paired stories with the same result, or fail
in the same way. -/
def Together (c : Content) (K : Likeness) (κ : Story → Story → Prop)
    (ρ : Shape → Shape → Prop) (x y : Flow α) : Prop :=
  ∀ ⦃s u : Story⦄, s.Paired c K κ ρ u →
    Outcome (Story.Paired c K κ ρ) (Story.Paired c K κ ρ) (x s) (y u)

/-- A computation that goes together with itself. -/
abbrev Blind (c : Content) (K : Likeness) (κ : Story → Story → Prop)
    (ρ : Shape → Shape → Prop) (x : Flow α) : Prop :=
  Together c K κ ρ x x

/-! ## Putting computations together -/

theorem blind_pure (a : α) : Blind c K κ ρ (pure a) :=
  fun _ _ hp => .ok hp

theorem blind_throw (e : StoryError) : Blind c K κ ρ (throw e : Flow α) :=
  fun _ _ hp => .error hp

theorem together_bind {x y : Flow α} {k l : α → Flow β} (hx : Together c K κ ρ x y)
    (hk : ∀ a, Together c K κ ρ (k a) (l a)) : Together c K κ ρ (x >>= k) (y >>= l) :=
  fun _ _ hp => (hx hp).bind fun a _ _ h => hk a h

theorem blind_bind {x : Flow α} {k : α → Flow β} (hx : Blind c K κ ρ x)
    (hk : ∀ a, Blind c K κ ρ (k a)) : Blind c K κ ρ (x >>= k) :=
  together_bind hx hk

theorem blind_ite {p : Prop} [Decidable p] {x y : Flow α} (hx : Blind c K κ ρ x)
    (hy : Blind c K κ ρ y) : Blind c K κ ρ (if p then x else y) := by
  split
  · exact hx
  · exact hy

/-- A check in front of a computation. -/
theorem blind_unless {p : Prop} [Decidable p] (e : StoryError) {x : Flow β}
    (hx : Blind c K κ ρ x) : Blind c K κ ρ (do
      if p then throw e
      x) := by
  dsimp only
  split
  · exact blind_bind (blind_throw e) fun _ : Unit => hx
  · exact hx

theorem together_get_bind {k l : Story → Flow α}
    (h : ∀ s u, s.Paired c K κ ρ u → Together c K κ ρ (k s) (l u)) :
    Together c K κ ρ (get >>= k) (get >>= l) :=
  fun s u hp => h s u hp hp

theorem together_state_bind {k l : State → Flow α}
    (h : ∀ s u : State, s.Alike K u → Together c K κ ρ (k s) (l u)) :
    Together c K κ ρ (state >>= k) (state >>= l) :=
  fun s u hp => h s.state u.state hp.state hp

theorem blind_tree_bind {k : ContentTree → Flow α} (h : Blind c K κ ρ (k c.tree)) :
    Blind c K κ ρ (tree >>= k) := by
  intro s u hp
  have hs : (tree >>= k) s = k s.content.tree s := rfl
  have hu : (tree >>= k) u = k u.content.tree u := rfl
  rw [hs, hu, hp.left, hp.right]
  exact h hp

theorem together_modifyState {f g : State → State}
    (h : ∀ s u : State, s.Alike K u → (f s).Alike K (g u))
    (hshapes : ∀ s u : State, s.Alike K u → ρ s.shape u.shape → ρ (f s).shape (g u).shape) :
    Together c K κ ρ (modifyState f) (modifyState g) :=
  fun _ _ hp => .ok
    ⟨hp.left, hp.right, h _ _ hp.state, hshapes _ _ hp.state hp.shapes, hp.others⟩

/-- Changing nothing that putting out depends on. -/
theorem blind_modifyState {f : State → State}
    (h : ∀ s u : State, s.Alike K u → (f s).Alike K (f u)) (hf : ∀ s, (f s).shape = s.shape) :
    Blind c K κ ρ (modifyState f) :=
  together_modifyState h fun s u _ hs => by rwa [hf, hf]

theorem blind_withState {f : State → α × State}
    (h : ∀ s u : State, s.Alike K u → (f s).1 = (f u).1 ∧ (f s).2.Alike K (f u).2)
    (hf : ∀ s, (f s).2.shape = s.shape) : Blind c K κ ρ (withState f) := by
  intro s u hp
  obtain ⟨hresult, hstate⟩ := h _ _ hp.state
  have hrun : ∀ v : Story, withState f v = .ok (f v.state).1 { v with state := (f v.state).2 } :=
    fun _ => rfl
  rw [hrun, hrun, hresult]
  refine .ok ⟨hp.left, hp.right, hstate, ?_, hp.others⟩
  show ρ (f s.state).2.shape (f u.state).2.shape
  rw [hf, hf]
  exact hp.shapes

theorem tryState_eq (f : State → Except StoryError (α × State)) (s : Story) :
    tryState f s = match f s.state with
      | .ok (a, new) => .ok a { s with state := new }
      | .error e => .error e s := by
  cases hf : f s.state with
  | ok r => exact tryState_run_ok hf
  | error e => exact tryState_run_error hf

theorem blind_tryState {f : State → Except StoryError (α × State)}
    (h : ∀ s u : State, s.Alike K u → Agree (fun p q => p.1 = q.1 ∧ p.2.Alike K q.2 ∧
      (ρ s.shape u.shape → ρ p.2.shape q.2.shape)) (f s) (f u)) :
    Blind c K κ ρ (tryState f) := by
  intro s u hp
  have hfg := h s.state u.state hp.state
  rw [tryState_eq, tryState_eq]
  generalize f s.state = p at hfg
  generalize f u.state = q at hfg
  cases hfg with
  | @ok p q hresult =>
    obtain ⟨a, s'⟩ := p
    obtain ⟨b, u'⟩ := q
    obtain ⟨rfl, hstate, hshapes⟩ := hresult
    exact .ok ⟨hp.left, hp.right, hstate, hshapes hp.shapes, hp.others⟩
  | error => exact .error hp

theorem blind_ofExcept (x : Except StoryError α) : Blind c K κ ρ (ofExcept x) := by
  cases x
  · exact blind_throw _
  · exact blind_pure _

/-! ## The evaluation stack, warnings and places -/

theorem blind_pop : Blind c K κ ρ pop := by
  refine blind_tryState fun s u h => ?_
  unfold State.pop
  rw [h.evaluation]
  split
  · exact .ok ⟨rfl, { h with evaluation := rfl }, id⟩
  · exact .error _

theorem blind_popMany (count : Nat) : Blind c K κ ρ (tryState fun s => s.popMany count) := by
  refine blind_tryState fun s u h => ?_
  unfold State.popMany
  dsimp only
  rw [h.evaluation]
  split
  · exact .error _
  · exact .ok ⟨rfl, { h with evaluation := rfl }, id⟩

theorem blind_push (token : Token) : Blind c K κ ρ (push token) :=
  blind_modifyState (fun _ _ h => h.push token) fun _ => rfl

theorem blind_pushInt (n : Int32) : Blind c K κ ρ (pushInt n) :=
  blind_push _

theorem blind_warn (message : String) : Blind c K κ ρ (warn message) :=
  blind_tree_bind (blind_modifyState (fun _ _ h => { h with }) fun _ => rfl)

theorem blind_warnIfSome (message : Option String) : Blind c K κ ρ (warnIfSome message) := by
  cases message
  · exact blind_pure ()
  · exact blind_warn _

theorem blind_popInt (cause : TypeFault) : Blind c K κ ρ (popInt cause) := by
  refine blind_bind blind_pop fun token => ?_
  split
  · exact blind_pure _
  · exact blind_throw _

theorem blind_popValue (cause : TypeFault) : Blind c K κ ρ (popValue cause) := by
  refine blind_bind blind_pop fun token => ?_
  split
  · exact blind_pure _
  · exact blind_throw _

theorem blind_popList (cause : TypeFault) : Blind c K κ ρ (popList cause) := by
  refine blind_bind blind_pop fun token => ?_
  split
  · exact blind_pure _
  · exact blind_throw _

theorem blind_divertTo (p : Path) : Blind c K κ ρ (divertTo p) := by
  refine blind_tree_bind (blind_bind (blind_ofExcept _) ?_)
  rintro ⟨place, warning⟩
  refine blind_bind (blind_warnIfSome warning) fun _ => ?_
  exact blind_modifyState (fun _ _ h => { h with diverted := rfl }) fun _ => rfl

theorem blind_readVariable? (name : String) : Blind c K κ ρ (readVariable? name) := by
  refine together_get_bind fun s u h => ?_
  rw [h.left, h.right, h.state.vars.read?_eq h.state.callStack]
  exact blind_pure _

theorem blind_popArguments (name : String) (popped : List Value) (count : Nat) :
    Blind c K κ ρ (popArguments name popped count) := by
  induction count generalizing popped with
  | zero => exact blind_pure popped
  | succ count ih =>
    refine blind_bind blind_pop fun token => ?_
    split
    · exact ih _
    · exact blind_throw _

end Flow

end StoryMachine
