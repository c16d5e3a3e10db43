import StoryMachine.Proofs.Alike.Flows
import StoryMachine.Proofs.Essence.States

/-!
# Computations of twins

Two stories are twins if their states have the same essence and their hosts have attached the same
to them. Computations run in tandem if they lead from twins to twins with results that are the same,
or fail with the same error.

* `Story.Twin` : stories that are twins;
* `Flow.Tandem`, `Flow.Steady` : two computations in tandem, and one that is so with itself;
* `Flow.tandem_bind`, `Flow.steady_bind` and their like : how they are put together;
* `Flow.tandem_pop_cases`, `Flow.tandem_push` : the evaluation stack.
-/

open List (Forall₂)

namespace StoryMachine

/-! ## Twins -/

/-- Functions that answer the same from now on, and may or may not be called ahead. -/
structure Binding.Twin (b d : Binding) : Prop where
  safe : b.lookaheadSafe = d.lookaheadSafe
  answers (later : Nat) {xs ys : List Value} (h : Forall₂ Value.SameAs xs ys) :
    Option.Rel Value.SameAs (b.function (b.calls + later + 1) xs)
      (d.function (d.calls + later + 1) ys)

/-- Calls of the same function with the same arguments. -/
structure PendingCall.Twin (a b : PendingCall) : Prop where
  name : a.name = b.name
  arguments : Forall₂ Value.SameAs a.arguments b.arguments

/-- Stories over the content `c` whose states have the same essence, and to which the same is
attached, observers apart. A line is in progress if `running` says so. -/
structure Story.Twin (c : Content) (running : Bool) (s u : Story) : Prop where
  left : s.content = c
  right : u.content = c
  state : s.state.Twin c.tree running u.state
  lineState : Option.Rel (State.Twin c.tree true) s.lineState u.lineState
  met : running = true → s.metUnsafeCall = u.metUnsafeCall
  lineOpen : s.lineOpen = u.lineOpen
  pending : Option.Rel PendingCall.Twin s.pending u.pending
  bindings (name : String) : Option.Rel Binding.Twin (s.bindings.get? name) (u.bindings.get? name)
  fallbacks : s.fallbacks = u.fallbacks
  handler : s.hasHandler = u.hasHandler

/-- Two runs both succeed with results that `A` relates, or fail with the same error, and leave
stories that `R` relates. -/
inductive Tally {α β : Type} (A : α → β → Prop) (R : Story → Story → Prop) :
    EStateM.Result StoryError Story α → EStateM.Result StoryError Story β → Prop
  | ok {a : α} {b : β} {s u : Story} (hresult : A a b) (hstory : R s u) :
      Tally A R (.ok a s) (.ok b u)
  | error (e : StoryError) {s u : Story} (hstory : R s u) : Tally A R (.error e s) (.error e u)

theorem isSome_eq_of_rel {α β : Type} {R : α → β → Prop} {x : Option α} {y : Option β}
    (h : Option.Rel R x y) : x.isSome = y.isSome := by
  cases h <;> rfl

theorem isNone_eq_of_rel {α β : Type} {R : α → β → Prop} {x : Option α} {y : Option β}
    (h : Option.Rel R x y) : x.isNone = y.isNone := by
  cases h <;> rfl

namespace Flow

variable {c : Content} {running : Bool} {α β γ δ : Type} {A : α → β → Prop} {B : γ → δ → Prop}

/-- Computations that lead from twins to twins with results that `A` relates, or fail with the same
error. -/
def Tandem (c : Content) (running : Bool) (A : α → β → Prop) (x : Flow α) (y : Flow β) : Prop :=
  ∀ ⦃s u : Story⦄, s.Twin c running u → Tally A (Story.Twin c running) (x s) (y u)

/-- A computation that runs in tandem with itself. -/
abbrev Steady (c : Content) (running : Bool) (x : Flow α) : Prop :=
  Tandem c running Eq x x

/-! ## Putting computations together -/

theorem tandem_pure {a : α} {b : β} (h : A a b) : Tandem c running A (pure a) (pure b) :=
  fun _ _ hs => .ok h hs

theorem tandem_throw (e : StoryError) : Tandem c running A (throw e) (throw e) :=
  fun _ _ hs => .error e hs

theorem tandem_bind {x : Flow α} {y : Flow β} {k : α → Flow γ} {l : β → Flow δ}
    (hx : Tandem c running A x y) (hk : ∀ a b, A a b → Tandem c running B (k a) (l b)) :
    Tandem c running B (x >>= k) (y >>= l) := by
  intro s u hs
  have hrun := hx hs
  generalize hxs : x s = p at hrun
  generalize hyu : y u = q at hrun
  cases hrun with
  | ok h hstory =>
    rw [bind_ok hxs, bind_ok hyu]
    exact hk _ _ h hstory
  | error e hstory =>
    rw [bind_error hxs, bind_error hyu]
    exact .error e hstory

theorem steady_bind {x : Flow α} {k : α → Flow γ} {l : α → Flow δ} (hx : Steady c running x)
    (hk : ∀ a, Tandem c running B (k a) (l a)) : Tandem c running B (x >>= k) (x >>= l) :=
  tandem_bind hx fun _ _ h => h ▸ hk _

theorem tandem_ite {p : Prop} [Decidable p] {x y : Flow α} {x' y' : Flow β}
    (hx : Tandem c running A x x') (hy : Tandem c running A y y') :
    Tandem c running A (if p then x else y) (if p then x' else y') := by
  split
  · exact hx
  · exact hy

/-- A check in front of computations. -/
theorem tandem_unless {p : Prop} [Decidable p] (e : StoryError) {x : Flow α} {y : Flow β}
    (h : Tandem c running A x y) : Tandem c running A
      (do
        if p then throw e
        x)
      (do
        if p then throw e
        y) := by
  dsimp only
  split
  · exact steady_bind (tandem_throw e) fun _ : Unit => h
  · exact h

theorem tandem_get_bind {k : Story → Flow α} {l : Story → Flow β}
    (h : ∀ s u, s.Twin c running u → Tandem c running A (k s) (l u)) :
    Tandem c running A (get >>= k) (get >>= l) :=
  fun s u hs => h s u hs hs

theorem tandem_state_bind {k : State → Flow α} {l : State → Flow β}
    (h : ∀ s u : State, s.Twin c.tree running u → Tandem c running A (k s) (l u)) :
    Tandem c running A (state >>= k) (state >>= l) :=
  fun s u hs => h s.state u.state hs.state hs

theorem tandem_tree_bind {k : ContentTree → Flow α} {l : ContentTree → Flow β}
    (h : Tandem c running A (k c.tree) (l c.tree)) :
    Tandem c running A (tree >>= k) (tree >>= l) := by
  intro s u hs
  have hleft : (tree >>= k) s = k s.content.tree s := rfl
  have hright : (tree >>= l) u = l u.content.tree u := rfl
  rw [hleft, hright, hs.left, hs.right]
  exact h hs

theorem tandem_modifyState {f g : State → State}
    (h : ∀ s u : State, s.Twin c.tree running u → (f s).Twin c.tree running (g u)) :
    Tandem c running Eq (modifyState f) (modifyState g) :=
  fun _ _ hs => .ok rfl { hs with state := h _ _ hs.state }

theorem tandem_modify {f g : Story → Story}
    (h : ∀ s u : Story, s.Twin c running u → (f s).Twin c running (g u)) :
    Tandem c running Eq (modify f) (modify g) :=
  fun _ _ hs => .ok rfl (h _ _ hs)

theorem tandem_withState {f g : State → α × State}
    (h : ∀ s u : State, s.Twin c.tree running u →
      (f s).1 = (g u).1 ∧ (f s).2.Twin c.tree running (g u).2) :
    Tandem c running Eq (withState f) (withState g) := by
  intro s u hs
  obtain ⟨hresult, hstate⟩ := h _ _ hs.state
  exact .ok hresult { hs with state := hstate }

theorem tandem_tryState {f : State → Except StoryError (α × State)}
    {g : State → Except StoryError (β × State)}
    (h : ∀ s u : State, s.Twin c.tree running u →
      Agree (fun p q => A p.1 q.1 ∧ p.2.Twin c.tree running q.2) (f s) (g u)) :
    Tandem c running A (tryState f) (tryState g) := by
  intro s u hs
  have hfg := h s.state u.state hs.state
  rw [tryState_eq, tryState_eq]
  generalize f s.state = p at hfg
  generalize g u.state = q at hfg
  cases hfg with
  | ok hpq => exact .ok hpq.1 { hs with state := hpq.2 }
  | error e => exact .error e hs

theorem tandem_ofExcept {x : Except StoryError α} {y : Except StoryError β} (h : Agree A x y) :
    Tandem c running A (ofExcept x) (ofExcept y) := by
  cases h with
  | ok h => exact tandem_pure h
  | error e => exact tandem_throw e

theorem steady_ofExcept (x : Except StoryError α) : Steady c running (ofExcept x) :=
  tandem_ofExcept (.of_refl (fun _ => rfl) x)

/-- A change of the state that succeeds without a result, or fails. -/
theorem tandem_change {f g : State → Except StoryError State}
    (h : ∀ s u : State, s.Twin c.tree running u → Agree (State.Twin c.tree running) (f s) (g u)) :
    Tandem c running Eq (tryState fun s => return ((), ← f s)) (tryState fun s => return ((), ← g s)) :=
  tandem_tryState fun s u hs => (h s u hs).bind fun _ _ hstate => .ok ⟨rfl, hstate⟩

/-! ## The evaluation stack -/

/-- Computations that go on with what is popped. -/
theorem tandem_pop_bind {k : Token → Flow α} {l : Token → Flow β}
    (h : ∀ a b : Token, a.SameAs b → Tandem c running A (k a) (l b)) :
    Tandem c running A (pop >>= k) (pop >>= l) := by
  refine tandem_bind (A := Token.SameAs) (tandem_tryState fun s u hs => ?_) h
  unfold State.pop
  have hevaluation := hs.evaluation
  generalize s.evaluation = xs at hevaluation ⊢
  generalize u.evaluation = ys at hevaluation ⊢
  cases hevaluation with
  | nil => exact .error _
  | cons hab hrest => exact .ok ⟨hab, { hs with evaluation := hrest }⟩

/-- Computations that go on with what is popped, and do the same for all lists. -/
theorem tandem_pop_cases {k : Token → Flow α} {l : Token → Flow β}
    (hsame : ∀ a, Tandem c running A (k a) (l a))
    (hlist : ∀ x y : ListValue, x.SameAs y →
      Tandem c running A (k (.value (.list x))) (l (.value (.list y)))) :
    Tandem c running A (pop >>= k) (pop >>= l) :=
  tandem_pop_bind fun a b hab => by
    cases hab with
    | refl => exact hsame a
    | list h => exact hlist _ _ h

theorem tandem_popMany (count : Nat) : Tandem c running (Forall₂ Token.SameAs)
    (tryState fun s => s.popMany count) (tryState fun s => s.popMany count) := by
  refine tandem_tryState fun s u hs => ?_
  have htaken := List.forall₂_take count hs.evaluation
  unfold State.popMany
  dsimp only
  rw [htaken.length_eq]
  split
  · exact .error _
  · exact .ok ⟨List.rel_reverse htaken,
      { hs with evaluation := List.forall₂_drop count hs.evaluation }⟩

theorem tandem_push {a b : Token} (h : a.SameAs b) : Tandem c running Eq (push a) (push b) :=
  tandem_modifyState fun _ _ hs => hs.push h

theorem steady_push (token : Token) : Steady c running (push token) :=
  tandem_push (.refl token)

theorem steady_pushInt (n : Int32) : Steady c running (pushInt n) :=
  steady_push _

theorem steady_warn (message : String) : Steady c running (warn message) :=
  tandem_tree_bind (tandem_modifyState fun _ _ hs => hs.withWarnings _ _)

theorem steady_warnIfSome (message : Option String) : Steady c running (warnIfSome message) := by
  cases message with
  | none => exact tandem_pure rfl
  | some => exact steady_warn _

theorem steady_popInt (cause : TypeFault) : Steady c running (popInt cause) := by
  refine tandem_pop_cases (fun a => ?_) fun _ _ _ => tandem_throw _
  split
  · exact tandem_pure rfl
  · exact tandem_throw _

theorem tandem_popValue (cause : TypeFault) :
    Tandem c running Value.SameAs (popValue cause) (popValue cause) := by
  refine tandem_pop_cases (fun a => ?_) fun _ _ h => tandem_pure (.list h)
  split
  · exact tandem_pure (.refl _)
  · exact tandem_throw _

theorem tandem_popList (cause : TypeFault) :
    Tandem c running ListValue.SameAs (popList cause) (popList cause) := by
  refine tandem_pop_cases (fun a => ?_) fun _ _ h => tandem_pure h
  split
  · exact tandem_pure (.refl _)
  · exact tandem_throw _

theorem tandem_popArguments (name : String) {popped popped' : List Value}
    (h : Forall₂ Value.SameAs popped popped') (count : Nat) :
    Tandem c running (Forall₂ Value.SameAs) (popArguments name popped count)
      (popArguments name popped' count) := by
  induction count generalizing popped popped' with
  | zero => exact tandem_pure h
  | succ count ih =>
    refine tandem_pop_cases (fun a => ?_) fun _ _ hlist => ih (.cons (.list hlist) h)
    split
    · exact ih (.cons (.refl _) h)
    · exact tandem_throw _

end Flow

end StoryMachine
