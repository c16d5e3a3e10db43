import Mathlib.Data.List.Forall2
import StoryMachine.State.Basic

/-!
# States that a story cannot tell apart

Two states are alike if they differ in nothing that decides how a story goes on, except for the
output: the numbers of threads, the warnings and the names noted for observers do not count, and
a `Likeness` says what is asked of the marks in frames of functions and of a deliberate end.

* `Likeness` : which marks count as alike;
* `Frame.Alike`, `Thread.Alike`, `CallStack.Alike`, `Variables.Alike`, `State.Alike` : parts of
  a state, and states, that are alike;
* `Agree` : computations that fail in the same way, or both succeed with related results;
* `CallStack.Alike.setTemporary`, `Variables.Alike.read?_eq`, `Variables.Alike.assign` and their
  like : what is read from parts that are alike is the same, and what is written to them leaves
  them alike.
-/

open List (Forall₂)

namespace StoryMachine

/-- Which marks count as alike: in frames of functions, those where their text begins, and
those of a deliberate end. -/
structure Likeness where
  mark : Option Nat → Option Nat → Prop
  mark_none : mark none none
  exit : Bool → Bool → Prop
  exit_refl (b : Bool) : exit b b

/-- Marks that are equal are alike. -/
def Likeness.equal : Likeness where
  mark := (· = ·)
  mark_none := rfl
  exit := (· = ·)
  exit_refl _ := rfl

/-- Two computations fail in the same way, or both succeed with related results. -/
inductive Agree {α β : Type} (A : α → β → Prop) :
    Except StoryError α → Except StoryError β → Prop
  | ok {a : α} {b : β} (h : A a b) : Agree A (.ok a) (.ok b)
  | error (e : StoryError) : Agree A (.error e) (.error e)

theorem Agree.map {α β γ δ : Type} {A : α → β → Prop} {B : γ → δ → Prop}
    {x : Except StoryError α} {y : Except StoryError β} {f : α → γ} {g : β → δ}
    (h : Agree A x y) (hf : ∀ a b, A a b → B (f a) (g b)) : Agree B (x.map f) (y.map g) := by
  cases h with
  | ok h => exact .ok (hf _ _ h)
  | error e => exact .error e

theorem Agree.bind {α β γ δ : Type} {A : α → β → Prop} {B : γ → δ → Prop}
    {x : Except StoryError α} {y : Except StoryError β} {k : α → Except StoryError γ}
    {l : β → Except StoryError δ} (h : Agree A x y) (hk : ∀ a b, A a b → Agree B (k a) (l b)) :
    Agree B (x >>= k) (y >>= l) := by
  cases h with
  | ok h => exact hk _ _ h
  | error e => exact .error e

variable {t : ContentTree} {K : Likeness}

/-! ## Lists of parts -/

section Lists

variable {α β : Type} {R : α → β → Prop} {l : List α} {m : List β}

theorem rel_getElem? (h : Forall₂ R l m) (i : Nat) : Option.Rel R l[i]? m[i]? := by
  induction h generalizing i with
  | nil => exact .none
  | cons hab _ ih =>
    cases i with
    | zero => exact .some hab
    | succ i => exact ih i

theorem forall₂_modify {f : α → α} {g : β → β} (h : Forall₂ R l m)
    (hf : ∀ a b, R a b → R (f a) (g b)) (i : Nat) : Forall₂ R (l.modify i f) (m.modify i g) := by
  induction h generalizing i with
  | nil => simp
  | cons hab hrest ih =>
    cases i with
    | zero => simpa using ⟨hf _ _ hab, hrest⟩
    | succ i => simpa using ⟨hab, ih i⟩

theorem isEmpty_eq_of_forall₂ (h : Forall₂ R l m) : l.isEmpty = m.isEmpty := by
  cases h <;> rfl

end Lists

/-! ## Frames, threads and stacks -/

/-- Frames that are alike. -/
structure Frame.Alike (K : Likeness) (f g : Frame) : Prop where
  kind : f.kind = g.kind
  cursor : f.cursor = g.cursor
  inExpression : f.inExpression = g.inExpression
  temporaries : f.temporaries = g.temporaries
  height : f.evaluationHeight = g.evaluationHeight
  mark : f.kind = .function → K.mark f.outputStart g.outputStart

/-- Threads that are alike, whatever their numbers. -/
structure Thread.Alike (K : Likeness) (s u : Thread) : Prop where
  top : s.top.Alike K u.top
  below : Forall₂ (Frame.Alike K) s.below u.below
  previous : s.previous = u.previous

/-- Call stacks that are alike, whatever the number of threads made. -/
structure CallStack.Alike (K : Likeness) (s u : CallStack) : Prop where
  current : s.current.Alike K u.current
  others : Forall₂ (Thread.Alike K) s.others u.others

theorem Frame.alike_refl (hK : ∀ m, K.mark m m) (f : Frame) : f.Alike K f :=
  ⟨rfl, rfl, rfl, rfl, rfl, fun _ => hK _⟩

theorem Thread.alike_refl (hK : ∀ m, K.mark m m) (s : Thread) : s.Alike K s :=
  ⟨s.top.alike_refl hK, List.forall₂_same.mpr fun f _ => f.alike_refl hK, rfl⟩

theorem CallStack.alike_refl (hK : ∀ m, K.mark m m) (s : CallStack) : s.Alike K s :=
  ⟨s.current.alike_refl hK, List.forall₂_same.mpr fun f _ => f.alike_refl hK⟩

namespace Thread

variable {s u : Thread}

theorem Alike.frame? (h : s.Alike K u) (i : Nat) :
    Option.Rel (Frame.Alike K) (s.frame? i) (u.frame? i) := by
  unfold Thread.frame?
  rw [h.below.length_eq]
  split
  · exact .some h.top
  · split
    · exact rel_getElem? h.below _
    · exact .none

theorem Alike.modifyFrame (h : s.Alike K u) (i : Nat) {f : Frame → Frame}
    (hf : ∀ a b : Frame, a.Alike K b → (f a).Alike K (f b)) :
    (s.modifyFrame i f).Alike K (u.modifyFrame i f) := by
  unfold Thread.modifyFrame
  rw [h.below.length_eq]
  split
  · exact ⟨hf _ _ h.top, h.below, h.previous⟩
  · split
    · exact ⟨h.top, forall₂_modify h.below hf _, h.previous⟩
    · exact h

theorem Alike.depth_eq (h : s.Alike K u) : s.depth = u.depth := by
  unfold Thread.depth
  rw [h.below.length_eq]

/-- What does not look at marks is the same for all frames. -/
theorem Alike.map_frames {α : Type} (h : s.Alike K u) {f : Frame → α}
    (hf : ∀ a b : Frame, a.Alike K b → f a = f b) : s.frames.map f = u.frames.map f := by
  have hframes : Forall₂ (Frame.Alike K) s.frames u.frames :=
    List.rel_reverse (.cons h.top h.below)
  generalize s.frames = fs at hframes
  generalize u.frames = gs at hframes
  induction hframes with
  | nil => rfl
  | cons hab _ ih => rw [List.map_cons, List.map_cons, hf _ _ hab, ih]

end Thread

namespace CallStack

variable {s u : CallStack}

theorem Alike.top (h : s.Alike K u) : s.top.Alike K u.top :=
  h.current.top

theorem Alike.depth_eq (h : s.Alike K u) : s.depth = u.depth :=
  h.current.depth_eq

theorem Alike.inHostCall_eq (h : s.Alike K u) : s.inHostCall = u.inHostCall := by
  unfold CallStack.inHostCall
  rw [h.top.kind]

theorem Alike.canPop_eq (h : s.Alike K u) : s.canPop = u.canPop := by
  unfold CallStack.canPop
  rw [isEmpty_eq_of_forall₂ h.current.below]

theorem Alike.canPopKind_eq (h : s.Alike K u) (k : FrameKind) :
    s.canPopKind k = u.canPopKind k := by
  unfold CallStack.canPopKind
  rw [h.canPop_eq, h.top.kind]

theorem Alike.canPopThread_eq (h : s.Alike K u) : s.canPopThread = u.canPopThread := by
  unfold CallStack.canPopThread
  rw [isEmpty_eq_of_forall₂ h.others, h.inHostCall_eq]

theorem Alike.depths_eq (h : s.Alike K u) :
    s.threads.map Thread.depth = u.threads.map Thread.depth := by
  have hthreads : Forall₂ (Thread.Alike K) s.threads u.threads :=
    List.rel_reverse (.cons h.current h.others)
  generalize s.threads = fs at hthreads
  generalize u.threads = gs at hthreads
  induction hthreads with
  | nil => rfl
  | cons hab _ ih => rw [List.map_cons, List.map_cons, hab.depth_eq, ih]

theorem Alike.modifyTop (h : s.Alike K u) {f g : Frame → Frame}
    (hf : (f s.top).Alike K (g u.top)) : (s.modifyTop f).Alike K (u.modifyTop g) :=
  ⟨⟨hf, h.current.below, h.current.previous⟩, h.others⟩

theorem Alike.setPrevious (h : s.Alike K u) (c : Option Cursor) :
    Alike K { s with current := { s.current with previous := c } }
      { u with current := { u.current with previous := c } } :=
  ⟨⟨h.current.top, h.current.below, rfl⟩, h.others⟩

/-- At the start no function is running. -/
theorem alike_reset (s u : CallStack) : s.reset.Alike K u.reset :=
  ⟨⟨⟨rfl, rfl, rfl, rfl, rfl, nofun⟩, .nil, rfl⟩, .nil⟩

theorem Alike.pushThread (h : s.Alike K u) : s.pushThread.Alike K u.pushThread :=
  ⟨⟨h.current.top, h.current.below, h.current.previous⟩, .cons h.current h.others⟩

theorem alike_resume {a b : Thread} (h : a.Alike K b) (s u : CallStack) :
    (s.resume a).Alike K (u.resume b) :=
  ⟨h, .nil⟩

theorem Alike.fork (h : s.Alike K u) :
    s.fork.1.Alike K u.fork.1 ∧ s.fork.2.Alike K u.fork.2 :=
  ⟨⟨h.current.top, h.current.below, h.current.previous⟩, h.current, h.others⟩

theorem Alike.pop (h : s.Alike K u) : Agree (Alike K) s.pop u.pop := by
  have hbelow := h.current.below
  unfold CallStack.pop
  cases hs : s.current.below with
  | nil =>
    rw [hs, List.forall₂_nil_left_iff] at hbelow
    rw [hbelow]
    exact .error _
  | cons f fs =>
    rw [hs] at hbelow
    obtain ⟨g, gs, hf, hfs, hu⟩ := List.forall₂_cons_left_iff.mp hbelow
    rw [hu]
    exact .ok ⟨⟨hf, hfs, h.current.previous⟩, h.others⟩

theorem Alike.popKind (h : s.Alike K u) (k : FrameKind) :
    Agree (Alike K) (s.popKind k) (u.popKind k) := by
  unfold CallStack.popKind
  rw [h.top.kind]
  split
  · exact h.pop
  · exact .error _

theorem Alike.popThread (h : s.Alike K u) : Agree (Alike K) s.popThread u.popThread := by
  have hothers := h.others
  unfold CallStack.popThread
  rw [h.inHostCall_eq]
  cases hs : s.others with
  | nil =>
    rw [hs, List.forall₂_nil_left_iff] at hothers
    rw [hothers]
    exact .error _
  | cons a as =>
    rw [hs] at hothers
    obtain ⟨b, bs, hab, hrest, hu⟩ := List.forall₂_cons_left_iff.mp hothers
    rw [hu]
    dsimp only
    split
    · exact .error _
    · exact .ok ⟨hab, hrest⟩

/-- A frame that is pushed starts its text where the output stands. -/
theorem Alike.push (h : s.Alike K u) {k : FrameKind} (height : Nat) {n m : Nat}
    (hmark : k = .function → K.mark (some n) (some m)) :
    (s.push k height n).Alike K (u.push k height m) :=
  ⟨⟨⟨rfl, h.top.cursor, rfl, rfl, rfl, hmark⟩, .cons h.current.top h.current.below,
    h.current.previous⟩, h.others⟩

theorem Alike.trace_eq (h : s.Alike K u) (t : ContentTree) : s.trace t = u.trace t := by
  have hlines : ∀ (count number : Nat) (a b : Thread), a.Alike K b →
      threadLines t count number a = threadLines t count number b := by
    intro count number a b hab
    unfold threadLines
    rw [hab.map_frames fun f g hfg => by rw [frameLine, frameLine, hfg.kind, hfg.cursor]]
  have hthreads : Forall₂ (Thread.Alike K) s.threads u.threads :=
    List.rel_reverse (.cons h.current h.others)
  unfold trace
  dsimp only
  rw [h.others.length_eq]
  refine congrArg String.join (List.ext_getElem? fun i => ?_)
  rw [List.getElem?_mapIdx, List.getElem?_mapIdx]
  have hi := rel_getElem? hthreads i
  generalize s.threads[i]? = a at hi
  generalize u.threads[i]? = b at hi
  cases hi with
  | none => rfl
  | some hab => exact congrArg some (hlines _ _ _ _ hab)

/-! ### Temporary variables -/

theorem Alike.scopeFrame? (h : s.Alike K u) (scope : Int) :
    Option.Rel (Frame.Alike K) (s.scopeFrame? scope) (u.scopeFrame? scope) := by
  unfold CallStack.scopeFrame?
  split
  · exact .some h.top
  · split
    · exact h.current.frame? _
    · exact .none

theorem Alike.temporary?_eq (h : s.Alike K u) (name : String) (scope : Int) :
    s.temporary? name scope = u.temporary? name scope := by
  have hframe := h.scopeFrame? scope
  unfold CallStack.temporary?
  generalize s.scopeFrame? scope = f at hframe
  generalize u.scopeFrame? scope = g at hframe
  cases hframe with
  | none => rfl
  | some hf =>
    show Option.bind (some _) _ = Option.bind (some _) _
    rw [Option.bind_some, Option.bind_some, hf.temporaries]

theorem Alike.putTemporary (h : s.Alike K u) (scope : Int) (name : String) (v : Value) :
    (s.putTemporary scope name v).Alike K (u.putTemporary scope name v) := by
  have hput : ∀ f g : Frame, f.Alike K g →
      Frame.Alike K { f with temporaries := f.temporaries.insert name v }
        { g with temporaries := g.temporaries.insert name v } := fun f g hf =>
    { hf with temporaries := congrArg (fun ts : Table Value => ts.insert name v) hf.temporaries }
  unfold CallStack.putTemporary CallStack.modifyScopeFrame
  split
  · exact h.modifyTop (hput _ _ h.top)
  · split
    · exact ⟨h.current.modifyFrame _ hput, h.others⟩
    · exact h

theorem Alike.setTemporary (h : s.Alike K u) (name : String) (v : Value) (isDeclaration : Bool)
    (scope : Int) : Agree (Alike K) (s.setTemporary name v isDeclaration scope)
      (u.setTemporary name v isDeclaration scope) := by
  have hframe := h.scopeFrame? scope
  unfold CallStack.setTemporary
  generalize s.scopeFrame? scope = f at hframe ⊢
  generalize u.scopeFrame? scope = g at hframe ⊢
  cases hframe with
  | none => exact .error _
  | some hf =>
    dsimp only
    rw [hf.temporaries]
    split
    · exact .ok (h.putTemporary scope name _)
    · split
      · exact .ok (h.putTemporary scope name _)
      · exact .error _

theorem Alike.scopeOf_eq (h : s.Alike K u) (name : String) : s.scopeOf name = u.scopeOf name := by
  unfold CallStack.scopeOf
  rw [h.top.temporaries, h.depth_eq]

end CallStack

/-! ## Variables -/

/-- Variables that are alike, whoever watches them. -/
structure Variables.Alike (v w : Variables) : Prop where
  globals : v.globals = w.globals
  defaults : v.defaults = w.defaults

namespace Variables

variable {v w : Variables} {s u : CallStack}

theorem alike_refl (v : Variables) : v.Alike v :=
  ⟨rfl, rfl⟩

theorem Alike.get?_eq (h : v.Alike w) (name : String) : v.get? name = w.get? name := by
  unfold Variables.get?
  rw [h.globals, h.defaults]

theorem Alike.declares_eq (h : v.Alike w) (name : String) :
    v.declares name = w.declares name := by
  unfold Variables.declares
  rw [h.globals, h.defaults]

theorem Alike.raw?_eq (h : v.Alike w) (hs : s.Alike K u) (lists : ListDefinitions)
    (name : String) (scope : Int) : v.raw? lists s name scope = w.raw? lists u name scope := by
  unfold Variables.raw?
  rw [h.get?_eq, hs.temporary?_eq]

/-- A chain of references is followed to the same variable. -/
theorem Alike.follow_eq (h : v.Alike w) (hs : s.Alike K u) (lists : ListDefinitions)
    (bound : Nat) (name : String) (scope : Int) :
    v.follow lists s bound name scope = w.follow lists u bound name scope := by
  induction bound generalizing name scope with
  | zero => rfl
  | succ bound ih =>
    rw [Variables.follow, Variables.follow, h.raw?_eq hs]
    split
    · exact ih _ _
    · rfl

theorem Alike.target_eq (h : v.Alike w) (hs : s.Alike K u) (lists : ListDefinitions)
    (name : String) : v.target lists s name = w.target lists u name := by
  unfold Variables.target Variables.chainBound
  rw [h.raw?_eq hs, h.globals, h.defaults,
    hs.current.map_frames fun f g hfg => by rw [hfg.temporaries]]
  split
  · exact h.follow_eq hs lists _ _ _
  · rfl

theorem Alike.read?_eq (h : v.Alike w) (hs : s.Alike K u) (lists : ListDefinitions)
    (name : String) : v.read? lists s name = w.read? lists u name := by
  unfold Variables.read?
  rw [h.target_eq hs]
  exact h.raw?_eq hs lists _ _

theorem Alike.resolveReference_eq (h : v.Alike w) (hs : s.Alike K u) (lists : ListDefinitions)
    (name : String) (scope : Int) :
    v.resolveReference lists s name scope = w.resolveReference lists u name scope := by
  unfold Variables.resolveReference
  rw [h.declares_eq, hs.depth_eq]
  dsimp only
  rw [h.raw?_eq hs]

theorem Alike.put (h : v.Alike w) (name : String) (value : Value) :
    (v.put name value).Alike (w.put name value) := by
  unfold Variables.put
  rw [h.globals]
  exact ⟨rfl, h.defaults⟩

/-- Variables and call stack behind an assignment. -/
theorem Alike.assign (h : v.Alike w) (hs : s.Alike K u) (lists : ListDefinitions)
    (a : Assignment) (value : Value) :
    Agree (fun p q => p.1.Alike q.1 ∧ p.2.Alike K q.2) (v.assign lists s a value)
      (w.assign lists u a value) := by
  have hscoped : ∀ (name : String) (isDeclaration : Bool) (scope : Int) (value : Value),
      Agree (fun p q : Variables × CallStack => p.1.Alike q.1 ∧ p.2.Alike K q.2)
        ((s.setTemporary name value isDeclaration scope).map (v, ·))
        ((u.setTemporary name value isDeclaration scope).map (w, ·)) :=
    fun name isDeclaration scope value =>
      (hs.setTemporary name value isDeclaration scope).map fun _ _ hstack => ⟨h, hstack⟩
  have hdeclared : ∀ value : Value,
      Agree (fun p q : Variables × CallStack => p.1.Alike q.1 ∧ p.2.Alike K q.2)
        (if a.isGlobal then .ok (v.put a.name value, s)
          else (s.setTemporary a.name value true unknownScope).map (v, ·))
        (if a.isGlobal then .ok (w.put a.name value, u)
          else (u.setTemporary a.name value true unknownScope).map (w, ·)) := by
    intro value
    split
    · exact .ok ⟨h.put _ _, hs⟩
    · exact hscoped _ _ _ _
  unfold Variables.assign
  split
  · cases value with
    | reference name scope =>
      dsimp only
      rw [h.resolveReference_eq hs]
      exact hdeclared _
    | _ => exact hdeclared _
  · rw [h.target_eq hs]
    generalize w.target lists u a.name = place
    obtain ⟨name, scope⟩ := place
    dsimp only
    rw [h.declares_eq]
    generalize (if (name, scope) = (a.name, unknownScope) then w.declares name
      else decide (scope = globalScope)) = isGlobal
    cases isGlobal with
    | true => exact .ok ⟨h.put _ _, hs⟩
    | false => exact hscoped _ _ _ _

end Variables

/-! ## States -/

/-- Choices that are alike, whatever the numbers of their threads. -/
structure Choice.Alike (K : Likeness) (c d : Choice) : Prop where
  offer : { c.toOffer with threadNumber := 0 } = { d.toOffer with threadNumber := 0 }
  thread : c.thread.Alike K d.thread

namespace Choice

variable {c d : Choice}

theorem Alike.isInvisible (h : c.Alike K d) : c.isInvisible = d.isInvisible := by
  have heq := congrArg Offer.isInvisible h.offer
  exact heq

theorem Alike.target (h : c.Alike K d) : c.target = d.target := by
  have heq := congrArg Offer.target h.offer
  exact heq

end Choice

/-- States that are alike but for the output. -/
structure State.Alike (K : Likeness) (s u : State) : Prop where
  callStack : s.callStack.Alike K u.callStack
  vars : s.vars.Alike u.vars
  evaluation : s.evaluation = u.evaluation
  choices : Forall₂ (Choice.Alike K) s.choices u.choices
  diverted : s.diverted = u.diverted
  visits : s.visits = u.visits
  turns : s.turns = u.turns
  turn : s.turn = u.turn
  seed : s.seed = u.seed
  drawn : s.drawn = u.drawn
  errors : s.errors = u.errors
  firstError : s.firstError = u.firstError
  safeExit : K.exit s.safeExit u.safeExit

namespace State

variable {s u : State}

theorem alike_refl (hK : ∀ m, K.mark m m) (s : State) : s.Alike K s :=
  ⟨s.callStack.alike_refl hK, s.vars.alike_refl, rfl,
    List.forall₂_same.mpr fun _ _ => ⟨rfl, Thread.alike_refl hK _⟩, rfl, rfl, rfl, rfl, rfl, rfl, rfl,
    rfl, K.exit_refl _⟩

theorem Alike.cursor_eq (h : s.Alike K u) : s.cursor = u.cursor :=
  h.callStack.top.cursor

theorem Alike.inExpression_eq (h : s.Alike K u) : s.inExpression = u.inExpression :=
  h.callStack.top.inExpression

theorem Alike.hasError_eq (h : s.Alike K u) : s.hasError = u.hasError := by
  unfold State.hasError
  rw [h.errors]

theorem Alike.canContinue_eq (h : s.Alike K u) : s.canContinue = u.canContinue := by
  unfold State.canContinue
  rw [h.cursor_eq, h.hasError_eq]

theorem Alike.push (h : s.Alike K u) (token : Token) : (s.push token).Alike K (u.push token) :=
  { h with evaluation := congrArg (token :: ·) h.evaluation }

theorem Alike.modifyTop (h : s.Alike K u) {f : Frame → Frame}
    (hf : (f s.callStack.top).Alike K (f u.callStack.top)) :
    State.Alike K { s with callStack := s.callStack.modifyTop f }
      { u with callStack := u.callStack.modifyTop f } :=
  { h with callStack := h.callStack.modifyTop hf }

theorem Alike.setCursor (h : s.Alike K u) (c : Option Cursor) :
    (s.setCursor c).Alike K (u.setCursor c) :=
  h.modifyTop (f := fun f => { f with cursor := c }) { h.callStack.top with cursor := rfl }

theorem Alike.setInExpression (h : s.Alike K u) (b : Bool) :
    (s.setInExpression b).Alike K (u.setInExpression b) :=
  h.modifyTop (f := fun f => { f with inExpression := b })
    { h.callStack.top with inExpression := rfl }

theorem Alike.setPrevious (h : s.Alike K u) (c : Option Cursor) :
    (s.setPrevious c).Alike K (u.setPrevious c) :=
  { h with callStack := h.callStack.setPrevious c }

theorem Alike.enter (h : s.Alike K u) (id : NodeId) (atStart : Bool) :
    (s.enter t id atStart).Alike K (u.enter t id atStart) := by
  unfold State.enter
  split
  · exact h
  · split
    · exact h
    · dsimp only
      rw [h.visits, h.turns, h.turn]
      exact { h with visits := rfl, turns := rfl, turn := rfl }

theorem Alike.enterAncestors (opened : List NodeId) (h : s.Alike K u) (child : NodeId)
    (atStart : Bool) (ids : List NodeId) :
    (State.enterAncestors t opened s child atStart ids).Alike K
      (State.enterAncestors t opened u child atStart ids) := by
  induction ids generalizing s u child atStart with
  | nil => exact h
  | cons id rest ih =>
    rw [State.enterAncestors, State.enterAncestors]
    split
    · exact h
    · dsimp only
      split
      · exact h
      · exact ih (h.enter id _) _ _

theorem Alike.enterByJump (h : s.Alike K u) : (s.enterByJump t).Alike K (u.enterByJump t) := by
  have hbefore : s.openBefore t = u.openBefore t := by
    unfold State.openBefore State.previous
    rw [h.callStack.current.previous]
  unfold State.enterByJump
  rw [h.cursor_eq, hbefore]
  split
  · exact h
  · split
    · exact h
    · split
      · exact h
      · exact h.enterAncestors _ _ _ _

theorem Alike.warnAll (h : s.Alike K u) (messages : List String) :
    (s.warnAll t messages).Alike K (u.warnAll t messages) := by
  unfold State.warnAll
  induction messages generalizing s u with
  | nil => exact h
  | cons message rest ih => exact ih { h with }

theorem Alike.forceEnd (h : s.Alike K u) : s.forceEnd.Alike K u.forceEnd :=
  { h with
    callStack := ((CallStack.alike_reset s.callStack u.callStack).modifyTop
      (f := fun f => { f with cursor := none }) (g := fun f => { f with cursor := none })
      ⟨rfl, rfl, rfl, rfl, rfl, nofun⟩).setPrevious none
    choices := .nil
    safeExit := K.exit_refl true }

theorem Alike.fail (h : s.Alike K u) (e : StoryError) : (s.fail t e).Alike K (u.fail t e) := by
  have hlocated : s.located t "ERROR" e.detail = u.located t "ERROR" e.detail := by
    unfold State.located
    rw [h.cursor_eq]
  refine Alike.forceEnd { h with errors := ?_, firstError := ?_ }
  · show s.errors ++ [_] = u.errors ++ [_]
    rw [h.errors, hlocated]
  · show s.firstError.or _ = u.firstError.or _
    rw [h.firstError]

theorem Alike.leaveHostCall (h : s.Alike K u) : s.leaveHostCall.Alike K u.leaveHostCall := by
  unfold State.leaveHostCall
  rw [h.callStack.inHostCall_eq]
  split
  · exact { h.setCursor none with safeExit := K.exit_refl true }
  · exact h

theorem Alike.offer (h : s.Alike K u) (o : Offer) : (s.offer o).Alike K (u.offer o) := by
  obtain ⟨hthread, hstack⟩ := h.callStack.fork
  exact { h with
    callStack := hstack
    choices := List.rel_append h.choices (.cons ⟨rfl, hthread⟩ .nil) }

/-- A jump leads to the same place, or fails, in both states. -/
theorem Alike.jump (h : s.Alike K u) (p : Path) (countTurn : Bool) :
    (s.jump t p countTurn).1.Alike K (u.jump t p countTurn).1 ∧
      (s.jump t p countTurn).2 = (u.jump t p countTurn).2 := by
  have hclear : State.Alike K { s with choices := [] } { u with choices := [] } :=
    { h with choices := .nil }
  unfold State.jump
  dsimp only
  split
  · exact ⟨hclear, rfl⟩
  · next place warning _ =>
    have hmove := (hclear.warnAll (t := t) warning.toList).setCursor
      (place.map fun c => if c.index = -1 then { c with index := 0 } else c)
    refine ⟨?_, rfl⟩
    split
    · exact { hmove with turn := congrArg (· + 1) hmove.turn }
    · exact hmove

theorem Alike.advance (h : s.Alike K u) :
    (s.advance t).1 = (u.advance t).1 ∧ (s.advance t).2.Alike K (u.advance t).2 := by
  unfold State.advance
  dsimp only
  rw [h.cursor_eq]
  exact ⟨rfl, h.setCursor _⟩

end State

end StoryMachine
