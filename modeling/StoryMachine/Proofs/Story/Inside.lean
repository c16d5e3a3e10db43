import StoryMachine.Proofs.Story.Parts

/-!
# Inside a call

While a function that the host has called runs, the call stack and the evaluation stack have
grown on top of what was there before. The steps of the function work on top of this as long as
every instruction finds its operands there, no temporary variable beneath is assigned, and no
thread is started or ended.

* `CallStack.Above`, `State.Inside` : what was there before the call is still there;
* `State.Outside` : a thread has been started or ended;
* `Instruction.operands` : how many values an instruction takes;
* `Flow.Takes` : computations that take a number of values, and leave what is beneath alone.
-/

namespace StoryMachine

/-! ## Call stacks -/

/-- Frames that have grown on top of others: by that of a call of the host, made when the
evaluation stack had the given height, and by further frames. Innermost frames stand first. -/
inductive GrownFrames (base : List Frame) (height : Nat) : List Frame → Prop
  | call {host : Frame} (hkind : host.kind = .hostCall) (hheight : host.evaluationHeight = height) :
      GrownFrames base height (host :: base)
  | frame {f : Frame} {frames : List Frame} (hkind : f.kind ≠ .hostCall)
      (h : GrownFrames base height frames) : GrownFrames base height (f :: frames)

/-- What keeps the kind of a frame and the height noted in it. -/
def KeepsCall (g : Frame → Frame) : Prop :=
  ∀ f, (g f).kind = f.kind ∧ (g f).evaluationHeight = f.evaluationHeight

namespace GrownFrames

variable {base frames : List Frame} {height : Nat} {f : Frame} {g : Frame → Frame}

theorem modify_top (h : GrownFrames base height (f :: frames)) (hg : KeepsCall g) :
    GrownFrames base height (g f :: frames) := by
  cases h with
  | call hkind hheight => exact .call ((hg f).1.trans hkind) ((hg f).2.trans hheight)
  | frame hkind h => exact .frame ((hg f).1 ▸ hkind) h

/-- A frame that has grown can be changed. -/
theorem modify (h : GrownFrames base height frames) (hg : KeepsCall g) {i : Nat}
    (hi : i + base.length < frames.length) : GrownFrames base height (frames.modify i g) := by
  induction h generalizing i with
  | @call host hkind hheight =>
    obtain rfl : i = 0 := by
      rw [List.length_cons] at hi
      omega
    exact modify_top (.call hkind hheight) hg
  | @frame f frames hkind h ih =>
    cases i with
    | zero => exact modify_top (.frame hkind h) hg
    | succ i =>
      rw [List.length_cons] at hi
      exact .frame hkind (ih (by omega))

/-- The frames of functions that run on top can be changed. -/
theorem modify_functions (h : GrownFrames base height frames) (hg : KeepsCall g)
    {isFunction : Frame → Bool} (hfunction : ∀ f, isFunction f = true → f.kind = .function) :
    GrownFrames base height
      ((frames.takeWhile isFunction).map g ++ frames.dropWhile isFunction) := by
  induction h with
  | @call host hkind hheight =>
    have hnot : isFunction host = false := by
      rw [← Bool.not_eq_true]
      intro h
      rw [hfunction host h] at hkind
      cases hkind
    rw [List.takeWhile_cons_of_neg (by simp [hnot]), List.dropWhile_cons_of_neg (by simp [hnot])]
    exact .call hkind hheight
  | @frame f frames hkind h ih =>
    cases hf : isFunction f with
    | true =>
      rw [List.takeWhile_cons_of_pos hf, List.dropWhile_cons_of_pos hf]
      exact .frame ((hg f).1 ▸ hkind) ih
    | false =>
      rw [List.takeWhile_cons_of_neg (by simp [hf]), List.dropWhile_cons_of_neg (by simp [hf])]
      exact .frame hkind h

end GrownFrames

/-- The frames of a thread, innermost first. -/
def Thread.inner (t : Thread) : List Frame :=
  t.top :: t.below

/-- The call stack has grown on top of `base` in the current thread. -/
structure CallStack.Above (base : CallStack) (height : Nat) (s : CallStack) : Prop where
  frames : GrownFrames base.current.inner height s.current.inner
  others : s.others = base.others
  index : s.current.index = base.current.index
  made : s.made = base.made

namespace CallStack

variable {base s u : CallStack} {height : Nat}

theorem Above.modifyTop (h : base.Above height s) {g : Frame → Frame} (hg : KeepsCall g) :
    base.Above height (s.modifyTop g) :=
  ⟨h.frames.modify_top hg, h.others, h.index, h.made⟩

theorem Above.withPrevious (h : base.Above height s) (previous : Option Cursor) :
    base.Above height { s with current := { s.current with previous } } :=
  ⟨h.frames, h.others, h.index, h.made⟩

theorem Above.push (h : base.Above height s) {k : FrameKind} (hk : k ≠ .hostCall)
    (evaluationHeight outputStart : Nat) :
    base.Above height (s.push k evaluationHeight outputStart) :=
  ⟨.frame hk h.frames, h.others, h.index, h.made⟩

/-- A frame that is not the one of the call can be dropped. -/
theorem Above.pop (h : base.Above height s) (htop : s.top.kind ≠ .hostCall)
    (hu : s.pop = .ok u) : base.Above height u := by
  unfold CallStack.pop at hu
  split at hu
  · next next rest hbelow =>
    cases hu
    have hframes : GrownFrames base.current.inner height (s.current.top :: next :: rest) :=
      hbelow ▸ h.frames
    cases hframes with
    | call hkind => exact absurd hkind htop
    | frame _ hframes => exact ⟨hframes, h.others, h.index, h.made⟩
  · cases hu

/-- When the frame of the call is dropped, the call stack is as it was before, but for the
place executed before. -/
theorem Above.popKind (h : base.Above height s) (hu : s.popKind .hostCall = .ok u) :
    s.top.evaluationHeight = height ∧
      u = { base with current := { base.current with previous := s.current.previous } } := by
  unfold CallStack.popKind at hu
  split at hu
  · next htop =>
    unfold CallStack.pop at hu
    split at hu
    · next next rest hbelow =>
      cases hu
      have hframes : GrownFrames (base.current.top :: base.current.below) height
          (s.current.top :: next :: rest) := hbelow ▸ h.frames
      cases hframes with
      | call _ hheight =>
        refine ⟨hheight, ?_⟩
        simp only [h.others, h.made, h.index]
      | frame hkind => exact absurd htop hkind
    · cases hu
  · cases hu

/-- A temporary variable that is not beneath the call can be put. -/
theorem Above.putTemporary (h : base.Above height s) {scope : Int}
    (hscope : ¬ (1 ≤ scope ∧ scope ≤ base.depth)) (name : String) (value : Value) :
    base.Above height (s.putTemporary scope name value) := by
  have hg : KeepsCall fun f => { f with temporaries := f.temporaries.insert name value } :=
    fun f => ⟨rfl, rfl⟩
  unfold CallStack.putTemporary modifyScopeFrame
  split
  · exact h.modifyTop hg
  · split
    · next hpositive =>
      have hdepth : (base.depth : Int) < scope := by omega
      have hbase : base.current.inner.length = base.depth := rfl
      unfold Thread.modifyFrame
      split
      · exact h.modifyTop hg
      · split
        · next hne hlt =>
          have hmodify := h.frames.modify hg
            (show s.current.below.length - 1 - (scope - 1).toNat + 1 + base.current.inner.length <
              s.current.inner.length by
                rw [hbase, Thread.inner, List.length_cons]
                omega)
          exact ⟨hmodify, h.others, h.index, h.made⟩
        · exact h
    · exact h

end CallStack

/-- Where functions put out text, only frames that have grown lose their mark. -/
theorem CallStack.Above.markText {base : CallStack} {height : Nat} {s : State}
    (h : base.Above height s.callStack) : base.Above height s.markText.callStack := by
  have hg : KeepsCall fun f => { f with outputStart := none } := fun f => ⟨rfl, rfl⟩
  unfold State.markText
  dsimp only
  split
  · next htop =>
    have hframes := h.frames.modify_functions hg fun f hf => of_decide_eq_true hf
    have hinner : s.callStack.current.inner =
      s.callStack.current.top :: s.callStack.current.below := rfl
    rw [hinner, List.takeWhile_cons, List.dropWhile_cons, if_pos htop, if_pos htop] at hframes
    exact ⟨hframes, h.others, h.index, h.made⟩
  · exact h

/-! ## States -/

theorem Except.exists_of_map_eq_ok {ε α β : Type} {x : Except ε α} {f : α → β} {b : β}
    (h : x.map f = .ok b) : ∃ a, x = .ok a ∧ f a = b := by
  cases x with
  | error e => cases h
  | ok a =>
    cases h
    exact ⟨a, rfl, rfl⟩

namespace CallStack

theorem exists_of_setTemporary {s u : CallStack} {name : String} {v : Value} {declares : Bool}
    {scope : Int} (h : s.setTemporary name v declares scope = .ok u) :
    ∃ v', u = s.putTemporary scope name v' := by
  unfold setTemporary at h
  split at h
  · cases h
  · split at h
    · cases h
      exact ⟨_, rfl⟩
    · split at h
      · cases h
        exact ⟨_, rfl⟩
      · cases h

theorem threads_putTemporary (s : CallStack) (scope : Int) (name : String) (v : Value) :
    (s.putTemporary scope name v).made = s.made ∧
      (s.putTemporary scope name v).others = s.others := by
  unfold putTemporary modifyScopeFrame
  split
  · exact ⟨rfl, rfl⟩
  · split
    · exact ⟨rfl, rfl⟩
    · exact ⟨rfl, rfl⟩

theorem threads_of_popThread {s u : CallStack} (h : s.popThread = .ok u) :
    u.made = s.made ∧ u.others.length < s.others.length := by
  unfold popThread at h
  split at h
  · next hothers =>
    split at h
    · cases h
    · cases h
      rw [hothers]
      exact ⟨rfl, Nat.lt_succ_self _⟩
  · cases h

end CallStack

/-- An assignment changes globals, or puts a temporary variable: into the innermost frame if it
is a declaration. -/
theorem Variables.callStack_of_assign {v vars : Variables} {lists : ListDefinitions}
    {s stack : CallStack} {a : Assignment} {value : Value}
    (h : v.assign lists s a value = .ok (vars, stack)) :
    stack = s ∨ ∃ scope name value', stack = s.putTemporary scope name value' ∧
      (scope = unknownScope ∨ a.isDeclaration = false ∧ scope = (v.target lists s a.name).2) := by
  have hput : ∀ {name : String} {value : Value} {declares : Bool} {scope : Int},
      (s.setTemporary name value declares scope).map (v, ·) = .ok (vars, stack) →
        ∃ value', stack = s.putTemporary scope name value' := by
    intro name value declares scope h
    obtain ⟨stack', hset, heq⟩ := Except.exists_of_map_eq_ok h
    cases heq
    exact CallStack.exists_of_setTemporary hset
  have hglobal : ∀ {isGlobal : Bool} {name : String} {scope : Int},
      (if isGlobal then .ok (v.put name value, s)
        else (s.setTemporary name value false scope).map (v, ·)) = Except.ok (vars, stack) →
        stack = s ∨ ∃ value', stack = s.putTemporary scope name value' := by
    intro isGlobal name scope h
    split at h
    · cases h
      exact .inl rfl
    · exact .inr (hput h)
  unfold assign at h
  split at h
  · dsimp only at h
    split at h
    · cases h
      exact .inl rfl
    · obtain ⟨value', heq⟩ := hput h
      exact .inr ⟨_, _, value', heq, .inl rfl⟩
  · next hnot =>
    rcases hglobal h with heq | ⟨value', heq⟩
    · exact .inl heq
    · exact .inr ⟨_, _, value', heq, .inr ⟨Bool.not_eq_true _ ▸ hnot, rfl⟩⟩

theorem threads_of_assign {v vars : Variables} {lists : ListDefinitions} {s stack : CallStack}
    {a : Assignment} {value : Value} (h : v.assign lists s a value = .ok (vars, stack)) :
    stack.made = s.made ∧ stack.others = s.others := by
  rcases v.callStack_of_assign h with rfl | ⟨scope, name, value', rfl, -⟩
  · exact ⟨rfl, rfl⟩
  · exact s.threads_putTemporary scope name value'

/-- No change takes back that a thread has been made, and a thread is only added when it is
made. -/
theorem StateChange.threads {c : Content} {fx : Effects} {s u : State} (h : StateChange c fx s u) :
    s.callStack.made ≤ u.callStack.made ∧ (s.callStack.made < u.callStack.made ∨
      u.callStack.others.length ≤ s.callStack.others.length) := by
  have hsame : u.callStack.made = s.callStack.made ∧ u.callStack.others = s.callStack.others →
      s.callStack.made ≤ u.callStack.made ∧ (s.callStack.made < u.callStack.made ∨
        u.callStack.others.length ≤ s.callStack.others.length) :=
    fun ⟨hmade, hothers⟩ => ⟨Nat.le_of_eq hmade.symm, .inr (Nat.le_of_eq (congrArg _ hothers))⟩
  cases h with
  | evaluation | warn | random | divert | move | notePlace | expression | withdraw | turn | call |
    safeExit | putOut => exact hsame ⟨rfl, rfl⟩
  | assign h => exact hsame (threads_of_assign h)
  | enter id atStart =>
    obtain ⟨visits, turns, henter⟩ := s.exists_enter_eq c.tree id atStart
    exact hsame (by rw [henter]; exact ⟨rfl, rfl⟩)
  | offer => exact ⟨Nat.le_succ _, .inl (Nat.lt_succ_self _)⟩
  | «return» h =>
    obtain ⟨output, stack, hstack, heq⟩ := State.popFrame_ok h
    subst heq
    refine hsame ?_
    unfold CallStack.pop at hstack
    split at hstack
    · cases hstack
      exact ⟨rfl, rfl⟩
    · cases hstack
  | thread => exact ⟨Nat.le_succ _, .inl (Nat.lt_succ_self _)⟩
  | endThread h =>
    obtain ⟨hmade, hothers⟩ := CallStack.threads_of_popThread h
    exact ⟨Nat.le_of_eq hmade.symm, .inr (Nat.le_of_lt hothers)⟩
  | resume | finish => exact ⟨Nat.le_refl _, .inr (Nat.zero_le _)⟩
  | copy => exact ⟨Nat.le_succ _, .inl (Nat.lt_succ_self _)⟩
  | markText =>
    obtain ⟨thread, hmark, -⟩ := s.exists_markText_eq
    exact hsame (by rw [hmark]; exact ⟨rfl, rfl⟩)

/-- Whether a token is a tag, which only belongs to the text of a choice. -/
def Token.isTag : Token → Bool
  | .tag _ => true
  | _ => false

/-- The number of tokens that are not tags. -/
def Token.countUntagged (ts : List Token) : Nat :=
  ts.countP fun t => !t.isTag

namespace State

/-- The state has grown on top of `base`, with at least `own` values of its own that are not
tags. -/
structure Inside (base : State) (own : Nat) (s : State) : Prop where
  stack : base.callStack.Above base.evaluation.length s.callStack
  choices : s.choices = base.choices
  values : ∃ front, s.evaluation = front ++ base.evaluation ∧
    (base.evaluation = [] ∨ own ≤ Token.countUntagged front)

/-- Since `base` a thread has been started or ended, or a choice has been generated. -/
structure Outside (base s : State) : Prop where
  made : base.callStack.made ≤ s.callStack.made
  left : base.callStack.made < s.callStack.made ∨
    s.callStack.others.length < base.callStack.others.length

variable {base s u : State} {own : Nat}

theorem Outside.change {c : Content} {fx : Effects} (h : base.Outside s)
    (hu : StateChange c fx s u) : base.Outside u := by
  obtain ⟨hmade, hleft⟩ := h
  obtain ⟨humade, huleft⟩ := hu.threads
  exact ⟨by omega, by omega⟩

theorem Inside.mono (h : base.Inside own s) {less : Nat} (hless : less ≤ own) :
    base.Inside less s := by
  obtain ⟨front, heq, hown⟩ := h.values
  exact ⟨h.stack, h.choices, front, heq, hown.imp_right (Nat.le_trans hless)⟩

/-- What does not concern the stacks and the choices changes nothing. -/
theorem Inside.same (h : base.Inside own s) (hstack : u.callStack = s.callStack)
    (hchoices : u.choices = s.choices) (hvalues : u.evaluation = s.evaluation) :
    base.Inside own u :=
  ⟨hstack ▸ h.stack, hchoices.trans h.choices, hvalues ▸ h.values⟩

theorem Inside.withOutput (h : base.Inside own s) (output : Output) :
    base.Inside own { s with output } :=
  h.same rfl rfl rfl

theorem Inside.withStack (h : base.Inside own s) {stack : CallStack}
    (hstack : base.callStack.Above base.evaluation.length stack) :
    base.Inside own { s with callStack := stack } :=
  ⟨hstack, h.choices, h.values⟩

theorem Inside.setCursor (h : base.Inside own s) (place : Option Cursor) :
    base.Inside own (s.setCursor place) :=
  h.withStack (h.stack.modifyTop fun _ => ⟨rfl, rfl⟩)

theorem Inside.setInExpression (h : base.Inside own s) (b : Bool) :
    base.Inside own (s.setInExpression b) :=
  h.withStack (h.stack.modifyTop fun _ => ⟨rfl, rfl⟩)

theorem Inside.setPrevious (h : base.Inside own s) (place : Option Cursor) :
    base.Inside own (s.setPrevious place) :=
  h.withStack (h.stack.withPrevious place)

theorem Inside.markText (h : base.Inside own s) : base.Inside own s.markText := by
  obtain ⟨thread, hmark, -⟩ := s.exists_markText_eq
  refine ⟨h.stack.markText, ?_, ?_⟩
  · rw [hmark]
    exact h.choices
  · rw [hmark]
    exact h.values

/-- A frame is dropped that is not the one of the call. -/
theorem Inside.popFrame (h : base.Inside own s) (hkind : s.callStack.inHostCall = false)
    (hu : s.popFrame = .ok u) : base.Inside own u := by
  obtain ⟨output, stack, hpop, rfl⟩ := State.popFrame_ok hu
  have htop : s.callStack.top.kind ≠ .hostCall := by
    simpa [CallStack.inHostCall] using hkind
  exact (h.withStack (h.stack.pop htop hpop)).same rfl rfl rfl

theorem Inside.push (h : base.Inside own s) (t : Token) : base.Inside own (s.push t) := by
  obtain ⟨front, heq, hown⟩ := h.values
  refine ⟨h.stack, h.choices, t :: front, congrArg _ heq, hown.imp_right fun hown => ?_⟩
  exact Nat.le_trans hown (List.sublist_cons_self t front).countP_le

theorem Inside.drop {count : Nat} (h : base.Inside (count + own) s) :
    base.Inside own { s with evaluation := s.evaluation.drop count } := by
  obtain ⟨front, heq, hown⟩ := h.values
  refine ⟨h.stack, h.choices, ?_⟩
  rcases hown with hempty | hown
  · refine ⟨s.evaluation.drop count, ?_, .inl hempty⟩
    simp [hempty]
  · have hlength : Token.countUntagged front ≤ front.length := List.countP_le_length
    refine ⟨front.drop count, ?_, .inr ?_⟩
    · show s.evaluation.drop count = _
      rw [heq, List.drop_append_of_le_length (by omega)]
    · have hsplit : Token.countUntagged front =
          Token.countUntagged (front.take count) + Token.countUntagged (front.drop count) := by
        rw [Token.countUntagged, Token.countUntagged, Token.countUntagged, ← List.countP_append,
          List.take_append_drop]
      have htake : Token.countUntagged (front.take count) ≤ count :=
        Nat.le_trans List.countP_le_length (List.length_take_le count front)
      omega

end State

end StoryMachine
