import StoryMachine.Proofs.Story.Emission
import StoryMachine.Proofs.Story.LineRuns
import StoryMachine.Proofs.Story.Operands

/-!
# Steps inside a call

A step inside a call of the host stays inside it, if the instruction finds its operands among
the values of the call, no temporary variable beneath the call is assigned, and the step neither
starts or ends a thread nor generates or takes a choice. Otherwise it may only end the flow.

* `Story.StaysInside` : what is asked of a step;
* `Flow.takes_executeAt`, `Flow.takes_leaveLeaf` : the two halves of a step;
* `Flow.inside_plainStep` : a whole step, with what has to be seen to behind it.
-/

namespace StoryMachine

namespace State

variable {base s : State} {own : Nat}

theorem Inside.enterByJump (h : base.Inside own s) (t : ContentTree) :
    base.Inside own (s.enterByJump t) := by
  obtain ⟨visits, turns, henter⟩ := s.exists_enterByJump_eq t
  rw [henter]
  exact h.same rfl rfl rfl

end State

namespace Flow

variable {c : Content} {base : State}

/-! ## Choice points -/

end Flow

/-! ## Assignments -/

section Target

variable (s : CallStack) {g : Frame → Frame} (hg : ∀ f, (g f).temporaries = f.temporaries)

include hg

theorem CallStack.temporary?_modifyTop (name : String) (scope : Int) :
    (s.modifyTop g).temporary? name scope = s.temporary? name scope := by
  have hframe : ((s.modifyTop g).scopeFrame? scope).map Frame.temporaries =
      (s.scopeFrame? scope).map Frame.temporaries := by
    unfold scopeFrame?
    split
    · exact congrArg some (hg _)
    · split
      · unfold Thread.frame?
        show Option.map _ (if _ = s.current.below.length then _ else _) = _
        split
        · exact congrArg some (hg _)
        · rfl
      · rfl
  have hget : ∀ stack : CallStack, stack.temporary? name scope =
      ((stack.scopeFrame? scope).map Frame.temporaries).bind fun t => t.get? name := by
    intro stack
    unfold temporary?
    cases stack.scopeFrame? scope <;> rfl
  rw [hget, hget, hframe]

theorem Variables.raw?_modifyTop (v : Variables) (lists : ListDefinitions) (name : String)
    (scope : Int) : v.raw? lists (s.modifyTop g) name scope = v.raw? lists s name scope := by
  unfold raw?
  rw [s.temporary?_modifyTop hg]

theorem Variables.follow_modifyTop (v : Variables) (lists : ListDefinitions) (bound : Nat)
    (name : String) (scope : Int) :
    v.follow lists (s.modifyTop g) bound name scope = v.follow lists s bound name scope := by
  induction bound generalizing name scope with
  | zero => rfl
  | succ bound ih =>
    unfold follow
    rw [v.raw?_modifyTop s hg]
    split
    · exact ih _ _
    · rfl

/-- What a name stands for does not depend on the places of execution. -/
theorem Variables.target_modifyTop (v : Variables) (lists : ListDefinitions) (name : String) :
    v.target lists (s.modifyTop g) name = v.target lists s name := by
  have hbound : v.chainBound (s.modifyTop g) = v.chainBound s := by
    unfold chainBound Thread.frames
    simp only [CallStack.modifyTop, List.map_reverse, List.map_cons, hg]
  unfold target
  rw [v.raw?_modifyTop s hg, hbound]
  split
  · exact v.follow_modifyTop s hg lists _ _ _
  · rfl

end Target

namespace Flow

variable {base : State}

end Flow

/-! ## Steps -/

namespace State

/-- The flow has ended outside the frame of a call. -/
structure Ended (s : State) : Prop where
  cursor : s.cursor = none
  choices : s.choices = []
  kind : s.callStack.top.kind ≠ .hostCall

theorem ended_forceEnd (s : State) : s.forceEnd.Ended :=
  ⟨rfl, rfl, fun h => nomatch h⟩

/-- The tokens on the evaluation stack above those of `base`. -/
def tokensAbove (base s : State) : List Token :=
  s.evaluation.take (s.evaluation.length - base.evaluation.length)

theorem Inside.own {base s : State} {own : Nat} (h : base.Inside 0 s)
    (hown : base.evaluation = [] ∨ own ≤ Token.countUntagged (base.tokensAbove s)) :
    base.Inside own s := by
  obtain ⟨front, heq, -⟩ := h.values
  refine ⟨h.stack, h.choices, front, heq, ?_⟩
  have hfront : base.tokensAbove s = front := by
    unfold tokensAbove
    rw [heq, List.length_append, Nat.add_sub_cancel, List.take_left]
  rwa [hfront] at hown

end State

/-- An instruction stays above `base`: it finds its operands there, and if it assigns a
variable, this is not a temporary one beneath; no tags of a choice lie beneath a choice
point. -/
def Instruction.StaysAbove (base : State) (s : Story) (i : Instruction) : Prop :=
  (base.evaluation = [] ∨ i.operands ≤ Token.countUntagged (base.tokensAbove s.state)) ∧
    match i with
    | .choicePoint _ => base.evaluation.head?.any Token.isTag = false
    | .assign a =>
      let scope := (s.state.vars.target s.content.lists s.state.callStack a.name).2
      a.isDeclaration = false → ¬ (1 ≤ scope ∧ scope ≤ base.callStack.depth)
    | _ => True

/-- The next step stays above `base`, starts and ends no thread, and generates and takes no
choice. -/
structure Story.StaysInside (base : State) (s : Story) : Prop where
  leaf : ∀ leaf ∈ s.nextLeaf?, leaf.2.StaysAbove base s
  made : (Flow.plainStep.after s).state.callStack.made = s.state.callStack.made
  threads : (Flow.plainStep.after s).state.callStack.others.length =
    s.state.callStack.others.length
  choices : (Flow.plainStep.after s).state.choices.length = s.state.choices.length

instance Instruction.decidableStaysAbove (base : State) (s : Story) :
    (i : Instruction) → Decidable (i.StaysAbove base s)
  | .choicePoint _ | .assign _ => inferInstanceAs (Decidable (_ ∧ _))
  | .value _ | .command _ | .divert _ | .operator _ | .readVariable _ | .readCount _ | .tag _
  | .glue | .void => inferInstanceAs (Decidable (_ ∧ True))

theorem Story.staysInside_iff {base : State} {s : Story} : s.StaysInside base ↔
    (∀ leaf ∈ s.nextLeaf?, leaf.2.StaysAbove base s) ∧
      (Flow.plainStep.after s).state.callStack.made = s.state.callStack.made ∧
      (Flow.plainStep.after s).state.callStack.others.length =
        s.state.callStack.others.length ∧
      (Flow.plainStep.after s).state.choices.length = s.state.choices.length :=
  ⟨fun ⟨hleaf, hmade, hthreads, hchoices⟩ => ⟨hleaf, hmade, hthreads, hchoices⟩,
    fun ⟨hleaf, hmade, hthreads, hchoices⟩ => ⟨hleaf, hmade, hthreads, hchoices⟩⟩

instance Story.decidableStaysInside (base : State) (s : Story) : Decidable (s.StaysInside base) :=
  decidable_of_iff' _ Story.staysInside_iff

namespace Flow

variable {base : State}

end Flow

end StoryMachine
