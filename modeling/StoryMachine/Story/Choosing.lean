import StoryMachine.Story.Control

/-!
# Choices

A choice point takes its operands from the evaluation stack whether or not its choice is
offered: a condition, the text for the choice only, and the text the choice begins with,
each text with the tag tokens directly beneath it. An offered choice keeps a copy of the
current thread, which is gone on with when it is chosen.
-/

namespace StoryMachine

namespace Flow

/-- Pop the tag tokens on top of the evaluation stack, and give their texts in the order
they were pushed. -/
def popTags : Flow (List String) :=
  withState fun s =>
    let tag? := fun (t : Token) => match t with
      | .tag text => some text
      | _ => none
    let popped := (s.evaluation.takeWhile fun t => (tag? t).isSome).filterMap tag?
    (popped.reverse, { s with evaluation := s.evaluation.drop popped.length })

/-- Pop a text of a choice with the tags beneath it. -/
def popChoiceText : Flow (String × List String) := do
  match ← pop with
  | .value (.text s) => return (s, ← popTags)
  | other => throw (.type (.choiceText other.render))

/-- Pop a text of a choice if there is one. -/
def popTextIf (present : Bool) : Flow (String × List String) :=
  if present then popChoiceText else return ("", [])

/-- Whether the condition of a choice point holds. -/
def popCondition (c : ChoicePoint) : Flow Bool := do
  if c.hasCondition then
    let condition ← pop
    ofExcept condition.truth
  else return true

/-- Whether a once-only choice has been taken before. -/
def isTaken (c : ChoicePoint) (target : Option NodeId) : Flow Bool := do
  match target with
  | some id => if c.onceOnly then return 0 < (← visitsOf id) else return false
  | none => return false

/-- What the choice point at a node offers, if anything. The number of the thread is given
when the choice is generated. -/
def makeOffer (id : NodeId) (c : ChoicePoint) : Flow (Option Offer) := do
  let holds ← popCondition c
  let (onlyText, onlyTags) ← popTextIf c.hasChoiceOnlyText
  let (startText, startTags) ← popTextIf c.hasStartText
  let t ← tree
  let target := t.targetContainer? id c.path
  let taken ← isTaken c target
  if !holds || taken then return none
  match target with
  | none => throw (.address (.choiceTarget c.path.render))
  | some container =>
    return some {
      text := Text.trimBlanks (startText ++ onlyText)
      index := 0
      tags := startTags ++ onlyTags
      source := (t.path id).render
      target := t.path container
      isInvisible := c.isInvisible
      threadNumber := 0 }

/-- Generate the choice of a choice point. -/
def performChoicePoint (id : NodeId) (c : ChoicePoint) : Flow Unit := do
  match ← makeOffer id c with
  | some o => modifyState fun s => s.offer o
  | none => return ()

/-- Move to a path and count the visits this makes. -/
def jumpTo (p : Path) (countTurn : Bool) : Flow Unit := do
  let t ← tree
  orFail fun s => s.jump t p countTurn
  modifyState fun s => s.enterByJump t

/-- Go on with the thread of a choice. -/
def resumeThread (thread : Thread) : Flow Unit :=
  modifyState fun s => { s with callStack := s.callStack.resume thread }

/-- Take the first choice if all choices are invisible. If the state may be taken back to
one in front of this, the thread of the choice must stay as it is, and a copy of it goes
on. -/
def followInvisibleChoice : Flow Unit := do
  let choices := (← state).choices
  match choices with
  | [] => return ()
  | choice :: _ =>
    if choices.all fun c => c.isInvisible then
      resumeThread choice.thread
      if (← get).lineState.isSome then modifyState State.resumeCopy
      jumpTo choice.target false

end Flow

namespace Story

/-- The offers that a host can choose from, numbered from zero on: those that are not
invisible, once the story cannot continue without a choice. -/
def visibleChoices (s : Story) : List Choice :=
  if s.state.canContinue then []
  else (s.state.choices.filter fun c => !c.isInvisible).mapIdx fun i c => { c with index := i }

end Story

namespace Flow

/-- Choose one of the visible choices. -/
def choose (index : Nat) : Flow Unit := do
  whenIdle .choose
  let choices := (← get).visibleChoices
  match choices[index]? with
  | none => throw (.flow (.choiceRange index choices.length))
  | some choice =>
    resumeThread choice.thread
    jumpTo choice.target true

end Flow

end StoryMachine
