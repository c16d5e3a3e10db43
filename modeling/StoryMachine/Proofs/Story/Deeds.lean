import StoryMachine.Proofs.Story.Inside
import StoryMachine.Proofs.Story.Ready
import StoryMachine.Proofs.Story.HostCalls

/-!
# What a line does to its output

While a line is produced, content is put out, strings and tags begin and end, frames are pushed and
popped, threads start and end, and choices are generated and taken. Nothing else matters to the
output. A step of a line is a sequence of such deeds, and so is everything that happens in the line.

* `Deed`, `State.Does` : the deeds, and what each of them does to a state;
* `State.Doings` : deeds one after the other, each with the state in which it is done;
* `Story.LineTo` : the stories that a line in progress comes to;
* `Flow.develops_plainStep`, `Story.LineTo.exists_doings` : steps, and lines, are made of deeds.
-/

namespace StoryMachine

/-! ## Deeds -/

/-- What matters to the output of a line.

* `put` : content is put out;
* `endTag`, `takeTag` : a tag ends outside strings, and inside one;
* `call`, `back` : a frame is pushed, and popped;
* `fork`, `endThread` : a thread starts, and ends;
* `offer`, `withdraw`, `resume` : a choice is generated, all choices are dropped, and the choice of a
  number is taken;
* `copy` : a copy of the current thread goes on alone;
* `finish` : the flow ends;
* `other` : anything that leaves output, frames and choices alone. -/
inductive Deed where
  | put (t : Token)
  | beginString
  | endString
  | beginTag
  | endTag
  | takeTag
  | call (k : FrameKind)
  | back
  | fork
  | endThread
  | offer
  | withdraw
  | resume (i : Nat)
  | copy
  | finish
  | other

/-- The frames of a thread as far as they matter to the output, innermost first: what pushed them, and
where the text of a function began. -/
def Thread.marks (t : Thread) : List (FrameKind × Option Nat) :=
  (t.top :: t.below).map fun f => (f.kind, f.outputStart)

/-- The threads as far as they matter to the output, the current one first. -/
def CallStack.marks (s : CallStack) : List (List (FrameKind × Option Nat)) :=
  (s.current :: s.others).map Thread.marks

namespace State

/-- A string has ended: what was put out behind its beginning is a text on the evaluation stack,
legacy tags excepted. -/
def closeString (s : State) : State :=
  let (behind, front) := Output.splitAtCommand .beginString s.output.newest
  ({ s with output := ⟨behind.filterMap Flow.tagToken? ++ front⟩ }.setInExpression true).push
    (.text (Output.joined behind))

/-- A tag has ended inside a string: what was put out behind its beginning is a tag on the evaluation
stack. -/
def takeTag (s : State) : State :=
  let (behind, front) := Output.splitAtCommand .beginTag s.output.newest
  { s with output := ⟨front⟩ }.push (.tag (Text.clean (Output.joined behind)))

/-- What a deed does to a state. -/
inductive Does : State → Deed → State → Prop
  | put (s : State) {t : Token} (ht : ∀ c, t ≠ .command c) : Does s (.put t) (s.emit t)
  | beginString (s : State) : Does s .beginString (s.emit (.command .beginString))
  | endString (s : State) : Does s .endString s.closeString
  | beginTag (s : State) : Does s .beginTag (s.emit (.command .beginTag))
  | endTag {s : State} (h : s.output.inString = false) :
    Does s .endTag (s.emit (.command .endTag))
  | takeTag {s : State} (h : s.output.inString = true)
      (hcommand : ∀ c, .command c ∉ (Output.splitAtCommand .beginTag s.output.newest).1) :
    Does s .takeTag s.takeTag
  | call (s : State) (k : FrameKind) :
    Does s (.call k) { s with callStack := s.callStack.push k 0 s.output.length }
  | back {s u : State} (h : s.popFrame = .ok u) : Does s .back u
  | fork (s : State) : Does s .fork { s with callStack := s.callStack.pushThread }
  | endThread {s : State} {callStack : CallStack} (h : s.callStack.popThread = .ok callStack) :
    Does s .endThread { s with callStack }
  | offer (s : State) (o : Offer) : Does s .offer (s.offer o)
  | withdraw (s : State) : Does s .withdraw { s with choices := [] }
  | resume {s : State} {i : Nat} {o : Choice} (h : s.choices[i]? = some o) :
    Does s (.resume i) { s with callStack := s.callStack.resume o.thread, choices := [] }
  | copy (s : State) : Does s .copy s.resumeCopy
  | finish (s : State) : Does s .finish s.forceEnd
  | other {s u : State} (houtput : u.output = s.output)
      (hmarks : u.callStack.marks = s.callStack.marks) (hchoices : u.choices = s.choices) :
    Does s .other u

/-- Deeds done one after the other, each with the state in which it is done. -/
inductive Doings : State → List (State × Deed) → State → Prop
  | none (s : State) : Doings s [] s
  | more {s u v : State} {d : Deed} {ds : List (State × Deed)} (h : s.Does d u)
      (hrest : u.Doings ds v) : Doings s ((s, d) :: ds) v

namespace Doings

variable {s u v : State} {ds es : List (State × Deed)}

theorem single {d : Deed} (h : s.Does d u) : s.Doings [(s, d)] u :=
  .more h (.none u)

theorem append (h : s.Doings ds u) (h' : u.Doings es v) : s.Doings (ds ++ es) v := by
  induction h with
  | none => exact h'
  | more hdoes _ ih => exact .more hdoes (ih h')

end Doings

end State

/-! ## Frames and marks -/

/-- What leaves the kind of a frame and its mark alone, leaves the marks of its thread alone. -/
theorem Thread.marks_modifyFrame (t : Thread) (i : Nat) {f : Frame → Frame}
    (h : ∀ frame, (f frame).kind = frame.kind ∧ (f frame).outputStart = frame.outputStart) :
    (t.modifyFrame i f).marks = t.marks := by
  have hmap : ∀ (frames : List Frame) (n : Nat),
      (frames.modify n f).map (fun f => (f.kind, f.outputStart)) =
        frames.map fun f => (f.kind, f.outputStart) := by
    intro frames
    induction frames with
    | nil => intro n; cases n <;> rfl
    | cons frame rest ih =>
      intro n
      cases n with
      | zero =>
        rw [List.modify_zero_cons, List.map_cons, List.map_cons, (h frame).1, (h frame).2]
      | succ n => rw [List.modify_succ_cons, List.map_cons, List.map_cons, ih]
  unfold modifyFrame marks
  split
  · rw [List.map_cons, List.map_cons, (h t.top).1, (h t.top).2]
  · split
    · rw [List.map_cons, List.map_cons, hmap]
    · rfl

theorem CallStack.marks_putTemporary (s : CallStack) (scope : Int) (name : String) (v : Value) :
    (s.putTemporary scope name v).marks = s.marks := by
  have hframe : ∀ frame : Frame,
      ({ frame with temporaries := frame.temporaries.insert name v } : Frame).kind = frame.kind ∧
      ({ frame with temporaries := frame.temporaries.insert name v } : Frame).outputStart =
        frame.outputStart := fun _ => ⟨rfl, rfl⟩
  unfold putTemporary modifyScopeFrame
  split
  · rfl
  · split
    · unfold marks
      rw [List.map_cons, List.map_cons, Thread.marks_modifyFrame _ _ hframe]
    · rfl

/-- Assigning a variable leaves kinds and marks alone. -/
theorem Variables.marks_of_assign {v vars : Variables} {lists : ListDefinitions}
    {s stack : CallStack} {a : Assignment} {value : Value}
    (h : v.assign lists s a value = .ok (vars, stack)) : stack.marks = s.marks := by
  rcases v.callStack_of_assign h with rfl | ⟨scope, name, value', rfl, -⟩
  · rfl
  · exact s.marks_putTemporary scope name value'

/-! ## States that develop -/

namespace State

/-- A state develops into another one by deeds. Strings end in states with the property `E`. -/
def Develops (E : State → Prop) (s u : State) : Prop :=
  ∃ ds, s.Doings ds u ∧ ∀ step ∈ ds, step.2 = .endString → E step.1

variable {E : State → Prop} {s u v : State}

theorem Develops.refl (s : State) : s.Develops E s :=
  ⟨[], .none s, List.forall_mem_nil _⟩

theorem Develops.trans (h : s.Develops E u) (h' : u.Develops E v) : s.Develops E v := by
  obtain ⟨ds, hds, hends⟩ := h
  obtain ⟨es, hes, hends'⟩ := h'
  exact ⟨ds ++ es, hds.append hes, List.forall_mem_append.mpr ⟨hends, hends'⟩⟩

theorem Does.develops {d : Deed} (h : s.Does d u) (hE : d = .endString → E s) : s.Develops E u :=
  ⟨_, .single h, List.forall_mem_singleton.mpr hE⟩

theorem develops_of_same (houtput : u.output = s.output) (hcallStack : u.callStack = s.callStack)
    (hchoices : u.choices = s.choices) : s.Develops E u :=
  (Does.other houtput (congrArg CallStack.marks hcallStack) hchoices).develops nofun

end State

open State (Develops)

variable {c : Content} {fx : Effects} {E : State → Prop}

/-- A change that puts nothing out is a deed, and no end of a string. -/
theorem StateChange.exists_does (hfx : fx.output = false) {s u : State} (h : StateChange c fx s u) :
    ∃ d, s.Does d u ∧ d ≠ .endString := by
  cases h with
  | evaluation | warn | random | divert | move | notePlace | expression | turn | safeExit =>
    exact ⟨.other, .other rfl rfl rfl, nofun⟩
  | assign h => exact ⟨.other, .other rfl (Variables.marks_of_assign h) rfl, nofun⟩
  | enter id atStart =>
    obtain ⟨visits, turns, henter⟩ := s.exists_enter_eq c.tree id atStart
    rw [henter]
    exact ⟨.other, .other rfl rfl rfl, nofun⟩
  | @offer _ _ o => exact ⟨.offer, .offer s o, nofun⟩
  | withdraw => exact ⟨.withdraw, .withdraw s, nofun⟩
  | call k => exact ⟨.call k, .call s k, nofun⟩
  | «return» h => exact ⟨.back, .back h, nofun⟩
  | thread => exact ⟨.fork, .fork s, nofun⟩
  | endThread h => exact ⟨.endThread, .endThread h, nofun⟩
  | resume h =>
    obtain ⟨i, hi⟩ := List.getElem?_of_mem h
    exact ⟨.resume i, .resume hi, nofun⟩
  | copy => exact ⟨.copy, .copy s, nofun⟩
  | finish => exact ⟨.finish, .finish s, nofun⟩
  | putOut _ hput | markText hput =>
    rw [hfx] at hput
    cases hput

theorem Changes.develops (hfx : fx.output = false) {s u : Story} (h : Changes c fx s u) :
    s.state.Develops E u.state := by
  induction h with
  | refl => exact .refl _
  | tail _ h ih =>
    cases h with
    | state h =>
      obtain ⟨d, hdoes, hend⟩ := h.exists_does hfx
      exact ih.trans (hdoes.develops fun heq => absurd heq hend)
    | called | wait | unsafeCall => exact ih

/-! ## Steps -/

namespace Flow

variable {α β : Type}

theorem develops_bind {s : Story} {x : Flow α} {k : α → Flow β}
    (hx : s.state.Develops E (x.after s).state)
    (hk : ∀ a u, x s = .ok a u → u.state.Develops E ((k a).after u).state) :
    s.state.Develops E ((x >>= k).after s).state := by
  cases hrun : x s with
  | error e u =>
    rw [after_of_error hrun] at hx
    rwa [after_bind_error hrun]
  | ok a u =>
    rw [after_of_ok hrun] at hx
    rw [after_bind_ok hrun]
    exact hx.trans (hk a u hrun)

/-- What puts nothing out is made of deeds. -/
theorem develops_of_within (fx : Effects) {s : Story} {x : Flow α} (hfx : fx.output = false)
    (h : Within s.content fx x) : s.state.Develops E (x.after s).state :=
  (h s rfl).develops hfx

theorem develops_emit (s : Story) {t : Token} (ht : ∀ d, t ≠ .command d) :
    s.state.Develops E ((emit t).after s).state :=
  (State.Does.put s.state ht).develops nofun

theorem develops_putOut (s : Story) : s.state.Develops E (putOut.after s).state := by
  unfold putOut
  refine develops_bind (.refl _) fun evaluation u _ => ?_
  split
  · exact .refl _
  · refine develops_bind (develops_of_within .silent rfl within_pop) fun t v _ => ?_
    split
    · exact .refl _
    · exact develops_emit v nofun

theorem develops_beginString (s : Story) : s.state.Develops E (beginString.after s).state := by
  refine develops_bind ((State.Does.beginString s.state).develops nofun) fun _ u _ => ?_
  refine develops_of_within .silent rfl (within_state_any fun state => ?_)
  have hend : Within u.content .silent (modifyState fun s => s.setInExpression false) :=
    within_modifyState fun s => .expression s false
  cases state.inExpression with
  | true => exact hend
  | false => exact within_bind (within_throw _) fun _ => hend

theorem develops_endTag (s : Story) : s.state.Develops E (endTag.after s).state := by
  unfold endTag
  rw [after_bind_ok (state_ok s)]
  cases hin : s.state.output.inString with
  | false => exact (State.Does.endTag hin).develops nofun
  | true =>
    simp only [if_true]
    split
    · exact .refl _
    · next hcommand =>
      refine (State.Does.takeTag hin fun d hd => hcommand ?_).develops nofun
      exact List.any_eq_true.mpr ⟨_, hd, rfl⟩

/-- The commands that put something out are made of deeds. -/
theorem develops_performCommand (s : Story) {command : Command} (h : command.PutsOut)
    (hE : command = .endString → E s.state) :
    s.state.Develops E ((performCommand command).after s).state := by
  cases command with
  | evalOutput => exact develops_putOut s
  | beginString => exact develops_beginString s
  | endString => exact (State.Does.endString s.state).develops fun _ => hE rfl
  | beginTag => exact (State.Does.beginTag s.state).develops nofun
  | endTag => exact develops_endTag s
  | _ => exact h.elim

theorem develops_execute (s : Story) (id : NodeId) (i : Instruction)
    (hE : i = .command .endString → E s.state) :
    s.state.Develops E ((execute id i).after s).state := by
  by_cases hputs : ∃ command : Command, i = .command command ∧ command.PutsOut
  · obtain ⟨command, rfl, hputs⟩ := hputs
    exact develops_bind (develops_performCommand s hputs fun hend => hE (hend ▸ rfl))
      fun _ u _ => .refl u.state
  · exact develops_of_within .quiet rfl (within_execute id (fun _ _ => rfl)
      (fun command hi hp => absurd ⟨command, hi, hp⟩ hputs) fun _ _ => rfl)

/-- A command is not left for what follows. -/
theorem execute_command_ne_false {s u : Story} {id : NodeId} {command : Command} :
    execute id (.command command) s ≠ .ok false u := fun h => by
  obtain ⟨_, v, -, hv⟩ := exists_of_bind_eq_ok h
  cases hv

theorem develops_putContent (s : Story) {token : Token} (h : ∀ d, token ≠ .command d) :
    s.state.Develops E ((putContent token).after s).state := by
  have hput : ∀ t : Token, (∀ d, t ≠ .command d) →
      s.state.Develops E ((if s.state.inExpression then push t else emit t : Flow Unit).after s).state := by
    intro t ht
    split
    · exact develops_of_within .silent rfl (within_push t)
    · exact develops_emit s ht
  unfold putContent
  rw [after_bind_ok (state_ok s)]
  refine hput _ ?_
  split
  · split
    · exact nofun
    · exact nofun
  · exact h

theorem develops_executeAt (s : Story) {id : NodeId} {i : Instruction}
    (hleaf : s.tree.leaf? id = some i) (hE : i = .command .endString → E s.state) :
    s.state.Develops E ((executeAt id i).after s).state := by
  unfold executeAt
  refine develops_bind (develops_execute s id i hE) fun done u hrun => ?_
  rw [after_bind_ok (state_ok u)]
  split
  · exact .refl _
  · split
    · next p _ =>
      cases (show EStateM.Result.ok false s = .ok done u from hrun)
      exact develops_of_within .silent rfl (within_performChoicePoint hleaf)
    · cases done with
      | true => exact .refl _
      | false =>
        show u.state.Develops E ((putInstruction i).after u).state
        unfold putInstruction
        split
        · next token htoken =>
          refine develops_putContent u fun d hd => ?_
          subst hd
          cases i with
          | command command => exact execute_command_ne_false hrun
          | _ => cases htoken
        · exact .refl _

/-- A step is made of deeds. A string ends where the step finds the command for it. -/
theorem develops_step (s : Story) (hE : ∀ id u, s.nextLeaf? = some (id, .command .endString) →
    u.output = s.state.output → E u) : s.state.Develops E (step.after s).state := by
  cases hcursor : s.state.cursor with
  | none =>
    unfold step
    rw [after_bind_ok (state_ok s), hcursor]
    exact .refl _
  | some place =>
    obtain ⟨w, hrun, visits, turns, place, hw⟩ := exists_step_eq (s := s) (by rw [hcursor]; rfl)
    have hreached : s.state.Does .other w.state := by
      rw [hw]
      exact .other rfl rfl rfl
    have hrest : w.state.Develops E
        ((executeLeaf s.nextLeaf? >>= fun _ => leaveLeaf s.nextLeaf?).after w).state := by
      refine develops_bind ?_ fun _ u _ =>
        develops_of_within .silent rfl (within_leaveLeaf s.nextLeaf?)
      cases hleaf : s.nextLeaf? with
      | none => exact .refl _
      | some leaf =>
        refine develops_executeAt w ?_ fun hend => ?_
        · rw [hw]
          exact s.leaf?_of_mem_nextLeaf? leaf hleaf
        · exact hE leaf.1 w.state (hend ▸ hleaf) (by rw [hw]; rfl)
    rw [after, hrun]
    exact (hreached.develops fun hend => by cases hend).trans hrest

theorem develops_plainStep (s : Story) (hE : ∀ id u,
    s.nextLeaf? = some (id, .command .endString) → u.output = s.state.output → E u) :
    s.state.Develops E (plainStep.after s).state := by
  refine develops_bind (develops_step s hE) fun _ u _ => ?_
  rw [after_bind_ok (get_ok u)]
  split
  · exact develops_of_within .silent rfl within_followInvisibleChoice
  · exact .refl _

end Flow

/-! ## Lines -/

namespace Story

/-- The stories that a line comes to in which it goes on: by steps that do not end it, and by what may
happen in between, as in calls of the host while the line is open, as long as it leaves output, frames
and choices alone. -/
inductive LineTo : Story → Story → Prop
  | here (s : Story) : LineTo s s
  | step {s u v : Story} (h : LineTo s u) (hstep : Flow.lineStep u = .ok false v) : LineTo s v
  | pause {s u v : Story} (h : LineTo s u) (houtput : v.state.output = u.state.output)
      (hcallStack : v.state.callStack = u.state.callStack)
      (hchoices : v.state.choices = u.state.choices) : LineTo s v

/-- What a host changes while a line is open is part of the line. -/
theorem LineTo.leavesLine {s u v : Story} (h : s.LineTo u) (hv : u.LeavesLine v) : s.LineTo v :=
  h.pause hv.output hv.callStack hv.choices

/-- A line comes to every story that its steps are made from. -/
theorem LineTo.passes {s u v : Story} {nodes : Nat} (h : s.LineTo u) (hv : u.Passes nodes v) :
    s.LineTo v := by
  induction hv with
  | here => exact h
  | step hgo _ ih => exact ih (h.step (Flow.lineStep_of_goesOn? hgo).1)

/-- A line in progress is made of deeds. -/
theorem LineTo.develops {s u : Story} (h : s.LineTo u) :
    s.state.Develops (fun _ => True) u.state := by
  induction h with
  | here => exact .refl _
  | pause _ houtput hcallStack hchoices ih =>
    exact ih.trans (State.develops_of_same houtput hcallStack hchoices)
  | @step v _ _ hstep ih =>
    obtain ⟨w, hplain, hbehind⟩ := Flow.lineStep_cases hstep
    have hdevelops := Flow.develops_plainStep (E := fun _ => True) v fun _ _ _ _ => trivial
    rw [Flow.after_of_ok hplain] at hdevelops
    refine ih.trans ?_
    rcases hbehind with ⟨-, -, rfl⟩ | ⟨-, -, hwatch⟩
    · exact hdevelops
    · rwa [(watchLine_goesOn hwatch).1]

/-- A line is made of deeds up to the end of each of its steps, also of one that fails. -/
theorem LineTo.exists_doings {s u : Story} (h : s.LineTo u) :
    ∃ ds, s.state.Doings ds (Flow.plainStep.after u).state :=
  have ⟨ds, hds, _⟩ := h.develops.trans (Flow.develops_plainStep u fun _ _ _ _ => trivial)
  ⟨ds, hds⟩

end Story

end StoryMachine
