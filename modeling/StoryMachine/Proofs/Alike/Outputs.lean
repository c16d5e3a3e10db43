import StoryMachine.Proofs.Alike.Parts

/-!
# Steps on stories with the same output

Two stories with the same output, and the same marks where running functions began their texts,
put out the same. So every step is blind that calls no function of the host, and carrying out a
call is left to the relation of the rest of the stories.

* `SameOutput` : the relation of shapes with the same output;
* `Flow.blind_emit`, `Flow.blind_putsOut` : putting out;
* `Flow.blind_execute_same` : carrying out an instruction.
-/

open List (Forall₂)

namespace StoryMachine

/-- Shapes with the same output. -/
def SameOutput (a b : Shape) : Prop :=
  a.output = b.output

namespace State

variable {s u s' u' : State}

theorem Alike.functionStart_eq (h : s.Alike .equal u) : s.functionStart = u.functionStart := by
  unfold functionStart
  rw [← h.callStack.top.kind]
  split
  · next hkind => exact h.callStack.top.mark hkind
  · rfl

/-- The text of a function is trimmed when it returns. -/
theorem output_popFrame (h : s.popFrame = .ok s') : s'.output =
    if s.callStack.top.kind = .function then
      s.output.trimFrom (s.callStack.top.outputStart.getD 0) else s.output := by
  obtain ⟨stack, -, hstack⟩ := Except.bind_eq_ok.mp h
  cases hstack
  rfl

theorem Alike.output_of_popFrame (hs : s.Alike .equal u) (houtput : s.output = u.output)
    (h : s.popFrame = .ok s') (h' : u.popFrame = .ok u') : s'.output = u'.output := by
  rw [output_popFrame h, output_popFrame h', ← hs.callStack.top.kind, houtput]
  split
  · next hkind =>
    have hmark : s.callStack.top.outputStart = u.callStack.top.outputStart :=
      hs.callStack.top.mark hkind
    rw [hmark]
  · rfl

end State

theorem stable_sameOutput : Stable .equal SameOutput where
  mark h := congrArg (fun o : Output => some o.length) h
  push _ _ h := h
  pop hs h hpop hpop' := hs.output_of_popFrame h hpop hpop'
  startThread _ h := h
  endThread _ h _ _ := h
  resume _ _ h := h
  finish _ h := h

namespace State

variable {K : Likeness} {s u : State}

/-- Frames of functions lose their marks together. -/
theorem Alike.markText (h : s.Alike K u) : s.markText.Alike K u.markText := by
  have hclear : ∀ f g : Frame, f.Alike K g →
      Frame.Alike K { f with outputStart := none } { g with outputStart := none } :=
    fun _ _ hfg => { hfg with mark := fun _ => K.mark_none }
  have hbelow := h.callStack.current.below
  unfold State.markText
  dsimp only
  by_cases hkind : u.callStack.current.top.kind = .function
  · rw [if_pos (by rw [h.callStack.current.top.kind, hkind]; rfl), if_pos (by rw [hkind]; rfl)]
    have hfront : Forall₂ (Frame.Alike K)
        ((s.callStack.current.below.takeWhile fun f => decide (f.kind = .function)).map
            (fun f => { f with outputStart := none }) ++
          s.callStack.current.below.dropWhile fun f => decide (f.kind = .function))
        ((u.callStack.current.below.takeWhile fun f => decide (f.kind = .function)).map
            (fun f => { f with outputStart := none }) ++
          u.callStack.current.below.dropWhile fun f => decide (f.kind = .function)) := by
      generalize s.callStack.current.below = fs at hbelow
      generalize u.callStack.current.below = gs at hbelow
      induction hbelow with
      | nil => exact .nil
      | @cons f g fs gs hfg hrest ih =>
        rw [List.takeWhile_cons, List.dropWhile_cons, List.takeWhile_cons, List.dropWhile_cons,
          hfg.kind]
        split
        · exact .cons (hclear f g hfg) ih
        · exact .cons hfg hrest
    exact { h with callStack :=
      ⟨⟨hclear _ _ h.callStack.current.top, hfront, h.callStack.current.previous⟩,
        h.callStack.others⟩ }
  · rw [if_neg (by rw [h.callStack.current.top.kind]; simpa using hkind),
      if_neg (by simpa using hkind)]
    exact h

theorem Alike.emitText (h : s.Alike .equal u) (houtput : s.output = u.output) (text : String) :
    (s.emitText text).Alike .equal (u.emitText text) ∧
      (s.emitText text).output = (u.emitText text).output := by
  unfold State.emitText
  dsimp only
  rw [houtput, h.functionStart_eq]
  have hput : State.Alike .equal
      { s with output := (u.output.pushText u.functionStart text).1 }
      { u with output := (u.output.pushText u.functionStart text).1 } := { h with }
  split
  · refine ⟨hput.markText, ?_⟩
    rw [output_markText, output_markText]
  · exact ⟨hput, rfl⟩

theorem Alike.emit (h : s.Alike .equal u) (houtput : s.output = u.output) (token : Token) :
    (s.emit token).Alike .equal (u.emit token) ∧ (s.emit token).output = (u.emit token).output := by
  have hparts : ∀ (parts : List String) {s u : State}, s.Alike .equal u → s.output = u.output →
      (parts.foldl State.emitText s).Alike .equal (parts.foldl State.emitText u) ∧
        (parts.foldl State.emitText s).output = (parts.foldl State.emitText u).output := by
    intro parts
    induction parts with
    | nil => exact fun h houtput => ⟨h, houtput⟩
    | cons part rest ih =>
      intro s u h houtput
      obtain ⟨hpart, hsame⟩ := h.emitText houtput part
      exact ih hpart hsame
  unfold State.emit
  split
  · split
    · exact hparts _ h houtput
    · exact h.emitText houtput _
  · exact ⟨{ h with }, congrArg Output.pushGlue houtput⟩
  · exact ⟨{ h with }, congrArg (fun o : Output => o.add _) houtput⟩

end State

namespace Flow

variable {c : Content} {κ : Story → Story → Prop}

theorem blind_emit (token : Token) : Blind c .equal κ SameOutput (emit token) := by
  intro s u hp
  obtain ⟨hstate, houtput⟩ := hp.state.emit hp.shapes token
  exact .ok ⟨hp.left, hp.right, hstate, houtput, hp.others⟩

/-- What follows may use the output. -/
theorem blind_output_bind {α : Type} {k : State → Flow α}
    (h : ∀ s u : State, s.Alike .equal u → s.output = u.output →
      Together c .equal κ SameOutput (k s) (k u)) : Blind c .equal κ SameOutput (state >>= k) :=
  fun s u hp => h s.state u.state hp.state hp.shapes hp

/-- Putting out the top of the evaluation stack, where that is put out in both stories. -/
theorem outcome_putOut {K : Likeness} {ρ : Shape → Shape → Prop} {s u : Story}
    (hp : s.Paired c K κ ρ u) (hput : ∀ (text : String) (s' u' : Story),
      s.state.evaluation.head?.bind Token.putText? = some text →
      s' = { s with state := { s.state with evaluation := s'.state.evaluation } } →
      s'.Paired c K κ ρ u' → Outcome (Story.Paired c K κ ρ) (Story.Paired c K κ ρ)
        (emit (.text text) s') (emit (.text text) u')) :
    Outcome (Story.Paired c K κ ρ) (Story.Paired c K κ ρ) (putOut s) (putOut u) := by
  unfold putOut
  rw [bind_ok (state_ok s), bind_ok (state_ok u), ← hp.state.evaluation]
  cases heval : s.state.evaluation with
  | nil => exact .ok hp
  | cons token rest =>
    have hpop : pop s = .ok token { s with state := { s.state with evaluation := rest } } :=
      pop_run_cons heval
    have hpop' : pop u = .ok token { u with state := { u.state with evaluation := rest } } :=
      pop_run_cons (hp.state.evaluation.symm.trans heval)
    have hrest : Story.Paired c K κ ρ { s with state := { s.state with evaluation := rest } }
        { u with state := { u.state with evaluation := rest } } :=
      ⟨hp.left, hp.right, { hp.state with evaluation := rfl }, hp.shapes, hp.others⟩
    rw [List.isEmpty_cons, if_neg Bool.false_ne_true, bind_ok hpop, bind_ok hpop']
    cases token with
    | void => exact .ok hrest
    | _ => exact hput _ _ _ (by rw [heval]; rfl) rfl hrest

/-- The commands that put something out, or take something back. -/
theorem blind_putsOut {command : Command} (h : command.PutsOut) :
    Blind c .equal κ SameOutput (performCommand command) := by
  cases command with
  | evalOutput => exact fun s u hp => outcome_putOut hp fun _ _ _ _ _ h => blind_emit _ h
  | beginString =>
    refine blind_bind (blind_emit _) fun _ => together_state_bind fun s u h => ?_
    rw [h.inExpression_eq]
    exact blind_unless _ (blind_setInExpression false)
  | endString =>
    intro s u hp
    have houtput : s.state.output = u.state.output := hp.shapes
    refine .ok ⟨hp.left, hp.right, ?_, ?_, hp.others⟩
    · dsimp only
      rw [houtput]
      have hkept : ∀ output, State.Alike .equal { s.state with output := output }
          { u.state with output := output } := fun output => { hp.state with }
      exact ((hkept _).setInExpression true).push _
    · show State.output _ = State.output _
      dsimp only
      rw [houtput]
      rfl
  | beginTag => exact blind_emit _
  | endTag =>
    refine blind_output_bind fun s u h houtput => ?_
    dsimp only
    rw [houtput]
    refine blind_ite (blind_unless _ ?_) (blind_emit _)
    intro s u hp
    have hfront : ∀ output, State.Alike .equal { s.state with output := output }
        { u.state with output := output } := fun output => { hp.state with }
    exact .ok ⟨hp.left, hp.right, (hfront _).push _, rfl, hp.others⟩
  | _ => exact h.elim

/-- Carrying out a leaf, when calls of functions of the host are blind. -/
theorem blind_executeLeaf_same {leaf : Option (NodeId × Instruction)}
    (hcalls : ∀ id d, leaf = some (id, .divert d) →
      Blind c .equal κ SameOutput (performDivert id d)) :
    Blind c .equal κ SameOutput (executeLeaf leaf) := by
  refine blind_executeLeaf (fun _ _ _ _ => blind_putContent fun _ => blind_emit _) fun l hl => ?_
  refine blind_execute stable_sameOutput l.1 (fun d hd => hcalls l.1 d ?_) fun _ _ => blind_putsOut
  rw [Option.mem_def.mp hl, ← hd]

end Flow

end StoryMachine
