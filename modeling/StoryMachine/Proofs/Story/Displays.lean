import StoryMachine.Proofs.Borders
import StoryMachine.Proofs.Shares
import StoryMachine.Proofs.Story.Deeds
import StoryMachine.Proofs.Story.Lasting

/-!
# Displays

Text and tags are computed from the whole output, and they are asked for at every step that is made
behind a line end. A display is an output that is changed in place, and that remembers the text and the
tags as they were last read. Two marks say whether these may be stale. Reading one of them computes
it only if it may be stale, and clears its mark; whatever changes the output has to set both marks.

A display follows a state through all that is done to outputs: what is put out, with the glue that it
takes up and the line ends that it takes back, strings and tags that end, functions whose text is
trimmed, outputs that are begun anew or put back, states that are loaded, and states that are gone back
to behind a line end. The display that a state is kept with may be read while it is kept. However these
follow one another, what is read of the display is the text and the tags of the state.

* `Display`, `Display.readText`, `Display.readTags` : outputs that remember what was read of them;
* `Display.does` : what a deed does to a display;
* `State.Displayed` : the states that come about, each with the display that has followed it;
* `State.Displayed.output_eq`, `State.Displayed.fresh` : the display has the output of the state, and
  what it remembers is stale only where a mark says so;
* `Run.keepsDisplayed` : whatever a host does, the states of the story come about in this way;
* `readings_are_fresh` : what is read of a display, and what the texts of the output count for.
-/

namespace StoryMachine

/-- Whether trimming takes anything out of the `count` newest tokens. -/
def Output.dropsSpacing : Nat → List Token → Bool
  | 0, _ => false
  | _, [] => false
  | _, .command _ :: _ => false
  | _ + 1, .value (.text s) :: _ => !isVisible s
  | count + 1, _ :: rest => dropsSpacing count rest

theorem Output.dropSpacing_of_not_dropsSpacing {count : Nat} {ts : List Token}
    (h : dropsSpacing count ts = false) : dropSpacing count ts = ts := by
  fun_induction dropSpacing count ts with
  | case1 | case2 | case3 | case4 => rfl
  | case5 count s rest hvisible =>
    rw [dropsSpacing, Bool.not_eq_false'] at h
    exact absurd h hvisible
  | case6 count t rest hcommand htext ih =>
    rw [dropsSpacing.eq_5 _ _ _ hcommand htext] at h
    rw [ih h]

/-- An output that is changed in place, with the text and the tags that were last read of it.

* `textStale`, `tagsStale` : the output may have changed since. -/
structure Display where
  output : Output
  lastText : String
  lastTags : List String
  textStale : Bool
  tagsStale : Bool

namespace Display

/-- Nothing has been put out, and nothing read. -/
def blank : Display :=
  ⟨.empty, "", [], true, true⟩

/-- What was last read may be stale. -/
def touch (d : Display) : Display :=
  { d with textStale := true, tagsStale := true }

/-- Another output stands in place of the one there was. -/
def change (d : Display) (o : Output) : Display :=
  { d with output := o }.touch

/-- Read the text. -/
def readText (d : Display) : String × Display :=
  if d.textStale then
    let text := d.output.text
    (text, { d with lastText := text, textStale := false })
  else (d.lastText, d)

/-- Read the tags. -/
def readTags (d : Display) : List String × Display :=
  if d.tagsStale then
    let tags := d.output.tags
    (tags, { d with lastTags := tags, tagsStale := false })
  else (d.lastTags, d)

/-! ## Changes of a display -/

/-- Add a token. -/
def add (d : Display) (t : Token) : Display :=
  d.change (d.output.add t)

/-- Take back the line ends at the end. -/
def trimLineEnds (d : Display) : Display :=
  d.change ⟨Output.dropLineEnds d.output.newest⟩

/-- Take out the glue at the end. -/
def removeGlue (d : Display) : Display :=
  d.change ⟨Output.dropGlue d.output.newest⟩

/-- Push glue. -/
def pushGlue (d : Display) : Display :=
  d.trimLineEnds.add .glue

/-- Push a text. One that is dropped leaves the display as it is. -/
def pushText (d : Display) (functionStart : Option Nat) (s : String) : Display :=
  let trim := Output.trimming functionStart d.output.newest
  if trim.glue || trim.function then
    if isLineEnd s then d
    else if isVisible s then (if trim.glue then d.removeGlue else d).add (.text s)
    else d.add (.text s)
  else if isLineEnd s && (d.output.endsInLineEnd || !d.output.hasText) then d
  else d.add (.text s)

/-- Trim the end of a function's text. Where there is nothing to trim, the display stays as it is. -/
def trimEnd (d : Display) (start : Nat) : Display :=
  if Output.dropsSpacing (d.output.length - start) d.output.newest then
    d.change (d.output.trimFrom start)
  else d

/-- Pop the newest tokens. -/
def pop (d : Display) (count : Nat) : Display :=
  d.change (d.output.drop count)

/-- Pop what was put out since a command was, with the command. -/
def popTo (d : Display) (c : Command) : Display :=
  d.pop ((Output.splitAtCommand c d.output.newest).1.length + 1)

@[simp]
theorem output_readText (d : Display) : d.readText.2.output = d.output := by
  unfold readText
  split
  · rfl
  · rfl

@[simp]
theorem output_readTags (d : Display) : d.readTags.2.output = d.output := by
  unfold readTags
  split
  · rfl
  · rfl

@[simp]
theorem output_pushText (d : Display) (functionStart : Option Nat) (s : String) :
    (d.pushText functionStart s).output = (d.output.pushText functionStart s).1 := by
  unfold pushText Output.pushText
  dsimp only
  split
  · split
    · rfl
    · split
      · split
        · rfl
        · rfl
      · rfl
  · split
    · rfl
    · rfl

@[simp]
theorem output_trimEnd (d : Display) (start : Nat) :
    (d.trimEnd start).output = d.output.trimFrom start := by
  unfold trimEnd
  split
  · rfl
  · next h =>
    rw [Bool.not_eq_true] at h
    exact congrArg Output.mk (Output.dropSpacing_of_not_dropsSpacing h).symm

/-- What stands in front of a command is left. -/
@[simp]
theorem output_popTo (d : Display) (c : Command) :
    (d.popTo c).output = ⟨(Output.splitAtCommand c d.output.newest).2⟩ := by
  refine congrArg Output.mk ?_
  show d.output.newest.drop _ = _
  rcases Output.splitAtCommand_eq c d.output.newest with ⟨t, -, heq⟩ | ⟨-, heq⟩
  · generalize Output.splitAtCommand c d.output.newest = split at heq ⊢
    rw [heq, ← List.drop_drop, List.drop_left]
    rfl
  · rw [heq]
    exact List.drop_eq_nil_of_le (Nat.le_succ _)

theorem newest_foldl_add (ts : List Token) (d : Display) :
    (ts.foldl add d).output.newest = ts.reverse ++ d.output.newest := by
  induction ts generalizing d with
  | nil => rfl
  | cons t ts ih =>
    rw [List.foldl_cons, ih, List.reverse_cons, List.append_assoc]
    rfl

/-! ## What is remembered -/

/-- Unless a mark says that it may be stale, what is remembered is what would be read now. -/
structure Fresh (d : Display) : Prop where
  text : d.textStale = false → d.lastText = d.output.text
  tags : d.tagsStale = false → d.lastTags = d.output.tags

namespace Fresh

variable {d : Display}

theorem touch (d : Display) : d.touch.Fresh where
  text h := nomatch h
  tags h := nomatch h

theorem change (d : Display) (o : Output) : (d.change o).Fresh :=
  .touch { d with output := o }

/-- Reading gives the text of the output. -/
theorem readText_eq (h : d.Fresh) : d.readText.1 = d.output.text := by
  unfold readText
  split
  · rfl
  · next hstale => exact h.text (Bool.not_eq_true _ ▸ hstale)

/-- Reading gives the tags of the output. -/
theorem readTags_eq (h : d.Fresh) : d.readTags.1 = d.output.tags := by
  unfold readTags
  split
  · rfl
  · next hstale => exact h.tags (Bool.not_eq_true _ ▸ hstale)

theorem readText (h : d.Fresh) : d.readText.2.Fresh := by
  unfold Display.readText
  split
  · exact ⟨fun _ => rfl, h.tags⟩
  · exact h

theorem readTags (h : d.Fresh) : d.readTags.2.Fresh := by
  unfold Display.readTags
  split
  · exact ⟨h.text, fun _ => rfl⟩
  · exact h

/-- A text that is not dropped sets the marks. -/
theorem pushText (h : d.Fresh) (functionStart : Option Nat) (s : String) :
    (d.pushText functionStart s).Fresh := by
  unfold Display.pushText
  dsimp only
  split
  · split
    · exact h
    · split
      · exact .change _ _
      · exact .change _ _
  · split
    · exact h
    · exact .change _ _

theorem trimEnd (h : d.Fresh) (start : Nat) : (d.trimEnd start).Fresh := by
  unfold Display.trimEnd
  split
  · exact .change _ _
  · exact h

theorem foldl_add (h : d.Fresh) (ts : List Token) : (ts.foldl add d).Fresh := by
  induction ts generalizing d with
  | nil => exact h
  | cons t ts ih => exact ih (.change _ _)

end Fresh

/-! ## Deeds -/

/-- Put the parts of a text out, one after the other, as in a state. -/
def emitParts (d : Display) (s : State) : List String → Display
  | [] => d
  | part :: rest => (d.pushText s.functionStart part).emitParts (s.emitText part) rest

/-- Put a token out, as in a state. The line ends at the edges of a text are put out on their own. -/
def emit (d : Display) (s : State) (t : Token) : Display :=
  match t with
  | .value (.text text) =>
    match Text.outerLines text with
    | some parts => (d.emitParts s parts).touch
    | none => d.pushText s.functionStart text
  | .glue => d.pushGlue
  | t => d.add t

/-- What a deed that is done in a state does to a display. -/
def does (d : Display) (s : State) : Deed → Display
  | .put t => d.emit s t
  | .beginString => d.emit s (.command .beginString)
  | .beginTag => d.emit s (.command .beginTag)
  | .endTag => d.emit s (.command .endTag)
  | .endString =>
    let behind := (Output.splitAtCommand .beginString d.output.newest).1
    (behind.filterMap Flow.tagToken?).reverse.foldl add (d.popTo .beginString)
  | .takeTag => d.popTo .beginTag
  | .back =>
    let frame := s.callStack.top
    if frame.kind = .function then d.trimEnd (frame.outputStart.getD 0) else d
  | .call _ | .fork | .endThread | .offer | .withdraw | .resume _ | .copy | .finish | .other => d

variable {d : Display} {s u : State}

theorem output_emitParts (h : d.output = s.output) (parts : List String) :
    (d.emitParts s parts).output = (parts.foldl State.emitText s).output := by
  induction parts generalizing d s with
  | nil => exact h
  | cons part rest ih =>
    refine ih ?_
    rw [output_pushText, State.output_emitText, h]

theorem output_emit (h : d.output = s.output) (t : Token) :
    (d.emit s t).output = (s.emit t).output := by
  unfold emit
  split
  · next text =>
    rw [← Token.text, State.emit_text, Text.parts]
    split
    · next parts hparts =>
      rw [hparts]
      exact output_emitParts h parts
    · next hwhole =>
      rw [hwhole]
      exact output_emitParts h [text]
  · exact congrArg Output.pushGlue h
  · next htext hglue =>
    rw [State.emit.eq_3 _ _ htext hglue]
    show d.output.add t = s.output.add t
    rw [h]

/-- A display goes with a state from deed to deed. -/
theorem output_does {deed : Deed} (h : d.output = s.output) (hdoes : s.Does deed u) :
    (d.does s deed).output = u.output := by
  cases hdoes with
  | put | beginString | beginTag | endTag => exact output_emit h _
  | endString =>
    show (List.foldl add _ _).output = ⟨_⟩
    refine congrArg Output.mk (newest_foldl_add _ _) |>.trans ?_
    rw [List.reverse_reverse, output_popTo, h]
  | takeTag =>
    show (d.popTo .beginTag).output = ⟨_⟩
    rw [output_popTo, h]
  | back hpop =>
    unfold State.popFrame at hpop
    obtain ⟨stack, -, hu⟩ := Except.bind_eq_ok.mp hpop
    cases hu
    show (if s.callStack.top.kind = .function then _ else d).output =
      if s.callStack.top.kind = .function then _ else s.output
    split
    · rw [output_trimEnd, h]
    · exact h
  | other houtput => exact h.trans houtput.symm
  | call | fork | endThread | offer | withdraw | resume | copy | finish => exact h

theorem Fresh.emit (h : d.Fresh) (s : State) (t : Token) : (d.emit s t).Fresh := by
  unfold Display.emit
  split
  · split
    · exact .touch _
    · exact h.pushText _ _
  · exact .change _ _
  · exact .change _ _

/-- A deed that changes the output sets the marks. -/
theorem Fresh.does (h : d.Fresh) (s : State) (deed : Deed) : (d.does s deed).Fresh := by
  cases deed with
  | put t => exact h.emit s t
  | beginString | beginTag | endTag => exact .change _ _
  | endString => exact Fresh.foldl_add (.change _ _) _
  | takeTag => exact .change _ _
  | back =>
    show (if s.callStack.top.kind = .function then _ else d).Fresh
    split
    · exact h.trimEnd _
    · exact h
  | call | fork | endThread | offer | withdraw | resume | copy | finish | other => exact h

end Display

/-! ## States with their displays -/

/-- The states that come about by what is done to outputs, each with the display that has followed it.

* `does` : a deed of a line, among them what is put out, strings and tags that end, and functions whose
  text is trimmed;
* `trimLineEnds`, `removeGlue`, `trimEnd`, `pop` : the parts of such deeds that take tokens back;
* `called`, `finished` : the host calls a function, and the call is left;
* `reset`, `putBack` : an output is begun anew, and one is put back that a state has had;
* `load` : a state is loaded;
* `rewind` : a state that was kept is gone back to, with the messages of the state that is left;
* `readText`, `readTags` : the display is read. -/
inductive State.Displayed : State → Display → Prop
  | start (seed : Int32) : Displayed (.start seed) .blank
  | does {s u : State} {d : Display} {deed : Deed} (h : Displayed s d) (hdoes : s.Does deed u) :
      Displayed u (d.does s deed)
  | trimLineEnds {s : State} {d : Display} (h : Displayed s d) :
      Displayed { s with output := ⟨Output.dropLineEnds s.output.newest⟩ } d.trimLineEnds
  | removeGlue {s : State} {d : Display} (h : Displayed s d) :
      Displayed { s with output := ⟨Output.dropGlue s.output.newest⟩ } d.removeGlue
  | trimEnd {s : State} {d : Display} (h : Displayed s d) (start : Nat) :
      Displayed { s with output := s.output.trimFrom start } (d.trimEnd start)
  | pop {s : State} {d : Display} (h : Displayed s d) (count : Nat) :
      Displayed { s with output := s.output.drop count } (d.pop count)
  | called {s : State} {d : Display} (h : Displayed s d) (height : Nat) :
      Displayed { s with callStack := s.callStack.push .hostCall height 0 } d
  | finished {s : State} {d : Display} {callStack : CallStack} (h : Displayed s d)
      (hpop : s.callStack.pop = .ok callStack) : Displayed { s with callStack } d
  | reset {s : State} {d : Display} (h : Displayed s d) :
      Displayed { s with output := .empty } (d.change .empty)
  | putBack {s u : State} {d e : Display} (h : Displayed s d) (hu : Displayed u e) :
      Displayed { s with output := u.output } (d.change e.output)
  | load {s u : State} {d : Display} {t : ContentTree} {text : String} (h : Displayed s d)
      (hread : s.ofText t text = .ok u) : Displayed u (d.change u.output)
  | rewind {s : State} {d : Display} (h : Displayed s d) (left : State) :
      Displayed (s.carryMessages left) d
  | readText {s : State} {d : Display} (h : Displayed s d) : Displayed s d.readText.2
  | readTags {s : State} {d : Display} (h : Displayed s d) : Displayed s d.readTags.2

namespace State

variable {s u : State} {d : Display}

/-- A display has the output of the state that it has followed. -/
theorem Displayed.output_eq (h : s.Displayed d) : d.output = s.output := by
  induction h with
  | start => rfl
  | does _ hdoes ih => exact Display.output_does ih hdoes
  | trimLineEnds _ ih => exact congrArg (fun o => Output.mk (Output.dropLineEnds o.newest)) ih
  | removeGlue _ ih => exact congrArg (fun o => Output.mk (Output.dropGlue o.newest)) ih
  | trimEnd _ start ih =>
    rw [Display.output_trimEnd, ih]
  | pop _ count ih => exact congrArg (fun o : Output => o.drop count) ih
  | called | finished | rewind => assumption
  | reset | load => rfl
  | putBack _ _ _ ih => exact ih
  | readText _ ih => exact (Display.output_readText _).trans ih
  | readTags _ ih => exact (Display.output_readTags _).trans ih

/-- What a display remembers is stale only where a mark says so. -/
theorem Displayed.fresh (h : s.Displayed d) : d.Fresh := by
  induction h with
  | start => exact .touch ⟨.empty, "", [], false, false⟩
  | @does s _ _ deed _ _ ih => exact ih.does s deed
  | trimLineEnds | removeGlue | pop | reset | putBack | load => exact .change _ _
  | trimEnd _ start ih => exact ih.trimEnd start
  | called | finished | rewind => assumption
  | readText _ ih => exact ih.readText
  | readTags _ ih => exact ih.readTags

/-- There is a display that has followed the state. -/
def HasDisplay (s : State) : Prop :=
  ∃ d, s.Displayed d

namespace HasDisplay

theorem does {deed : Deed} (h : s.HasDisplay) (hdoes : s.Does deed u) : u.HasDisplay :=
  have ⟨_, hd⟩ := h
  ⟨_, hd.does hdoes⟩

theorem develops {E : State → Prop} (h : s.HasDisplay) (hdevelops : s.Develops E u) :
    u.HasDisplay := by
  obtain ⟨ds, hds, -⟩ := hdevelops
  induction hds with
  | none => exact h
  | more hdoes _ ih => exact ih (h.does hdoes)

theorem same (h : s.HasDisplay) (houtput : u.output = s.output)
    (hcallStack : u.callStack = s.callStack) (hchoices : u.choices = s.choices) : u.HasDisplay :=
  h.does (.other houtput (congrArg CallStack.marks hcallStack) hchoices)

/-- An output is begun anew. -/
theorem reset (h : s.HasDisplay) : ({ s with output := .empty } : State).HasDisplay :=
  have ⟨_, hd⟩ := h
  ⟨_, hd.reset⟩

/-- An output is put back. -/
theorem putBack (h : s.HasDisplay) (hu : u.HasDisplay) :
    ({ s with output := u.output } : State).HasDisplay :=
  have ⟨_, hd⟩ := h
  have ⟨_, he⟩ := hu
  ⟨_, hd.putBack he⟩

theorem fail (h : s.HasDisplay) (t : ContentTree) (e : StoryError) : (s.fail t e).HasDisplay :=
  have hnoted : ({ s with
      errors := s.errors ++ [s.located t "ERROR" e.detail]
      firstError := s.firstError.or (some e) } : State).HasDisplay := h.same rfl rfl rfl
  hnoted.does (.finish _)

theorem checkEnd (h : s.HasDisplay) (t : ContentTree) : (s.checkEnd t).HasDisplay := by
  unfold State.checkEnd
  split
  · exact h
  · dsimp only
    split
    · split
      · exact (h.fail t _).fail t _
      · exact h.fail t _
    · split
      · exact h.fail t _
      · exact h

end HasDisplay

end State

/-! ## Stories -/

namespace Story

/-- The state of the story has a display, and so has the state kept at a line end. -/
abbrev KeepsDisplayed (s : Story) : Prop :=
  s.Keeps fun _ state => state.HasDisplay

namespace KeepsDisplayed

variable {s u : Story}

/-- What leaves output, frames and choices alone. -/
theorem same (h : s.KeepsDisplayed) (hcontent : u.content = s.content)
    (houtput : u.state.output = s.state.output) (hcallStack : u.state.callStack = s.state.callStack)
    (hchoices : u.state.choices = s.state.choices) (hkept : u.lineState = s.lineState) :
    u.KeepsDisplayed :=
  h.of_state hcontent (h.state.same houtput hcallStack hchoices) hkept

theorem changes {fx : Effects} (hfx : fx.output = false) (h : s.KeepsDisplayed)
    (hchanges : Changes s.content fx s u) : u.KeepsDisplayed :=
  h.of_state hchanges.content_eq (h.state.develops (E := fun _ => True) (hchanges.develops hfx))
    hchanges.lineState_eq

theorem openLine {limited : Bool} (h : s.KeepsDisplayed)
    (hopen : Flow.openLine limited s = .ok () u) : u.KeepsDisplayed := by
  rcases Flow.openLine_cases hopen with ⟨-, rfl⟩ | ⟨-, -, rfl⟩
  · exact h.of_state rfl h.state rfl
  · obtain ⟨warnings, hfresh⟩ := ({ s with lineOpen := limited } : Story).freshLine_eq
    rw [hfresh]
    exact h.of_state rfl (h.state.reset.same rfl rfl rfl) rfl

theorem lineStep (h : s.KeepsDisplayed) : (Flow.lineStep.after s).KeepsDisplayed :=
  Keeps.lineStep (fun hkept => hkept.same rfl rfl rfl) h
    (h.state.develops (Flow.develops_plainStep (E := fun _ => True) s fun _ _ _ _ => trivial))

theorem runLine (nodes : Nat) (h : s.KeepsDisplayed) :
    ((Flow.runLine nodes).after s).KeepsDisplayed :=
  Flow.runLine_invariant (fun h => h.of_state rfl h.state rfl)
    (fun _ h => h.of_state rfl (h.state.fail _ _) rfl) (fun h => h.lineStep) nodes h

/-- A line is ended at the state kept, if there is one. -/
theorem endLine (h : s.KeepsDisplayed) (ended : Bool) : (s.endLine ended).KeepsDisplayed := by
  unfold Story.endLine
  split
  · have hback : s.restoreLineState.KeepsDisplayed :=
      Keeps.restoreLineState (fun hkept => hkept.same rfl rfl rfl) h
    obtain ⟨vars, events, hclose⟩ := s.closeLine_eq_checkEnd
    rw [hclose]
    exact .of_none ((hback.state.checkEnd s.tree).same rfl rfl rfl) rfl
  · exact h

theorem continueLine (h : s.KeepsDisplayed) (limited : Bool) (nodes : Nat) :
    ((Flow.continueLine limited nodes).after s).KeepsDisplayed := by
  cases hopen : Flow.openLine limited s with
  | ok _ t =>
    obtain ⟨ended, -, hafter⟩ := Flow.after_continueLine nodes hopen
    have hend := ((h.openLine hopen).runLine nodes).endLine ended
    obtain ⟨warnings, events, shown, hreport⟩ :=
      Flow.after_reportIssues (((Flow.runLine nodes).after t).endLine ended)
    rw [hafter, hreport]
    exact hend.same rfl rfl rfl rfl rfl
  | error e t =>
    rw [Flow.after_continueLine_refused hopen]
    exact h.of_state rfl h.state rfl

theorem lines (h : s.KeepsDisplayed) (budget : Nat) (text : String) :
    ((Flow.collectLines text budget).after s).KeepsDisplayed :=
  Story.linesSteps_induction (R := fun s _ u => s.KeepsDisplayed → u.KeepsDisplayed)
    (fun _ h => h)
    (fun s h => by
      rw [Flow.after_next]
      exact Flow.holds_refuseWaiting h fun _ => h.continueLine false Flow.nodeBudget)
    (fun hfront hrest h => hrest (hfront h)) budget text s h

theorem startCall (h : s.KeepsDisplayed) (knot : NodeId) (arguments : List Value) :
    ((Flow.startCall knot arguments).after s).KeepsDisplayed := by
  obtain ⟨evaluation, hstart⟩ := Flow.after_startCall knot arguments s
  obtain ⟨d, hd⟩ := h.state
  have hframe : State.HasDisplay { s.state with
      output := .empty, callStack := s.state.callStack.push .hostCall s.state.evaluation.length 0 } :=
    ⟨_, hd.reset.called s.state.evaluation.length⟩
  rw [hstart]
  exact h.of_state rfl (hframe.does (.other rfl rfl rfl)) rfl

/-- A function that the host calls has an output of its own. -/
theorem called {arguments : List Value} {steps : List Story} (h : s.KeepsDisplayed)
    (hcalled : s.Called arguments steps u) : u.KeepsDisplayed := by
  cases hcalled with
  | missing => exact h
  | failed | abandoned => exact .of_none h.state rfl
  | @finished knot t v hstart hv =>
    have hstarted := h.startCall knot arguments
    rw [Flow.after_of_ok hstart] at hstarted
    have hlines := hstarted.lines Flow.lineBudget ""
    rw [← hv] at hlines
    obtain ⟨evaluation, stack, hfinish, hstack⟩ :=
      Flow.after_finishCall { v with state := { v.state with output := s.state.output } }
    have hback : State.HasDisplay { v.state with output := s.state.output } :=
      hlines.state.putBack h.state
    rw [hfinish]
    refine hlines.of_state rfl ?_ rfl
    rcases hstack with rfl | hpop
    · exact hback.same rfl rfl rfl
    · obtain ⟨d, hd⟩ := hback
      exact State.HasDisplay.same ⟨d, hd.finished hpop⟩ rfl rfl rfl

end KeepsDisplayed

end Story

/-- A host restores only states that have a display. -/
def HostCall.RestoresDisplayed (call : HostCall) (_ : Story) : Prop :=
  ∀ snapshot, call = .restore snapshot → snapshot.state.HasDisplay

open Story in
/-- The calls of a host do nothing else to outputs. -/
theorem keepsDisplayed_callInvariant :
    CallInvariant (fun _ => True) HostCall.RestoresDisplayed (fun _ => True) KeepsDisplayed where
  same h hsame := KeepsDisplayed.same h hsame.content hsame.output hsame.callStack hsame.choices
    hsame.lineState
  silent h _ hchanges := KeepsDisplayed.changes rfl h hchanges
  line _ h _ _ _ := KeepsDisplayed.continueLine h _ _
  evaluate name arguments h _ := KeepsDisplayed.called h (Story.called _ name arguments)
  load _ h _ hread := h.of_state rfl (have ⟨_, hd⟩ := h.state; ⟨_, hd.load hread⟩) rfl
  restore hallowed h _ _ := h.of_state rfl (hallowed _ rfl) rfl
  start _ h _ := h.of_state rfl ⟨_, .start _⟩ rfl
  back _ h := h.of_state rfl (h.state.does (.other rfl rfl rfl)) rfl

/-- Whatever a host does, the states of the story have displays. -/
theorem Run.keepsDisplayed {s : Story}
    (h : Run (fun _ => True) HostCall.RestoresDisplayed s) : s.KeepsDisplayed :=
  keepsDisplayed_callInvariant.run (fun _ seed => .of_none ⟨_, .start seed⟩ rfl)
    (fun _ _ _ _ _ _ => trivial) h

open Output in
/-- However a state has come about, by what is put out and taken back, by strings and tags that end and
functions whose text is trimmed, by outputs that are begun anew or put back, by loading, and by going
back to a state kept at a line end: what is read of its display is the text and the tags of its output
as they would be computed now. In this output every text counts for a tag if it lies in one, and for
the text of the line if it does not, and never for both. The states of every story, and those it keeps
at line ends, come about in this way, whatever a host does. -/
theorem readings_are_fresh :
    (∀ (s : State) (d : Display), s.Displayed d →
      d.readText.1 = s.output.text ∧ d.readTags.1 = s.output.tags ∧
        ∀ front text behind, s.output.tokens = front ++ .text text :: behind →
          InTag front ∧ CountsForTag front behind ∧ ¬CountsForText front behind ∨
            ¬InTag front ∧ CountsForText front behind ∧ ¬CountsForTag front behind) ∧
      ∀ s : Story, Run (fun _ => True) HostCall.RestoresDisplayed s → s.KeepsDisplayed := by
  refine ⟨fun s d h => ⟨?_, ?_, fun front _ behind _ => counts_once front behind⟩,
    fun _ => Run.keepsDisplayed⟩
  · rw [h.fresh.readText_eq, h.output_eq]
  · rw [h.fresh.readTags_eq, h.output_eq]

/-- Tokens, taken apart at a text. -/
theorem Output.eq_take_text_drop {ts : List Token} {i : Nat} {s : String}
    (h : ts[i]?.bind Token.text? = some s) : ts = ts.take i ++ .text s :: ts.drop (i + 1) := by
  obtain ⟨t, ht, htext⟩ := Option.bind_eq_some_iff.mp h
  obtain ⟨hi, rfl⟩ := List.getElem?_eq_some_iff.mp ht
  have hsame : ts[i] = .text s := by
    unfold Token.text? at htext
    split at htext
    · next heq => rw [heq, Option.some.inj htext]; rfl
    · cases htext
  rw [← hsame, ← List.drop_eq_getElem_cons hi, List.take_append_drop]

/-- A tag that is begun inside another one, and a sentence. -/
def raining : Content :=
  ⟨0, formatVersion, .ofBlock (.container none ⟨false, false, false⟩
    [.leaf (.command .beginTag), .leaf (.value (.text "weather")),
      .leaf (.command .beginTag), .leaf (.value (.text " rain ")), .leaf (.command .endTag),
      .leaf (.value (.text "It  rains.")), .leaf (.value (.text "\n")),
      .leaf (.value (.text "It pours.")), .leaf (.value (.text "\n"))] []), .empty⟩

open Output in
/-- The first line ends where the second one has begun, and the machine goes back. -/
theorem rain_is_read :
    ∃ s, Run (fun _ => True) HostCall.RestoresDisplayed s ∧ ∃ d, s.state.Displayed d ∧
      d.readText.1 = "It rains.\n" ∧ d.readTags.1 = ["weather", "rain"] ∧
      ∃ front behind, s.state.output.tokens = front ++ .text " rain " :: behind ∧
        CountsForTag front behind := by
  let first := Story.undeclared raining 0
  have hstart : Story.ofContent raining 0 = .ok first := Story.ofContent_undeclared rfl rfl
  have hrun : Run (fun _ => True) HostCall.RestoresDisplayed (HostCall.next.after first) :=
    .call (.start hstart fun _ _ => trivial) .next (fun _ h => nomatch h) fun _ _ => trivial
  obtain ⟨d, hd⟩ := (readings_are_fresh.2 _ hrun).state
  obtain ⟨htext, htags, hcounts⟩ := readings_are_fresh.1 _ d hd
  have hread : (HostCall.next.after first).state.output.text = "It rains.\n" ∧
      (HostCall.next.after first).state.output.tags = ["weather", "rain"] := by decide +kernel
  let tokens := (HostCall.next.after first).state.output.tokens
  have hrain : tokens[3]?.bind Token.text? = some " rain " := by decide +kernel
  have hopen : tagAfter false (tokens.take 3) = true := by decide +kernel
  have hsplit : tokens = tokens.take 3 ++ .text " rain " :: tokens.drop 4 :=
    eq_take_text_drop hrain
  refine ⟨_, hrun, d, hd, htext.trans hread.1, htags.trans hread.2, _, _, hsplit, ?_⟩
  rcases hcounts _ _ _ hsplit with ⟨-, htag, -⟩ | ⟨hout, -⟩
  · exact htag
  · exact absurd ((inTag_iff _).mpr hopen) hout

end StoryMachine
