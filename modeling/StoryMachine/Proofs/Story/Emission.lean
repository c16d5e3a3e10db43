import StoryMachine.Proofs.Output
import StoryMachine.Proofs.Story.Parts

/-!
# What a step puts out

A step carries out one leaf. Only a leaf that is a text, and the command that puts out the
top of the evaluation stack, can add a text to those shown; everything else that a step does
takes texts back, or leaves them.

* `Story.nextText?` : the text that the next step puts out;
* `Story.Plain` : unless it is put out in a string, this text is a line end or has none;
* `Flow.emits_step` : a step of such a story takes texts back, or puts out one such text.
-/

namespace StoryMachine

/-- The place that a place leads to through containers entered at their starts; `depth`
bounds their number. -/
def Cursor.descend (t : ContentTree) : Nat → Cursor → Cursor
  | 0, c => c
  | depth + 1, c =>
    match (c.node? t).filter t.isContainer with
    | none => c
    | some id => if (t.content id).isEmpty then c else Cursor.descend t depth (.start id)

/-- The text that a token on the evaluation stack is put out as. -/
def Token.putText? : Token → Option String
  | .void => none
  | t => some t.render

/-- The text that an instruction puts out in a state. -/
def State.textOf? (s : State) : Instruction → Option String
  | .value (.text text) => if s.inExpression then none else some text
  | .command .evalOutput => s.evaluation.head?.bind Token.putText?
  | _ => none

/-- A text that is a line end or has none. -/
def PlainText (text : String) : Prop :=
  text = "\n" ∨ '\n' ∉ text.toList

instance (text : String) : Decidable (PlainText text) :=
  inferInstanceAs (Decidable (_ ∨ _))

namespace Story

/-- The place at which the next step finds its leaf. -/
def nextPlace? (s : Story) : Option Cursor :=
  s.state.cursor.map (Cursor.descend s.tree s.tree.size)

/-- The leaf that the next step carries out. -/
def nextLeaf? (s : Story) : Option (NodeId × Instruction) :=
  s.nextPlace?.bind fun c => (c.node? s.tree).bind fun id => (s.tree.leaf? id).map (id, ·)

theorem leaf?_of_nextLeaf? {s : Story} {id : NodeId} {i : Instruction}
    (h : s.nextLeaf? = some (id, i)) : s.tree.leaf? id = some i := by
  obtain ⟨c, -, h⟩ := Option.bind_eq_some_iff.mp h
  obtain ⟨id', -, h⟩ := Option.bind_eq_some_iff.mp h
  obtain ⟨i', hleaf, h⟩ := Option.map_eq_some_iff.mp h
  cases h
  exact hleaf

theorem leaf?_of_mem_nextLeaf? (s : Story) : ∀ l ∈ s.nextLeaf?, s.tree.leaf? l.1 = some l.2 :=
  fun _ hl => leaf?_of_nextLeaf? hl

/-- The text that the next step puts out. -/
def nextText? (s : Story) : Option String :=
  s.nextLeaf?.bind fun leaf => s.state.textOf? leaf.2

/-- Unless a string is being evaluated, the text that the next step puts out is plain. -/
def Plain (s : Story) : Prop :=
  s.state.output.inString = false → ∀ text, s.nextText? = some text → PlainText text

instance (s : Story) : Decidable s.Plain :=
  inferInstanceAs (Decidable (_ → ∀ text ∈ s.nextText?, PlainText text))

/-- From one story to another, texts have been taken back, or one plain text has been put
out. A line that begins to wait puts nothing out. -/
def Emits (s u : Story) : Prop :=
  Output.Kept s.state.output u.state.output ∨
    ∃ text, PlainText text ∧ Output.Put text s.state.output u.state.output ∧
      u.pending = s.pending

end Story

/-! ## Pieces of a step -/

open Output (Kept Put Trimmed)

variable {c : Content} {fx : Effects}

theorem StateChange.trimmed (hfx : fx.output = false) {s u : State} (h : StateChange c fx s u) :
    Trimmed s.output.newest u.output.newest := by
  cases h with
  | enter id atStart =>
    unfold State.enter
    split
    · exact .refl _
    · split
      · exact .refl _
      · exact .refl _
  | «return» hpop =>
    unfold State.popFrame at hpop
    dsimp only at hpop
    obtain ⟨callStack, -, hu⟩ := Except.bind_eq_ok.mp hpop
    cases hu
    split
    · exact Output.trimmed_trimFrom _ _
    · exact .refl _
  | putOut o hput =>
    rw [hfx] at hput
    cases hput
  | markText hput =>
    rw [hfx] at hput
    cases hput
  | _ => exact .refl _

/-- What puts nothing out may trim the text of a function. -/
theorem Changes.trimmed (hfx : fx.output = false) {s u : Story} (h : Changes c fx s u) :
    Trimmed s.state.output.newest u.state.output.newest := by
  induction h with
  | refl => exact .refl _
  | tail _ h ih =>
    refine ih.trans ?_
    cases h with
    | state h => exact h.trimmed hfx
    | _ => exact .refl _

namespace Story

theorem Emits.refl (s : Story) : s.Emits s :=
  .inl (Kept.refl _)

/-- A text that has been put out may be taken back by the changes behind it. -/
theorem Emits.changes {s u v : Story} (h : s.Emits u) (hv : Changes c .silent u v) :
    s.Emits v := by
  have hpending : v.pending = u.pending := by rw [(hv.state_only rfl).2]
  rcases h with hkept | ⟨text, hplain, hput, hsame⟩
  · exact .inl (hkept.trimmed (hv.trimmed rfl))
  · rcases hput.trimmed (hv.trimmed rfl) with hput | hkept
    · exact .inr ⟨text, hplain, hput, hpending.trans hsame⟩
    · exact .inl hkept

theorem Emits.of_changes (hfx : fx.output = false) {s u : Story} (h : Changes c fx s u) :
    s.Emits u :=
  .inl ((Kept.refl _).trimmed (h.trimmed hfx))

/-- What was done in front of the first change of the output does not count. -/
theorem Emits.of_same {s t u : Story} (h : t.Emits u) (houtput : t.state.output = s.state.output)
    (hpending : t.pending = s.pending) : s.Emits u := by
  unfold Emits at h ⊢
  rwa [houtput, hpending] at h

end Story

/-! ## Texts -/

theorem State.output_markText (s : State) : s.markText.output = s.output := by
  obtain ⟨thread, hmark, -⟩ := s.exists_markText_eq
  rw [hmark]

theorem State.output_emitText (s : State) (text : String) :
    (s.emitText text).output = (s.output.pushText s.functionStart text).1 := by
  unfold State.emitText
  dsimp only
  split
  · exact output_markText _
  · rfl

/-- In a string no text shown changes by a text that is put out. -/
theorem State.emitText_inString {s : State} (h : s.output.inString = true) (text : String) :
    (s.emitText text).output.inString = true ∧ (s.emitText text).output.shown = s.output.shown := by
  rw [output_emitText]
  exact Output.pushText_of_inString h _ _

theorem State.emitTexts_inString {s : State} (h : s.output.inString = true)
    (texts : List String) : (texts.foldl State.emitText s).output.shown = s.output.shown := by
  induction texts generalizing s with
  | nil => rfl
  | cons text rest ih =>
    obtain ⟨hin, hshown⟩ := emitText_inString h text
    exact (ih hin).trans hshown

theorem Text.outerParts_of_no_lineEnd {cs : List Char} (h : '\n' ∉ cs) :
    outerParts cs = none := by
  have hlead : (cs.takeWhile isSpacing).contains '\n' = false := by
    rw [Bool.eq_false_iff, ne_eq, List.contains_iff_mem]
    exact fun hmem => h (( List.takeWhile_prefix _).subset hmem)
  have htrail :
      (((cs.dropWhile isSpacing).reverse.takeWhile isSpacing).reverse).contains '\n' = false := by
    rw [Bool.eq_false_iff, ne_eq, List.contains_iff_mem, List.mem_reverse]
    intro hmem
    have hrest := ( List.takeWhile_prefix _).subset hmem
    exact h ((List.dropWhile_suffix _).subset (List.mem_reverse.mp hrest))
  unfold outerParts
  dsimp only
  rw [hlead, htrail]
  rfl

/-- The parts in which a text is put out. -/
def Text.parts (text : String) : List String :=
  (outerLines text).getD [text]

/-- A text is put out part by part. -/
theorem State.emit_text (s : State) (text : String) :
    s.emit (.text text) = (Text.parts text).foldl emitText s := by
  unfold State.emit Text.parts
  dsimp only [Token.text]
  cases Text.outerLines text with
  | none => rfl
  | some parts => rfl

/-- A plain text is put out as it is. -/
theorem State.emit_plain (s : State) {text : String} (h : PlainText text) :
    s.emit (.text text) = s.emitText text := by
  rw [emit_text]
  rcases h with rfl | h
  · rfl
  · rw [Text.parts, Text.outerLines, Text.outerParts_of_no_lineEnd h]
    rfl

/-- Putting out a text that is plain outside strings. -/
theorem State.output_emit_text (s : State) {text : String}
    (h : s.output.inString = false → PlainText text) :
    Kept s.output (s.emit (.text text)).output ∨
      PlainText text ∧ Put text s.output (s.emit (.text text)).output := by
  cases hin : s.output.inString with
  | true =>
    rw [emit_text]
    exact .inl (Kept.of_eq (emitTexts_inString hin _))
  | false =>
    have hplain := h hin
    rw [s.emit_plain hplain, output_emitText]
    rcases Output.put_pushText hin s.functionStart text with hput | hkept
    · exact .inr ⟨hplain, hput⟩
    · exact .inl hkept

/-- Putting out anything but a text. -/
theorem State.kept_emit (s : State) {t : Token} (h : t.text? = none) :
    Kept s.output (s.emit t).output := by
  unfold State.emit
  split
  · cases h
  · exact Output.kept_pushGlue _
  · exact Output.kept_add h _

namespace Flow

/-! ## Commands -/

theorem emits_emit_text (s : Story) {text : String}
    (h : s.state.output.inString = false → PlainText text) :
    s.Emits ((emit (.text text)).after s) := by
  rcases s.state.output_emit_text h with hkept | ⟨hplain, hput⟩
  · exact .inl hkept
  · exact .inr ⟨text, hplain, hput, rfl⟩

theorem emits_emit (s : Story) {t : Token} (h : t.text? = none) : s.Emits ((emit t).after s) :=
  .inl (s.state.kept_emit h)

theorem emits_putOut (s : Story)
    (h : s.state.output.inString = false →
      ∀ text, s.state.evaluation.head?.bind Token.putText? = some text → PlainText text) :
    s.Emits (putOut.after s) := by
  cases heval : s.state.evaluation with
  | nil =>
    unfold putOut
    rw [after_bind_ok (state_ok s), heval]
    exact .refl s
  | cons top rest =>
    have hpop : pop s = .ok top { s with state := { s.state with evaluation := rest } } :=
      pop_run_cons heval
    unfold putOut
    rw [after_bind_ok (state_ok s), heval]
    show s.Emits ((pop >>= _).after s)
    rw [after_bind_ok hpop]
    split
    · exact .of_same (.refl _) rfl rfl
    · next hvoid =>
      refine .of_same (emits_emit_text _ fun hin => ?_) rfl rfl
      refine h hin _ ?_
      rw [heval]
      show top.putText? = some top.render
      cases top with
      | void => exact absurd rfl hvoid
      | _ => rfl

theorem emits_beginString (s : Story) : s.Emits (beginString.after s) := by
  refine .inl (Kept.of_eq ?_)
  have hemit : (emit (.command .beginString)) s =
      .ok () { s with state := s.state.emit (.command .beginString) } := rfl
  have hshown : (s.state.emit (.command .beginString)).output.shown = s.state.output.shown :=
    Output.shown_begin rfl _
  unfold beginString
  rw [after_bind_ok hemit]
  cases hin : (s.state.emit (.command .beginString)).inExpression with
  | true =>
    rw [after_bind_ok (state_ok _)]
    rw [hin]
    exact hshown
  | false =>
    rw [after_bind_ok (state_ok _)]
    rw [hin]
    exact hshown

theorem emits_endString (s : Story) : s.Emits (endString.after s) := by
  have htag : ∀ (ts : List Token), ∀ t ∈ ts.filterMap tagToken?, ∃ text, t = .tag text := by
    intro ts t ht
    obtain ⟨u, -, hu⟩ := List.mem_filterMap.mp ht
    unfold tagToken? at hu
    split at hu
    · exact ⟨_, (Option.some.inj hu).symm⟩
    · cases hu
  refine .inl (Output.kept_endString s.state.output (fun t ht => ?_) ?_)
  · obtain ⟨text, rfl⟩ := htag _ t ht
    rfl
  · refine List.any_eq_false.mpr fun t ht => ?_
    obtain ⟨text, rfl⟩ := htag _ t ht
    exact Bool.false_ne_true

theorem emits_endTag (s : Story) : s.Emits (endTag.after s) := by
  unfold endTag
  rw [after_bind_ok (state_ok s)]
  cases hin : s.state.output.inString with
  | false => exact emits_emit s rfl
  | true =>
    simp only [if_true]
    split
    · exact .refl s
    · next hcommand =>
      refine .inl (Output.kept_endTag hin ?_)
      refine List.any_eq_false.mpr fun t ht hbegin => hcommand ?_
      refine List.any_eq_true.mpr ⟨t, ht, ?_⟩
      cases t with
      | command d => rfl
      | _ => cases hbegin

/-! ## Steps -/

/-- The scope that a reference gets when it is put somewhere leaves the text. -/
theorem emits_putContent (s : Story) (token : Token)
    (h : s.state.output.inString = false → s.state.inExpression = false →
      ∀ text, token.text? = some text → PlainText text) : s.Emits ((putContent token).after s) := by
  have hput : ∀ t : Token, (t.text? = token.text?) →
      s.Emits ((if s.state.inExpression then push t else emit t : Flow Unit).after s) := by
    intro t ht
    cases hexpr : s.state.inExpression with
    | true => exact .of_same (.refl _) rfl rfl
    | false =>
      cases htext : t.text? with
      | none => exact emits_emit s htext
      | some text =>
        have heq : t = .text text := by
          unfold Token.text? at htext
          split at htext
          · cases htext
            rfl
          · cases htext
        rw [heq]
        exact emits_emit_text s fun hin => h hin hexpr text (ht ▸ htext)
  unfold putContent
  rw [after_bind_ok (state_ok s)]
  refine hput _ ?_
  split
  · split
    · rfl
    · rfl
  · rfl

/-- Carrying out an instruction, in a story of which the text put out is plain. -/
theorem emits_execute (s : Story) (id : NodeId) (i : Instruction)
    (h : s.state.output.inString = false → i = .command .evalOutput →
      ∀ text, s.state.evaluation.head?.bind Token.putText? = some text → PlainText text) :
    s.Emits ((execute id i).after s) := by
  by_cases hputs : ∃ command : Command, i = .command command ∧ command.PutsOut
  · obtain ⟨command, rfl, hputs⟩ := hputs
    have hrun : (execute id (.command command)).after s = (performCommand command).after s := by
      show (performCommand command >>= fun _ => pure true).after s = _
      cases hx : performCommand command s with
      | ok a u => rw [after_bind_ok hx, after_of_ok hx]; rfl
      | error e u => rw [after_bind_error hx, after_of_error hx]
    rw [hrun]
    cases command with
    | evalOutput => exact emits_putOut s fun hin => h hin rfl
    | beginString => exact emits_beginString s
    | endString => exact emits_endString s
    | beginTag => exact emits_emit s rfl
    | endTag => exact emits_endTag s
    | _ => exact hputs.elim
  · have hsilent : Within s.content .quiet (execute id i) :=
      within_execute id (fun _ _ => rfl) (fun command hi hp => absurd ⟨command, hi, hp⟩ hputs)
        fun _ _ => rfl
    exact .of_changes rfl (hsilent s rfl)

/-- Content is left for what follows, and changes nothing yet. -/
theorem eq_of_execute_false {s u : Story} {id : NodeId} {i : Instruction}
    (h : execute id i s = .ok false u) : u = s := by
  have hno : ∀ {x : Flow Unit}, (x >>= fun _ => pure true) s ≠ .ok false u := by
    intro x hx
    obtain ⟨_, v, -, hv⟩ := exists_of_bind_eq_ok hx
    cases hv
  unfold execute at h
  split at h
  · exact absurd h hno
  · exact absurd h hno
  · exact absurd h hno
  · exact absurd h hno
  · exact absurd h hno
  · exact absurd h hno
  · cases h
    rfl

/-- What is quiet behind something that puts out a text may only take it back. -/
theorem emits_bind {α β : Type} {s : Story} {x : Flow α} {k : α → Flow β}
    (hx : s.Emits (x.after s)) (hk : ∀ c a, Within c .silent (k a)) :
    s.Emits ((x >>= k).after s) := by
  cases hrun : x s with
  | error e u =>
    rw [after_bind_error hrun]
    rwa [after_of_error hrun] at hx
  | ok a u =>
    rw [after_bind_ok hrun]
    rw [after_of_ok hrun] at hx
    exact hx.changes (hk u.content a u rfl)

theorem emits_executeAt (s : Story) {id : NodeId} {i : Instruction}
    (hleaf : s.tree.leaf? id = some i) (h : s.state.output.inString = false → ∀ text, s.state.textOf? i = some text →
      PlainText text) : s.Emits ((executeAt id i).after s) := by
  have hexecute := emits_execute s id i fun hin hi => by
    subst hi
    exact h hin
  unfold executeAt
  cases hrun : execute id i s with
  | error e u =>
    rw [after_bind_error hrun]
    rwa [after_of_error hrun] at hexecute
  | ok done u =>
    rw [after_bind_ok hrun, after_bind_ok (state_ok u)]
    rw [after_of_ok hrun] at hexecute
    split
    · exact hexecute
    · split
      · next p _ =>
        cases (show EStateM.Result.ok false s = .ok done u from hrun)
        exact hexecute.changes (within_performChoicePoint hleaf s rfl)
      · cases done with
        | true => exact hexecute
        | false =>
          obtain rfl := eq_of_execute_false hrun
          show u.Emits ((putInstruction i).after u)
          unfold putInstruction
          split
          · next token htoken =>
            refine emits_putContent u token fun hin hexpr text htext => h hin text ?_
            cases i with
            | value v =>
              cases htoken
              cases v with
              | text other =>
                show (if u.state.inExpression then none else some other) = some text
                rw [hexpr]
                exact htext
              | _ => cases htext
            | command c => cases htoken; cases htext
            | tag other => cases htoken; cases htext
            | glue => cases htoken; cases htext
            | void => cases htoken; cases htext
            | _ => cases htoken
          · exact .refl u

end Flow

/-- Warnings change nothing else. -/
theorem State.exists_warnAll_eq (s : State) (t : ContentTree) (messages : List String) :
    ∃ warnings, s.warnAll t messages = { s with warnings } := by
  unfold warnAll
  induction messages generalizing s with
  | nil => exact ⟨_, rfl⟩
  | cons message rest ih => exact ih _

/-- Entering by a jump only counts visits. -/
theorem State.exists_enterByJump_eq (s : State) (t : ContentTree) :
    ∃ visits turns, s.enterByJump t = { s with visits, turns } := by
  have hancestors : ∀ (openBefore ids : List NodeId) (s : State) (child : NodeId) (atStart : Bool),
      ∃ visits turns,
        State.enterAncestors t openBefore s child atStart ids = { s with visits, turns } := by
    intro openBefore ids
    induction ids with
    | nil => exact fun s _ _ => ⟨s.visits, s.turns, rfl⟩
    | cons id rest ih =>
      intro s child atStart
      rw [State.enterAncestors]
      split
      · exact ⟨s.visits, s.turns, rfl⟩
      · dsimp only
        split
        · exact ⟨s.visits, s.turns, rfl⟩
        · obtain ⟨visits, turns, henter⟩ := s.exists_enter_eq t id _
          rw [henter]
          exact ih _ _ _
  unfold State.enterByJump
  split
  · exact ⟨s.visits, s.turns, rfl⟩
  · split
    · exact ⟨s.visits, s.turns, rfl⟩
    · split
      · exact ⟨s.visits, s.turns, rfl⟩
      · exact hancestors _ _ s _ _

namespace Flow

/-- Entering containers counts visits, and leads to the place that their starts lead to. -/
theorem exists_enterContainers_eq (t : ContentTree) (depth : Nat) (c : Cursor) (s : Story) :
    ∃ visits turns, enterContainers t depth c s =
      .ok (c.descend t depth) { s with state := { s.state with visits, turns } } := by
  induction depth generalizing c s with
  | zero => exact ⟨s.state.visits, s.state.turns, rfl⟩
  | succ depth ih =>
    cases hnode : (c.node? t).filter t.isContainer with
    | none =>
      refine ⟨s.state.visits, s.state.turns, ?_⟩
      rw [enterContainers, Cursor.descend, hnode]
      rfl
    | some id =>
      obtain ⟨visits, turns, henter⟩ := s.state.exists_enter_eq t id true
      have hmodify : modifyState (fun s => s.enter t id true) s =
          .ok () { s with state := { s.state with visits, turns } } := by
        rw [← henter]
        rfl
      rw [enterContainers, Cursor.descend, hnode]
      dsimp only
      rw [bind_ok hmodify]
      split
      · exact ⟨visits, turns, rfl⟩
      · exact ih _ _

/-- Behind what has been carried out there is nothing left to do at a leaf that is no choice
point. -/
theorem executeAt_of_carriedOut {id : NodeId} {i : Instruction} {x : Flow Unit}
    (hexecute : execute id i = x >>= fun _ => pure true) (hi : ∀ p, i ≠ .choicePoint p) :
    executeAt id i = x := by
  funext s
  unfold executeAt
  rw [hexecute]
  cases h : x s with
  | error e u => exact bind_error (bind_error h)
  | ok _ u =>
    have hrun : (x >>= fun _ => pure true) s = .ok true u := bind_ok h
    rw [bind_ok hrun, bind_ok (state_ok u)]
    split
    · rfl
    · cases i with
      | choicePoint p => exact absurd rfl (hi p)
      | _ => rfl

theorem executeLeaf_divert (id : NodeId) (divert : Divert) :
    executeLeaf (some (id, .divert divert)) = performDivert id divert :=
  executeAt_of_carriedOut rfl nofun

theorem executeLeaf_command (id : NodeId) (command : Command) :
    executeLeaf (some (id, .command command)) = performCommand command :=
  executeAt_of_carriedOut rfl nofun

/-- Reaching a leaf counts visits and moves. -/
theorem exists_reachLeaf_eq {s : Story} {c : Cursor} (h : s.state.cursor = some c) :
    ∃ visits turns, reachLeaf c s = .ok s.nextLeaf?
      { s with state :=
        { s.state with visits, turns }.setCursor (some (c.descend s.tree s.tree.size)) } := by
  obtain ⟨visits, turns, henter⟩ := exists_enterContainers_eq s.tree s.tree.size c s
  refine ⟨visits, turns, ?_⟩
  rw [Story.nextLeaf?, Story.nextPlace?, h]
  unfold reachLeaf
  rw [bind_ok (tree_ok s), bind_ok henter]
  rfl

/-- A step carries out the leaf that it reaches, and moves on behind it. -/
theorem exists_step_eq {s : Story} (h : s.state.cursor.isSome = true) :
    ∃ w, step s = (executeLeaf s.nextLeaf? >>= fun _ => leaveLeaf s.nextLeaf?) w ∧
      ∃ visits turns place,
        w = { s with state := { s.state with visits, turns }.setCursor (some place) } := by
  obtain ⟨c, hcursor⟩ := Option.isSome_iff_exists.mp h
  obtain ⟨visits, turns, hreach⟩ := exists_reachLeaf_eq hcursor
  refine ⟨_, ?_, visits, turns, c.descend s.tree s.tree.size, rfl⟩
  unfold step
  rw [bind_ok (state_ok s), hcursor]
  dsimp only
  rw [bind_ok hreach]

theorem emits_executeLeaf (s : Story) (leaf : Option (NodeId × Instruction))
    (hleaf : ∀ l ∈ leaf, s.tree.leaf? l.1 = some l.2) (h : s.state.output.inString = false →
      ∀ text, (leaf.bind fun leaf => s.state.textOf? leaf.2) = some text → PlainText text) :
    s.Emits ((executeLeaf leaf).after s) := by
  cases leaf with
  | none => exact .refl s
  | some leaf => exact emits_executeAt s (hleaf leaf rfl) h

/-- A step takes texts back, or puts out one plain text. -/
theorem emits_step {s : Story} (h : s.Plain) : s.Emits (step.after s) := by
  unfold step
  rw [after_bind_ok (state_ok s)]
  cases hcursor : s.state.cursor with
  | none => exact .refl s
  | some c =>
    obtain ⟨visits, turns, hreach⟩ := exists_reachLeaf_eq hcursor
    dsimp only
    rw [after_bind_ok hreach]
    refine .of_same (emits_bind (emits_executeLeaf _ s.nextLeaf? s.leaf?_of_mem_nextLeaf? h)
      fun c _ => ?_) rfl rfl
    exact within_leaveLeaf s.nextLeaf?

end Flow

end StoryMachine
