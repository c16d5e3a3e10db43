import StoryMachine.Proofs.Story.Emission

/-!
# Glue

Text that is pushed behind glue uses the glue up, so that a line end behind it is kept. Glue is looked
for in the whole output, but it is taken out only as far as the last command: glue with a command
behind it is stuck. It stays in the output when text comes, and takes every line end pushed from then
on.

* `Output.GlueStuck` : there is glue in front of a command;
* `Text.HasWords` : texts that are more than blanks and line ends;
* `Pushed` : what is pushed on an output, one token after the other;
* `Output.Settled` : what is left of glue behind a text;
* `line_end_is_kept_iff` : a line end behind a text is kept unless glue was stuck in front of the text.
-/

namespace StoryMachine

/-! ## Glue in the output -/

namespace Output

/-- There is glue with a command behind it; the newest token is the first one. -/
def GlueStuck (ts : List Token) : Prop :=
  ∃ behind front c, ts = behind ++ .glue :: front ∧ .command c ∈ behind

theorem GlueStuck.mem {ts : List Token} (h : GlueStuck ts) : .glue ∈ ts := by
  obtain ⟨behind, front, c, rfl, -⟩ := h
  exact List.mem_append_right _ List.mem_cons_self

theorem glueStuck_nil : ¬GlueStuck [] :=
  fun h => nomatch h.mem

theorem glue_mem_command_cons {c : Command} {ts : List Token} :
    .glue ∈ Token.command c :: ts ↔ .glue ∈ ts :=
  List.mem_cons.trans (or_iff_right nofun)

/-- A command that is pushed on glue leaves it stuck. -/
theorem glueStuck_command_cons {c : Command} {ts : List Token} :
    GlueStuck (.command c :: ts) ↔ .glue ∈ ts := by
  refine ⟨fun h => ?_, fun h => ?_⟩
  · exact glue_mem_command_cons.mp h.mem
  · obtain ⟨behind, front, rfl⟩ := List.append_of_mem h
    exact ⟨.command c :: behind, front, c, rfl, List.mem_cons_self⟩

/-- Only commands make glue stick. -/
theorem glueStuck_cons {t : Token} (ht : ∀ c, t ≠ .command c) {ts : List Token} :
    GlueStuck (t :: ts) ↔ GlueStuck ts := by
  refine ⟨fun ⟨behind, front, c, heq, hc⟩ => ?_, fun ⟨behind, front, c, heq, hc⟩ => ?_⟩
  · cases behind with
    | nil => cases hc
    | cons u behind =>
      obtain ⟨rfl, rfl⟩ := List.cons.inj heq
      exact ⟨behind, front, c, rfl, (List.mem_cons.mp hc).resolve_left (Ne.symm (ht c))⟩
  · exact ⟨t :: behind, front, c, congrArg (t :: ·) heq, List.mem_cons_of_mem t hc⟩

theorem glueStuck_text_cons {s : String} {ts : List Token} :
    GlueStuck (.text s :: ts) ↔ GlueStuck ts :=
  glueStuck_cons (t := .text s) nofun

theorem glueStuck_glue_cons {ts : List Token} : GlueStuck (.glue :: ts) ↔ GlueStuck ts :=
  glueStuck_cons (t := .glue) nofun

/-- What is left once glue has been taken out is stuck, as it was. -/
theorem glue_mem_dropGlue (ts : List Token) :
    (.glue ∈ dropGlue ts ↔ GlueStuck ts) ∧ (GlueStuck (dropGlue ts) ↔ GlueStuck ts) := by
  fun_induction dropGlue ts with
  | case1 => exact ⟨⟨fun h => absurd h List.not_mem_nil, fun h => (glueStuck_nil h).elim⟩, .rfl⟩
  | case2 c rest => exact ⟨glue_mem_command_cons.trans glueStuck_command_cons.symm, .rfl⟩
  | case3 rest ih => rwa [glueStuck_glue_cons]
  | case4 t rest hcommand hglue ih =>
    rw [glueStuck_cons hcommand, glueStuck_cons hcommand, List.mem_cons]
    exact ⟨(or_iff_right fun h => hglue h.symm).trans ih.1, ih.2⟩

/-- Outside strings all glue there is is found. -/
theorem trimming_glue {ts : List Token} (h : hasBegun ts = false) (functionStart : Option Nat) :
    (trimming functionStart ts).glue = true ↔ .glue ∈ ts := by
  induction ts with
  | nil => exact ⟨nofun, nofun⟩
  | cons t rest ih =>
    obtain ⟨ht, hrest⟩ : t.isCommand .beginString = false ∧ hasBegun rest = false := by
      simpa [hasBegun] using h
    rw [List.mem_cons]
    unfold trimming
    split
    · cases ‹_ :: _ = []›
    · next heq =>
      cases heq
      exact ⟨fun _ => .inl rfl, fun _ => rfl⟩
    · next heq =>
      cases heq
      cases ht
    · next hglue _ heq =>
      cases heq
      exact (ih hrest).trans (or_iff_right fun hrfl => hglue hrfl.symm).symm

/-- Outside functions nothing is trimmed at the start of the text of one. -/
theorem trimming_none (ts : List Token) : (trimming none ts).function = false := by
  induction ts with
  | nil => rfl
  | cons t rest ih =>
    unfold trimming
    split
    · rfl
    · rfl
    · rfl
    · next heq =>
      cases heq
      exact ih

/-! ## Pushing a text -/

/-- Behind a text: there is text, no string is being evaluated, and the glue left is stuck. This is so
if `P` holds, that is, if glue was stuck when the text came. -/
structure Settled (P : Prop) (o : Output) : Prop where
  inString : o.inString = false
  hasText : o.hasText = true
  glue : .glue ∈ o.newest ↔ P
  stuck : GlueStuck o.newest ↔ P

variable {P : Prop} {o : Output} {s : String}

theorem glue_mem_text_cons {s : String} {ts : List Token} : .glue ∈ Token.text s :: ts ↔ .glue ∈ ts :=
  List.mem_cons.trans (or_iff_right nofun)

/-- A text that is pushed leaves glue stuck where it was stuck. -/
theorem glueStuck_pushText (o : Output) (functionStart : Option Nat) (s : String) :
    GlueStuck (o.pushText functionStart s).1.newest ↔ GlueStuck o.newest := by
  have hadd : ∀ u : Output, GlueStuck (u.add (.text s)).newest ↔ GlueStuck u.newest := fun u =>
    glueStuck_text_cons
  unfold pushText
  dsimp only
  split
  · split
    · exact .rfl
    · split
      · rw [hadd]
        split
        · exact (glue_mem_dropGlue o.newest).2
        · exact .rfl
      · exact hadd o
  · split
    · exact .rfl
    · exact hadd o

theorem not_inString_pushText (h : o.inString = false) (functionStart : Option Nat) (s : String) :
    (o.pushText functionStart s).1.inString = false := by
  rcases pushText_cases o functionStart s with heq | ⟨rest, heq, hbegun, -⟩
  · rwa [heq]
  · rw [heq]
    exact hbegun.trans h

/-- A text that can be seen takes out the glue that is not stuck. -/
theorem settled_pushText (h : o.inString = false) (hs : isVisible s = true)
    (functionStart : Option Nat) :
    Settled (GlueStuck o.newest) (o.pushText functionStart s).1 := by
  have hline : isLineEnd s = false := by
    simpa using (Bool.and_eq_true_iff.mp hs).1
  have hglue := trimming_glue h functionStart
  refine ⟨not_inString_pushText h _ _, ?_, ?_, glueStuck_pushText o functionStart s⟩
  · unfold pushText
    dsimp only
    rw [hline, hs]
    split
    · rfl
    · rfl
  · unfold pushText
    dsimp only
    rw [hline, hs]
    cases hfound : (trimming functionStart o.newest).glue with
    | true => exact glue_mem_text_cons.trans (glue_mem_dropGlue o.newest).1
    | false =>
      have hnone : .glue ∉ o.newest := fun hmem => by
        rw [hglue.mpr hmem] at hfound
        cases hfound
      have hstuck : ¬GlueStuck o.newest := fun hstuck => hnone hstuck.mem
      rw [iff_false_right hstuck]
      split
      · exact fun hmem => hnone (glue_mem_text_cons.mp hmem)
      · exact fun hmem => hnone (glue_mem_text_cons.mp hmem)

/-- Behind a text no other text changes what is left of glue. -/
theorem Settled.pushText (h : Settled P o) (functionStart : Option Nat) (s : String) :
    Settled P (o.pushText functionStart s).1 := by
  cases hs : isVisible s with
  | true =>
    have hpushed := settled_pushText h.inString hs functionStart
    exact ⟨hpushed.inString, hpushed.hasText, hpushed.glue.trans h.stuck,
      hpushed.stuck.trans h.stuck⟩
  | false =>
    have hadd : Settled P (o.add (.text s)) := ⟨h.inString, rfl, glue_mem_text_cons.trans h.glue,
      glueStuck_text_cons.trans h.stuck⟩
    unfold Output.pushText
    dsimp only
    rw [hs]
    split
    · split
      · exact h
      · exact hadd
    · split
      · exact h
      · exact hadd

/-- Nor does any other token but glue. -/
theorem Settled.add (h : Settled P o) {t : Token} (hglue : t ≠ .glue)
    (hstring : t ≠ .command .beginString) : Settled P (o.add t) := by
  have hmem : .glue ∈ (o.add t).newest ↔ P :=
    (List.mem_cons.trans (or_iff_right (Ne.symm hglue))).trans h.glue
  have hbegin : t.isCommand .beginString = false := by
    cases t with
    | command c =>
      refine Bool.eq_false_iff.mpr fun hc => hstring ?_
      rw [Token.isCommand, beq_iff_eq] at hc
      rw [hc]
    | _ => rfl
  refine ⟨?_, ?_, hmem, ?_⟩
  · show hasBegun (t :: o.newest) = false
    have hrest : hasBegun o.newest = false := h.inString
    rw [hasBegun, List.any_cons, hbegin, Bool.false_or]
    exact hrest
  · show (t :: o.newest).any _ = true
    have hrest : o.newest.any (fun t => t.text?.isSome) = true := h.hasText
    rw [List.any_cons, hrest, Bool.or_true]
  · by_cases hcommand : ∃ c, t = .command c
    · obtain ⟨c, rfl⟩ := hcommand
      exact glueStuck_command_cons.trans h.glue
    · exact (glueStuck_cons fun c hc => hcommand ⟨c, hc⟩).trans h.stuck

/-- A line end behind a text is kept unless there is glue left. -/
theorem pushText_lineEnd (h : Settled P o) (hline : o.endsInLineEnd = false) :
    (o.pushText none "\n").1 = o.add (.text "\n") ∧ ¬P ∨ (o.pushText none "\n").1 = o ∧ P := by
  have hfound := (trimming_glue h.inString none).trans h.glue
  unfold Output.pushText
  dsimp only
  rw [trimming_none, Bool.or_false, hline, h.hasText]
  cases hglue : (trimming none o.newest).glue with
  | true => exact .inr ⟨rfl, hfound.mp hglue⟩
  | false => exact .inl ⟨rfl, fun hP => by rw [hfound.mpr hP] at hglue; cases hglue⟩

end Output

/-! ## Texts with words -/

namespace Text

/-- The text is more than blanks and line ends. -/
def HasWords (text : String) : Prop :=
  ∃ c ∈ text.toList, isSpacing c = false

theorem isVisible_of_mem {cs : List Char} {c : Char} (hc : c ∈ cs) (hspacing : isSpacing c = false) :
    isVisible (String.ofList cs) = true := by
  have hline : isLineEnd (String.ofList cs) = false := by
    refine Bool.eq_false_iff.mpr fun h => ?_
    have heq : cs = ['\n'] := by
      have hlist := congrArg String.toList (beq_iff_eq.mp h)
      rwa [String.toList_ofList] at hlist
    rw [heq, List.mem_singleton] at hc
    rw [hc] at hspacing
    cases hspacing
  have hblank : allBlank (String.ofList cs) = false := by
    refine Bool.eq_false_iff.mpr fun h => ?_
    rw [allBlank, String.toList_ofList] at h
    have hc' := isSpacing_of_isBlank (List.all_eq_true.mp h c hc)
    rw [hspacing] at hc'
    cases hc'
  rw [isVisible, hline, hblank]
  rfl

theorem mem_dropWhile {cs : List Char} {c : Char} (hc : c ∈ cs) (hspacing : isSpacing c = false) :
    c ∈ cs.dropWhile isSpacing := by
  rw [← List.takeWhile_append_dropWhile (p := isSpacing) (l := cs)] at hc
  refine (List.mem_append.mp hc).resolve_left fun hlead => ?_
  rw [List.all_eq_true.mp List.all_takeWhile c hlead] at hspacing
  cases hspacing

/-- A text with words has a part that can be seen. -/
theorem HasWords.exists_mem_parts {text : String} (h : HasWords text) :
    ∃ part ∈ parts text, isVisible part = true := by
  obtain ⟨c, hc, hspacing⟩ := h
  unfold parts outerLines
  cases hparts : outerParts text.toList with
  | none =>
    have hvisible := isVisible_of_mem hc hspacing
    rw [String.ofList_toList] at hvisible
    exact ⟨text, List.mem_singleton_self text, hvisible⟩
  | some parts =>
    have hcore := mem_dropWhile (List.mem_reverse.mpr (mem_dropWhile hc hspacing)) hspacing
    rw [← List.mem_reverse] at hcore
    unfold outerParts at hparts
    dsimp only at hparts
    split at hparts
    · cases hparts
      rw [if_neg (by rw [List.isEmpty_iff]; exact List.ne_nil_of_mem hcore)]
      exact ⟨_, List.mem_map_of_mem (List.mem_append_left _ (List.mem_append_right _
        (List.mem_singleton_self _))),
        isVisible_of_mem (List.mem_append_left _ (List.mem_append_right _ hcore)) hspacing⟩
    · cases hparts

end Text

/-! ## Putting out -/

namespace State

/-- A text with words takes out the glue that is not stuck. -/
theorem settled_emit_text {s : State} {text : String} (h : s.output.inString = false)
    (htext : Text.HasWords text) :
    Output.Settled (Output.GlueStuck s.output.newest) (s.emit (.text text)).output := by
  obtain ⟨part, hpart, hvisible⟩ := htext.exists_mem_parts
  rw [emit_text]
  generalize Text.parts text = parts at hpart
  have hbehind : ∀ {P : Prop} (parts : List String) {s : State}, Output.Settled P s.output →
      Output.Settled P (parts.foldl emitText s).output := by
    intro P parts
    induction parts with
    | nil => exact id
    | cons part rest ih =>
      intro s hs
      refine ih ?_
      rw [output_emitText]
      exact hs.pushText _ _
  induction parts generalizing s with
  | nil => cases hpart
  | cons first rest ih =>
    rw [List.foldl_cons]
    rcases List.mem_cons.mp hpart with rfl | hrest
    · refine hbehind rest ?_
      rw [output_emitText]
      exact Output.settled_pushText h hvisible _
    · have hstuck := Output.glueStuck_pushText s.output s.functionStart first
      rw [← output_emitText] at hstuck
      have hfirst := ih (s := s.emitText first)
        (by rw [output_emitText]; exact Output.not_inString_pushText h _ _) hrest
      rwa [propext hstuck] at hfirst

/-- Behind a text neither other texts nor legacy tags and tag commands change what is left of
glue. -/
theorem settled_emit {P : Prop} {s : State} (h : Output.Settled P s.output) {t : Token}
    (hglue : t ≠ .glue) (hstring : t ≠ .command .beginString) :
    Output.Settled P (s.emit t).output := by
  by_cases htext : ∃ text, t = .text text
  · obtain ⟨text, rfl⟩ := htext
    rw [emit_text]
    generalize Text.parts text = parts
    induction parts generalizing s with
    | nil => exact h
    | cons part rest ih =>
      refine ih ?_
      rw [output_emitText]
      exact h.pushText _ _
  · have hadd := h.add hglue hstring
    unfold emit
    split
    · exact absurd ⟨_, rfl⟩ htext
    · exact absurd rfl hglue
    · exact hadd

end State

/-- Tokens are pushed on an output one after the other. What the state holds beside the output may be
anything each time. -/
inductive Pushed : Output → List Token → Output → Prop
  | none (o : Output) : Pushed o [] o
  | more (s : State) (t : Token) {ts : List Token} {o : Output}
      (h : Pushed (s.emit t).output ts o) : Pushed s.output (t :: ts) o

theorem Pushed.settled {P : Prop} {o u : Output} {ts : List Token} (h : Pushed o ts u)
    (ho : Output.Settled P o) (hts : ∀ t ∈ ts, t ≠ .glue ∧ t ≠ .command .beginString) :
    Output.Settled P u := by
  induction h with
  | none => exact ho
  | more s t _ ih =>
    obtain ⟨⟨hglue, hstring⟩, hrest⟩ := List.forall_mem_cons.mp hts
    exact ih (State.settled_emit ho hglue hstring) hrest

/-- Outside strings, whatever the output: let a text with words be put out, then any texts, line
ends, legacy tags and tag commands, but no glue. A line end that comes next, where no start of a
function is trimmed and there is none directly in front of it, is kept, unless glue was stuck behind a
command when the text came. Then it is dropped. -/
theorem line_end_is_kept_iff {s u : State} {text : String} {behind : List Token}
    (hstring : s.output.inString = false) (htext : Text.HasWords text)
    (hpushed : Pushed (s.emit (.text text)).output behind u.output)
    (hbehind : ∀ t ∈ behind, t ≠ .glue ∧ t ≠ .command .beginString)
    (hfunction : u.functionStart = none) (hline : u.output.endsInLineEnd = false) :
    (¬Output.GlueStuck s.output.newest →
      (u.emit (.text "\n")).output.tokens = u.output.tokens ++ [.text "\n"]) ∧
    (Output.GlueStuck s.output.newest → (u.emit (.text "\n")).output = u.output) := by
  have hsettled := hpushed.settled (State.settled_emit_text hstring htext) hbehind
  have hemit : (u.emit (.text "\n")).output = (u.output.pushText none "\n").1 := by
    rw [← hfunction, ← State.output_emitText]
    rfl
  rw [hemit]
  rcases Output.pushText_lineEnd hsettled hline with ⟨heq, hfree⟩ | ⟨heq, hstuck⟩
  · exact ⟨fun _ => heq ▸ Output.tokens_add _ _, fun hstuck => absurd hstuck hfree⟩
  · exact ⟨fun hfree => absurd hstuck hfree, fun _ => heq⟩

/-- A state in which tokens have been put out. -/
def State.showing (ts : List Token) : State :=
  { State.start 0 with output := .ofTokens ts }

/-- A text joined to another one by glue keeps the line end behind it, also behind a legacy tag.
Behind a tag between the glue and the text the line end is lost. -/
theorem joined_text_keeps_line_end :
    (((State.showing [.text "a", .glue]).emit (.text "b")).emit (.tag "t")).functionStart = none ∧
    ((((State.showing [.text "a", .glue]).emit (.text "b")).emit (.tag "t")).emit
      (.text "\n")).output.tokens = [.text "a", .text "b", .tag "t", .text "\n"] ∧
    ((((State.showing [.text "a", .glue, .command .beginTag, .text "t", .command .endTag]).emit
      (.text "b")).emit (.text "\n")).output.tokens =
        [.text "a", .glue, .command .beginTag, .text "t", .command .endTag, .text "b"]) := by
  let joined := State.showing [.text "a", .glue]
  let tagged :=
    State.showing [.text "a", .glue, .command .beginTag, .text "t", .command .endTag]
  have hwords : Text.HasWords "b" := ⟨'b', by decide, by decide⟩
  have hbehind : ∀ t ∈ [Token.tag "t"], t ≠ .glue ∧ t ≠ .command .beginString := fun t ht => by
    rw [List.mem_singleton.mp ht]
    exact ⟨nofun, nofun⟩
  have hjoined : ¬Output.GlueStuck joined.output.newest := by
    show ¬Output.GlueStuck [.glue, .text "a"]
    rw [Output.glueStuck_glue_cons, Output.glueStuck_text_cons]
    exact Output.glueStuck_nil
  have htagged : Output.GlueStuck tagged.output.newest :=
    ⟨[.command .endTag, .text "t", .command .beginTag], [.text "a"], .endTag, rfl,
      List.mem_cons_self⟩
  have hkept := line_end_is_kept_iff (s := joined) (u := (joined.emit (.text "b")).emit (.tag "t"))
    rfl hwords (.more _ (.tag "t") (.none _)) hbehind rfl (by decide)
  have hlost := line_end_is_kept_iff (s := tagged) (u := tagged.emit (.text "b"))
    rfl hwords (.none _) (List.forall_mem_nil _) rfl (by decide)
  exact ⟨rfl, hkept.1 hjoined, congrArg Output.tokens (hlost.2 htagged)⟩

end StoryMachine
