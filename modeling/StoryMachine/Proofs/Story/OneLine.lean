import StoryMachine.Proofs.Story.Emission
import StoryMachine.Proofs.Story.LineChange
import StoryMachine.Proofs.Story.Orderly

/-!
# One line for each continue

While a line is produced, the texts shown have no line end, until a state is kept. Then they
have the one line end that they had when it was kept, with nothing but blanks behind it: as
soon as there is more the machine goes back to the state kept, and if the line end has been
taken back the state is dropped. A state may also be kept for a line end inside a tag, which
is not shown; it is dropped at the next look.

* `Lineless`, `Blank`, `SingleLine` : the shapes of texts;
* `Story.InOneLine` : what holds while a line is produced (`Story.lineInvariant_inOneLine`);
* `Flow.one_line_per_continue` : the text that a continue gives has at most one line end,
  which is its last character.
-/

namespace StoryMachine

/-- The texts have no line end. -/
def Lineless (texts : List String) : Prop :=
  ∀ text ∈ texts, '\n' ∉ text.toList

/-- The texts are nothing but blanks. -/
def Blank (texts : List String) : Prop :=
  ∀ text ∈ texts, ∀ c ∈ text.toList, Text.isBlank c = true

/-- The texts, newest first, have at most one line end, with only blanks behind it. -/
inductive SingleLine : List String → Prop
  | open {texts : List String} (h : Lineless texts) : SingleLine texts
  | ended {blanks texts : List String} (hblank : Blank blanks) (h : Lineless texts) :
      SingleLine (blanks ++ "\n" :: texts)

/-- The second output has come from the first one, which ends in a line end, by blanks. If
the line end is one in a tag, no text shown has changed. -/
inductive Follows (o u : Output) : Prop
  | tag (hstring : o.inString = false) (h : Lineless o.shown) (heq : u.shown = o.shown)
  | blanks {before after texts : List String} (hstring : o.inString = false)
      (h : Lineless texts) (hbefore : Blank before) (hafter : Blank after)
      (hold : o.shown = before ++ "\n" :: texts) (hnew : u.shown = after ++ "\n" :: texts)

/-! ## Texts and their characters -/

/-- The characters of texts, newest text first, in the order of the output. -/
def charsOf (texts : List String) : List Char :=
  texts.reverse.flatMap String.toList

theorem charsOf_append (newer older : List String) :
    charsOf (newer ++ older) = charsOf older ++ charsOf newer := by
  rw [charsOf, List.reverse_append, List.flatMap_append]
  rfl

theorem charsOf_lineEnd (newer older : List String) :
    charsOf (newer ++ "\n" :: older) = charsOf older ++ '\n' :: charsOf newer := by
  have hsplit : newer ++ "\n" :: older = (newer ++ ["\n"]) ++ older := by simp
  rw [hsplit, charsOf_append, charsOf_append]
  rfl

theorem mem_charsOf {texts : List String} {c : Char} :
    c ∈ charsOf texts ↔ ∃ text ∈ texts, c ∈ text.toList := by
  simp [charsOf]

theorem Lineless.not_mem_charsOf {texts : List String} (h : Lineless texts) :
    '\n' ∉ charsOf texts := fun hmem => by
  obtain ⟨text, htext, hc⟩ := mem_charsOf.mp hmem
  exact h text htext hc

theorem Lineless.of_suffix {texts older : List String} (h : Lineless texts)
    (hsuffix : older <:+ texts) : Lineless older :=
  fun text htext => h text (hsuffix.subset htext)

theorem Lineless.cons {text : String} {texts : List String} (h : Lineless texts)
    (htext : '\n' ∉ text.toList) : Lineless (text :: texts) := by
  intro other hother
  rcases List.mem_cons.mp hother with rfl | hother
  · exact htext
  · exact h other hother

theorem blank_iff {texts : List String} :
    Blank texts ↔ ∀ c ∈ charsOf texts, Text.isBlank c = true := by
  refine ⟨fun h c hc => ?_, fun h text htext c hc => h c (mem_charsOf.mpr ⟨text, htext, hc⟩)⟩
  obtain ⟨text, htext, hc⟩ := mem_charsOf.mp hc
  exact h text htext c hc

theorem blank_nil : Blank [] := nofun

/-- Outside strings the text of an output is that of the texts shown. -/
theorem Output.toList_text {o : Output} (h : o.inString = false) :
    o.text.toList = Text.cleanFrom true false (charsOf o.shown) := by
  rw [Output.text_eq h, Text.clean, String.toList_ofList, String.toList_join]
  rfl

/-- A single line has no line end but at its end. -/
theorem SingleLine.text {o : Output} (hstring : o.inString = false) (h : SingleLine o.shown) :
    '\n' ∉ o.text.toList.dropLast := by
  rw [Output.toList_text hstring]
  generalize o.shown = shown at h
  cases h with
  | «open» h =>
    intro hmem
    exact Text.lineEnd_not_mem_cleanFrom true false h.not_mem_charsOf (List.dropLast_subset _ hmem)
  | @ended blanks texts hblank h =>
    rw [charsOf_lineEnd, Text.cleanFrom_lineEnd, Text.cleanFrom_blanks false (blank_iff.mp hblank),
      List.dropLast_concat]
    exact Text.lineEnd_not_mem_cleanFrom true false h.not_mem_charsOf

/-! ## What the machine sees behind a line end -/

namespace Story

variable {kept now : State}

/-- Without a line end in the text shown, the line end has been removed. -/
theorem lineChange_of_lineless (hnow : now.output.inString = false)
    (h : Lineless now.output.shown) : lineChange kept now = .removed := by
  refine LineChange.between_removed _ ?_ _ _
  rw [Output.toList_text hnow]
  exact Text.lineEnd_not_mem_cleanFrom true false h.not_mem_charsOf

/-- The state was kept for a line end that is not shown. -/
theorem lineChange_of_tag (hkept : kept.output.inString = false)
    (hnow : now.output.inString = false) (h : Lineless kept.output.shown)
    (hshown : now.output.shown = "\n" :: kept.output.shown) :
    lineChange kept now = .removed := by
  have hold := Output.toList_text hkept
  refine LineChange.between_removed_of_append ?_ ?_ _ _
  · rw [hold]
    exact Text.lineEnd_not_mem_cleanFrom true false h.not_mem_charsOf
  · have hchars := charsOf_lineEnd [] kept.output.shown
    rw [List.nil_append] at hchars
    rw [Output.toList_text hnow, hshown, hchars, Text.cleanFrom_lineEnd, hold]
    exact List.prefix_append _ _

/-- Behind a line end that is still there, either the line has ended or there are only
blanks. -/
theorem lineChange_of_lineEnd {before after texts : List String}
    (hkept : kept.output.inString = false) (hnow : now.output.inString = false)
    (hbefore : Blank before) (hold : kept.output.shown = before ++ "\n" :: texts)
    (hnew : now.output.shown = after ++ "\n" :: texts) :
    lineChange kept now = .extended ∨ lineChange kept now = .unchanged ∧ Blank after := by
  have hkeptText : kept.output.text.toList =
      Text.cleanFrom true false (charsOf texts) ++ ['\n'] := by
    rw [Output.toList_text hkept, hold, charsOf_lineEnd, Text.cleanFrom_lineEnd,
      Text.cleanFrom_blanks false (blank_iff.mp hbefore)]
  have hnowText : now.output.text.toList =
      kept.output.text.toList ++ Text.cleanFrom true false (charsOf after) := by
    rw [Output.toList_text hnow, hnew, charsOf_lineEnd, Text.cleanFrom_lineEnd, hkeptText,
      List.append_assoc]
    rfl
  rcases LineChange.between_append hkeptText hnowText kept.output.tags.length
    now.output.tags.length with h | ⟨h, hblank⟩
  · exact .inl h
  · exact .inr ⟨h, blank_iff.mpr (Text.blanks_of_cleanFrom false hblank)⟩

end Story

theorem Follows.single {o u : Output} (h : Follows o u) : SingleLine o.shown := by
  cases h with
  | tag _ h _ => exact .open h
  | blanks _ h hbefore _ hold _ =>
    rw [hold]
    exact .ended hbefore h

theorem Follows.not_inString {o u : Output} (h : Follows o u) : o.inString = false := by
  cases h with
  | tag hstring _ _ => exact hstring
  | blanks hstring _ _ _ _ _ => exact hstring

/-! ## The invariant of a line -/

namespace Story

/-- Up to the state kept the texts have no line end; then it is the one that they had there,
with blanks behind it. -/
def InOneLine (s : Story) : Prop :=
  match s.lineState with
  | none => Lineless s.state.output.shown
  | some kept => Follows kept.output s.state.output

theorem inOneLine_of_none {s : Story} (h : s.lineState = none)
    (hshown : Lineless s.state.output.shown) : s.InOneLine := by
  rw [InOneLine, h]
  exact hshown

theorem inOneLine_of_some {s : Story} {kept : State} (h : s.lineState = some kept)
    (hfollows : Follows kept.output s.state.output) : s.InOneLine := by
  rw [InOneLine, h]
  exact hfollows

/-- What the output may be once a step has been made, before the line end is looked for. -/
inductive AfterStep (s v : Story) : Prop
  | taken (h : v.state.output.shown <:+ s.state.output.shown)
  | put {text : String} (h : '\n' ∉ text.toList)
      (heq : v.state.output.shown = text :: s.state.output.shown)
  | lineEnd (hends : v.state.output.endsInLineEnd = true)
      (heq : v.state.output.shown = "\n" :: s.state.output.shown)

theorem afterStep_of_emits {s v : Story} (h : s.Emits v) : s.AfterStep v := by
  rcases h with hkept | ⟨text, hplain, hput, -⟩
  · exact .taken hkept.suffix
  · rcases hput.shown_eq with heq | heq
    · rcases hplain with rfl | hplain
      · refine .lineEnd ?_ heq
        obtain ⟨rest, hnewest, -⟩ := hput.newest
        rw [Output.endsInLineEnd, hnewest]
        rfl
      · exact .put hplain heq
    · exact .taken (heq ▸ List.suffix_rfl)

/-- What a look at the line leaves: a line that may be ended, or goes on. -/
inductive Watched (u : Story) : Prop
  | plain (hstate : u.lineState = none) (h : SingleLine u.state.output.shown)
      (hopen : u.state.canContinue = true → Lineless u.state.output.shown)
  | kept {kept : State} (hstate : u.lineState = some kept)
      (h : Follows kept.output u.state.output)

theorem Watched.inOneLine {u : Story} (h : u.Watched) (hcontinue : u.state.canContinue = true) :
    u.InOneLine := by
  cases h with
  | plain hstate _ hopen => exact inOneLine_of_none hstate (hopen hcontinue)
  | kept hstate h => exact inOneLine_of_some hstate h

/-- The line that a watched story is ended with. -/
theorem Watched.single {u : Story} (h : u.Watched) : SingleLine u.restoreLineState.state.output.shown := by
  cases h with
  | plain hstate h _ =>
    rw [restoreLineState, hstate]
    exact h
  | kept hstate h =>
    rw [restoreLineState, hstate]
    exact h.single

theorem InOneLine.single {u : Story} (h : u.InOneLine) :
    SingleLine u.restoreLineState.state.output.shown := by
  rw [restoreLineState]
  rw [InOneLine] at h
  split at h
  · next hstate =>
    rw [hstate]
    exact .open h
  · next hstate =>
    rw [hstate]
    exact h.single

/-- A line end is kept as soon as it comes, if there is more to come. -/
theorem watched_keepLineState {v : Story} (hstate : v.lineState = none)
    (hnow : v.state.output.inString = false)
    (h : Lineless v.state.output.shown ∨ v.state.output.endsInLineEnd = true ∧
      ∃ texts, Lineless texts ∧ v.state.output.shown = "\n" :: texts) :
    v.keepLineState.Watched := by
  have hsingle : SingleLine v.state.output.shown := by
    rcases h with h | ⟨-, texts, h, heq⟩
    · exact .open h
    · rw [heq]
      exact .ended blank_nil h
  unfold keepLineState
  cases hends : v.state.output.endsInLineEnd with
  | false =>
    rw [if_neg Bool.false_ne_true]
    refine .plain hstate hsingle fun _ => ?_
    rcases h with h | ⟨hends', -⟩
    · exact h
    · rw [hends] at hends'
      cases hends'
  | true =>
    rw [if_pos rfl]
    cases hcontinue : v.state.canContinue with
    | false =>
      refine .plain rfl hsingle fun h => ?_
      have h : v.state.canContinue = true := h
      rw [hcontinue] at h
      cases h
    | true =>
      rw [if_neg (by simp), hstate, Option.isNone_none, if_pos rfl]
      refine .kept rfl ?_
      rcases h with h | ⟨-, texts, h, heq⟩
      · exact .tag hnow h rfl
      · exact .blanks hnow h blank_nil blank_nil heq heq

/-- While a state is kept, the end of the output does not matter, unless the flow ends. -/
theorem watched_of_follows {v : Story} {kept : State} (hstate : v.lineState = some kept)
    (h : Follows kept.output v.state.output) : v.keepLineState.Watched := by
  have hsingle : SingleLine v.state.output.shown := by
    cases h with
    | tag _ h heq =>
      rw [heq]
      exact .open h
    | blanks _ h _ hafter _ hnew =>
      rw [hnew]
      exact .ended hafter h
  unfold keepLineState
  split
  · split
    · next hstop =>
      refine .plain rfl hsingle fun hcontinue => ?_
      have hcontinue : v.state.canContinue = true := hcontinue
      rw [hcontinue] at hstop
      cases hstop
    · rw [hstate]
      exact .kept hstate h
  · exact .kept hstate h

/-- What has become of texts that end in a line end with blanks behind it. -/
theorem AfterStep.of_lineEnd {s v : Story} {blanks texts : List String} (h : s.AfterStep v)
    (hs : s.state.output.shown = blanks ++ "\n" :: texts) (hline : Lineless texts) :
    Lineless v.state.output.shown ∨
      ∃ after, v.state.output.shown = after ++ "\n" :: texts := by
  cases h with
  | taken h =>
    rw [hs] at h
    rcases List.suffix_or_suffix_of_suffix h (List.suffix_append blanks ("\n" :: texts)) with
      hshort | ⟨after, hlong⟩
    · rcases List.suffix_cons_iff.mp hshort with heq | hshort
      · exact .inr ⟨[], heq⟩
      · exact .inl (hline.of_suffix hshort)
    · exact .inr ⟨after, hlong.symm⟩
  | @put text _ heq => exact .inr ⟨text :: blanks, by rw [heq, hs]; rfl⟩
  | lineEnd _ heq => exact .inr ⟨"\n" :: blanks, by rw [heq, hs]; rfl⟩

/-- What has become of texts without a line end. -/
theorem AfterStep.of_lineless {s v : Story} (h : s.AfterStep v)
    (hline : Lineless s.state.output.shown) :
    Lineless v.state.output.shown ∨ v.state.output.endsInLineEnd = true ∧
      v.state.output.shown = "\n" :: s.state.output.shown := by
  cases h with
  | taken h => exact .inl (hline.of_suffix h)
  | put h heq => exact .inl (heq ▸ hline.cons h)
  | lineEnd hends heq => exact .inr ⟨hends, heq⟩

/-- Looking at the line, where it has not ended. -/
theorem watched_watchLine {s v u : Story} (hs : s.InOneLine) (hstep : s.AfterStep v)
    (hstate : v.lineState = s.lineState) (hnow : v.state.output.inString = false)
    (h : v.watchLine = (false, u)) : u.Watched := by
  unfold watchLine at h
  rw [InOneLine] at hs
  rw [hstate] at h
  cases hkept : s.lineState with
  | none =>
    rw [hkept] at h hs hstate
    obtain rfl : v.keepLineState = u := congrArg Prod.snd h
    refine watched_keepLineState hstate hnow ?_
    rcases hstep.of_lineless hs with h | ⟨hends, heq⟩
    · exact .inl h
    · exact .inr ⟨hends, _, hs, heq⟩
  | some kept =>
    rw [hkept] at h hs hstate
    dsimp only at h hs
    have hdropped : lineChange kept v.state = .removed →
        u = ({ v with lineState := none } : Story).keepLineState := by
      intro hremoved
      rw [hremoved] at h
      split at h
      · cases h
      · rw [if_pos rfl] at h
        exact (congrArg Prod.snd h).symm
    have hnew : Lineless v.state.output.shown → u.Watched := by
      intro hline
      rw [hdropped (lineChange_of_lineless hnow hline)]
      exact watched_keepLineState rfl hnow (.inl hline)
    cases hs with
    | tag hstring hline heq =>
      have hsline : Lineless s.state.output.shown := by
        rw [heq]
        exact hline
      rcases hstep.of_lineless hsline with h' | ⟨hends, hshown⟩
      · exact hnew h'
      · rw [heq] at hshown
        rw [hdropped (lineChange_of_tag hstring hnow hline hshown)]
        exact watched_keepLineState rfl hnow (.inr ⟨hends, _, hline, hshown⟩)
    | blanks hstring hline hbefore hafter hold hcurrent =>
      rcases hstep.of_lineEnd hcurrent hline with h' | ⟨after, hshown⟩
      · exact hnew h'
      · rcases lineChange_of_lineEnd hstring hnow hbefore hold hshown with hchange |
          ⟨hchange, hblank⟩
        · rw [hchange, if_pos (.inl rfl)] at h
          cases h
        · rw [hchange] at h
          split at h
          · cases h
          · rw [if_neg (by decide)] at h
            obtain rfl : v.keepLineState = u := congrArg Prod.snd h
            exact watched_of_follows hstate (.blanks hstring hline hbefore hblank hold hshown)

/-- A plain step, in a line of a story of which the text put out is plain. -/
theorem emits_plainStep {s : Story} (h : s.Plain) : s.Emits (Flow.plainStep.after s) :=
  Flow.emits_bind (Flow.emits_step h) fun _ _ => Flow.within_get_any fun _ =>
    Flow.within_ite Flow.within_followInvisibleChoice (Flow.within_pure ())

theorem lineState_plainStep (s : Story) : (Flow.plainStep.after s).lineState = s.lineState :=
  (Flow.changes_plainStep s).lineState_eq

/-- A step that begins to wait has put nothing out, and a string hides what it puts out. -/
theorem inOneLine_of_hidden {s v : Story} (hs : s.InOneLine) (hpending : s.pending = none)
    (hemits : s.Emits v) (hstate : v.lineState = s.lineState) (hwaits : v.Waits)
    (h : v.pending.isSome = true ∨ v.state.output.inString = true) : v.InOneLine := by
  have hsame : v.pending.isSome = true → v.lineState = none := hwaits
  rw [InOneLine] at hs
  rcases hemits with hkept | ⟨text, -, hput, hpend⟩
  · cases hline : v.lineState with
    | none =>
      rw [← hstate, hline] at hs
      exact inOneLine_of_none hline (hs.of_suffix hkept.suffix)
    | some kept =>
      have hin : v.state.output.inString = true := h.resolve_left fun hsome => by
        rw [hsame hsome] at hline
        cases hline
      rw [← hstate, hline] at hs
      refine inOneLine_of_some hline ?_
      have heq := hkept.shown_eq hin
      cases hs with
      | tag hstring hlineless hshown => exact .tag hstring hlineless (heq.trans hshown)
      | blanks hstring hlineless hbefore hafter hold hnew =>
        exact .blanks hstring hlineless hbefore hafter hold (heq.trans hnew)
  · rcases h with hsome | hin
    · rw [hpend, hpending] at hsome
      cases hsome
    · rw [hput.not_inString] at hin
      cases hin

/-- What a step of a line that has not ended leaves. -/
theorem lineStep_inOneLine {s u : Story} (hs : s.InOneLine) (hplain : s.Plain)
    (hpending : s.pending = none) (hwaits : s.Waits) (h : Flow.lineStep s = .ok false u) :
    u.InOneLine ∧ (u.pending.isSome = true ∨ u.state.output.inString = true) ∨
      u.Watched ∧ u.pending = none := by
  obtain ⟨v, hv, hrest⟩ := Flow.lineStep_cases h
  have hemits := emits_plainStep hplain
  have hstate := lineState_plainStep s
  have hvwaits := (Flow.changes_plainStep s).waits hwaits
  rw [Flow.after_of_ok hv] at hemits hstate hvwaits
  rcases hrest with ⟨hhidden, -, rfl⟩ | ⟨hnone, hnow, hwatch⟩
  · exact .inl ⟨inOneLine_of_hidden hs hpending hemits hstate hvwaits hhidden, hhidden⟩
  · exact .inr ⟨watched_watchLine hs (afterStep_of_emits hemits) hstate hnow hwatch,
      (pending_of_watchLine hwatch).trans hnone⟩

/-- Whatever a line whose texts are plain goes through, it stays one line. -/
theorem lineInvariant_inOneLine : LineInvariant Plain InOneLine where
  fresh hstate houtput := by
    refine inOneLine_of_none hstate ?_
    rw [houtput]
    intro text htext
    cases htext
  same h hstate houtput := by
    rw [InOneLine] at h ⊢
    rwa [hstate, houtput]
  step {s} hs hplain hpending hwaits hopen := by
    cases hrun : Flow.lineStep s with
    | error e u =>
      have hv := Flow.plainStep_of_lineStep_error hrun
      have hemits := emits_plainStep hplain
      have hstate := lineState_plainStep s
      have hvwaits := (Flow.changes_plainStep s).waits hwaits
      rw [Flow.after_of_error hv] at hemits hstate hvwaits
      rw [Flow.after_of_error hrun] at hopen ⊢
      refine inOneLine_of_hidden hs hpending hemits hstate hvwaits (hopen.imp_right fun h => ?_)
      rw [hrun] at h
      cases h.1
    | ok ended u =>
      rw [Flow.after_of_ok hrun] at hopen ⊢
      have hended : ended = false := by
        rcases hopen with hsome | ⟨h, -⟩
        · obtain ⟨v, -, ⟨-, hended, -⟩ | ⟨hnone, -, hwatch⟩⟩ := Flow.lineStep_cases hrun
          · exact hended
          · rw [(pending_of_watchLine hwatch).trans hnone] at hsome
            cases hsome
        · rw [hrun] at h
          cases h
          rfl
      subst hended
      rcases lineStep_inOneLine hs hplain hpending hwaits hrun with ⟨h, -⟩ | ⟨hwatched, hnone⟩
      · exact h
      · rcases hopen with hsome | ⟨-, hcontinue⟩
        · rw [hnone] at hsome
          cases hsome
        · exact hwatched.inOneLine hcontinue

/-- The state at the line end is one line. -/
theorem single_of_ended {s u : Story} (hs : s.InOneLine) (h : Flow.lineStep s = .ok true u) :
    SingleLine u.restoreLineState.state.output.shown := by
  obtain ⟨v, hv, ⟨-, hended, -⟩ | ⟨-, -, hwatch⟩⟩ := Flow.lineStep_cases h
  · cases hended
  · have hstate := lineState_plainStep s
    rw [Flow.after_of_ok hv] at hstate
    unfold watchLine at hwatch
    rw [hstate] at hwatch
    rw [InOneLine] at hs
    cases hkept : s.lineState with
    | none =>
      rw [hkept] at hwatch
      cases congrArg Prod.fst hwatch
    | some kept =>
      rw [hkept] at hwatch hs hstate
      dsimp only at hwatch hs
      split at hwatch
      · obtain rfl : v.restoreLineState = u := congrArg Prod.snd hwatch
        have hrestore : v.restoreLineState =
            { v with state := kept.carryMessages v.state, lineState := none } := by
          rw [restoreLineState, hstate]
        rw [hrestore]
        exact hs.single
      · split at hwatch
        · cases congrArg Prod.fst hwatch
        · cases congrArg Prod.fst hwatch

end Story

namespace HostCall

/-- A continue with a limit of time is made only in a line, or where a line can begin. -/
def CanBegin (call : HostCall) (s : Story) : Prop :=
  call.IsLimited → s.lineOpen = false → s.state.canContinue = true

end HostCall

namespace Flow

/-- The line that a continue has brought to its end is a single one. -/
theorem single_of_continueLine {s u : Story} {limited : Bool} {nodes : Nat} (hnodes : 0 < nodes)
    (hs : s.Orderly Story.InOneLine) (hpending : s.pending = none)
    (hvisits : ∀ v, s.Visits limited nodes v → v.Plain)
    (h : continueLine limited nodes s = .ok () u) (hopen : u.lineOpen = false)
    (hdone : u.pending = none) (herror : u.state.hasError = false) :
    SingleLine u.state.output.shown := by
  obtain ⟨v, w, ended, hv, hstep, houtput, hkept⟩ := closed_of_continueLine
    Story.lineInvariant_inOneLine hnodes hs hpending hvisits h hopen hdone
  rw [houtput]
  rcases hstep with ⟨x, e, -, rfl⟩ | ⟨hstep, -⟩
  · rw [hkept (State.fail_frame _ _ e).2] at herror
    cases herror
  · cases ended with
    | true => exact Story.single_of_ended hv.line hstep
    | false =>
      rcases Story.lineStep_inOneLine hv.line hv.source hv.pending hv.waits hstep with
        ⟨h, -⟩ | ⟨h, -⟩
      · exact h.single
      · exact h.single

/-- If all texts that a run puts out outside strings are line ends or have none, and no
continue with a limit of time has been refused for want of content, then the text that a
continue gives, without errors and with all strings ended, has at most one line end, and
that is its last character. -/
theorem one_line_per_continue {s u : Story} {text : String}
    (hs : Run Story.Plain HostCall.CanBegin s)
    (hvisits : ∀ v, HostCall.next.Visits s v → v.Plain) (h : next s = .ok text u)
    (herror : u.state.hasError = false) (hstring : u.state.output.inString = false) :
    '\n' ∉ text.toList.dropLast := by
  have horderly : s.Orderly Story.InOneLine :=
    hs.orderly Story.lineInvariant_inOneLine fun call v hbegin hlimited hopen hstop => by
      rw [hbegin hlimited hopen] at hstop
      cases hstop
  obtain ⟨hcontinue, ⟨-, rfl⟩ | ⟨hdone, hopen, rfl⟩⟩ := next_cases h
  · exact List.not_mem_nil
  · obtain ⟨hpending, hline⟩ := continueFor_ok hcontinue
    have hsingle := single_of_continueLine (by decide) horderly hpending hvisits hline hopen hdone
      herror
    exact hsingle.text hstring

end Flow

/-- A greeting, which is one line. -/
def greeting : Content :=
  ⟨0, 21, .ofBlock (.container none ⟨false, false, false⟩
    [.leaf (.value (.text "Hi")), .leaf (.value (.text "\n")), .leaf (.command .done)] []), .empty⟩

/-- The story of the greeting when it has been started. -/
def greetingStory : Story :=
  { Story.unstarted greeting 0 with state := { State.start 0 with vars := Variables.empty.settle } }

namespace Flow

theorem greeting_is_one_line : ∃ u, next greetingStory = .ok "Hi\n" u ∧
    '\n' ∉ ("Hi\n".toList).dropLast := by
  have hvisits : ∀ v, HostCall.next.Visits greetingStory v → v.Plain := by
    rintro v ⟨t, hopen, hpass⟩
    have ht : t = greetingStory.freshLine := by cases hopen; rfl
    rw [ht] at hpass
    have hall : ∀ u, greetingStory.freshLine.Passes nodeBudget u → u.Plain := by decide +kernel
    exact hall v hpass
  have hstart : Story.ofContent greeting 0 = .ok greetingStory := rfl
  have hrun : Run Story.Plain HostCall.CanBegin greetingStory :=
    .start hstart fun u hu => by cases hu.1
  have htext : (match next greetingStory with
      | .ok text _ => some text
      | .error _ _ => none) = some "Hi\n" := by decide +kernel
  cases hnext : next greetingStory with
  | error e u =>
    rw [hnext] at htext
    cases htext
  | ok text u =>
    rw [hnext] at htext
    obtain rfl : text = "Hi\n" := Option.some.inj htext
    have hafter : next.after greetingStory = u := after_of_ok hnext
    have hend : (next.after greetingStory).state.hasError = false ∧
        (next.after greetingStory).state.output.inString = false := by decide +kernel
    rw [hafter] at hend
    exact ⟨u, rfl, one_line_per_continue hrun hvisits hnext hend.1 hend.2⟩

end Flow

end StoryMachine
