import StoryMachine.Proofs.Borders
import StoryMachine.Proofs.Story.Deeds

/-!
# Strings

What is put out while a string is evaluated stands behind the command that begins it, and this command
is a border: whatever is done before the string ends, what stands in front stays as it is. At its end
the texts that then stand behind it become a text on the evaluation stack. Legacy tags stay in the
output, except for those put out in a tag that has ended inside the string: such a tag is taken off the
output with all that was put out in it.

* `Deed.openStrings?` : how many strings are open in the string;
* `Deed.keepMarks`, `Deed.keptTags` : what becomes of legacy tags;
* `State.Does.behindString`, `State.Doings.behindString` : what a deed keeps, and deeds keep;
* `strings_are_isolated` : what a string does to the output.
-/

namespace StoryMachine

open Output (Behind splitAtCommand)

namespace Deed

/-- The number of strings that are open behind a deed; none if it ends a string begun before. -/
def openStrings? : Nat → Deed → Option Nat
  | n, beginString => some (n + 1)
  | 0, endString => none
  | n + 1, endString => some n
  | n, _ => some n

/-- The legacy tags and commands that stand behind the beginning of a string, newest first, after a
deed. A tag that ends in a string goes with all that was put out in it; where another string ends, the
legacy tags put out in it stay. -/
def keepMarks (marks : List Token) : Deed → List Token
  | put (.tag text) => .tag text :: marks
  | beginString => .command .beginString :: marks
  | beginTag => .command .beginTag :: marks
  | takeTag => (splitAtCommand .beginTag marks).2
  | endString =>
    (splitAtCommand .beginString marks).1.filterMap Flow.tagToken? ++
      (splitAtCommand .beginString marks).2
  | _ => marks

/-- The legacy tag that a deed puts out. -/
def legacyTag? : Deed → Option Token
  | put (.tag text) => some (.tag text)
  | _ => none

/-- The legacy tags that deeds in a string leave in the output, in order. -/
def keptTags (ds : List Deed) : List Token :=
  ((ds.foldl keepMarks []).filterMap Flow.tagToken?).reverse

end Deed

/-! ## Counting strings -/

namespace Output

/-- The number of strings that have begun in tokens. -/
def begun (ts : List Token) : Nat :=
  ts.countP (Token.isCommand .beginString)

variable {ts : List Token}

theorem begun_append (us ts : List Token) : begun (us ++ ts) = begun us + begun ts :=
  List.countP_append

theorem begun_of_forall_ne_command (h : ∀ c, .command c ∉ ts) : begun ts = 0 :=
  List.countP_eq_zero.mpr fun t ht hbegin => by
    cases t with
    | command c => exact h c ht
    | _ => cases hbegin

theorem begun_filter_isMark (ts : List Token) : begun (ts.filter Token.isMark) = begun ts := by
  unfold begun
  rw [List.countP_filter]
  refine List.countP_congr fun t _ => ?_
  cases t with
  | command c => rw [Bool.and_eq_true]; exact and_iff_left rfl
  | _ => exact .rfl

/-- The end of a string leaves one string less. -/
theorem begun_splitAtCommand {n : Nat} (h : begun ts = n + 1) :
    begun (splitAtCommand .beginString ts).2 = n := by
  induction ts with
  | nil => cases h
  | cons t rest ih =>
    cases ht : t.isCommand .beginString with
    | true =>
      rw [begun, List.countP_cons_of_pos ht] at h
      rw [splitAtCommand, if_pos ht]
      exact Nat.succ.inj h
    | false =>
      rw [begun, List.countP_cons_of_neg (by rw [ht]; exact Bool.false_ne_true)] at h
      rw [splitAtCommand_cons ht]
      exact ih h

theorem any_of_begun {n : Nat} (h : begun ts = n + 1) :
    ts.any (Token.isCommand .beginString) = true := by
  obtain ⟨t, ht, hbegin⟩ := List.countP_pos_iff.mp (Nat.lt_of_lt_of_eq n.succ_pos h.symm)
  exact List.any_eq_true.mpr ⟨t, ht, hbegin⟩

theorem not_any_of_begun (h : begun ts = 0) : ts.any (Token.isCommand .beginString) = false :=
  List.any_eq_false.mpr (List.countP_eq_zero.mp h)

theorem filterMap_tagToken?_filter_isMark (ts : List Token) :
    (ts.filter Token.isMark).filterMap Flow.tagToken? = ts.filterMap Flow.tagToken? := by
  induction ts with
  | nil => rfl
  | cons t rest ih =>
    cases t with
    | tag text => exact congrArg (.tag text :: ·) ih
    | _ => exact ih

theorem filter_isMark_filterMap_tagToken? (ts : List Token) :
    (ts.filterMap Flow.tagToken?).filter Token.isMark = ts.filterMap Flow.tagToken? :=
  List.filter_eq_self.mpr fun t ht => by
    obtain ⟨text, rfl⟩ := tag_of_mem_filterMap ht
    rfl

end Output

/-! ## What is done in a string -/

namespace State

open Output

variable {s u : State} {back marks : List Token} {n : Nat}

/-- A tag that ends in a string takes off the output what stands behind its beginning, which is in the
string. -/
theorem behind_takeTag (h : Behind .beginString back marks s.output.newest)
    (hcommand : ∀ c, .command c ∉ (splitAtCommand .beginTag s.output.newest).1) :
    Behind .beginString back (splitAtCommand .beginTag marks).2 s.takeTag.output.newest ∧
      begun (splitAtCommand .beginTag marks).2 = begun marks := by
  obtain ⟨front, hnewest, rfl⟩ := h
  have hsplit := splitAtCommand_append .beginTag front (.command .beginString :: back)
  rw [← hnewest] at hsplit
  cases hany : front.any (Token.isCommand .beginTag) with
  | false =>
    rw [hany, if_neg Bool.false_ne_true] at hsplit
    rw [hsplit] at hcommand
    exact (hcommand .beginString (List.mem_append_right _ List.mem_cons_self)).elim
  | true =>
    rw [hany, if_pos rfl] at hsplit
    rw [splitAtCommand_filter_isMark]
    refine ⟨⟨(splitAtCommand .beginTag front).2, congrArg Prod.snd hsplit, rfl⟩, ?_⟩
    rw [hsplit] at hcommand
    rw [begun_filter_isMark, begun_filter_isMark]
    rcases splitAtCommand_eq .beginTag front with ⟨t, ht, heq⟩ | ⟨hnone, -⟩
    · have hother : ¬t.isCommand .beginString = true := fun hbegin => by
        cases t with
        | command c =>
          rw [Token.isCommand, beq_iff_eq] at ht hbegin
          rw [ht] at hbegin
          cases hbegin
        | _ => cases ht
      calc begun (splitAtCommand .beginTag front).2
          = begun (t :: (splitAtCommand .beginTag front).2) := (List.countP_cons_of_neg hother).symm
        _ = begun ((splitAtCommand .beginTag front).1 ++ t :: (splitAtCommand .beginTag front).2) := by
          rw [begun_append, begun_of_forall_ne_command hcommand, Nat.zero_add]
        _ = begun front := congrArg begun heq.symm
    · rw [hany] at hnone
      cases hnone

/-- A string that ends in another one leaves its legacy tags. -/
theorem behind_closeString (h : Behind .beginString back marks s.output.newest)
    (hn : begun marks = n + 1) :
    Behind .beginString back (Deed.keepMarks marks .endString) s.closeString.output.newest ∧
      begun (Deed.keepMarks marks .endString) = n := by
  obtain ⟨front, hnewest, rfl⟩ := h
  have hopen : begun front = n + 1 := (begun_filter_isMark front).symm.trans hn
  have hsplit := splitAtCommand_append .beginString front (.command .beginString :: back)
  rw [← hnewest, any_of_begun hopen, if_pos rfl] at hsplit
  rw [Deed.keepMarks, splitAtCommand_filter_isMark, filterMap_tagToken?_filter_isMark]
  refine ⟨⟨(splitAtCommand .beginString front).1.filterMap Flow.tagToken? ++
    (splitAtCommand .beginString front).2, ?_, ?_⟩, ?_⟩
  · have houtput : s.closeString.output.newest =
        (splitAtCommand .beginString s.output.newest).1.filterMap Flow.tagToken? ++
          (splitAtCommand .beginString s.output.newest).2 := rfl
    rw [houtput, hsplit, List.append_assoc]
  · rw [List.filter_append, filter_isMark_filterMap_tagToken?]
  · rw [begun_append, begun_filter_isMark, begun_splitAtCommand hopen, begun_of_forall_ne_command,
      Nat.zero_add]
    intro c hc
    obtain ⟨text, htag⟩ := tag_of_mem_filterMap hc
    cases htag

theorem behind_popFrame (h : Behind .beginString back marks s.output.newest) (hu : s.popFrame = .ok u) :
    Behind .beginString back marks u.output.newest := by
  unfold popFrame at hu
  dsimp only at hu
  obtain ⟨callStack, -, hu⟩ := Except.bind_eq_ok.mp hu
  cases hu
  dsimp only
  split
  · exact h.dropSpacing _
  · exact h

/-- What a deed in a string keeps: the string stays open, and the legacy tags and commands in it are
those told. -/
theorem Does.behindString {d : Deed} (h : s.Does d u)
    (hs : Behind .beginString back marks s.output.newest)
    (hn : d.openStrings? (begun marks) = some n) :
    Behind .beginString back (Deed.keepMarks marks d) u.output.newest ∧
      begun (Deed.keepMarks marks d) = n := by
  cases h with
  | @put t ht =>
    cases hn
    have hkept : Deed.keepMarks marks (.put t) = [t].filter Token.isMark ++ marks := by
      cases t with
      | command c => exact (ht c rfl).elim
      | _ => rfl
    have hnone : begun ([t].filter Token.isMark) = 0 :=
      begun_of_forall_ne_command fun c hc =>
        ht c (List.mem_singleton.mp (List.mem_filter.mp hc).1).symm
    rw [hkept, begun_append, hnone, Nat.zero_add]
    exact ⟨hs.emit ht, rfl⟩
  | beginString =>
    cases hn
    exact ⟨hs.cons (.command .beginString), List.countP_cons_of_pos rfl⟩
  | endString =>
    cases hopen : begun marks with
    | zero =>
      rw [hopen] at hn
      cases hn
    | succ m =>
      rw [hopen] at hn
      cases hn
      exact behind_closeString hs hopen
  | beginTag =>
    cases hn
    exact ⟨hs.cons (.command .beginTag), rfl⟩
  | endTag houtside =>
    obtain ⟨front, hnewest, -⟩ := hs
    have hinside : s.output.inString = true := by
      rw [Output.inString, hnewest]
      exact List.any_eq_true.mpr ⟨_, List.mem_append_right front List.mem_cons_self, rfl⟩
    rw [houtside] at hinside
    cases hinside
  | takeTag _ hcommand =>
    cases hn
    exact behind_takeTag hs hcommand
  | back h =>
    cases hn
    exact ⟨behind_popFrame hs h, rfl⟩
  | other houtput =>
    cases hn
    exact ⟨houtput ▸ hs, rfl⟩
  | _ =>
    cases hn
    exact ⟨hs, rfl⟩

/-- What deeds in a string keep. -/
theorem Doings.behindString {ds : List (State × Deed)} (h : s.Doings ds u)
    (hs : Behind .beginString back marks s.output.newest)
    (hn : (ds.map Prod.snd).foldlM Deed.openStrings? (begun marks) = some n) :
    Behind .beginString back ((ds.map Prod.snd).foldl Deed.keepMarks marks) u.output.newest ∧
      begun ((ds.map Prod.snd).foldl Deed.keepMarks marks) = n ∧
      ∀ step ∈ ds, ∃ marks, Behind .beginString back marks step.1.output.newest := by
  induction h generalizing marks with
  | none => exact ⟨hs, Option.some.inj hn, List.forall_mem_nil _⟩
  | more hdoes _ ih =>
    rw [List.map_cons, List.foldlM_cons] at hn
    obtain ⟨m, hm, hn⟩ := Option.bind_eq_some_iff.mp hn
    obtain ⟨hbehind, rfl⟩ := hdoes.behindString hs hm
    obtain ⟨hend, hopen, hall⟩ := ih hbehind hn
    exact ⟨hend, hopen, List.forall_mem_cons.mpr ⟨⟨marks, hs⟩, hall⟩⟩

/-- The end of a string of which nothing else is open leaves the legacy tags in the output, and the
text on the evaluation stack. -/
theorem closeString_eq (h : Behind .beginString back marks s.output.newest) (hn : begun marks = 0) :
    ∃ inside, s.output.tokens = back.reverse ++ .command .beginString :: inside ∧
      s.closeString.output.tokens =
        back.reverse ++ (marks.filterMap Flow.tagToken?).reverse ∧
      s.closeString.evaluation =
        .text (String.join (inside.filterMap Token.text?)) :: s.evaluation := by
  obtain ⟨front, hnewest, rfl⟩ := h
  have hsplit := splitAtCommand_append .beginString front (.command .beginString :: back)
  rw [← hnewest, not_any_of_begun ((begun_filter_isMark front).symm.trans hn),
    if_neg Bool.false_ne_true] at hsplit
  have hfront : (splitAtCommand .beginString s.output.newest).1 = front :=
    (congrArg Prod.fst hsplit).trans (List.append_nil front)
  have hback : (splitAtCommand .beginString s.output.newest).2 = back := congrArg Prod.snd hsplit
  refine ⟨front.reverse, ?_, ?_, ?_⟩
  · rw [tokens, hnewest, List.reverse_append, List.reverse_cons, List.append_assoc]
    rfl
  · show ((splitAtCommand .beginString s.output.newest).1.filterMap Flow.tagToken? ++
      (splitAtCommand .beginString s.output.newest).2).reverse = _
    rw [hfront, hback, List.reverse_append, filterMap_tagToken?_filter_isMark]
  · show Token.text (joined (splitAtCommand .beginString s.output.newest).1) :: s.evaluation = _
    rw [hfront, joined]

end State

/-- Every line is made of deeds up to the end of each of its steps. And whatever is done between the
beginning of a string and its end, where strings that begin in between end in between: as long as the
string is open, the output in front of it stands, with the command that begins it. Its end leaves in the
output what stood in front of it, followed by the legacy tags put out in between, in order, without those
that a tag ending in the string has taken; and it puts on the evaluation stack the texts that then stand
behind the beginning, joined. -/
theorem strings_are_isolated {t v : Story} (hline : t.LineTo v) :
    (∃ ds, t.state.Doings ds (Flow.plainStep.after v).state) ∧
    ∀ {front s b u : State} {during : List (State × Deed)}, front.Does .beginString s →
      s.Doings during b → b.Does .endString u →
      (during.map Prod.snd).foldlM Deed.openStrings? 0 = some 0 →
      (∀ step ∈ during,
        front.output.tokens ++ [.command .beginString] <+: step.1.output.tokens) ∧
      ∃ inside, b.output.tokens = front.output.tokens ++ .command .beginString :: inside ∧
        u.output.tokens = front.output.tokens ++ Deed.keptTags (during.map Prod.snd) ∧
        u.evaluation = .text (String.join (inside.filterMap Token.text?)) :: b.evaluation := by
  refine ⟨hline.exists_doings, fun hbegin hduring hend hclosed => ?_⟩
  cases hbegin with
  | beginString =>
    cases hend with
    | endString =>
      obtain ⟨hbehind, hopen, hall⟩ := hduring.behindString (.start .beginString _) hclosed
      refine ⟨fun step hstep => ?_, State.closeString_eq hbehind hopen⟩
      obtain ⟨marks, front, hnewest, -⟩ := hall step hstep
      refine ⟨front.reverse, ?_⟩
      rw [Output.tokens, Output.tokens, hnewest, List.reverse_append, List.reverse_cons]

namespace Labelling

/-- A string has begun behind a text. -/
def start : State :=
  (State.showing [.text "Hi"]).emit (.command .beginString)

/-- A tag has begun in it, and a legacy tag has been put out in the tag. -/
def tagged : State :=
  (start.emit (.command .beginTag)).emit (.tag "lost")

/-- The tag has ended, and a text and another legacy tag have been put out. -/
def finish : State :=
  (tagged.takeTag.emit (.text "Go")).emit (.tag "kept")

/-- What is done in the string. -/
def deeds : List (State × Deed) :=
  [(start, .beginTag), (start.emit (.command .beginTag), .put (.tag "lost")), (tagged, .takeTag),
    (tagged.takeTag, .put (.text "Go")), (tagged.takeTag.emit (.text "Go"), .put (.tag "kept"))]

theorem doings : start.Doings deeds finish := by
  have hcommand : ∀ c, .command c ∉ (splitAtCommand .beginTag tagged.output.newest).1 := fun c hc =>
    nomatch List.mem_singleton.mp (show .command c ∈ [Token.tag "lost"] from hc)
  exact .more (.beginTag _) (.more (.put _ nofun) (.more (.takeTag rfl hcommand)
    (.more (.put _ nofun) (.more (.put _ nofun) (.none _)))))

/-- A choice with a tag that has a legacy tag in it. -/
def content : Content :=
  ⟨0, formatVersion, .ofBlock (.container none ⟨false, false, false⟩
    [.leaf (.value (.text "Hi")), .leaf (.command .evalStart), .leaf (.command .beginString),
      .leaf (.value (.text "Go")), .leaf (.command .beginTag), .leaf (.tag "lost"),
      .leaf (.command .endTag), .leaf (.command .endString), .leaf (.command .evalEnd),
      .leaf (.command .finish)] []), .empty⟩

/-- The legacy tag behind the tag is kept, and the text is on the evaluation stack. -/
theorem keeps_tag_and_text :
    finish.closeString.output.tokens = [.text "Hi", .tag "kept"] ∧
      finish.closeString.evaluation = .text "Go" :: finish.evaluation := by
  obtain ⟨-, inside, hfinish, houtput, htext⟩ :=
    (strings_are_isolated (.here (.unstarted content 0))).2
      (.beginString (State.showing [.text "Hi"])) doings (.endString finish) rfl
  refine ⟨houtput, htext.trans ?_⟩
  have hinside : [Token.text "Hi", .command .beginString] ++ [.text "Go", .tag "kept"] =
      [.text "Hi", .command .beginString] ++ inside := hfinish
  rw [← List.append_cancel_left hinside]
  rfl

end Labelling

/-- Not all legacy tags put out in a string stay in the output: one that has been put out in a tag is
lost when the tag ends. -/
theorem not_all_tags_kept :
    (¬∀ {front s b u : State} {during : List (State × Deed)}, front.Does .beginString s →
      s.Doings during b → b.Does .endString u →
      (during.map Prod.snd).foldlM Deed.openStrings? 0 = some 0 →
      u.output.tokens = front.output.tokens ++ (during.map Prod.snd).filterMap Deed.legacyTag?) ∧
    (Flow.next.after (.unstarted Labelling.content 0)).state.output.tags = [] := by
  refine ⟨fun h => ?_, by decide +kernel⟩
  have hkept := h (.beginString (State.showing [.text "Hi"])) Labelling.doings (.endString _) rfl
  cases congrArg List.length hkept

end StoryMachine
