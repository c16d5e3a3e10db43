import StoryMachine.Proofs.Content.Targets
import StoryMachine.Proofs.Story.CallSteps

/-!
# Operands of choice points

What a choice point takes from the evaluation stack is announced by its flags: a condition, the
text for the choice only and the text that the choice begins with, the last one deepest. Tags have been
pushed in front of the text that they belong to, so they lie beneath it, and all that lie there
belong to it. The operands are taken before anything is decided, so that what lies beneath them is left
whether the choice is offered, hidden by its condition or hidden as one that has been taken.

* `Label` : a text of a choice with its tags;
* `ChoicePoint.Operands`, `ChoicePoint.Finds` : the operands, and where they lie;
* `Flow.popTags_of_append`, `Flow.popOperands_of_finds` : the operands are taken, and nothing else;
* `Text.Trimmed` : a text without the blanks at its ends;
* `Flow.choice_points_take_their_operands` : what a choice point makes of its operands.
-/

namespace StoryMachine

/-! ## Texts without the blanks at their ends -/

namespace Text

/-- The second text is the first one without the blanks at its ends. -/
structure Trimmed (text core : String) : Prop where
  blanks : ∃ front back : String, text = front ++ core ++ back ∧ allBlank front = true ∧
    allBlank back = true
  first : core.toList.head?.any isBlank = false
  last : core.toList.getLast?.any isBlank = false

theorem head?_dropWhile_isBlank (cs : List Char) : (cs.dropWhile isBlank).head?.any isBlank = false := by
  induction cs with
  | nil => rfl
  | cons c rest ih =>
    rw [List.dropWhile_cons]
    split
    · exact ih
    · next hc => simpa using hc

theorem allBlank_ofList_takeWhile (cs : List Char) :
    allBlank (String.ofList (cs.takeWhile isBlank)) = true := by
  rw [allBlank, String.toList_ofList]
  exact List.all_takeWhile

theorem trimmed_trimBlanks (text : String) : Trimmed text (trimBlanks text) := by
  let left := text.toList.dropWhile isBlank
  have hleft : text.toList = text.toList.takeWhile isBlank ++ left :=
    List.takeWhile_append_dropWhile.symm
  have hright : left = (left.reverse.dropWhile isBlank).reverse ++
      (left.reverse.takeWhile isBlank).reverse := by
    rw [← List.reverse_append, List.takeWhile_append_dropWhile, List.reverse_reverse]
  have hcore : (trimBlanks text).toList = (left.reverse.dropWhile isBlank).reverse :=
    String.toList_ofList
  refine ⟨⟨.ofList (text.toList.takeWhile isBlank),
    .ofList (left.reverse.takeWhile isBlank).reverse, ?_, allBlank_ofList_takeWhile _, ?_⟩, ?_, ?_⟩
  · apply String.toList_inj.mp
    rw [String.toList_append, String.toList_append, String.toList_ofList, String.toList_ofList, hcore,
      List.append_assoc, ← hright, ← hleft]
  · rw [allBlank, String.toList_ofList, List.all_reverse]
    exact List.all_takeWhile
  · -- What is left of the end begins as the whole does, unless nothing is left.
    rw [hcore]
    cases hrest : left.reverse.dropWhile isBlank with
    | nil => rfl
    | cons c rest =>
      rw [hrest] at hright
      have hhead := head?_dropWhile_isBlank text.toList
      rw [show text.toList.dropWhile isBlank = left from rfl, hright, List.head?_append] at hhead
      rwa [Option.or_of_isSome (by simp)] at hhead
  · rw [hcore, List.getLast?_reverse]
    exact head?_dropWhile_isBlank _

end Text

/-! ## Operands -/

/-- A text of a choice with its tags, in the order in which these were pushed. -/
structure Label where
  text : String
  tags : List String

namespace Label

/-- No text, and no tags. -/
def none : Label := ⟨"", []⟩

/-- The tokens of a label on the evaluation stack, the top one first: the tags lie beneath the
text. -/
def tokens (l : Label) : List Token :=
  .text l.text :: l.tags.reverse.map .tag

end Label

namespace ChoicePoint

/-- What may lie on the evaluation stack for a choice point: the condition, the text for the choice
only, and the text that the choice begins with. -/
structure Operands where
  condition : Token
  only : Label
  start : Label

variable (c : ChoicePoint) (o : Operands)

/-- The operands that the flags announce, the top one first. -/
def tokens : List Token :=
  (if c.hasCondition then [o.condition] else []) ++
    ((if c.hasChoiceOnlyText then o.only.tokens else []) ++
      (if c.hasStartText then o.start.tokens else []))

/-- The text for the choice only, if the flags announce one. -/
def onlyLabel : Label :=
  if c.hasChoiceOnlyText then o.only else .none

/-- The text that the choice begins with, if the flags announce one. -/
def startLabel : Label :=
  if c.hasStartText then o.start else .none

/-- Whether the choice is to be shown, as far as its condition has a say. -/
def holds : Except StoryError Bool :=
  if c.hasCondition then o.condition.truth else .ok true

/-- What is known of the operands once they are taken. -/
def popped (holds : Bool) : Bool × (String × List String) × (String × List String) :=
  (holds, ((c.onlyLabel o).text, (c.onlyLabel o).tags), (c.startLabel o).text, (c.startLabel o).tags)

/-- The evaluation stack holds the operands that the flags announce, and the rest beneath them. The
tags of the deepest text end there. -/
structure Finds (rest stack : List Token) : Prop where
  eq : stack = c.tokens o ++ rest
  tags : (c.hasChoiceOnlyText || c.hasStartText) = true → rest.head?.any Token.isTag = false

end ChoicePoint

/-- A choice that is offered once only has been taken: a visit to the container that it leads to has
been counted. -/
def Story.HasTaken (s : Story) (id : NodeId) (c : ChoicePoint) : Prop :=
  c.onceOnly = true ∧ ∃ container, s.tree.targetContainer? id c.path = some container ∧
    0 < (s.state.visits? s.tree container).getD 0

/-- The story with another evaluation stack. -/
def Story.withEvaluation (s : Story) (es : List Token) : Story :=
  { s with state := { s.state with evaluation := es } }

namespace Flow

variable {s : Story} {rest : List Token}

/-! ## Taking operands -/

theorem takeWhile_isTag (tags : List String) (h : rest.head?.any Token.isTag = false) :
    (tags.map Token.tag ++ rest).takeWhile Token.isTag = tags.map .tag := by
  rw [List.takeWhile_append_of_pos (by simp [Token.isTag])]
  cases rest with
  | nil => simp
  | cons t rest =>
    have ht : t.isTag = false := h
    rw [List.takeWhile_cons_of_neg (by rw [ht]; exact Bool.false_ne_true), List.append_nil]

/-- All tags on top are taken, and given in the order in which they were pushed. -/
theorem popTags_of_append {tags : List String}
    (hstack : s.state.evaluation = tags.reverse.map .tag ++ rest)
    (h : rest.head?.any Token.isTag = false) :
    popTags s = .ok tags (s.withEvaluation rest) := by
  have hpopped : ∀ tag? : Token → Option String, (∀ t, (tag? t).isSome = t.isTag) →
      (∀ text, tag? (.tag text) = some text) →
      (s.state.evaluation.takeWhile fun t => (tag? t).isSome).filterMap tag? = tags.reverse := by
    intro tag? hisTag htag
    rw [funext hisTag, hstack, takeWhile_isTag _ h, List.filterMap_map,
      show tag? ∘ Token.tag = some from funext htag, List.filterMap_some]
  unfold popTags
  dsimp only
  refine (withState_run _ s).trans ?_
  rw [hpopped _ (fun t => by cases t <;> rfl) fun _ => rfl, List.reverse_reverse, List.length_reverse,
    hstack, List.drop_left' (by simp)]
  rfl

/-- A text and the tags beneath it are taken. -/
theorem popChoiceText_of_append {l : Label} (hstack : s.state.evaluation = l.tokens ++ rest)
    (h : rest.head?.any Token.isTag = false) :
    popChoiceText s = .ok (l.text, l.tags) (s.withEvaluation rest) := by
  have hpop : pop s = .ok (.text l.text) (s.withEvaluation (l.tags.reverse.map .tag ++ rest)) :=
    pop_run_cons hstack
  have htags : popTags (s.withEvaluation (l.tags.reverse.map .tag ++ rest)) =
      .ok l.tags (s.withEvaluation rest) := popTags_of_append rfl h
  unfold popChoiceText
  rw [bind_ok hpop]
  exact bind_ok htags

/-- A text is taken where there is one. -/
theorem popTextIf_of_append {present : Bool} {l : Label}
    (hstack : s.state.evaluation = (if present then l.tokens else []) ++ rest)
    (h : present = true → rest.head?.any Token.isTag = false) :
    popTextIf present s =
      .ok ((if present then l else .none).text, (if present then l else .none).tags)
        (s.withEvaluation rest) := by
  cases present with
  | true => exact popChoiceText_of_append hstack (h rfl)
  | false =>
    have hsame : s.withEvaluation rest = s := by rw [Story.withEvaluation, ← show _ = rest from hstack]
    rw [hsame]
    rfl

theorem popCondition_of_append {c : ChoicePoint} {o : ChoicePoint.Operands} {holds : Bool}
    (hstack : s.state.evaluation = (if c.hasCondition then [o.condition] else []) ++ rest)
    (h : c.holds o = .ok holds) : popCondition c s = .ok holds (s.withEvaluation rest) := by
  unfold ChoicePoint.holds at h
  unfold popCondition
  cases hcondition : c.hasCondition with
  | true =>
    rw [hcondition, if_pos rfl] at h hstack
    have hpop : pop s = .ok o.condition (s.withEvaluation rest) := pop_run_cons hstack
    rw [if_pos rfl, bind_ok hpop, h]
    rfl
  | false =>
    rw [hcondition, if_neg Bool.false_ne_true] at h hstack
    cases h
    have hsame : s.withEvaluation rest = s := by rw [Story.withEvaluation, ← show _ = rest from hstack]
    rw [if_neg Bool.false_ne_true, hsame]
    rfl

/-- The operands that the flags announce are taken, and nothing else. -/
theorem popOperands_of_finds {c : ChoicePoint} {o : ChoicePoint.Operands} {holds : Bool}
    (hstack : c.Finds o rest s.state.evaluation) (h : c.holds o = .ok holds) :
    popOperands c s = .ok (c.popped o holds) (s.withEvaluation rest) := by
  let start := (if c.hasStartText then o.start.tokens else []) ++ rest
  let only := (if c.hasChoiceOnlyText then o.only.tokens else []) ++ start
  have hcondition : popCondition c s = .ok holds (s.withEvaluation only) :=
    popCondition_of_append (by rw [hstack.eq, ChoicePoint.tokens, List.append_assoc, List.append_assoc]) h
  have honly : popTextIf c.hasChoiceOnlyText (s.withEvaluation only) =
      .ok ((c.onlyLabel o).text, (c.onlyLabel o).tags) (s.withEvaluation start) := by
    refine popTextIf_of_append rfl fun hpresent => ?_
    -- The tags end at the text that the choice begins with, if there is one.
    cases hstart : c.hasStartText with
    | true => simp [start, hstart, Label.tokens, Token.text, Token.isTag]
    | false =>
      have hrest := hstack.tags (by rw [hpresent, Bool.true_or])
      simpa [start, hstart] using hrest
  have hstart : popTextIf c.hasStartText (s.withEvaluation start) =
      .ok ((c.startLabel o).text, (c.startLabel o).tags) (s.withEvaluation rest) :=
    popTextIf_of_append rfl fun hpresent => hstack.tags (by rw [hpresent, Bool.or_true])
  unfold popOperands
  rw [bind_ok hcondition, bind_ok honly, bind_ok hstart]
  rfl

/-! ## What is offered -/

/-- Whether a choice has been taken is told by the visits counted; only warnings may change. -/
theorem isTaken_ok (s : Story) (id : NodeId) (c : ChoicePoint) : ∃ taken u warnings,
    isTaken c (s.tree.targetContainer? id c.path) s = .ok taken u ∧
      u = { s with state := { s.state with warnings } } ∧ (taken = true ↔ s.HasTaken id c) := by
  unfold isTaken Story.HasTaken
  cases s.tree.targetContainer? id c.path with
  | none => exact ⟨false, s, s.state.warnings, rfl, rfl, by simp⟩
  | some container =>
    dsimp only
    cases c.onceOnly with
    | false => exact ⟨false, s, s.state.warnings, rfl, rfl, by simp⟩
    | true =>
      obtain ⟨warnings, hvisits⟩ := visitsOf_ok container s
      rw [if_pos rfl, bind_ok hvisits]
      exact ⟨_, _, warnings, rfl, rfl, by simp⟩

section Offering

variable {u : Story} {id : NodeId} {c : ChoicePoint} {taken : Bool}
  {operands : Bool × (String × List String) × (String × List String)}

theorem offerWith_hidden (htaken : isTaken c (s.tree.targetContainer? id c.path) s = .ok taken u)
    (h : (!operands.1 || taken) = true) : offerWith id c operands s = .ok none u := by
  unfold offerWith
  rw [bind_ok (tree_ok s), bind_ok htaken, if_pos h]
  rfl

theorem offerWith_shown (htaken : isTaken c (s.tree.targetContainer? id c.path) s = .ok taken u)
    (h : (!operands.1 || taken) = false) :
    offerWith id c operands s = match s.tree.targetContainer? id c.path with
      | none => .error (.address (.choiceTarget c.path.render)) u
      | some container => .ok (some {
          text := Text.trimBlanks (operands.2.2.1 ++ operands.2.1.1)
          index := 0
          tags := operands.2.2.2 ++ operands.2.1.2
          source := (s.tree.path id).render
          target := s.tree.path container
          isInvisible := c.isInvisible
          threadNumber := 0 }) u := by
  unfold offerWith
  rw [bind_ok (tree_ok s), bind_ok htaken, if_neg (by rw [h]; exact Bool.false_ne_true)]
  cases s.tree.targetContainer? id c.path with
  | none => rfl
  | some container => rfl

/-- A choice point that makes up its mind leaves the evaluation stack as making the offer does. -/
theorem evaluation_performChoicePoint (s : Story) (id : NodeId) (c : ChoicePoint) :
    ((performChoicePoint id c).after s).state.evaluation =
      ((makeOffer id c).after s).state.evaluation := by
  unfold performChoicePoint
  cases hrun : makeOffer id c s with
  | error e u => rw [after_bind_error hrun, after_of_error hrun]
  | ok offer u =>
    rw [after_bind_ok hrun, after_of_ok hrun]
    cases offer with
    | none => rfl
    | some offer => rfl

end Offering

/-- Where the evaluation stack holds the operands of a choice point, the choice point leaves what lies
beneath them, whether its choice is offered, hidden by the condition, or hidden as one that has been
taken. A choice that is offered has the text that it begins with and the text for the choice only,
without the blanks at the ends, and the tags of both. Where it should be offered but leads nowhere, that
is an error. -/
theorem choice_points_take_their_operands {id : NodeId} {c : ChoicePoint} {o : ChoicePoint.Operands}
    {holds : Bool} (hstack : c.Finds o rest s.state.evaluation) (htruth : c.holds o = .ok holds) :
    ∃ u warnings, u = { s with state := { s.state with evaluation := rest, warnings } } ∧
      ((performChoicePoint id c).after s).state.evaluation = rest ∧
      (holds = false ∨ s.HasTaken id c → makeOffer id c s = .ok none u) ∧
      (holds = true → ¬s.HasTaken id c →
        (s.tree.targetContainer? id c.path = none →
          makeOffer id c s = .error (.address (.choiceTarget c.path.render)) u) ∧
        ∀ container, s.tree.targetContainer? id c.path = some container → ∃ offer : Offer,
          makeOffer id c s = .ok (some offer) u ∧
          Text.Trimmed ((c.startLabel o).text ++ (c.onlyLabel o).text) offer.text ∧
          offer.tags = (c.startLabel o).tags ++ (c.onlyLabel o).tags ∧
          offer.target = s.tree.path container ∧ offer.isInvisible = c.isInvisible) := by
  obtain ⟨taken, u, warnings, htaken, hu, hiff⟩ := isTaken_ok (s.withEvaluation rest) id c
  have hiff : taken = true ↔ s.HasTaken id c := hiff
  have hmake : makeOffer id c s = offerWith id c (c.popped o holds) (s.withEvaluation rest) := by
    rw [makeOffer_eq, bind_ok (popOperands_of_finds hstack htruth)]
  have hhidden (h : holds = false ∨ s.HasTaken id c) : makeOffer id c s = .ok none u := by
    refine hmake.trans (offerWith_hidden htaken ?_)
    rcases h with rfl | h
    · rfl
    · rw [hiff.mpr h, Bool.or_true]
  have hshown (h : holds = true) (hnot : ¬s.HasTaken id c) :=
    hmake.trans (offerWith_shown htaken (by
      rw [ChoicePoint.popped, h, Bool.eq_false_iff.mpr fun htrue => hnot (hiff.mp htrue)]
      rfl))
  have hrest : u.state.evaluation = rest := by rw [hu]; rfl
  refine ⟨u, warnings, hu, ?_, hhidden, fun h hnot => ⟨fun hnone => ?_, fun container hsome => ?_⟩⟩
  · rw [evaluation_performChoicePoint]
    by_cases h : holds = false ∨ s.HasTaken id c
    · rwa [after_of_ok (hhidden h)]
    · obtain ⟨htrue, hnot⟩ := not_or.mp h
      have hrun := hshown (Bool.not_eq_false holds ▸ htrue) hnot
      split at hrun
      · rwa [after_of_error hrun]
      · rwa [after_of_ok hrun]
  · have hrun := hshown h hnot
    rwa [show (s.withEvaluation rest).tree.targetContainer? id c.path = none from hnone] at hrun
  · have hrun := hshown h hnot
    rw [show (s.withEvaluation rest).tree.targetContainer? id c.path = some container from hsome] at hrun
    exact ⟨_, hrun, Text.trimmed_trimBlanks _, rfl, rfl, rfl⟩

end Flow

/-- A choice point with a condition and both texts, whose choice can be taken once. -/
def signpostPoint : ChoicePoint := ⟨true, true, true, false, true, ⟨[.name "road"], false⟩⟩

/-- A story at this choice point, with its operands on top of a number. -/
def signpost : Story :=
  let content : Content :=
    ⟨0, formatVersion, .ofBlock (.container none ⟨false, false, false⟩ [.leaf (.choicePoint signpostPoint)]
      [("road", .container (some "road") ⟨true, false, true⟩ [.leaf .void] [])]), .empty⟩
  (Story.unstarted content 0).withEvaluation [.int 1, .text " here\t", .tag "dusty", .tag "long",
    .text " Turn", .tag "sign", .int 7]

/-- The choice is offered, and the number is left. -/
theorem signpost_leaves_number :
    signpostPoint.Finds ⟨.int 1, ⟨" here\t", ["long", "dusty"]⟩, ⟨" Turn", ["sign"]⟩⟩ [.int 7]
      signpost.state.evaluation ∧
    ∃ (u : Story) (offer : Offer), Flow.makeOffer 1 signpostPoint signpost = .ok (some offer) u ∧
      u.state.evaluation = [.int 7] ∧ Text.Trimmed (" Turn" ++ " here\t") offer.text ∧
      offer.tags = ["sign", "long", "dusty"] := by
  have hfinds : signpostPoint.Finds ⟨.int 1, ⟨" here\t", ["long", "dusty"]⟩, ⟨" Turn", ["sign"]⟩⟩
      [.int 7] signpost.state.evaluation := ⟨rfl, fun _ => rfl⟩
  have hholds : signpostPoint.holds
      ⟨.int 1, ⟨" here\t", ["long", "dusty"]⟩, ⟨" Turn", ["sign"]⟩⟩ = .ok true := rfl
  obtain ⟨u, warnings, hu, -, -, hoffers⟩ :=
    @Flow.choice_points_take_their_operands _ _ 1 _ _ _ hfinds hholds
  have hnot : ¬signpost.HasTaken 1 signpostPoint := by
    rintro ⟨-, container, hleads, htaken⟩
    cases (show some 2 = some container from hleads)
    exact absurd htaken (by decide)
  obtain ⟨offer, hrun, htext, htags, -⟩ := (hoffers rfl hnot).2 2 rfl
  exact ⟨hfinds, u, offer, hrun, by rw [hu], htext, htags⟩

end StoryMachine
