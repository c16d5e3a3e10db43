import StoryMachine.Proofs.Cleaning
import StoryMachine.Proofs.Output

/-!
# What a text in the output counts for

The text and the tags of a line are computed from the same tokens, each in a pass of its own. Both
passes have to take every text token alike. It lies in a tag if a tag has begun in front of it and has
not ended since; a tag that begins inside another one ends that, and one that is not ended goes on to
the end of the output. The text then counts for this tag, joined with the others that lie in it, and
the text of the line is what it would be without it. Any other text counts for the text of the line, and
the tags are what they would be without it.

* `Output.InTag` : where a tag is open;
* `Output.CountsForText`, `Output.CountsForTag` : what a text at some place counts for;
* `Output.exists_tagsFrom_append`, `Output.exists_tagsFrom_open` : the tags, taken apart at a place;
* `Output.counts_once` : every text counts for one of them, and for one only.
-/

namespace StoryMachine

/-- Whether a token begins or ends a tag. -/
def Token.bordersTag : Token → Bool
  | .command .beginTag | .command .endTag => true
  | _ => false

namespace Output

/-- Behind such tokens a tag is open: it has begun, and not ended since. -/
def InTag (front : List Token) : Prop :=
  ∃ before inside, front = before ++ .command .beginTag :: inside ∧ .command .endTag ∉ inside

/-- The texts of tokens, the oldest one first, joined. -/
def textOf (ts : List Token) : String :=
  String.join (ts.filterMap Token.text?)

/-- The texts that a tag which is open behind some tokens has collected there. -/
def tagBegun (front : List Token) : String :=
  textOf (front.rtakeWhile fun t => !t.bordersTag)

/-- The texts that an open tag collects of the tokens that follow. -/
def tagRest (behind : List Token) : String :=
  textOf (behind.takeWhile fun t => !t.bordersTag)

/-- A text between these tokens counts for the text of the line: it stands there between the other
texts, and the tags are what they are without it. -/
structure CountsForText (front behind : List Token) : Prop where
  text (s : String) : (ofTokens (front ++ .text s :: behind)).text =
    Text.clean (String.join (textsFrom false front) ++ s ++ String.join (textsFrom false behind))
  tags (s : String) : (ofTokens (front ++ .text s :: behind)).tags = (ofTokens (front ++ behind)).tags

/-- A text between these tokens counts for a tag: it stands there between the other texts of the tag,
and the text of the line is what it is without it. -/
structure CountsForTag (front behind : List Token) : Prop where
  tags : ∃ earlier later, ∀ s : String, (ofTokens (front ++ .text s :: behind)).tags =
    earlier ++ collected (tagBegun front ++ s ++ tagRest behind) ++ later
  text (s : String) : (ofTokens (front ++ .text s :: behind)).text = (ofTokens (front ++ behind)).text

variable {front behind : List Token}

/-! ## Where a tag is open -/

theorem inTag_concat (front : List Token) (t : Token) :
    InTag (front ++ [t]) ↔ t = .command .beginTag ∨ t ≠ .command .endTag ∧ InTag front := by
  constructor
  · rintro ⟨before, inside, heq, hend⟩
    rcases List.eq_nil_or_concat' inside with rfl | ⟨inside, last, rfl⟩
    · exact .inl (List.append_singleton_inj.mp heq).2
    · rw [← List.cons_append, ← List.append_assoc] at heq
      obtain ⟨rfl, rfl⟩ := List.append_singleton_inj.mp heq
      rw [List.mem_append, not_or, List.mem_singleton] at hend
      exact .inr ⟨Ne.symm hend.2, before, inside, rfl, hend.1⟩
  · rintro (rfl | ⟨ht, before, inside, rfl, hend⟩)
    · exact ⟨front, [], rfl, List.not_mem_nil⟩
    · refine ⟨before, inside ++ [t], by rw [List.append_assoc, List.cons_append], ?_⟩
      rw [List.mem_append, not_or, List.mem_singleton]
      exact ⟨hend, Ne.symm ht⟩

theorem tagAfter_singleton (inTag : Bool) (t : Token) :
    tagAfter inTag [t] = true ↔ t = .command .beginTag ∨ t ≠ .command .endTag ∧ inTag = true := by
  cases t with
  | command c => cases c <;> simp [tagAfter]
  | _ => simp [tagAfter]

/-- The passes know whether a tag is open. -/
theorem inTag_iff (front : List Token) : InTag front ↔ tagAfter false front = true := by
  induction front using List.reverseRecOn with
  | nil =>
    refine ⟨fun ⟨before, inside, heq, _⟩ => ?_, fun h => nomatch h⟩
    exact absurd heq.symm (List.append_ne_nil_of_right_ne_nil before (List.cons_ne_nil _ inside))
  | append_singleton front t ih => rw [inTag_concat, tagAfter_append, tagAfter_singleton, ih]

/-! ## The texts of a tag -/

theorem textOf_append (ts us : List Token) : textOf (ts ++ us) = textOf ts ++ textOf us := by
  rw [textOf, List.filterMap_append, String.join_append]
  rfl

theorem textOf_text (s : String) : textOf [.text s] = s := by
  show String.join [s] = s
  rw [String.join_cons, String.join_nil, String.append_empty]

theorem textOf_of_no_text {t : Token} (h : t.text? = none) : textOf [t] = "" := by
  rw [textOf, List.filterMap_cons_none h]
  rfl

theorem tagBegun_border {t : Token} (h : t.bordersTag = true) (front : List Token) :
    tagBegun (front ++ [t]) = "" := by
  rw [tagBegun, List.rtakeWhile_concat_neg _ _ _ (by rw [h]; decide)]
  rfl

theorem tagBegun_concat {t : Token} (h : t.bordersTag = false) (front : List Token) :
    tagBegun (front ++ [t]) = tagBegun front ++ textOf [t] := by
  rw [tagBegun, List.rtakeWhile_concat_pos _ _ _ (by rw [h]; rfl), textOf_append]
  rfl

theorem tagRest_border {t : Token} (h : t.bordersTag = true) (behind : List Token) :
    tagRest (t :: behind) = "" := by
  rw [tagRest, List.takeWhile_cons_of_neg (by rw [h]; decide)]
  rfl

theorem tagRest_cons {t : Token} (h : t.bordersTag = false) (behind : List Token) :
    tagRest (t :: behind) = textOf [t] ++ tagRest behind := by
  rw [tagRest, List.takeWhile_cons_of_pos (by rw [h]; rfl), ← List.singleton_append, textOf_append]
  rfl

/-! ## The tags, taken apart -/

/-- What the pass over the tags makes of a token that does not border a tag: a legacy tag stands as it
is, and a text is collected if a tag is open. -/
theorem exists_tagsFrom_cons {t : Token} (h : t.bordersTag = false) (inTag : Bool) :
    ∃ legacy, ∀ tag rest, tagsFrom inTag tag (t :: rest) =
      legacy ++ tagsFrom inTag (if inTag then tag ++ textOf [t] else tag) rest := by
  have hother (hno : t.text? = none) (hstep : ∀ tag rest,
      tagsFrom inTag tag (t :: rest) = tagsFrom inTag tag rest) : ∃ legacy, ∀ tag rest,
      tagsFrom inTag tag (t :: rest) =
        legacy ++ tagsFrom inTag (if inTag then tag ++ textOf [t] else tag) rest :=
    ⟨[], fun tag rest => by
      rw [hstep, textOf_of_no_text hno, String.append_empty, ite_self, List.nil_append]⟩
  cases t with
  | value v =>
    cases v with
    | text s => exact ⟨[], fun tag rest => by rw [← Token.text, textOf_text]; rfl⟩
    | _ => exact hother rfl fun _ _ => rfl
  | command c =>
    cases c with
    | beginTag | endTag => cases h
    | _ => exact hother rfl fun _ _ => rfl
  | tag s =>
    refine ⟨if s.isEmpty then [] else [s], fun tag rest => ?_⟩
    rw [textOf_of_no_text rfl, String.append_empty, ite_self, tagsFrom]
    split
    · rfl
    · rfl
  | glue | void => exact hother rfl fun _ _ => rfl

/-- Tokens in front leave some tags, and an open one with the texts collected so far. -/
theorem exists_tagsFrom_append (front : List Token) : ∃ earlier, ∀ rest,
    tagsFrom false "" (front ++ rest) = earlier ++
      tagsFrom (tagAfter false front) (if tagAfter false front then tagBegun front else "") rest := by
  induction front using List.reverseRecOn with
  | nil => exact ⟨[], fun _ => rfl⟩
  | append_singleton front t ih =>
    obtain ⟨earlier, hfront⟩ := ih
    cases hborder : t.bordersTag with
    | false =>
      have hsame : tagAfter (tagAfter false front) [t] = tagAfter false front := by
        cases t with
        | command c => cases c <;> first | rfl | cases hborder
        | _ => rfl
      obtain ⟨legacy, hstep⟩ := exists_tagsFrom_cons hborder (tagAfter false front)
      refine ⟨earlier ++ legacy, fun rest => ?_⟩
      rw [List.append_assoc, List.singleton_append, hfront, hstep, tagAfter_append, hsame,
        tagBegun_concat hborder, List.append_assoc]
      cases tagAfter false front with
      | true => rfl
      | false => rfl
    | true =>
      cases t with
      | command c =>
        cases c with
        | beginTag =>
          -- A tag that is open ends where another one begins.
          refine ⟨earlier ++ if tagAfter false front then collected (tagBegun front) else [],
            fun rest => ?_⟩
          rw [List.append_assoc, List.singleton_append, hfront, tagAfter_append,
            tagBegun_border hborder, List.append_assoc]
          cases tagAfter false front with
          | true => rfl
          | false => rfl
        | endTag =>
          refine ⟨earlier ++ collected (if tagAfter false front then tagBegun front else ""),
            fun rest => ?_⟩
          rw [List.append_assoc, List.singleton_append, hfront, tagAfter_append, List.append_assoc]
          rfl
        | _ => cases hborder
      | _ => cases hborder

/-- An open tag collects texts until a tag begins or ends; legacy tags that come before come in front
of it. -/
theorem exists_tagsFrom_open (behind : List Token) : ∃ legacy later, ∀ tag,
    tagsFrom true tag behind = legacy ++ collected (tag ++ tagRest behind) ++ later := by
  induction behind with
  | nil =>
    refine ⟨[], [], fun tag => ?_⟩
    rw [List.append_nil]
    exact congrArg _ String.append_empty.symm
  | cons t behind ih =>
    cases hborder : t.bordersTag with
    | false =>
      obtain ⟨legacy, later, hrest⟩ := ih
      obtain ⟨tags, hstep⟩ := exists_tagsFrom_cons hborder true
      refine ⟨tags ++ legacy, later, fun tag => ?_⟩
      rw [hstep, if_pos rfl, hrest, tagRest_cons hborder, String.append_assoc, List.append_assoc,
        List.append_assoc, List.append_assoc]
    | true =>
      rw [tagRest_border hborder]
      cases t with
      | command c =>
        cases c with
        | beginTag =>
          exact ⟨[], tagsFrom true "" behind, fun tag => by rw [String.append_empty]; rfl⟩
        | endTag =>
          exact ⟨[], tagsFrom false "" behind, fun tag => by rw [String.append_empty]; rfl⟩
        | _ => cases hborder
      | _ => cases hborder

/-! ## What a text counts for -/

theorem countsForText_of_not_inTag (h : ¬InTag front) (behind : List Token) :
    CountsForText front behind := by
  rw [inTag_iff, Bool.not_eq_true] at h
  refine ⟨fun s => ?_, fun s => ?_⟩
  · rw [Output.text, tokens_ofTokens, textsFrom_append, h, String.join_append, String.append_assoc]
    exact congrArg (fun rest => Text.clean (_ ++ rest)) String.join_cons
  · obtain ⟨earlier, hfront⟩ := exists_tagsFrom_append front
    rw [tags, tags, tokens_ofTokens, tokens_ofTokens, hfront, hfront, h]
    rfl

theorem countsForTag_of_inTag (h : InTag front) (behind : List Token) :
    CountsForTag front behind := by
  rw [inTag_iff] at h
  obtain ⟨earlier, hfront⟩ := exists_tagsFrom_append front
  obtain ⟨legacy, later, hbehind⟩ := exists_tagsFrom_open behind
  refine ⟨⟨earlier ++ legacy, later, fun s => ?_⟩, fun s => ?_⟩
  · have hcollect : tagsFrom true (tagBegun front) (.text s :: behind) =
        tagsFrom true (tagBegun front ++ s) behind := rfl
    rw [tags, tokens_ofTokens, hfront, h, if_pos rfl, hcollect, hbehind, List.append_assoc,
      List.append_assoc, List.append_assoc]
  · rw [Output.text, Output.text, tokens_ofTokens, tokens_ofTokens, textsFrom_append,
      textsFrom_append, h]
    rfl

/-- Cleaning tells different texts apart at any place, blanks excepted. -/
theorem clean_ne (front behind : String) :
    Text.clean (front ++ "x" ++ behind) ≠ Text.clean (front ++ "y" ++ behind) := fun h => by
  have hchars := congrArg (fun s : String => s.toList.filter fun c => !Text.isBlank c) h
  simp only [Text.toList_clean, Text.filter_cleanFrom, String.toList_append, List.filter_append,
    List.append_left_inj, List.append_right_inj] at hchars
  exact absurd hchars (by decide)

/-- What counts for a tag does not count for the text of the line. -/
theorem CountsForTag.not_countsForText (h : CountsForTag front behind) :
    ¬CountsForText front behind := fun htext =>
  clean_ne _ _ (by rw [← htext.text, ← htext.text, h.text, h.text])

/-- Every text in the output counts for a tag if it lies in one, and for the text of the line if it
does not, and never for both. -/
theorem counts_once (front behind : List Token) :
    InTag front ∧ CountsForTag front behind ∧ ¬CountsForText front behind ∨
      ¬InTag front ∧ CountsForText front behind ∧ ¬CountsForTag front behind := by
  by_cases h : InTag front
  · have htag := countsForTag_of_inTag h behind
    exact .inl ⟨h, htag, htag.not_countsForText⟩
  · have htext := countsForText_of_not_inTag h behind
    exact .inr ⟨h, htext, fun htag => htag.not_countsForText htext⟩

end Output

end StoryMachine
