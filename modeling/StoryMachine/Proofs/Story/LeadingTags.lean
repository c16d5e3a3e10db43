import StoryMachine.Proofs.Story.Strings
import StoryMachine.Story.Tags

/-!
# Tags in front of a text

The tags in front of the first text of a container can be read from the content, and they can be
shown by running it. What is read are the texts between the commands of a tag, every one for itself
and as it stands, and legacy tags. What is shown are the texts of a tag joined and cleaned, unless
they are empty, and legacy tags that are not. Both agree on a tag that is one text without blanks to
clean.

When such tags stand at the front of the output, they stay there. Their texts are in front of the
command that ends a tag, which is a border, and legacy tags are never taken back. Only a string that
ends without having begun takes them.

* `LeadingTag`, `LeadingTag.read`, `LeadingTag.shown` : tags in front of a text, and what comes of
  them;
* `LeadingTag.shown_eq_read_iff` : where both agree;
* `Story.leadingTags_eq` : what is read;
* `Output.tagsFrom_leading` : what is shown;
* `Output.Firm`, `State.Develops.stays` : tokens at the front of the output that stay there.
-/

namespace StoryMachine

/-! ## Tags as they are read, and as they are shown -/

theorem Output.length_collected_le (tag : String) : (collected tag).length ≤ 1 := by
  unfold collected
  split
  · exact Nat.zero_le 1
  · exact Nat.le_refl 1

/-- A tag in front of a text: texts between the commands of a tag, or a legacy tag. -/
inductive LeadingTag where
  | dynamic (texts : List String)
  | legacy (text : String)

namespace LeadingTag

/-- The tokens that the tag is made of, in the content and in the output. -/
def tokens : LeadingTag → List Token
  | dynamic texts => .command .beginTag :: (texts.map Token.text ++ [.command .endTag])
  | legacy text => [.tag text]

/-- What is read of the tag. -/
def read : LeadingTag → List String
  | dynamic texts => texts
  | legacy text => [text]

/-- What is shown of the tag. -/
def shown : LeadingTag → List String
  | dynamic texts => Output.collected (String.join texts)
  | legacy text => if text.isEmpty then [] else [text]

/-- There is nothing in the tag, or one text that has no blanks to clean. -/
inductive Tidy : LeadingTag → Prop
  | empty : Tidy (dynamic [])
  | dynamic {text : String} (hne : text ≠ "") (hclean : Text.clean text = text) :
    Tidy (dynamic [text])
  | legacy {text : String} (hne : text ≠ "") : Tidy (legacy text)

theorem shown_dynamic_singleton {text : String} (hne : text ≠ "") :
    (dynamic [text]).shown = [Text.clean text] := by
  have hjoin : String.join [text] = text := by
    rw [String.join_cons, String.join_nil, String.append_empty]
  rw [shown, hjoin, Output.collected, String.isEmpty_eq_false_iff.mpr hne, if_neg Bool.false_ne_true]

/-- A tag is shown as it is read just when it is tidy. -/
theorem shown_eq_read_iff (tag : LeadingTag) : tag.shown = tag.read ↔ tag.Tidy := by
  constructor
  · intro h
    cases tag with
    | dynamic texts =>
      match texts, h with
      | [], _ => exact .empty
      | [text], h =>
        by_cases hne : text = ""
        · subst hne
          cases h
        · rw [shown_dynamic_singleton hne] at h
          exact .dynamic hne (List.singleton_inj.mp h)
      | first :: second :: rest, h =>
        have hlength := Output.length_collected_le (String.join (first :: second :: rest))
        rw [show Output.collected _ = first :: second :: rest from h, List.length_cons,
          List.length_cons] at hlength
        exact absurd hlength (by omega)
    | legacy text =>
      by_cases hne : text = ""
      · subst hne
        cases h
      · exact .legacy hne
  · intro h
    cases h with
    | empty => rfl
    | dynamic hne hclean => rw [shown_dynamic_singleton hne, hclean, read]
    | legacy hne => rw [shown, String.isEmpty_eq_false_iff.mpr hne, if_neg Bool.false_ne_true, read]

theorem flatMap_shown_eq_read {tags : List LeadingTag} (h : ∀ tag ∈ tags, tag.Tidy) :
    tags.flatMap shown = tags.flatMap read := by
  rw [List.flatMap_def, List.flatMap_def,
    List.map_congr_left fun tag htag => (shown_eq_read_iff tag).mpr (h tag htag)]

-- Blanks at the end of a tag are read, and not shown.
example : (dynamic ["rain "]).read = ["rain "] ∧ (dynamic ["rain "]).shown = ["rain"] := by decide

end LeadingTag

/-! ## Reading -/

namespace Token

/-- The instruction that puts out a token. -/
def instruction : Token → Instruction
  | value v => .value v
  | command c => .command c
  | tag text => .tag text
  | glue => .glue
  | void => .void

theorem eq_instruction {i : Instruction} {t : Token} (h : ofInstruction? i = some t) :
    i = t.instruction := by
  cases i with
  | value | command | tag | glue | void => cases h; rfl
  | _ => cases h

end Token

namespace ContentTree

/-- The token that a node is as content. -/
def token? (t : ContentTree) (id : NodeId) : Option Token :=
  (t.leaf? id).bind Token.ofInstruction?

variable {t : ContentTree} {id : NodeId}

theorem leaf?_of_token? {token : Token} (h : t.token? id = some token) :
    t.leaf? id = some token.instruction := by
  obtain ⟨i, hleaf, hi⟩ := Option.bind_eq_some_iff.mp h
  rwa [Token.eq_instruction hi] at hleaf

/-- The content of a container begins with tokens. -/
def BeginsWith (t : ContentTree) (id : NodeId) (ts : List Token) : Prop :=
  ts.map some <+: (t.content id).map t.token?

end ContentTree

namespace Story

variable {t : ContentTree} {ids : List NodeId}

/-- The texts of a tag are read one by one, up to its end. -/
theorem leadingTags_texts {texts : List String} {rest : List NodeId}
    (h : ids.map t.token? = (texts.map Token.text ++ [Token.command .endTag]).map some) :
    leadingTags t true (ids ++ rest) = (leadingTags t false rest).map (texts ++ ·) := by
  induction texts generalizing ids with
  | nil =>
    obtain ⟨id, rfl, hid⟩ := List.map_eq_singleton_iff.mp h
    rw [List.singleton_append, leadingTags, ContentTree.leaf?_of_token? hid]
    cases leadingTags t false rest <;> rfl
  | cons text texts ih =>
    obtain ⟨id, ids, rfl, hid, hids⟩ := List.map_eq_cons_iff.mp h
    rw [List.cons_append, leadingTags, ContentTree.leaf?_of_token? hid]
    dsimp only [Token.text, Token.instruction]
    rw [if_pos rfl, ih hids]
    cases leadingTags t false rest <;> rfl

/-- A tag is read, and then what is behind it. -/
theorem leadingTags_tag {tag : LeadingTag} {rest : List NodeId}
    (h : ids.map t.token? = tag.tokens.map some) :
    leadingTags t false (ids ++ rest) = (leadingTags t false rest).map (tag.read ++ ·) := by
  cases tag with
  | dynamic texts =>
    obtain ⟨id, ids, rfl, hid, hids⟩ := List.map_eq_cons_iff.mp h
    rw [List.cons_append, leadingTags, ContentTree.leaf?_of_token? hid]
    exact leadingTags_texts hids
  | legacy text =>
    obtain ⟨id, rfl, hid⟩ := List.map_eq_singleton_iff.mp h
    rw [List.singleton_append, leadingTags, ContentTree.leaf?_of_token? hid]
    rfl

/-- The tags in front of a text are read up to the text. -/
theorem leadingTags_eq {tags : List LeadingTag} {first : String} {behind : List Token}
    (h : (tags.flatMap LeadingTag.tokens ++ .text first :: behind).map some <+: ids.map t.token?) :
    leadingTags t false ids = .ok (tags.flatMap LeadingTag.read) := by
  induction tags generalizing ids with
  | nil =>
    obtain ⟨more, h⟩ := h
    obtain ⟨id, ids, rfl, hid, -⟩ := List.map_eq_cons_iff.mp h.symm
    rw [leadingTags, ContentTree.leaf?_of_token? hid]
    rfl
  | cons tag tags ih =>
    obtain ⟨more, h⟩ := h
    rw [List.flatMap_cons, List.append_assoc, List.map_append, List.append_assoc] at h
    obtain ⟨front, rest, rfl, hfront, hrest⟩ := List.map_eq_append_iff.mp h.symm
    rw [leadingTags_tag hfront, ih ⟨more, hrest.symm⟩]
    rfl

end Story

/-! ## Showing -/

namespace Output

/-- The texts of a tag are collected up to its end. -/
theorem tagsFrom_texts (tag : String) (texts : List String) (rest : List Token) :
    tagsFrom true tag (texts.map Token.text ++ .command .endTag :: rest) =
      collected (tag ++ String.join texts) ++ tagsFrom false "" rest := by
  induction texts generalizing tag with
  | nil =>
    rw [String.join_nil, String.append_empty]
    rfl
  | cons text texts ih =>
    rw [String.join_cons, ← String.append_assoc]
    exact ih (tag ++ text)

/-- A tag is shown, and then what is behind it. -/
theorem tagsFrom_tag (tag : LeadingTag) (rest : List Token) :
    tagsFrom false "" (tag.tokens ++ rest) = tag.shown ++ tagsFrom false "" rest := by
  cases tag with
  | dynamic texts =>
    have hcollect := tagsFrom_texts "" texts rest
    rw [String.empty_append] at hcollect
    rw [LeadingTag.tokens, List.cons_append, List.append_assoc]
    exact hcollect
  | legacy text =>
    rw [LeadingTag.tokens, LeadingTag.shown, List.singleton_append, tagsFrom]
    split
    · rfl
    · rfl

/-- Tags at the front of the output are shown, and then what is behind them. -/
theorem tagsFrom_leading (tags : List LeadingTag) (rest : List Token) :
    tagsFrom false "" (tags.flatMap LeadingTag.tokens ++ rest) =
      tags.flatMap LeadingTag.shown ++ tagsFrom false "" rest := by
  induction tags with
  | nil => rfl
  | cons tag tags ih =>
    rw [List.flatMap_cons, List.append_assoc, tagsFrom_tag, ih, List.flatMap_cons, List.append_assoc]

/-- Texts outside tags are no tags. -/
theorem tagsFrom_outside (texts : List String) : tagsFrom false "" (texts.map Token.text) = [] := by
  induction texts with
  | nil => rfl
  | cons text texts ih => exact ih

/-! ## Tokens that stay -/

/-- Tokens, newest first, that are left alone by what takes tokens back, and in which no string has
begun. -/
structure Firm (front : List Token) : Prop where
  glue : dropGlue front = front
  lineEnds : dropLineEnds front = front
  spacing (count : Nat) : dropSpacing count front = front
  string : hasBegun front = false

namespace Firm

variable {front ts : List Token}

theorem nil : Firm [] :=
  ⟨rfl, rfl, fun count => by cases count <;> rfl, rfl⟩

/-- Nothing behind a command is taken back. -/
theorem command (c : Command) (hc : c ≠ .beginString) (h : hasBegun front = false) :
    Firm (.command c :: front) where
  glue := rfl
  lineEnds := rfl
  spacing count := by cases count <;> simp [dropSpacing]
  string := by
    rw [hasBegun, List.any_cons, show Token.isCommand .beginString (.command c) = false from
      beq_eq_false_iff_ne.mpr hc, Bool.false_or]
    exact h

/-- A legacy tag stays. -/
theorem tag (h : Firm front) (text : String) : Firm (.tag text :: front) where
  glue := congrArg (_ :: ·) h.glue
  lineEnds := congrArg (_ :: ·) h.lineEnds
  spacing count := by
    cases count with
    | zero => rw [Output.dropSpacing]
    | succ count => exact congrArg (_ :: ·) (h.spacing count)
  string := h.string

theorem suffix_dropGlue (h : Firm front) (hs : front <:+ ts) : front <:+ dropGlue ts := by
  fun_induction dropGlue ts with
  | case1 => exact hs
  | case2 => exact hs
  | case3 rest ih =>
    rcases List.suffix_cons_iff.mp hs with rfl | hrest
    · exact h.glue ▸ List.suffix_rfl
    · exact ih hrest
  | case4 t rest hcommand hglue ih =>
    rcases List.suffix_cons_iff.mp hs with rfl | hrest
    · have hstays := h.glue
      rw [dropGlue.eq_4 _ _ hcommand hglue] at hstays
      exact hstays ▸ List.suffix_rfl
    · exact (ih hrest).trans (List.suffix_cons t _)

theorem suffix_dropLineEnds (h : Firm front) (hs : front <:+ ts) : front <:+ dropLineEnds ts := by
  fun_induction dropLineEnds ts with
  | case1 => exact hs
  | case2 => exact hs
  | case3 => exact hs
  | case4 s rest hvisible hline ih =>
    rcases List.suffix_cons_iff.mp hs with rfl | hrest
    · have hstays := h.lineEnds
      rw [dropLineEnds, if_neg hvisible, if_pos hline] at hstays
      exact hstays ▸ List.suffix_rfl
    · exact ih hrest
  | case5 => exact hs
  | case6 t rest hcommand htext ih =>
    rcases List.suffix_cons_iff.mp hs with rfl | hrest
    · have hstays := h.lineEnds
      rw [dropLineEnds.eq_4 _ _ hcommand htext] at hstays
      exact hstays ▸ List.suffix_rfl
    · exact (ih hrest).trans (List.suffix_cons t _)

theorem suffix_dropSpacing (h : Firm front) (hs : front <:+ ts) (count : Nat) :
    front <:+ dropSpacing count ts := by
  fun_induction dropSpacing count ts with
  | case1 => exact hs
  | case2 => exact hs
  | case3 => exact hs
  | case4 => exact hs
  | case5 count s rest hvisible ih =>
    rcases List.suffix_cons_iff.mp hs with rfl | hrest
    · have hstays := h.spacing (count + 1)
      rw [dropSpacing.eq_4, if_neg hvisible] at hstays
      exact hstays ▸ List.suffix_rfl
    · exact ih hrest
  | case6 count t rest hcommand htext ih =>
    rcases List.suffix_cons_iff.mp hs with rfl | hrest
    · have hstays := h.spacing (count + 1)
      rw [dropSpacing.eq_5 _ _ _ hcommand htext] at hstays
      exact hstays ▸ List.suffix_rfl
    · exact (ih hrest).trans (List.suffix_cons t _)

/-- A text that is pushed goes behind tokens that stay. -/
theorem suffix_pushText {o : Output} (h : Firm front) (hs : front <:+ o.newest)
    (functionStart : Option Nat) (s : String) : front <:+ (o.pushText functionStart s).1.newest := by
  have hadd : ∀ {us : List Token}, front <:+ us → front <:+ Token.text s :: us := fun hus =>
    hus.trans (List.suffix_cons _ _)
  unfold pushText
  dsimp only
  split
  · split
    · exact hs
    · split
      · refine hadd ?_
        split
        · exact h.suffix_dropGlue hs
        · exact hs
      · exact hadd hs
  · split
    · exact hs
    · exact hadd hs

end Firm

theorem hasBegun_texts (texts : List String) (ts : List Token) :
    hasBegun (texts.map Token.text ++ ts) = hasBegun ts := by
  induction texts with
  | nil => rfl
  | cons text texts ih => exact ih

/-- A tag behind tokens that stay stays with them. -/
theorem Firm.leading {front : List Token} (h : Firm front) (tag : LeadingTag) :
    Firm (tag.tokens.reverse ++ front) := by
  cases tag with
  | dynamic texts =>
    rw [LeadingTag.tokens, List.reverse_cons, List.reverse_append, ← List.map_reverse,
      List.append_assoc, List.append_assoc]
    exact .command .endTag nofun ((hasBegun_texts _ _).trans h.string)
  | legacy text => exact h.tag text

/-- The tokens of tags stay. -/
theorem firm_leading (tags : List LeadingTag) : Firm (tags.flatMap LeadingTag.tokens).reverse := by
  have hbehind : ∀ {front : List Token}, Firm front →
      Firm ((tags.flatMap LeadingTag.tokens).reverse ++ front) := by
    induction tags with
    | nil => exact id
    | cons tag tags ih =>
      intro front h
      rw [List.flatMap_cons, List.reverse_append, List.append_assoc]
      exact ih (h.leading tag)
  rw [← List.append_nil (tags.flatMap LeadingTag.tokens).reverse]
  exact hbehind .nil

end Output

/-! ## What is done behind them -/

namespace State

open Output

variable {s u : State} {front : List Token}

theorem suffix_emit (h : Firm front) (hs : front <:+ s.output.newest) (t : Token) :
    front <:+ (s.emit t).output.newest := by
  by_cases htext : ∃ text, t = .text text
  · obtain ⟨text, rfl⟩ := htext
    rw [emit_text]
    generalize Text.parts text = parts
    induction parts generalizing s with
    | nil => exact hs
    | cons part rest ih =>
      refine ih ?_
      rw [output_emitText]
      exact h.suffix_pushText hs _ _
  · unfold emit
    split
    · exact (htext ⟨_, rfl⟩).elim
    · exact (h.suffix_dropLineEnds hs).trans (List.suffix_cons _ _)
    · exact hs.trans (List.suffix_cons _ _)

/-- The end of a string that has begun takes what is behind its beginning. -/
theorem suffix_closeString (h : Firm front) (hs : front <:+ s.output.newest)
    (hstring : s.output.inString = true) : front <:+ s.closeString.output.newest := by
  obtain ⟨behind, hnewest⟩ := hs
  have hbegun : behind.any (Token.isCommand .beginString) = true := by
    have hany : hasBegun (behind ++ front) = true := hnewest ▸ hstring
    rwa [hasBegun, List.any_append, show front.any _ = false from h.string, Bool.or_false] at hany
  have hsplit := splitAtCommand_append .beginString behind front
  rw [hnewest, if_pos hbegun] at hsplit
  show front <:+ (splitAtCommand .beginString s.output.newest).1.filterMap Flow.tagToken? ++
    (splitAtCommand .beginString s.output.newest).2
  rw [hsplit]
  exact (List.suffix_append _ _).trans (List.suffix_append _ _)

/-- The end of a tag in a string takes what is behind the beginning of the tag, which is in the
string. -/
theorem suffix_takeTag (h : Firm front) (hs : front <:+ s.output.newest)
    (hstring : s.output.inString = true)
    (hcommand : ∀ c, .command c ∉ (splitAtCommand .beginTag s.output.newest).1) :
    front <:+ s.takeTag.output.newest := by
  obtain ⟨behind, hnewest⟩ := hs
  have hsplit := splitAtCommand_append .beginTag behind front
  rw [hnewest] at hsplit
  cases hany : behind.any (Token.isCommand .beginTag) with
  | true =>
    rw [if_pos hany] at hsplit
    show front <:+ (splitAtCommand .beginTag s.output.newest).2
    rw [hsplit]
    exact List.suffix_append _ _
  | false =>
    rw [hany, if_neg Bool.false_ne_true] at hsplit
    have hbegun : hasBegun (behind ++ front) = true := hnewest ▸ hstring
    rw [hasBegun, List.any_append, show front.any _ = false from h.string, Bool.or_false] at hbegun
    obtain ⟨t, ht, hbegins⟩ := List.any_eq_true.mp hbegun
    cases t with
    | command c =>
      rw [hsplit] at hcommand
      exact (hcommand c (List.mem_append_left _ ht)).elim
    | _ => cases hbegins

theorem suffix_popFrame (h : Firm front) (hs : front <:+ s.output.newest) (hu : s.popFrame = .ok u) :
    front <:+ u.output.newest := by
  unfold popFrame at hu
  dsimp only at hu
  obtain ⟨callStack, -, hu⟩ := Except.bind_eq_ok.mp hu
  cases hu
  dsimp only
  split
  · exact h.suffix_dropSpacing hs _
  · exact hs

/-- What is done behind tokens that stay leaves them, unless a string ends that has not begun. -/
theorem Does.stays {d : Deed} (hdoes : s.Does d u) (h : Firm front) (hs : front <:+ s.output.newest)
    (hend : d = .endString → s.output.inString = true) : front <:+ u.output.newest := by
  cases hdoes with
  | put => exact suffix_emit h hs _
  | beginString | beginTag | endTag => exact hs.trans (List.suffix_cons _ _)
  | endString => exact suffix_closeString h hs (hend rfl)
  | takeTag hstring hcommand => exact suffix_takeTag h hs hstring hcommand
  | back hpop => exact suffix_popFrame h hs hpop
  | other houtput => exact houtput ▸ hs
  | call | fork | endThread | offer | withdraw | resume | copy | finish => exact hs

/-- Tokens at the front of the output stay there as long as no string ends that has not begun. -/
theorem Develops.stays (hdevelops : s.Develops (fun x => x.output.inString = true) u)
    (h : Firm front) (hs : front <:+ s.output.newest) : front <:+ u.output.newest := by
  obtain ⟨ds, hds, hends⟩ := hdevelops
  induction hds with
  | none => exact hs
  | more hdoes _ ih =>
    obtain ⟨hend, hends⟩ := List.forall_mem_cons.mp hends
    exact ih (hdoes.stays h hs hend) hends

end State

end StoryMachine
