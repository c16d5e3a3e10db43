import StoryMachine.Output

/-!
# The text of the output

The text of the output is made of the text tokens outside tags. While a string is being
evaluated only those in front of the first string that has begun are sure to stay: what is
put out in a string is taken back when it ends. `Output.shown` holds these texts, the newest
one first.

Nothing but a text that is put out outside strings adds to the texts shown. Glue and the end
of a function take back the newest of them, and whatever else changes the output changes
them not at all.

* `Output.shown` : the texts that are sure to stay, newest first;
* `Output.text_eq` : outside strings they make up the text;
* `Output.Trimmed` : tokens from which the newest texts have been taken back;
* `Output.shown_trimFrom`, `Output.shown_pushGlue`, `Output.shown_pushText` : what the
  changes of the output do to the texts shown.
-/

namespace StoryMachine

namespace Output

/-- Whether a string has begun in tokens. -/
def hasBegun (ts : List Token) : Bool :=
  ts.any (Token.isCommand .beginString)

/-- The tokens in front of the first string that has begun, newest first. -/
def outer : List Token → List Token
  | [] => []
  | t :: rest =>
    if hasBegun rest then outer rest
    else if t.isCommand .beginString then rest
    else t :: rest

/-- Whether tokens, newest first, end inside a tag. -/
def tagOpen : List Token → Bool
  | [] => false
  | .command .beginTag :: _ => true
  | .command .endTag :: _ => false
  | _ :: rest => tagOpen rest

/-- The texts outside tags of tokens, newest first. -/
def outTexts : List Token → List String
  | [] => []
  | .value (.text s) :: rest => if tagOpen rest then outTexts rest else s :: outTexts rest
  | _ :: rest => outTexts rest

/-- The texts of the output that are sure to stay, newest first. -/
def shown (o : Output) : List String :=
  outTexts (outer o.newest)

/-! ## Texts and text -/

/-- Whether tokens, oldest first, end inside a tag, if they begin inside one or not. -/
def tagAfter (inTag : Bool) : List Token → Bool
  | [] => inTag
  | .command .beginTag :: rest => tagAfter true rest
  | .command .endTag :: rest => tagAfter false rest
  | _ :: rest => tagAfter inTag rest

theorem tagAfter_append (inTag : Bool) (front behind : List Token) :
    tagAfter inTag (front ++ behind) = tagAfter (tagAfter inTag front) behind := by
  induction front generalizing inTag with
  | nil => rfl
  | cons t rest ih =>
    cases t with
    | command c => cases c <;> simp [tagAfter, ih]
    | _ => simp [tagAfter, ih]

theorem textsFrom_append (inTag : Bool) (front behind : List Token) :
    textsFrom inTag (front ++ behind) =
      textsFrom inTag front ++ textsFrom (tagAfter inTag front) behind := by
  induction front generalizing inTag with
  | nil => rfl
  | cons t rest ih =>
    cases t with
    | command c => cases c <;> simp [textsFrom, tagAfter, ih]
    | value v => cases v <;> cases inTag <;> simp [textsFrom, tagAfter, ih]
    | _ => simp [textsFrom, tagAfter, ih]

theorem tagAfter_reverse (ts : List Token) : tagAfter false ts.reverse = tagOpen ts := by
  induction ts with
  | nil => rfl
  | cons t rest ih =>
    rw [List.reverse_cons, tagAfter_append, ih]
    cases t with
    | command c => cases c <;> rfl
    | _ => rfl

theorem textsFrom_reverse (ts : List Token) :
    textsFrom false ts.reverse = (outTexts ts).reverse := by
  induction ts with
  | nil => rfl
  | cons t rest ih =>
    rw [List.reverse_cons, textsFrom_append, ih, tagAfter_reverse]
    cases t with
    | command c => cases c <;> simp [textsFrom, outTexts]
    | value v =>
      cases v with
      | text s => cases h : tagOpen rest <;> simp [textsFrom, outTexts, h]
      | _ => simp [textsFrom, outTexts]
    | _ => simp [textsFrom, outTexts]

theorem outer_of_not_hasBegun {ts : List Token} (h : hasBegun ts = false) : outer ts = ts := by
  cases ts with
  | nil => rfl
  | cons t rest =>
    obtain ⟨ht, hrest⟩ : t.isCommand .beginString = false ∧ hasBegun rest = false := by
      simpa [hasBegun] using h
    simp [outer, ht, hrest]

/-- Outside strings the texts shown make up the text. -/
theorem text_eq {o : Output} (h : o.inString = false) :
    o.text = Text.clean (String.join o.shown.reverse) := by
  rw [text, tokens, textsFrom_reverse, shown, outer_of_not_hasBegun h]

/-! ## Taking texts back -/

/-- The second tokens are the first ones without some of the newest texts. Commands are
borders: nothing in front of one is taken back. -/
inductive Trimmed : List Token → List Token → Prop
  | refl (ts : List Token) : Trimmed ts ts
  | text (s : String) {ts us : List Token} (h : Trimmed ts us) : Trimmed (.text s :: ts) us
  | keep {t : Token} {ts us : List Token} (htext : t.text? = none)
      (hcommand : ∀ c, t ≠ .command c) (h : Trimmed ts us) : Trimmed (t :: ts) (t :: us)

theorem trimmed_dropLineEnds : ∀ ts : List Token, Trimmed ts (dropLineEnds ts)
  | [] => .refl _
  | .command c :: rest => .refl _
  | .value (.text s) :: rest => by
    rw [dropLineEnds]
    split
    · exact .refl _
    · split
      · exact .text s (trimmed_dropLineEnds rest)
      · exact .refl _
  | .value (.bool _) :: rest | .value (.int _) :: rest | .value (.float _) :: rest
  | .value (.list _) :: rest | .value (.target _) :: rest | .value (.reference ..) :: rest
  | .tag _ :: rest | .glue :: rest | .void :: rest =>
    .keep rfl nofun (trimmed_dropLineEnds rest)

theorem trimmed_dropSpacing : ∀ (count : Nat) (ts : List Token), Trimmed ts (dropSpacing count ts)
  | 0, ts => by
    rw [dropSpacing]
    exact .refl _
  | _ + 1, [] => .refl _
  | _ + 1, .command c :: rest => .refl _
  | count + 1, .value (.text s) :: rest => by
    rw [dropSpacing]
    split
    · exact .refl _
    · exact .text s (trimmed_dropSpacing count rest)
  | count + 1, .value (.bool _) :: rest | count + 1, .value (.int _) :: rest
  | count + 1, .value (.float _) :: rest | count + 1, .value (.list _) :: rest
  | count + 1, .value (.target _) :: rest | count + 1, .value (.reference ..) :: rest
  | count + 1, .tag _ :: rest | count + 1, .glue :: rest | count + 1, .void :: rest =>
    .keep rfl nofun (trimmed_dropSpacing count rest)

theorem Trimmed.hasBegun_eq {ts us : List Token} (h : Trimmed ts us) :
    hasBegun us = hasBegun ts := by
  induction h with
  | refl => rfl
  | text s _ ih => rw [ih]; rfl
  | keep _ _ _ ih =>
    unfold hasBegun at ih ⊢
    rw [List.any_cons, List.any_cons, ih]

/-- Inside a string nothing in front of it is taken back. -/
theorem Trimmed.outer_eq {ts us : List Token} (h : Trimmed ts us) (hts : hasBegun ts = true) :
    outer us = outer ts := by
  induction h with
  | refl => rfl
  | @text s ts us h ih =>
    have hrest : hasBegun ts = true := hts
    rw [ih hrest, outer, if_pos hrest]
  | @keep t ts us _ hcommand h ih =>
    have hrest : hasBegun ts = true := by
      have ht : t.isCommand .beginString = false := by
        cases t with
        | command c => exact absurd rfl (hcommand c)
        | _ => rfl
      simpa [hasBegun, ht] using hts
    rw [outer, outer, h.hasBegun_eq, if_pos hrest, if_pos hrest, ih hrest]

theorem Trimmed.outTexts_suffix {ts us : List Token} (h : Trimmed ts us) :
    outTexts us <:+ outTexts ts := by
  induction h with
  | refl => exact List.suffix_rfl
  | @text s ts us _ ih =>
    show _ <:+ (if tagOpen ts then outTexts ts else s :: outTexts ts)
    split
    · exact ih
    · exact ih.trans (List.suffix_cons _ _)
  | @keep t ts us htext _ _ ih =>
    have hsame : ∀ rest, outTexts (t :: rest) = outTexts rest := fun rest => by
      cases t with
      | value v => cases v <;> first | rfl | cases htext
      | _ => rfl
    rw [hsame, hsame]
    exact ih

/-- The texts shown after something has been taken back. -/
theorem Trimmed.shown {ts us : List Token} (h : Trimmed ts us) :
    shown ⟨us⟩ <:+ shown ⟨ts⟩ ∧ (hasBegun us = true → shown ⟨us⟩ = shown ⟨ts⟩) := by
  unfold Output.shown
  cases hts : hasBegun ts with
  | true =>
    rw [h.outer_eq hts]
    exact ⟨List.suffix_rfl, fun _ => rfl⟩
  | false =>
    have hus : hasBegun us = false := h.hasBegun_eq.trans hts
    rw [outer_of_not_hasBegun hts, outer_of_not_hasBegun hus]
    exact ⟨h.outTexts_suffix, fun hus' => by rw [hus] at hus'; cases hus'⟩

theorem Trimmed.trans {ts us vs : List Token} (h : Trimmed ts us) (h' : Trimmed us vs) :
    Trimmed ts vs := by
  induction h generalizing vs with
  | refl => exact h'
  | text s _ ih => exact .text s (ih h')
  | keep htext hcommand hrest ih =>
    cases h' with
    | refl => exact .keep htext hcommand hrest
    | text s _ => cases htext
    | keep _ _ h' => exact .keep htext hcommand (ih h')

theorem trimmed_trimFrom (o : Output) (start : Nat) : Trimmed o.newest (o.trimFrom start).newest :=
  trimmed_dropSpacing _ _

/-! ## What a step does to the texts shown -/

/-- Nothing has been added to the texts shown, and inside a string nothing has been taken
from them. -/
structure Kept (o u : Output) : Prop where
  suffix : u.shown <:+ o.shown
  shown_eq : u.inString = true → u.shown = o.shown

/-- The newest token is a text that has been put out, outside strings. -/
structure Put (s : String) (o u : Output) : Prop where
  newest : ∃ rest, u.newest = .text s :: rest ∧ hasBegun rest = false ∧ shown ⟨rest⟩ = o.shown

theorem Kept.of_eq {o u : Output} (h : u.shown = o.shown) : Kept o u :=
  ⟨h ▸ List.suffix_rfl, fun _ => h⟩

theorem Kept.refl (o : Output) : Kept o o :=
  .of_eq rfl

theorem Kept.trimmed {o u v : Output} (h : Kept o u) (ht : Trimmed u.newest v.newest) :
    Kept o v := by
  obtain ⟨hsuffix, heq⟩ := ht.shown
  refine ⟨hsuffix.trans h.suffix, fun hv => ?_⟩
  have hu : u.inString = true := ht.hasBegun_eq.symm.trans hv
  exact (heq hv).trans (h.shown_eq hu)

theorem Put.trimmed {s : String} {o u v : Output} (h : Put s o u)
    (ht : Trimmed u.newest v.newest) : Put s o v ∨ Kept o v := by
  obtain ⟨rest, hnewest, hbegun, hshown⟩ := h.newest
  obtain ⟨vs⟩ := v
  rw [hnewest] at ht
  cases ht with
  | refl => exact .inl ⟨rest, rfl, hbegun, hshown⟩
  | text _ ht => exact .inr ((Kept.of_eq (u := ⟨rest⟩) hshown).trimmed ht)
  | keep htext => cases htext

/-- The texts shown once a text has been put out. -/
theorem Put.shown_eq {s : String} {o u : Output} (h : Put s o u) :
    u.shown = s :: o.shown ∨ u.shown = o.shown := by
  obtain ⟨rest, hnewest, hbegun, hshown⟩ := h.newest
  have hu : hasBegun u.newest = false := by rw [hnewest]; exact hbegun
  rw [← hshown]
  unfold shown
  rw [outer_of_not_hasBegun hu, outer_of_not_hasBegun hbegun, hnewest]
  show (if tagOpen rest then _ else _) = _ ∨ (if tagOpen rest then _ else _) = _
  cases tagOpen rest
  · exact .inl rfl
  · exact .inr rfl

theorem Put.not_inString {s : String} {o u : Output} (h : Put s o u) : u.inString = false := by
  obtain ⟨rest, hnewest, hbegun, -⟩ := h.newest
  show hasBegun u.newest = false
  rw [hnewest]
  exact hbegun

/-! ## Putting out -/

theorem shown_cons_of_hasBegun {t : Token} {ts : List Token} (h : hasBegun ts = true) :
    shown ⟨t :: ts⟩ = shown ⟨ts⟩ := by
  unfold shown
  rw [outer, if_pos h]

theorem outTexts_cons {t : Token} (h : t.text? = none) (ts : List Token) :
    outTexts (t :: ts) = outTexts ts := by
  cases t with
  | value v => cases v <;> first | rfl | cases h
  | _ => rfl

/-- Only a text adds to the texts shown. -/
theorem shown_cons {t : Token} (h : t.text? = none) (ts : List Token) :
    shown ⟨t :: ts⟩ = shown ⟨ts⟩ := by
  cases hts : hasBegun ts with
  | true => exact shown_cons_of_hasBegun hts
  | false =>
    unfold shown
    rw [outer, hts, outer_of_not_hasBegun hts]
    simp only [Bool.false_eq_true, if_false]
    split
    · rfl
    · exact outTexts_cons h ts

theorem kept_add {t : Token} (h : t.text? = none) (o : Output) : Kept o (o.add t) :=
  .of_eq (shown_cons h o.newest)

theorem kept_pushGlue (o : Output) : Kept o o.pushGlue := by
  have hglue : Kept ⟨dropLineEnds o.newest⟩ o.pushGlue := .of_eq (shown_cons rfl _)
  have hdrop := (Kept.refl o).trimmed (v := ⟨dropLineEnds o.newest⟩) (trimmed_dropLineEnds _)
  refine ⟨hglue.suffix.trans hdrop.suffix, fun h => ?_⟩
  have hbegun : hasBegun (dropLineEnds o.newest) = true := h
  exact (hglue.shown_eq h).trans (hdrop.shown_eq hbegun)

theorem hasBegun_dropGlue : ∀ ts : List Token, hasBegun (dropGlue ts) = hasBegun ts := by
  intro ts
  fun_induction dropGlue ts with
  | case1 => rfl
  | case2 => rfl
  | case3 rest ih => exact ih
  | case4 t rest _ _ ih =>
    unfold hasBegun at ih ⊢
    rw [List.any_cons, List.any_cons, ih]

theorem tagOpen_dropGlue (ts : List Token) : tagOpen (dropGlue ts) = tagOpen ts := by
  fun_induction dropGlue ts with
  | case1 => rfl
  | case2 => rfl
  | case3 rest ih => exact ih
  | case4 t rest hcommand _ ih =>
    cases t with
    | command c => exact absurd rfl (hcommand c)
    | _ => simp [tagOpen, ih]

theorem outTexts_dropGlue (ts : List Token) : outTexts (dropGlue ts) = outTexts ts := by
  fun_induction dropGlue ts with
  | case1 => rfl
  | case2 => rfl
  | case3 rest ih => exact ih
  | case4 t rest hcommand _ ih =>
    cases t with
    | command c => exact absurd rfl (hcommand c)
    | value v => cases v <;> simp [outTexts, tagOpen_dropGlue, ih]
    | _ => simp [outTexts, ih]

theorem shown_dropGlue (ts : List Token) : shown ⟨dropGlue ts⟩ = shown ⟨ts⟩ := by
  unfold shown
  cases hts : hasBegun ts with
  | false =>
    rw [outer_of_not_hasBegun hts, outer_of_not_hasBegun ((hasBegun_dropGlue ts).trans hts),
      outTexts_dropGlue]
  | true =>
    congr 1
    fun_induction dropGlue ts with
    | case1 => rfl
    | case2 => rfl
    | case3 rest ih =>
      have hrest : hasBegun rest = true := hts
      rw [ih hrest, outer, if_pos hrest]
    | case4 t rest hcommand _ ih =>
      have hrest : hasBegun rest = true := by
        have ht : t.isCommand .beginString = false := by
          cases t with
          | command c => exact absurd rfl (hcommand c)
          | _ => rfl
        simpa [hasBegun, ht] using hts
      rw [outer, outer, hasBegun_dropGlue, if_pos hrest, if_pos hrest, ih hrest]

/-- A text that is pushed is dropped, or becomes the newest token, where glue may have been
taken out of the others. -/
theorem pushText_cases (o : Output) (functionStart : Option Nat) (s : String) :
    (o.pushText functionStart s).1 = o ∨ ∃ rest, (o.pushText functionStart s).1 = ⟨.text s :: rest⟩ ∧
      hasBegun rest = hasBegun o.newest ∧ shown ⟨rest⟩ = o.shown := by
  have hplain : ∃ rest, o.add (.text s) = ⟨.text s :: rest⟩ ∧
      hasBegun rest = hasBegun o.newest ∧ shown ⟨rest⟩ = o.shown := ⟨o.newest, rfl, rfl, rfl⟩
  unfold pushText
  dsimp only
  split
  · split
    · exact .inl rfl
    · split
      · right
        split
        · exact ⟨dropGlue o.newest, rfl, hasBegun_dropGlue _, shown_dropGlue _⟩
        · exact hplain
      · exact .inr hplain
  · split
    · exact .inl rfl
    · exact .inr hplain

/-- Outside strings a text that is pushed is put out or dropped. -/
theorem put_pushText {o : Output} (h : o.inString = false) (functionStart : Option Nat)
    (s : String) : Put s o (o.pushText functionStart s).1 ∨ Kept o (o.pushText functionStart s).1 := by
  rcases pushText_cases o functionStart s with heq | ⟨rest, heq, hbegun, hshown⟩
  · refine .inr ?_
    rw [heq]
    exact Kept.refl o
  · exact .inl ⟨rest, by rw [heq], hbegun.trans h, hshown⟩

/-- Inside strings no text shown changes by a text that is pushed. -/
theorem pushText_of_inString {o : Output} (h : o.inString = true) (functionStart : Option Nat)
    (s : String) : (o.pushText functionStart s).1.inString = true ∧
      (o.pushText functionStart s).1.shown = o.shown := by
  rcases pushText_cases o functionStart s with heq | ⟨rest, heq, hbegun, hshown⟩
  · rw [heq]
    exact ⟨h, rfl⟩
  · have hrest : hasBegun rest = true := hbegun.trans h
    rw [heq]
    exact ⟨by simpa [inString, hasBegun, Token.isCommand, Token.text] using hrest,
      (shown_cons_of_hasBegun hrest).trans hshown⟩

/-! ## Ending strings and tags -/

theorem splitAtCommand_eq (c : Command) (ts : List Token) :
    (∃ t, t.isCommand c = true ∧
        ts = (splitAtCommand c ts).1 ++ t :: (splitAtCommand c ts).2) ∨
      (ts.any (Token.isCommand c) = false ∧ splitAtCommand c ts = (ts, [])) := by
  induction ts with
  | nil => exact .inr ⟨rfl, rfl⟩
  | cons t rest ih =>
    rw [splitAtCommand]
    split
    · next ht => exact .inl ⟨t, ht, rfl⟩
    · next ht =>
      rcases ih with ⟨u, hu, heq⟩ | ⟨hany, heq⟩
      · exact .inl ⟨u, hu, congrArg (t :: ·) heq⟩
      · refine .inr ⟨?_, by rw [heq]⟩
        simp only [List.any_cons, hany, Bool.or_false]
        simpa using ht

theorem hasBegun_append (a b : List Token) : hasBegun (a ++ b) = (hasBegun a || hasBegun b) :=
  List.any_append

theorem shown_append_of_hasBegun (a : List Token) {b : List Token} (h : hasBegun b = true) :
    shown ⟨a ++ b⟩ = shown ⟨b⟩ := by
  induction a with
  | nil => rfl
  | cons t rest ih =>
    have hrest : hasBegun (rest ++ b) = true := by rw [hasBegun_append, h, Bool.or_true]
    rw [List.cons_append, shown_cons_of_hasBegun hrest, ih]

theorem shown_append_of_no_text {a : List Token} (h : ∀ t ∈ a, t.text? = none) (b : List Token) :
    shown ⟨a ++ b⟩ = shown ⟨b⟩ := by
  induction a with
  | nil => rfl
  | cons t rest ih =>
    rw [List.cons_append, shown_cons (h t (by simp)), ih fun u hu => h u (by simp [hu])]

theorem hasBegun_cons_of_isCommand {t : Token} (h : t.isCommand .beginString = true)
    (ts : List Token) : hasBegun (t :: ts) = true := by
  unfold hasBegun
  rw [List.any_cons, h, Bool.true_or]

theorem shown_begin {t : Token} (h : t.isCommand .beginString = true) (ts : List Token) :
    shown ⟨t :: ts⟩ = shown ⟨ts⟩ := by
  refine shown_cons ?_ ts
  cases t <;> first | rfl | cases h

/-- Ending a string takes back what was put out in it, down to tokens of other kinds. -/
theorem kept_endString (o : Output) {kept : List Token}
    (htext : ∀ t ∈ kept, t.text? = none) (hbegin : hasBegun kept = false) :
    Kept o ⟨kept ++ (splitAtCommand .beginString o.newest).2⟩ := by
  rcases splitAtCommand_eq .beginString o.newest with ⟨t, ht, heq⟩ | ⟨-, heq⟩
  · refine .of_eq ?_
    rw [shown_append_of_no_text htext]
    show _ = shown ⟨o.newest⟩
    rw [heq, shown_append_of_hasBegun _ (hasBegun_cons_of_isCommand ht _), shown_begin ht, ← heq]
  · have hnil : shown ⟨kept ++ []⟩ = [] := shown_append_of_no_text htext []
    rw [heq]
    refine ⟨hnil ▸ List.nil_suffix, fun h => ?_⟩
    have hbegun : hasBegun (kept ++ []) = true := h
    rw [List.append_nil, hbegin] at hbegun
    cases hbegun

/-- What was put out in a tag inside a string may be taken back. -/
theorem kept_endTag {o : Output} (h : o.inString = true)
    (hbehind : hasBegun (splitAtCommand .beginTag o.newest).1 = false) :
    Kept o ⟨(splitAtCommand .beginTag o.newest).2⟩ := by
  have hall : hasBegun o.newest = true := h
  rcases splitAtCommand_eq .beginTag o.newest with ⟨t, ht, heq⟩ | ⟨-, heq⟩
  · have hother : t.isCommand .beginString = false := by
      cases t with
      | command d =>
        have hd : d = .beginTag := by simpa only [Token.isCommand, beq_iff_eq] using ht
        rw [hd]
        rfl
      | _ => rfl
    generalize splitAtCommand .beginTag o.newest = split at *
    have hfront : hasBegun split.2 = true := by
      rw [heq, hasBegun_append, hbehind, Bool.false_or] at hall
      simpa [hasBegun, hother] using hall
    refine .of_eq ?_
    show _ = shown ⟨o.newest⟩
    rw [heq, List.append_cons, shown_append_of_hasBegun _ hfront]
  · rw [heq, hall] at hbehind
    cases hbehind

end Output

end StoryMachine
