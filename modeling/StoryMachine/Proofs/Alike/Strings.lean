import StoryMachine.Proofs.Alike.Calls
import StoryMachine.Proofs.Borders

/-!
# Stories that build the same string

Outside strings what has been put out decides nothing but the texts of lines: it does not come back
into the state. In a string it does, when the string ends. What is put out there depends on what has
been put out since the string began, and on where running functions began their texts; what stands
in front of the string counts for one thing only, whether a line end with which the string begins is
dropped.

* `Likeness.loose`, `Likeness.behind` : the marks that count as alike outside strings and in them;
* `OutsideStrings`, `SameString` : the shapes of states outside strings, and of those that build the
  same string behind different outputs;
* `State.LineEndsSettled` : what stands in front of the string does not count;
* `State.Alike.emit_outside`, `State.Alike.emit_string` : what is put out outside strings, and in the
  same one.
-/

open List (Forall₂)

namespace StoryMachine

/-- Marks are alike if both are there or both are gone. -/
def Likeness.loose : Likeness where
  mark a b := a.isSome = b.isSome
  mark_none := rfl
  exit _ _ := True
  exit_refl _ := trivial

/-- In a string that begins behind `n` tokens in one state, and behind `m` in the other: the marks
lie in front of it, or at the same place in it. -/
def Likeness.behind (n m : Nat) : Likeness where
  mark a b := a.isSome = b.isSome ∧
    (a.getD 0 ≤ n ∧ b.getD 0 ≤ m ∨ ∃ k, a = some (n + 1 + k) ∧ b = some (m + 1 + k))
  mark_none := ⟨rfl, .inl ⟨Nat.zero_le _, Nat.zero_le _⟩⟩
  exit _ _ := True
  exit_refl _ := trivial

/-- Shapes outside strings. -/
def OutsideStrings (a b : Shape) : Prop :=
  a.output.inString = false ∧ b.output.inString = false

/-- The tokens of two outputs are the same from the beginning of a string on, which stands behind
`front` in one of them and behind `front'` in the other. -/
structure Output.SameString (front front' : List Token) (o o' : Output) : Prop where
  outside : hasBegun front = false
  outside' : hasBegun front' = false
  own : ∃ own, o.newest = own ++ .command .beginString :: front ∧
    o'.newest = own ++ .command .beginString :: front'

/-- Shapes that build the same string. -/
def SameString (front front' : List Token) (a b : Shape) : Prop :=
  a.output.SameString front front' b.output

theorem SameString.inString {front front' : List Token} {a b : Shape}
    (h : SameString front front' a b) : a.output.inString = true ∧ b.output.inString = true := by
  obtain ⟨-, -, own, ha, hb⟩ := h
  unfold Output.inString
  rw [ha, hb, List.any_append, List.any_append, List.any_cons, List.any_cons]
  exact ⟨Bool.or_true _, Bool.or_true _⟩

/-! ## Texts in a string -/

namespace Output

variable {front front' own : List Token} {m m' : Option Nat} {o o' : Output}

/-- Whether a text has been put out in a string. -/
def textInString : List Token → Bool
  | [] => false
  | t :: rest => t.text?.isSome && hasBegun rest || textInString rest

theorem textInString_of_not_hasBegun {ts : List Token} (h : hasBegun ts = false) :
    textInString ts = false := by
  induction ts with
  | nil => rfl
  | cons t rest ih =>
    have hrest : hasBegun rest = false := (Bool.or_eq_false_iff.mp h).2
    rw [textInString, ih hrest, hrest, Bool.and_false, Bool.false_or]

theorem hasBegun_behind (own front : List Token) :
    hasBegun (own ++ .command .beginString :: front) = true := by
  rw [hasBegun_append]
  exact Bool.or_true _

theorem textInString_behind (h : hasBegun front = false) (own : List Token) :
    textInString (own ++ .command .beginString :: front) = own.any fun t => t.text?.isSome := by
  induction own with
  | nil =>
    show (false && hasBegun front || textInString front) = false
    rw [textInString_of_not_hasBegun h, Bool.false_and, Bool.false_or]
  | cons t rest ih =>
    rw [List.cons_append, textInString, ih, hasBegun_behind, Bool.and_true, List.any_cons]

/-- What trims a text in a string does not depend on what stands in front of the string. -/
theorem trimming_behind (h : (Likeness.behind front.length front'.length).mark m m')
    (own : List Token) : trimming m (own ++ .command .beginString :: front) =
      trimming m' (own ++ .command .beginString :: front') := by
  obtain ⟨hsome, hplace⟩ := h
  -- A string that begins in the string, or the string itself, is begun behind the same functions.
  have hbegin (own : List Token) :
      trimming m (.command .beginString :: (own ++ front)) =
        trimming m' (.command .beginString :: (own ++ front')) := by
    cases m with
    | none =>
      cases m' with
      | none => rfl
      | some start' => cases hsome
    | some start =>
      cases m' with
      | none => cases hsome
      | some start' =>
        have hiff : (own ++ front).length < start ↔ (own ++ front').length < start' := by
          rw [List.length_append, List.length_append]
          rcases hplace with ⟨hstart, hstart'⟩ | ⟨k, hstart, hstart'⟩
          · rw [Option.getD_some] at hstart hstart'
            omega
          · cases hstart
            cases hstart'
            omega
        unfold trimming
        exact congrArg (Trimming.mk false) (decide_eq_decide.mpr hiff)
  induction own with
  | nil => exact hbegin []
  | cons t rest ih =>
    have hrest := hbegin (rest ++ [.command .beginString])
    rw [List.append_assoc, List.append_assoc] at hrest
    cases t with
    | command c =>
      cases c with
      | beginString => exact hrest
      | _ => exact ih
    | glue =>
      show Trimming.mk true _ = Trimming.mk true _
      rw [hsome]
    | _ => exact ih

/-- OutsideStrings strings a text is trimmed where a function's text begins. -/
theorem trimming_function {ts : List Token} (h : hasBegun ts = false) (m : Option Nat) :
    (trimming m ts).function = m.isSome := by
  induction ts with
  | nil => rfl
  | cons t rest ih =>
    obtain ⟨ht, hrest⟩ := Bool.or_eq_false_iff.mp h
    unfold trimming
    split
    · rfl
    · rfl
    · next heq =>
      cases heq
      cases ht
    · next heq =>
      cases heq
      exact ih hrest

/-- Text that can be seen ends the trimming at the start of a function's text. -/
theorem pushText_snd (o : Output) (m : Option Nat) (part : String) :
    (o.pushText m part).2 = (isVisible part && (trimming m o.newest).function) := by
  have hline : isLineEnd part = true → isVisible part = false := fun h => by
    rw [isVisible, h]
    rfl
  unfold pushText
  dsimp only
  cases hfunction : (trimming m o.newest).function with
  | true =>
    rw [Bool.or_true, if_pos rfl, Bool.and_true]
    by_cases hend : isLineEnd part = true
    · rw [if_pos hend, hline hend]
    · rw [if_neg hend]
      split
      · next hvisible => exact hvisible.symm
      · next hvisible => exact (Bool.eq_false_iff.mpr hvisible).symm
  | false =>
    rw [Bool.and_false]
    split
    · split
      · rfl
      · split
        · rfl
        · rfl
    · split
      · rfl
      · rfl

/-- Whether what stands in front of the string does not count for a line end: it is trimmed, or
there is a text in the string. -/
def lineEndsSettled (o : Output) (m : Option Nat) : Bool :=
  (trimming m o.newest).glue || (trimming m o.newest).function || textInString o.newest

/-- A text that is pushed in the same string. -/
theorem exists_pushText_behind (hfront : hasBegun front = false)
    (hm : (Likeness.behind front.length front'.length).mark m m') (own : List Token) {part : String}
    (hpart : isLineEnd part = true →
      lineEndsSettled ⟨own ++ .command .beginString :: front⟩ m = true) :
    ∃ own', (pushText ⟨own ++ .command .beginString :: front⟩ m part).1 =
        ⟨own' ++ .command .beginString :: front⟩ ∧
      (pushText ⟨own ++ .command .beginString :: front'⟩ m' part).1 =
        ⟨own' ++ .command .beginString :: front'⟩ ∧
      (own' = own ∧ isLineEnd part = true ∨ (own'.any fun t => t.text?.isSome) = true) := by
  have htrim := trimming_behind hm own
  have hends (front : List Token) :
      endsInLineEnd ⟨own ++ .command .beginString :: front⟩ = endsLine own :=
    endsLine_append _ _ _
  unfold pushText
  dsimp only
  rw [← htrim, hends, hends]
  generalize htrimming : trimming m (own ++ .command .beginString :: front) = trim
  cases htrims : trim.glue || trim.function with
  | true =>
    rw [if_pos rfl, if_pos rfl]
    by_cases hline : isLineEnd part = true
    · rw [if_pos hline, if_pos hline]
      exact ⟨own, rfl, rfl, .inl ⟨rfl, hline⟩⟩
    · rw [if_neg hline, if_neg hline]
      split
      · split
        · rw [dropGlue_append, dropGlue_append]
          exact ⟨.text part :: dropGlue own, rfl, rfl, .inr rfl⟩
        · exact ⟨.text part :: own, rfl, rfl, .inr rfl⟩
      · exact ⟨.text part :: own, rfl, rfl, .inr rfl⟩
  | false =>
    rw [if_neg Bool.false_ne_true, if_neg Bool.false_ne_true]
    by_cases hline : isLineEnd part = true
    · -- The line end is not trimmed, so there is a text in the string.
      have hsettled := hpart hline
      unfold lineEndsSettled at hsettled
      dsimp only at hsettled
      rw [htrimming, htrims, Bool.false_or, textInString_behind hfront] at hsettled
      have htext (front : List Token) :
          hasText ⟨own ++ .command .beginString :: front⟩ = true := by
        show (own ++ .command .beginString :: front).any _ = true
        rw [List.any_append, hsettled]
        rfl
      rw [htext, htext, hline]
      split
      · exact ⟨own, rfl, rfl, .inl ⟨rfl, rfl⟩⟩
      · exact ⟨.text part :: own, rfl, rfl, .inr rfl⟩
    · rw [Bool.not_eq_true] at hline
      rw [hline]
      exact ⟨.text part :: own, rfl, rfl, .inr rfl⟩

end Output

/-! ## Putting out -/

namespace State

variable {K : Likeness} {s u : State} {front front' : List Token}

theorem Alike.functionStart (h : s.Alike K u) : K.mark s.functionStart u.functionStart := by
  unfold State.functionStart
  rw [← h.callStack.top.kind]
  split
  · next hkind => exact h.callStack.top.mark hkind
  · exact K.mark_none

/-- Texts that are put out are marked in both states, or in none. -/
theorem Alike.emitText_of_snd (h : s.Alike K u) {part : String}
    (hsnd : (s.output.pushText s.functionStart part).2 =
      (u.output.pushText u.functionStart part).2) :
    (s.emitText part).Alike K (u.emitText part) := by
  have hput (output output' : Output) :
      State.Alike K { s with output := output } { u with output := output' } := { h with }
  unfold State.emitText
  dsimp only
  rw [hsnd]
  split
  · exact (hput _ _).markText
  · exact hput _ _

/-- Whatever stands in front of a string, a line end put out in it comes to the same. -/
def LineEndsSettled (s : State) : Prop :=
  s.output.lineEndsSettled s.functionStart = true

/-- A text that is put out in a string comes to the same whatever stands in front of the string:
it does not begin with a line end, or line ends come to the same. -/
def StandsAlone (s : State) (text : String) : Prop :=
  ∀ part ∈ (Text.parts text).head?, isLineEnd part = true → s.LineEndsSettled

theorem Alike.emitText_string (h : s.Alike (.behind front.length front'.length) u)
    (hshapes : SameString front front' s.shape u.shape) {part : String}
    (hpart : isLineEnd part = true → s.LineEndsSettled) :
    (s.emitText part).Alike (.behind front.length front'.length) (u.emitText part) ∧
      SameString front front' (s.emitText part).shape (u.emitText part).shape ∧
      (s.emitText part).LineEndsSettled := by
  obtain ⟨hfront, hfront', own, hnewest, hnewest'⟩ := hshapes
  have hs : s.output = ⟨own ++ .command .beginString :: front⟩ := congrArg Output.mk hnewest
  have hu : u.output = ⟨own ++ .command .beginString :: front'⟩ := congrArg Output.mk hnewest'
  have hsnd : (s.output.pushText s.functionStart part).2 =
      (u.output.pushText u.functionStart part).2 := by
    rw [Output.pushText_snd, Output.pushText_snd, hs, hu, Output.trimming_behind h.functionStart]
  obtain ⟨own', hpush, hpush', hown⟩ := Output.exists_pushText_behind hfront h.functionStart own
    (show isLineEnd part = true → _ from fun hline => hs ▸ hpart hline)
  have hshape : SameString front front' (s.emitText part).shape (u.emitText part).shape := by
    refine ⟨hfront, hfront', own', ?_, ?_⟩
    · show (s.emitText part).output.newest = _
      rw [output_emitText, hs, hpush]
    · show (u.emitText part).output.newest = _
      rw [output_emitText, hu, hpush']
  refine ⟨h.emitText_of_snd hsnd, hshape, ?_⟩
  rcases hown with ⟨rfl, hline⟩ | htext
  · have hsame : s.emitText part = s := by
      unfold State.emitText
      dsimp only
      rw [Output.pushText_snd, isVisible, hline, if_neg (by simp), hs, hpush]
      exact congrArg (fun output => { s with output := output }) hs.symm
    rw [hsame]
    exact hpart hline
  · unfold LineEndsSettled Output.lineEndsSettled
    rw [output_emitText, hs, hpush]
    dsimp only
    rw [Output.textInString_behind hfront, htext, Bool.or_true]

/-- What is put out in the same string comes to the same. -/
theorem Alike.emit_string (h : s.Alike (.behind front.length front'.length) u)
    (hshapes : SameString front front' s.shape u.shape) {token : Token}
    (halone : ∀ text, token = .text text → s.StandsAlone text) :
    (s.emit token).Alike (.behind front.length front'.length) (u.emit token) ∧
      SameString front front' (s.emit token).shape (u.emit token).shape := by
  by_cases htext : ∃ text, token = .text text
  · obtain ⟨text, rfl⟩ := htext
    have hfirst := halone text rfl
    rw [emit_text, emit_text]
    unfold StandsAlone at hfirst
    clear halone
    generalize Text.parts text = parts at hfirst
    induction parts generalizing s u with
    | nil => exact ⟨h, hshapes⟩
    | cons part rest ih =>
      obtain ⟨hpart, hbuilding, hsettled⟩ := h.emitText_string hshapes (hfirst part rfl)
      exact ih hpart hbuilding fun _ _ _ => hsettled
  · obtain ⟨hfront, hfront', own, hnewest, hnewest'⟩ := hshapes
    have hs : s.output = ⟨own ++ .command .beginString :: front⟩ := congrArg Output.mk hnewest
    have hu : u.output = ⟨own ++ .command .beginString :: front'⟩ := congrArg Output.mk hnewest'
    unfold State.emit
    split
    · exact absurd ⟨_, rfl⟩ htext
    · refine ⟨{ h with }, hfront, hfront', .glue :: Output.dropLineEnds own, ?_, ?_⟩
      · show (s.output.pushGlue).newest = _
        rw [hs, Output.pushGlue, Output.dropLineEnds_append]
        rfl
      · show (u.output.pushGlue).newest = _
        rw [hu, Output.pushGlue, Output.dropLineEnds_append]
        rfl
    · exact ⟨{ h with }, hfront, hfront', token :: own, congrArg (token :: ·) hnewest,
        congrArg (token :: ·) hnewest'⟩

/-- OutsideStrings strings all running functions are marked together. -/
theorem Alike.emit_outside (h : s.Alike .loose u) (hshapes : OutsideStrings s.shape u.shape)
    {token : Token} (htoken : token ≠ .command .beginString) :
    (s.emit token).Alike .loose (u.emit token) ∧
      OutsideStrings (s.emit token).shape (u.emit token).shape := by
  by_cases htext : ∃ text, token = .text text
  · obtain ⟨text, rfl⟩ := htext
    rw [emit_text, emit_text]
    generalize Text.parts text = parts
    induction parts generalizing s u with
    | nil => exact ⟨h, hshapes⟩
    | cons part rest ih =>
      have hs : s.output.inString = false := hshapes.1
      have hu : u.output.inString = false := hshapes.2
      refine ih (h.emitText_of_snd ?_) ⟨?_, ?_⟩
      · rw [Output.pushText_snd, Output.pushText_snd, Output.trimming_function hs,
          Output.trimming_function hu, show _ = _ from h.functionStart]
      · show (s.emitText part).output.inString = false
        rw [output_emitText]
        exact Output.not_inString_pushText hs _ _
      · show (u.emitText part).output.inString = false
        rw [output_emitText]
        exact Output.not_inString_pushText hu _ _
  · have hadd {o : Output} (ho : o.inString = false) : (o.add token).inString = false := by
      have hcommand : token.isCommand .beginString = false := by
        cases token with
        | command c => exact beq_eq_false_iff_ne.mpr fun hc => htoken (congrArg Token.command hc)
        | _ => rfl
      exact Bool.or_eq_false_iff.mpr ⟨hcommand, ho⟩
    have hglue {o : Output} (ho : o.inString = false) : o.pushGlue.inString = false :=
      (Output.trimmed_dropLineEnds o.newest).hasBegun_eq.trans ho
    unfold State.emit
    split
    · exact absurd ⟨_, rfl⟩ htext
    · exact ⟨{ h with }, hglue hshapes.1, hglue hshapes.2⟩
    · exact ⟨{ h with }, hadd hshapes.1, hadd hshapes.2⟩

end State

/-! ## Frames and threads -/

theorem Output.exists_trimFrom_behind {front front' : List Token} {m m' : Option Nat}
    (h : (Likeness.behind front.length front'.length).mark m m') (own : List Token) :
    ∃ own', trimFrom ⟨own ++ .command .beginString :: front⟩ (m.getD 0) =
        ⟨own' ++ .command .beginString :: front⟩ ∧
      trimFrom ⟨own ++ .command .beginString :: front'⟩ (m'.getD 0) =
        ⟨own' ++ .command .beginString :: front'⟩ := by
  have hlength (front : List Token) :
      (own ++ .command .beginString :: front).length = own.length + 1 + front.length := by
    rw [List.length_append, List.length_cons]
    omega
  have hcounts : dropSpacing (own.length + 1 + front.length - m.getD 0) own =
      dropSpacing (own.length + 1 + front'.length - m'.getD 0) own := by
    rcases h.2 with ⟨hm, hm'⟩ | ⟨k, rfl, rfl⟩
    · exact dropSpacing_of_length_le (by omega) (by omega)
    · rw [Option.getD_some, Option.getD_some]
      exact congrArg (dropSpacing · own) (by omega)
  refine ⟨dropSpacing (own.length + 1 + front.length - m.getD 0) own, ?_, ?_⟩
  · rw [trimFrom, hlength, dropSpacing_append (.inr (.inr rfl))]
  · rw [trimFrom, hlength, dropSpacing_append (.inr (.inr rfl)), hcounts]

theorem stable_outside : Stable .loose OutsideStrings where
  mark _ := rfl
  push _ _ h := h
  pop _ h hpop hpop' := by
    have hsame {s s' : State} (hpop : s.popFrame = .ok s') :
        s'.output.inString = s.output.inString := by
      rw [State.output_popFrame hpop]
      split
      · exact (Output.trimmed_trimFrom _ _).hasBegun_eq
      · rfl
    exact ⟨(hsame hpop).trans h.1, (hsame hpop').trans h.2⟩
  startThread _ h := h
  endThread _ h _ _ := h
  resume _ _ h := h
  finish _ h := h

theorem stable_string (front front' : List Token) :
    Stable (.behind front.length front'.length) (SameString front front') where
  mark h := by
    obtain ⟨-, -, own, hs, hu⟩ := h
    refine ⟨rfl, .inr ⟨own.length, congrArg some ?_, congrArg some ?_⟩⟩
    · exact (congrArg List.length hs).trans (by rw [List.length_append, List.length_cons]; omega)
    · exact (congrArg List.length hu).trans (by rw [List.length_append, List.length_cons]; omega)
  push _ _ h := h
  pop {s u s' u'} hsu h hpop hpop' := by
    obtain ⟨hfront, hfront', own, hs, hu⟩ := h
    have hs : s.output = ⟨own ++ .command .beginString :: front⟩ := congrArg Output.mk hs
    have hu : u.output = ⟨own ++ .command .beginString :: front'⟩ := congrArg Output.mk hu
    have hs' := State.output_popFrame hpop
    have hu' := State.output_popFrame hpop'
    rw [hs] at hs'
    rw [hu, ← hsu.callStack.top.kind] at hu'
    split at hs'
    · next hkind =>
      rw [if_pos hkind] at hu'
      obtain ⟨own', htrim, htrim'⟩ :=
        Output.exists_trimFrom_behind (hsu.callStack.top.mark hkind) own
      exact ⟨hfront, hfront', own', congrArg Output.newest (hs'.trans htrim),
        congrArg Output.newest (hu'.trans htrim')⟩
    · next hkind =>
      rw [if_neg hkind] at hu'
      exact ⟨hfront, hfront', own, congrArg Output.newest hs', congrArg Output.newest hu'⟩
  startThread _ h := h
  endThread _ h _ _ := h
  resume _ _ h := h
  finish _ h := h

end StoryMachine
