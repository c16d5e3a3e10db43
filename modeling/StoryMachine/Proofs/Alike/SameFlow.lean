import StoryMachine.Proofs.Alike.Strings
import StoryMachine.Proofs.Growth
import StoryMachine.Proofs.Story.Grounded

/-!
# The same flow behind different outputs

Two stories are in the same flow if their states are alike and they are both outside strings, or
build the same string. What stands in the output otherwise, and where the host looks ahead, does not
count: if no function of the host is called and the strings of content are whole, a step leads from
stories in the same flow to such stories again.

* `Story.SameFlow` : stories in the same flow;
* `State.MarksReached` : no running function is marked to begin behind the end of the output;
* `Story.Neat` : the next step does not depend on what has been put out outside strings;
* `Story.SameFlow.plainStep` : a step of stories in the same flow.
-/

open List (Forall₂)

namespace StoryMachine

/-! ## Other marks -/

theorem forall₂_imp_of_mem {α β : Type} {R S : α → β → Prop} {l : List α} {m : List β}
    (h : Forall₂ R l m) (hf : ∀ a ∈ l, ∀ b ∈ m, R a b → S a b) : Forall₂ S l m := by
  induction h with
  | nil => exact .nil
  | cons hab _ ih =>
    exact .cons (hf _ List.mem_cons_self _ List.mem_cons_self hab) (ih fun a ha b hb =>
      hf a (List.mem_cons_of_mem _ ha) b (List.mem_cons_of_mem _ hb))

/-- What holds of the marks of all frames of functions of a thread. -/
def Thread.Marks (P : Option Nat → Prop) (t : Thread) : Prop :=
  ∀ f ∈ t.top :: t.below, f.kind = .function → P f.outputStart

/-- What holds of the marks of all frames of functions, of the threads that the choices keep,
too. -/
def State.Marks (P : Option Nat → Prop) (s : State) : Prop :=
  ∀ t ∈ s.everyThread, t.Marks P

section Refine

variable {K L : Likeness} {P Q : Option Nat → Prop}

theorem Frame.Alike.refine {f g : Frame} (h : f.Alike K g)
    (hf : f.kind = .function → P f.outputStart) (hg : g.kind = .function → Q g.outputStart)
    (hmark : ∀ a b, K.mark a b → P a → Q b → L.mark a b) : f.Alike L g :=
  { h with mark := fun hkind => hmark _ _ (h.mark hkind) (hf hkind) (hg (h.kind ▸ hkind)) }

theorem Thread.Alike.refine {s u : Thread} (h : s.Alike K u) (hs : s.Marks P) (hu : u.Marks Q)
    (hmark : ∀ a b, K.mark a b → P a → Q b → L.mark a b) : s.Alike L u where
  top := h.top.refine (hs _ List.mem_cons_self) (hu _ List.mem_cons_self) hmark
  below := forall₂_imp_of_mem h.below fun f hf g hg hfg =>
    hfg.refine (hs f (List.mem_cons_of_mem _ hf)) (hu g (List.mem_cons_of_mem _ hg)) hmark
  previous := h.previous

/-- States whose marks are alike in another way, too. -/
theorem State.Alike.refine {s u : State} (h : s.Alike K u) (hs : s.Marks P) (hu : u.Marks Q)
    (hmark : ∀ a b, K.mark a b → P a → Q b → L.mark a b)
    (hexit : ∀ a b, K.exit a b → L.exit a b) : s.Alike L u :=
  { h with
    callStack := ⟨h.callStack.current.refine (hs _ s.current_mem_everyThread)
        (hu _ u.current_mem_everyThread) hmark,
      forall₂_imp_of_mem h.callStack.others fun _ ht _ ht' halike => halike.refine
        (hs _ (mem_everyThread_of_others ht)) (hu _ (mem_everyThread_of_others ht')) hmark⟩
    choices := forall₂_imp_of_mem h.choices fun _ ho _ ho' halike => ⟨halike.offer,
      halike.thread.refine (hs _ (mem_everyThread_of_choice ho))
        (hu _ (mem_everyThread_of_choice ho')) hmark⟩
    safeExit := hexit _ _ h.safeExit }

/-- Marks in a string are there in both states, or gone in both. -/
theorem State.Alike.loosen {n m : Nat} {s u : State} (h : s.Alike (.behind n m) u) :
    s.Alike .loose u :=
  h.refine (P := fun _ => True) (Q := fun _ => True) (fun _ _ _ _ _ => trivial)
    (fun _ _ _ _ _ => trivial) (fun _ _ hab _ _ => hab.1) fun _ _ _ => trivial

end Refine

/-- No running function is marked to begin its text behind the end of the output. -/
def State.MarksReached (s : State) : Prop :=
  s.Marks fun mark => mark.getD 0 ≤ s.output.length

/-- At the beginning of a string that stands at the end of both outputs, marks lie in front of
it. -/
theorem State.Alike.behind {s u : State} (h : s.Alike .loose u) (hs : s.MarksReached)
    (hu : u.MarksReached) : s.Alike (.behind s.output.length u.output.length) u :=
  h.refine hs hu (fun _ _ hab ha hb => ⟨hab, .inl ⟨ha, hb⟩⟩) fun _ _ _ => trivial

/-! ## Stories in the same flow -/

/-- The host has attached the same to both stories as to the story `base`, and they do not wait for
it. -/
structure SameHost (base s u : Story) : Prop where
  bindings : s.bindings = base.bindings
  bindings' : u.bindings = base.bindings
  fallbacks : s.fallbacks = base.fallbacks
  fallbacks' : u.fallbacks = base.fallbacks
  free : s.pending = none
  free' : u.pending = none

/-- Stories outside strings, with the content of the story `base` and what the host has attached to
it. -/
abbrev Story.BothOutside (base : Story) : Story → Story → Prop :=
  Paired base.content .loose (SameHost base) OutsideStrings

/-- Stories that build the same string, behind `front` and behind `front'`. -/
abbrev Story.BothIn (base : Story) (front front' : List Token) : Story → Story → Prop :=
  Paired base.content (.behind front.length front'.length) (SameHost base) (SameString front front')

/-- Stories in the same flow, outside strings or in the same one. -/
inductive Story.SameFlow (base s u : Story) : Prop
  | outside (h : base.BothOutside s u) : SameFlow base s u
  | string {front front' : List Token} (h : base.BothIn front front' s u) : SameFlow base s u

variable {base s u : Story}

namespace Story.SameFlow

theorem left (h : base.SameFlow s u) : s.content = base.content := by
  cases h with
  | outside h => exact h.left
  | string h => exact h.left

theorem others (h : base.SameFlow s u) : SameHost base s u := by
  cases h with
  | outside h => exact { h.others with }
  | string h => exact { h.others with }

/-- The states are alike, up to where running functions began their texts. -/
theorem alike (h : base.SameFlow s u) : s.state.Alike .loose u.state := by
  cases h with
  | outside h => exact h.state
  | string h => exact h.state.loosen

theorem inString_eq (h : base.SameFlow s u) :
    s.state.output.inString = u.state.output.inString := by
  cases h with
  | outside h => exact h.shapes.1.trans h.shapes.2.symm
  | string h => exact h.shapes.inString.1.trans h.shapes.inString.2.symm

/-- Outside strings. -/
theorem outside_of (h : base.SameFlow s u) (hs : s.state.output.inString = false) :
    base.BothOutside s u := by
  cases h with
  | outside h => exact h
  | string h => exact absurd (h.shapes.inString.1.symm.trans hs) nofun

end Story.SameFlow

theorem Outcome.sameFlow {α : Type} {K : Likeness} {ρ : Shape → Shape → Prop}
    {x y : EStateM.Result StoryError Story α}
    (h : Outcome (Story.Paired base.content K (SameHost base) ρ)
      (Story.Paired base.content K (SameHost base) ρ) x y)
    (hflow : ∀ s u : Story, s.Paired base.content K (SameHost base) ρ u → base.SameFlow s u) :
    Outcome (Story.SameFlow base) (Story.SameFlow base) x y := by
  cases h with
  | ok h => exact .ok (hflow _ _ h)
  | error h => exact .error (hflow _ _ h)

/-- What is blind outside strings and in them leads to the same flow. -/
theorem Story.SameFlow.outcome {α : Type} {x : Flow α} (h : base.SameFlow s u)
    (hout : Flow.Blind base.content .loose (SameHost base) OutsideStrings x)
    (hin : ∀ front front' : List Token, Flow.Blind base.content
      (.behind front.length front'.length) (SameHost base) (SameString front front') x) :
    Outcome (Story.SameFlow base) (Story.SameFlow base) (x s) (x u) := by
  cases h with
  | outside h => exact (hout h).sameFlow fun _ _ => .outside
  | string h => exact (hin _ _ h).sameFlow fun _ _ => .string

section Steps

open StoryMachine.Flow Story

variable {front front' : List Token}

/-! ## Putting out -/

theorem Flow.blind_emit_outside {token : Token} (htoken : token ≠ .command .beginString) :
    Blind base.content .loose (SameHost base) OutsideStrings (emit token) := by
  intro s u hp
  obtain ⟨hstate, hshapes⟩ := hp.state.emit_outside hp.shapes htoken
  exact .ok ⟨hp.left, hp.right, hstate, hshapes, hp.others⟩

theorem Flow.outcome_emit_string {token : Token}
    (hp : base.BothIn front front' s u)
    (halone : ∀ text, token = .text text → s.state.StandsAlone text) :
    Outcome (base.BothIn front front')
      (base.BothIn front front')
      (emit token s) (emit token u) := by
  obtain ⟨hstate, hshapes⟩ := hp.state.emit_string hp.shapes halone
  exact .ok ⟨hp.left, hp.right, hstate, hshapes, hp.others⟩

theorem Flow.blind_emit_string {token : Token} (htoken : token.text? = none) :
    Blind base.content (.behind front.length front'.length) (SameHost base)
      (SameString front front') (emit token) := by
  refine fun _ _ hp => outcome_emit_string hp fun text htext => ?_
  subst htext
  cases htoken

/-- A text, or another token, that is put out in stories in the same flow. -/
theorem Story.SameFlow.emit {token : Token} (h : base.SameFlow s u)
    (htoken : token ≠ .command .beginString)
    (halone : s.state.output.inString = true → ∀ text, token = .text text →
      s.state.StandsAlone text) :
    Outcome (SameFlow base) (SameFlow base) (emit token s) (emit token u) := by
  cases h with
  | outside h => exact (blind_emit_outside htoken h).sameFlow fun _ _ => .outside
  | string h =>
    exact (outcome_emit_string h (halone h.shapes.inString.1)).sameFlow fun _ _ => .string

/-! ## Strings and tags -/

/-- Where a string begins outside strings, running functions have begun their texts in front of
it. -/
theorem Story.SameFlow.beginString (h : base.SameFlow s u)
    (hmarks : s.state.output.inString = false → s.state.MarksReached ∧ u.state.MarksReached) :
    Outcome (SameFlow base) (SameFlow base) (beginString s) (beginString u) := by
  have hrest (front front' : List Token) : Blind base.content
      (.behind front.length front'.length) (SameHost base) (SameString front front') (do
        if !(← Flow.state).inExpression then throw (.flow .stringOutsideExpression)
        modifyState fun s => s.setInExpression false) := by
    refine together_state_bind fun s u h => ?_
    rw [h.inExpression_eq]
    exact blind_unless _ (blind_setInExpression false)
  have hnested {front front' : List Token} {s u : Story}
      (h : base.BothIn front front' s u) :
      Outcome (SameFlow base) (SameFlow base) (Flow.beginString s) (Flow.beginString u) :=
    ((blind_bind (blind_emit_string rfl) fun _ => hrest front front') h).sameFlow fun _ _ => .string
  cases h with
  | string h => exact hnested h
  | outside h =>
    obtain ⟨hs, hu⟩ := hmarks h.shapes.1
    have hbegun : base.BothIn s.state.output.newest u.state.output.newest
        { s with state := s.state.emit (.command .beginString) }
        { u with state := u.state.emit (.command .beginString) } :=
      ⟨h.left, h.right, { h.state.behind hs hu with }, ⟨h.shapes.1, h.shapes.2, [], rfl, rfl⟩,
        h.others⟩
    exact (hrest _ _ hbegun).sameFlow fun _ _ => .string

/-- The state in which a string has ended, with the output `output`. -/
def State.stringEnded (s : State) (output : Output) (text : String) : State :=
  ({ s with output := output }.setInExpression true).push (.text text)

/-- At the end of a string its text goes on the evaluation stack. -/
theorem Flow.endString_eq {behind front : List Token}
    (h : Output.splitAtCommand .beginString s.state.output.newest = (behind, front)) :
    endString s = .ok () { s with
      state := s.state.stringEnded ⟨behind.filterMap tagToken? ++ front⟩
        (Output.joined behind) } := by
  show EStateM.Result.ok () _ = _
  dsimp only
  rw [h]
  rfl

/-- A string that ends leaves the same text behind. -/
theorem Story.SameFlow.endString (h : base.SameFlow s u) (hin : s.state.output.inString = true) :
    Outcome (SameFlow base) (SameFlow base) (endString s) (endString u) := by
  cases h with
  | outside h => exact absurd (h.shapes.1.symm.trans hin) nofun
  | @string front front' h =>
    obtain ⟨hfront, hfront', own, hs, hu⟩ := h.shapes
    have hs : s.state.output.newest = own ++ .command .beginString :: front := hs
    have hu : u.state.output.newest = own ++ .command .beginString :: front' := hu
    have hended {K : Likeness} (h : s.state.Alike K u.state) (output output' : Output)
        (text : String) :
        (s.state.stringEnded output text).Alike K (u.state.stringEnded output' text) := by
      have hkept : State.Alike K { s.state with output := output }
          { u.state with output := output' } := { h with }
      exact (hkept.setInExpression true).push _
    have hsplit (front : List Token) :=
      Output.splitAtCommand_append .beginString own (.command .beginString :: front)
    cases hnested : own.any (Token.isCommand .beginString) with
    | true =>
      -- The string ends that has begun last in the string.
      simp only [hnested, if_true] at hsplit
      rw [endString_eq ((congrArg _ hs).trans (hsplit front)),
        endString_eq ((congrArg _ hu).trans (hsplit front'))]
      have hown (front : List Token) := List.append_assoc
        ((Output.splitAtCommand .beginString own).1.filterMap tagToken?)
        (Output.splitAtCommand .beginString own).2 (.command .beginString :: front)
      exact .ok (.string ⟨h.left, h.right, hended h.state _ _ _,
        ⟨hfront, hfront', _, (hown front).symm, (hown front').symm⟩, h.others⟩)
    | false =>
      simp only [hnested, Bool.false_eq_true, if_false] at hsplit
      rw [endString_eq ((congrArg _ hs).trans (hsplit front)),
        endString_eq ((congrArg _ hu).trans (hsplit front'))]
      have htags (front : List Token) (hfront : Output.hasBegun front = false) :
          Output.hasBegun ((own ++ []).filterMap tagToken? ++ front) = false := by
        rw [Output.hasBegun_append, hfront, Bool.or_false]
        refine List.any_eq_false.mpr fun t ht => ?_
        obtain ⟨text, rfl⟩ := Output.tag_of_mem_filterMap ht
        exact Bool.false_ne_true
      exact .ok (.outside ⟨h.left, h.right, hended h.state.loosen _ _ _,
        ⟨htags front hfront, htags front' hfront'⟩, h.others⟩)

/-- At the end of a tag in a string its text goes on the evaluation stack, unless there is a command
in the tag. -/
theorem Flow.endTag_eq {behind front : List Token} (hin : s.state.output.inString = true)
    (h : Output.splitAtCommand .beginTag s.state.output.newest = (behind, front)) :
    endTag s = if behind.any (fun t => t.command?.isSome) then .error (.flow .commandInTag) s
      else .ok () { s with
        state := State.push { s.state with output := ⟨front⟩ }
          (.tag (Text.clean (Output.joined behind))) } := by
  have hany {p : Token → Bool} (hp : ∀ t, p t = t.command?.isSome) :
      behind.any p = behind.any fun t => t.command?.isSome := congrArg behind.any (funext hp)
  unfold Flow.endTag
  rw [bind_ok (state_ok s), hin, if_pos rfl, h]
  dsimp only
  rw [hany fun t => by cases t <;> rfl]
  split
  · rfl
  · rfl

/-- A tag that ends leaves the same tag behind, or ends where a string does not. -/
theorem Story.SameFlow.endTag (h : base.SameFlow s u) :
    Outcome (SameFlow base) (SameFlow base) (endTag s) (endTag u) := by
  cases h with
  | outside h =>
    have hemit {v : Story} (hv : v.state.output.inString = false) :
        Flow.endTag v = Flow.emit (.command .endTag) v := by
      unfold Flow.endTag
      rw [bind_ok (state_ok v), hv]
      rfl
    rw [hemit h.shapes.1, hemit h.shapes.2]
    have htag : Token.command .endTag ≠ .command .beginString := fun h => by cases h
    exact (blind_emit_outside htag h).sameFlow fun _ _ => .outside
  | @string front front' h =>
    obtain ⟨hfront, hfront', own, hs, hu⟩ := h.shapes
    have hs : s.state.output.newest = own ++ .command .beginString :: front := hs
    have hu : u.state.output.newest = own ++ .command .beginString :: front' := hu
    have hsplit (front : List Token) :=
      Output.splitAtCommand_append .beginTag own (.command .beginString :: front)
    have hkept (output output' : Output) : State.Alike (.behind front.length front'.length)
        { s.state with output := output } { u.state with output := output' } := { h.state with }
    cases htag : own.any (Token.isCommand .beginTag) with
    | true =>
      simp only [htag, if_true] at hsplit
      rw [endTag_eq h.shapes.inString.1 ((congrArg _ hs).trans (hsplit front)),
        endTag_eq h.shapes.inString.2 ((congrArg _ hu).trans (hsplit front'))]
      split
      · exact .error (.string h)
      · exact .ok (.string ⟨h.left, h.right, (hkept _ _).push _, ⟨hfront, hfront', _, rfl, rfl⟩,
          h.others⟩)
    | false =>
      simp only [htag, Bool.false_eq_true, if_false] at hsplit
      -- The command that begins the string stands behind any that begins a tag.
      have hborder (front : List Token) : ((own ++ (Output.splitAtCommand .beginTag
          (.command .beginString :: front)).1).any fun t => t.command?.isSome) = true := by
        rw [Output.splitAtCommand_cons rfl, List.any_append]
        exact Bool.or_true _
      rw [endTag_eq h.shapes.inString.1 ((congrArg _ hs).trans (hsplit front)),
        endTag_eq h.shapes.inString.2 ((congrArg _ hu).trans (hsplit front')), hborder, hborder,
        if_pos rfl, if_pos rfl]
      exact .error (.string h)

/-! ## Calls -/

/-- A knot that stands in for a function of the host is diverted to. -/
theorem Flow.callExternal_standIn {name : String} {knot : NodeId}
    (hnone : s.bindings.get? name = none) (hfallbacks : s.fallbacks = true)
    (hknot : s.tree.knot? name = some knot) (count : Nat) :
    callExternal name count s = callKnot knot s := by
  unfold callExternal
  rw [bind_ok (get_ok s)]
  dsimp only
  rw [hnone, hfallbacks, hknot]
  rfl

/-- A divert that calls no function of the host unless a knot stands in for it. -/
theorem Flow.outcome_divert {K : Likeness} {ρ : Shape → Shape → Prop} (hρ : Stable K ρ)
    (id : NodeId) {divert : Divert} (hp : s.Paired base.content K (SameHost base) ρ u)
    (hcalls : ∀ name, callOf? s.state divert = some name → s.bindings.get? name = none ∧
      s.fallbacks = true ∧ (s.tree.knot? name).isSome = true) :
    Outcome (Story.Paired base.content K (SameHost base) ρ)
      (Story.Paired base.content K (SameHost base) ρ) (performDivert id divert s)
      (performDivert id divert u) := by
  refine outcome_performDivert hρ id hp fun name count s' u' hcall hs' hp' => ?_
  obtain ⟨hnone, hfallbacks, hstandIn⟩ := hcalls name hcall
  obtain ⟨knot, hknot⟩ := Option.isSome_iff_exists.mp hstandIn
  have hbindings : s'.bindings = u'.bindings :=
    hp'.others.bindings.trans hp'.others.bindings'.symm
  have hallowed : s'.fallbacks = u'.fallbacks :=
    hp'.others.fallbacks.trans hp'.others.fallbacks'.symm
  have htree : s'.tree = u'.tree := congrArg Content.tree (hp'.left.trans hp'.right.symm)
  have hnone' : s'.bindings.get? name = none := by rw [hs']; exact hnone
  have hfallbacks' : s'.fallbacks = true := by rw [hs']; exact hfallbacks
  have hknot' : s'.tree.knot? name = some knot := by rw [hs']; exact hknot
  rw [callExternal_standIn hnone' hfallbacks' hknot',
    callExternal_standIn (hbindings ▸ hnone') (hallowed ▸ hfallbacks') (htree ▸ hknot')]
  exact blind_callKnot hρ knot hp'

/-! ## Leaves -/

/-- A text goes on the evaluation stack, or is put out. -/
theorem Flow.executeLeaf_text (id : NodeId) (text : String) (s : Story) :
    executeLeaf (some (id, .value (.text text))) s =
      if s.state.cursor.isNone then .ok () s
      else if s.state.inExpression then push (.text text) s else Flow.emit (.text text) s := by
  show executeAt id (.value (.text text)) s = _
  have hrun : execute id (.value (.text text)) s = .ok false s := rfl
  unfold executeAt
  rw [bind_ok hrun, bind_ok (state_ok s)]
  split
  · rfl
  · show putContent (.text text) s = _
    unfold putContent
    rw [bind_ok (state_ok s)]
    dsimp only [Token.text]
    split
    · rfl
    · rfl

/-- The commands that put something out, or take something back. -/
theorem Story.SameFlow.putsOut {command : Command} (hputs : command.PutsOut) (h : base.SameFlow s u)
    (hends : command = .endString → s.state.output.inString = true)
    (hbegins : command = .beginString → s.state.output.inString = false →
      s.state.MarksReached ∧ u.state.MarksReached)
    (htexts : ∀ text, s.state.textOf? (.command command) = some text →
      s.state.output.inString = true → s.state.StandsAlone text) :
    Outcome (SameFlow base) (SameFlow base) (performCommand command s)
      (performCommand command u) := by
  cases command with
  | evalOutput =>
    have htext (text : String) : Token.text text ≠ .command .beginString := fun h => by cases h
    cases h with
    | outside h => exact (outcome_putOut h fun text _ _ _ _ h' =>
        blind_emit_outside (htext text) h').sameFlow fun _ _ => .outside
    | string h =>
      refine (outcome_putOut h fun text s' u' hput hs' h' => ?_).sameFlow fun _ _ => .string
      refine outcome_emit_string h' fun other hother => ?_
      cases hother
      have halone := htexts text hput h.shapes.inString.1
      rw [hs']
      exact halone
  | beginString => exact h.beginString (hbegins rfl)
  | endString => exact h.endString (hends rfl)
  | beginTag => exact SameFlow.emit h (fun h => by cases h) fun _ _ h => by cases h
  | endTag => exact h.endTag
  | _ => exact hputs.elim

/-- A leaf is carried out in the same flow. -/
theorem Story.SameFlow.executeLeaf {leaf : Option (NodeId × Instruction)} (h : base.SameFlow s u)
    (hcalls : ∀ id divert name, leaf = some (id, .divert divert) →
      callOf? s.state divert = some name → s.bindings.get? name = none ∧
        s.fallbacks = true ∧ (s.tree.knot? name).isSome = true)
    (hends : ∀ id, leaf = some (id, .command .endString) → s.state.output.inString = true)
    (hbegins : ∀ id, leaf = some (id, .command .beginString) → s.state.output.inString = false →
      s.state.MarksReached ∧ u.state.MarksReached)
    (htexts : ∀ id i text, leaf = some (id, i) → s.state.textOf? i = some text →
      s.state.output.inString = true → s.state.StandsAlone text) :
    Outcome (SameFlow base) (SameFlow base) (Flow.executeLeaf leaf s)
      (Flow.executeLeaf leaf u) := by
  cases leaf with
  | none => exact .ok h
  | some leaf =>
    obtain ⟨id, i⟩ := leaf
    by_cases hdivert : ∃ divert, i = .divert divert
    · obtain ⟨divert, rfl⟩ := hdivert
      rw [executeLeaf_divert]
      cases h with
      | outside h => exact (outcome_divert stable_outside id h fun name =>
          hcalls id divert name rfl).sameFlow fun _ _ => .outside
      | string h => exact (outcome_divert (stable_string _ _) id h fun name =>
          hcalls id divert name rfl).sameFlow fun _ _ => .string
    by_cases hputs : ∃ command : Command, i = .command command ∧ command.PutsOut
    · obtain ⟨command, rfl, hputs⟩ := hputs
      rw [executeLeaf_command]
      exact h.putsOut hputs (fun hc => hends id (by rw [hc])) (fun hc => hbegins id (by rw [hc]))
        fun text => htexts id _ text rfl
    by_cases htext : ∃ text, i = .value (.text text)
    · obtain ⟨text, rfl⟩ := htext
      rw [executeLeaf_text, executeLeaf_text, h.alike.cursor_eq, h.alike.inExpression_eq]
      split
      · exact .ok h
      · split
        · exact h.outcome (blind_push _) fun _ _ => blind_push _
        · next hexpression =>
          refine SameFlow.emit h (fun h => by cases h) fun hin other hother => ?_
          cases hother
          refine htexts id _ text rfl ?_ hin
          rw [State.textOf?, h.alike.inExpression_eq, if_neg hexpression]
    -- What is left puts no text out, and begins and ends no string.
    have hexecute {K : Likeness} {ρ : Shape → Shape → Prop} (hρ : Stable K ρ) :
        Blind base.content K (SameHost base) ρ (execute id i) :=
      blind_execute hρ id (fun d hd => absurd ⟨d, hd⟩ hdivert) fun command hc hp =>
        absurd ⟨command, hc, hp⟩ hputs
    have htoken (token : Token) (h : token ∈ Token.ofInstruction? i) (s : State) :
        (s.scoped token).text? = none ∧ s.scoped token ≠ .command .beginString := by
      rcases s.scoped_cases token with hsame | ⟨name, scope, hscoped⟩
      · rw [hsame]
        cases i with
        | value v =>
          cases h
          refine ⟨?_, nofun⟩
          cases v with
          | text text => exact absurd ⟨text, rfl⟩ htext
          | _ => rfl
        | command command =>
          cases h
          refine ⟨rfl, fun hc => hputs ⟨command, rfl, ?_⟩⟩
          cases hc
          trivial
        | tag | glue | void =>
          cases h
          exact ⟨rfl, nofun⟩
        | _ => cases h
      · rw [hscoped]
        exact ⟨rfl, nofun⟩
    refine h.outcome (blind_executeLeaf ?_ ?_) fun front front' => blind_executeLeaf ?_ ?_
    · intro l hl token htok
      cases hl
      exact blind_putContent fun s => blind_emit_outside (htoken token htok s).2
    · intro l hl
      cases hl
      exact hexecute stable_outside
    · intro l hl token htok
      cases hl
      exact blind_putContent fun s => blind_emit_string (htoken token htok s).1
    · intro l hl
      cases hl
      exact hexecute (stable_string front front')

end Steps

/-! ## Steps -/

/-- Where a thread stands does not count for its marks. -/
theorem State.marks_setCursor {P : Option Nat → Prop} {s : State} (h : s.Marks P)
    (c : Option Cursor) : (s.setCursor c).Marks P := by
  refine List.forall_mem_cons.mpr ⟨?_, fun t ht => h t (List.mem_cons_of_mem _ ht)⟩
  have hcurrent := List.forall_mem_cons.mp (h _ s.current_mem_everyThread)
  exact List.forall_mem_cons.mpr ⟨hcurrent.1, hcurrent.2⟩

namespace Story

/-- The command that the next step carries out. -/
def nextCommand? (s : Story) : Option Command :=
  match s.nextLeaf? with
  | some (_, .command command) => some command
  | _ => none

/-- Where the next step begins a string outside strings, no running function is marked to begin
behind the end of the output. -/
def MarksInFront (s : Story) : Prop :=
  s.nextCommand? = some .beginString → s.state.output.inString = false → s.state.MarksReached

/-- The next step does not depend on what has been put out outside strings: it calls no function of
the host, unless a knot stands in for it; a string ends only where one has begun; where one begins,
running functions began their texts in front of it; and a string does not begin with a line end. -/
structure Neat (s : Story) : Prop where
  calls : ∀ name ∈ s.nextCall?, s.bindings.get? name = none ∧ s.fallbacks = true ∧
    (s.tree.knot? name).isSome = true
  ends : s.nextCommand? = some .endString → s.state.output.inString = true
  begins : s.MarksInFront
  texts : ∀ text ∈ s.nextText?, s.state.output.inString = true → s.state.StandsAlone text

instance (s : Story) : Decidable s.MarksInFront :=
  inferInstanceAs (Decidable (s.nextCommand? = some .beginString →
    s.state.output.inString = false → ∀ t ∈ s.state.everyThread, ∀ f ∈ t.top :: t.below,
      f.kind = .function → f.outputStart.getD 0 ≤ s.state.output.length))

instance (s : Story) (text : String) : Decidable (s.state.StandsAlone text) :=
  inferInstanceAs (Decidable (∀ part ∈ (Text.parts text).head?, isLineEnd part = true →
    s.state.output.lineEndsSettled s.state.functionStart = true))

instance (s : Story) : Decidable s.Neat :=
  decidable_of_iff ((∀ name ∈ s.nextCall?, s.bindings.get? name = none ∧ s.fallbacks = true ∧
      (s.tree.knot? name).isSome = true) ∧
    (s.nextCommand? = some .endString → s.state.output.inString = true) ∧ s.MarksInFront ∧
    ∀ text ∈ s.nextText?, s.state.output.inString = true → s.state.StandsAlone text)
    ⟨fun ⟨hcalls, hends, hbegins, htexts⟩ => ⟨hcalls, hends, hbegins, htexts⟩,
      fun h => ⟨h.calls, h.ends, h.begins, h.texts⟩⟩

/-- A story at the leaf that the next step carries out. -/
def AtLeaf (s s' : Story) : Prop :=
  ∃ visits turns there, s' =
    { s with state := { s.state with visits, turns }.setCursor (some there) }

theorem AtLeaf.marksReached {s' : Story} (h : s.AtLeaf s') (hs : s.state.MarksReached) :
    s'.state.MarksReached := by
  obtain ⟨visits, turns, there, rfl⟩ := h
  exact State.marks_setCursor (s := { s.state with visits, turns }) hs _

namespace SameFlow

/-- Both stories reach the same leaf. -/
theorem exists_reached {place : Cursor} (hplace : s.state.cursor = some place)
    (h : base.SameFlow s u) : ∃ s' u', base.SameFlow s' u' ∧ s.AtLeaf s' ∧ u.AtLeaf u' ∧
      Flow.reachLeaf place s = .ok s.nextLeaf? s' ∧
        Flow.reachLeaf place u = .ok s.nextLeaf? u' := by
  cases h with
  | outside h =>
    obtain ⟨s', u', h', hs, hu, hreach⟩ := Flow.exists_reached hplace h
    exact ⟨s', u', .outside h', hs, hu, hreach⟩
  | string h =>
    obtain ⟨s', u', h', hs, hu, hreach⟩ := Flow.exists_reached hplace h
    exact ⟨s', u', .string h', hs, hu, hreach⟩

/-- Both stories carry out the same leaf. -/
theorem nextLeaf?_eq (h : base.SameFlow s u) : s.nextLeaf? = u.nextLeaf? := by
  have htree : s.tree = u.tree := by
    cases h with
    | outside h => exact congrArg Content.tree (h.left.trans h.right.symm)
    | string h => exact congrArg Content.tree (h.left.trans h.right.symm)
  unfold nextLeaf? nextPlace?
  rw [htree, h.alike.cursor_eq]

/-- A step of stories in the same flow. -/
theorem step (h : base.SameFlow s u) (hs : s.Neat) (hu : u.MarksInFront) :
    Outcome (SameFlow base) (SameFlow base) (Flow.step s) (Flow.step u) := by
  unfold Flow.step
  rw [Flow.bind_ok (Flow.state_ok s), Flow.bind_ok (Flow.state_ok u), ← h.alike.cursor_eq]
  cases hplace : s.state.cursor with
  | none => exact .ok h
  | some place =>
    obtain ⟨s', u', hreached, hs', hu', hreach, hreach'⟩ := h.exists_reached hplace
    dsimp only
    rw [Flow.bind_ok hreach, Flow.bind_ok hreach']
    refine Outcome.bind (hreached.executeLeaf ?_ ?_ ?_ ?_) fun _ _ _ hleft =>
      hleft.outcome (Flow.blind_leaveLeaf stable_outside _) fun front front' =>
        Flow.blind_leaveLeaf (stable_string front front') _
    · intro id divert name hleaf hcall
      obtain ⟨visits, turns, there, rfl⟩ := hs'
      exact hs.calls name (by rw [nextCall?, hleaf]; exact hcall)
    · intro id hleaf
      obtain ⟨visits, turns, there, rfl⟩ := hs'
      exact hs.ends (by rw [nextCommand?, hleaf])
    · intro id hleaf hout
      have hbegins : s.nextCommand? = some .beginString := by rw [nextCommand?, hleaf]
      have hbegins' : u.nextCommand? = some .beginString := by
        rw [nextCommand?, ← h.nextLeaf?_eq, hleaf]
      have houtside : s.state.output.inString = false := by
        obtain ⟨visits, turns, there, rfl⟩ := hs'
        exact hout
      exact ⟨hs'.marksReached (hs.begins hbegins houtside),
        hu'.marksReached (hu hbegins' (h.inString_eq.symm.trans houtside))⟩
    · intro id i text hleaf htext hin
      obtain ⟨visits, turns, there, rfl⟩ := hs'
      refine hs.texts text ?_ hin
      rw [nextText?, hleaf]
      exact htext

/-- A step of stories in the same flow, with what follows where there is nothing to go on with. -/
theorem plainStep (h : base.SameFlow s u) (hs : s.Neat) (hu : u.MarksInFront) :
    Outcome (SameFlow base) (SameFlow base) (Flow.plainStep s) (Flow.plainStep u) := by
  unfold Flow.plainStep
  refine (h.step hs hu).bind fun _ s u h => ?_
  rw [Flow.bind_ok (Flow.get_ok s), Flow.bind_ok (Flow.get_ok u), h.others.free, h.others.free',
    h.alike.canContinue_eq, h.alike.callStack.inHostCall_eq]
  split
  · exact h.outcome (Flow.blind_followInvisibleChoice stable_outside) fun front front' =>
      Flow.blind_followInvisibleChoice (stable_string front front')
  · exact .ok h

end SameFlow

end Story

end StoryMachine
