import StoryMachine.Proofs.Alike.Outputs
import StoryMachine.Proofs.Story.Ready

/-!
# A function bound, and the same function not bound

Two stories stand *beside* each other if they are alike, except that a function of the host is
bound in the first one, in such a way that it must not be called ahead, and neither bound nor
stood in for in the second. As long as the function is not called, every step leads to stories
that stand beside each other again. Looking ahead it is not called, in neither story.

* `Flow.outcome_performDivert` : a divert, where calls are made in both stories;
* `Story.callsOf` : the calls of a function that have reached the host;
* `Story.Beside` : stories that stand beside each other;
* `Story.CallsNow` : the next step calls the function;
* `Story.Beside.lineStep` : a step of a line that does not call it.
-/

namespace StoryMachine

/-! ## The parts of a step, one story at a time -/

namespace Flow

variable {c : Content} {K : Likeness} {κ : Story → Story → Prop} {ρ : Shape → Shape → Prop}
  {s u : Story}

/-- A divert that is taken, where the function of the host that it may call is called in both
stories. -/
theorem outcome_takeDivert (hρ : Stable K ρ) (id : NodeId) {divert : Divert}
    (hp : s.Paired c K κ ρ u)
    (hcalls : ∀ path count, divert.destination = .path path → divert.kind = .external count →
      Outcome (Story.Paired c K κ ρ) (Story.Paired c K κ ρ) (callExternal path.render count s)
        (callExternal path.render count u)) :
    Outcome (Story.Paired c K κ ρ) (Story.Paired c K κ ρ) (takeDivert id divert s)
      (takeDivert id divert u) := by
  by_cases hcall : ∃ path count, divert.destination = .path path ∧ divert.kind = .external count
  · obtain ⟨path, count, hpath, hkind⟩ := hcall
    have htake : takeDivert id divert = callExternal path.render count := by
      unfold takeDivert
      rw [hpath, hkind]
    rw [htake]
    exact hcalls path count hpath hkind
  · exact blind_takeDivert hρ id (fun path count hpath hkind =>
      absurd ⟨path, count, hpath, hkind⟩ hcall) hp

/-- A divert, where the function of the host that it comes to call is called in both stories. -/
theorem outcome_performDivert (hρ : Stable K ρ) (id : NodeId) {divert : Divert}
    (hp : s.Paired c K κ ρ u)
    (hcalls : ∀ (name : String) (count : Nat) (s' u' : Story),
      Story.callOf? s.state divert = some name →
      s' = { s with state := { s.state with evaluation := s'.state.evaluation } } →
      s'.Paired c K κ ρ u' → Outcome (Story.Paired c K κ ρ) (Story.Paired c K κ ρ)
        (callExternal name count s') (callExternal name count u')) :
    Outcome (Story.Paired c K κ ρ) (Story.Paired c K κ ρ) (performDivert id divert s)
      (performDivert id divert u) := by
  unfold performDivert
  cases hconditional : divert.conditional with
  | false =>
    refine outcome_takeDivert hρ id hp fun path count hpath hkind => ?_
    refine hcalls _ count s u ?_ rfl hp
    simp [Story.callOf?, hpath, hkind, hconditional]
  | true =>
    rw [if_pos rfl]
    cases heval : s.state.evaluation with
    | nil =>
      have hpop : ∀ v : Story, v.state.evaluation = [] →
          pop v = .error (.flow .evaluationEmpty) v := fun v hv =>
        tryState_run_error (by rw [State.pop, hv])
      rw [bind_error (hpop s heval), bind_error (hpop u (hp.state.evaluation.symm.trans heval))]
      exact .error hp
    | cons t rest =>
      have hpop : pop s = .ok t { s with state := { s.state with evaluation := rest } } :=
        pop_run_cons heval
      have hpop' : pop u = .ok t { u with state := { u.state with evaluation := rest } } :=
        pop_run_cons (hp.state.evaluation.symm.trans heval)
      have hrest : Story.Paired c K κ ρ { s with state := { s.state with evaluation := rest } }
          { u with state := { u.state with evaluation := rest } } :=
        ⟨hp.left, hp.right, { hp.state with evaluation := rfl }, hp.shapes, hp.others⟩
      rw [bind_ok hpop, bind_ok hpop']
      cases htruth : t.truth with
      | error e => exact .error hrest
      | ok holds =>
        cases holds with
        | false => exact .ok hrest
        | true =>
          refine outcome_takeDivert hρ id hrest fun path count hpath hkind => ?_
          refine hcalls _ count _ _ ?_ rfl hrest
          simp [Story.callOf?, hpath, hkind, hconditional, heval, htruth]

/-- Both stories reach the same leaf. -/
theorem exists_reached {place : Cursor} (hplace : s.state.cursor = some place)
    (hp : s.Paired c K κ ρ u) : ∃ s' u', s'.Paired c K κ ρ u' ∧
      (∃ visits turns there, s' =
        { s with state := { s.state with visits, turns }.setCursor (some there) }) ∧
      (∃ visits turns there, u' =
        { u with state := { u.state with visits, turns }.setCursor (some there) }) ∧
      reachLeaf place s = .ok s.nextLeaf? s' ∧ reachLeaf place u = .ok s.nextLeaf? u' := by
  obtain ⟨visits, turns, hreach⟩ := exists_reachLeaf_eq hplace
  obtain ⟨visits', turns', hreach'⟩ := exists_reachLeaf_eq (hp.state.cursor_eq.symm.trans hplace)
  rcases (blind_reachLeaf place hp).cases with ⟨leaf, s', u', hs, hu, hreached⟩ | ⟨_, _, _, hs, -⟩
  · rw [hreach] at hs
    cases hs
    refine ⟨_, u', hreached, ⟨visits, turns, _, rfl⟩, ?_, hreach, hu⟩
    have hstate := (EStateM.Result.ok.inj (hu.symm.trans hreach')).2
    exact ⟨visits', turns', _, hstate⟩
  · rw [hreach] at hs
    cases hs

end Flow

/-! ## Calls that have reached the host -/

/-- The arguments of a call of a function, if an event is one. -/
def Event.callOf? (name : String) : Event → Option (List Value)
  | .called other arguments => if other = name then some arguments else none
  | _ => none

namespace Story

/-- The arguments of the calls of a function that have reached the host, in order. -/
def callsOf (name : String) (s : Story) : List (List Value) :=
  (s.events.filterMap (Event.callOf? name)).reverse

theorem callsOf_log (name : String) (s : Story) (e : Event) :
    (s.log e).callsOf name = s.callsOf name ++ (e.callOf? name).toList := by
  show (List.filterMap (Event.callOf? name) (e :: s.events)).reverse =
    (List.filterMap (Event.callOf? name) s.events).reverse ++ (e.callOf? name).toList
  rw [List.filterMap_cons]
  cases e.callOf? name with
  | none => exact (List.append_nil _).symm
  | some arguments => exact List.reverse_cons

/-- States that are alike, with the same output. -/
structure SameState (s u : State) : Prop where
  state : s.Alike .equal u
  output : s.output = u.output

/-- The host has bound `f` under `name` in the first story, and called `answered` since, and
answers the calls of `name` itself in the second; whatever else it has attached is the same. -/
structure HostParts (name : String) (f : HostFunction) (answered : List (List Value))
    (d s : Story) : Prop where
  kept : Option.Rel SameState d.lineState s.lineState
  met : d.metUnsafeCall = s.metUnsafeCall
  pending : d.pending = s.pending
  waits : ∀ call ∈ d.pending, call.name ≠ name
  bound : d.bindings.get? name = some ⟨f, answered.length, false⟩
  unbound : s.bindings.get? name = none
  bindings : ∀ other, other ≠ name → d.bindings.get? other = s.bindings.get? other
  fallbacks : d.fallbacks = s.fallbacks
  standIn : d.fallbacks = true → d.tree.knot? name = none
  handler : d.hasHandler = s.hasHandler
  calls : d.callsOf name = s.callsOf name ++ answered

/-- The stories are alike, with `f` bound under `name` in the first one only. -/
abbrev Beside (c : Content) (name : String) (f : HostFunction) (answered : List (List Value)) :
    Story → Story → Prop :=
  Paired c .equal (HostParts name f answered) SameOutput

/-- The next step calls the function, as no state is kept that it would have to go back to. -/
def CallsNow (name : String) (s : Story) : Prop :=
  s.nextCall? = some name ∧ s.lineState = none

variable {c : Content} {name : String} {f : HostFunction} {answered : List (List Value)}
  {d s : Story}

namespace Beside

theorem sameState (h : Beside c name f answered d s) : SameState d.state s.state :=
  ⟨h.state, h.shapes⟩

/-- Only the state and the host's parts count. -/
theorem of_parts {d' s' : Story} (h : Beside c name f answered d s)
    (hd : d'.content = d.content) (hs : s'.content = s.content)
    (hstate : SameState d'.state s'.state) (hparts : HostParts name f answered d' s') :
    Beside c name f answered d' s' where
  left := hd.trans h.left
  right := hs.trans h.right
  state := hstate.state
  shapes := hstate.output
  others :=
    { hparts with }

theorem parts (h : Beside c name f answered d s) : HostParts name f answered d s :=
  { h.others with }

/-- Nothing stands in for the function in the second story. -/
theorem isMissing (h : Beside c name f answered d s) : s.isMissing name = true := by
  have hstand := h.parts.standIn
  have htree : d.tree = s.tree := by rw [tree, tree, h.left, h.right]
  rw [h.parts.fallbacks, htree] at hstand
  unfold Story.isMissing SortedMap.contains
  rw [h.parts.unbound]
  cases hfall : s.fallbacks with
  | false => rfl
  | true =>
    rw [hstand hfall]
    rfl

theorem isUnsafe (h : Beside c name f answered d s) : d.IsUnsafe name ∧ s.IsUnsafe name :=
  ⟨.inr ⟨_, h.parts.bound, rfl⟩, .inl h.isMissing⟩

theorem isSome_kept (h : Beside c name f answered d s) :
    d.lineState.isSome = s.lineState.isSome := by
  have hkept := h.parts.kept
  generalize d.lineState = a at hkept
  generalize s.lineState = b at hkept
  cases hkept <;> rfl

/-! ## Calls -/

theorem callBound {other : String} (hother : other ≠ name) (b : Binding) (arguments : List Value)
    (h : Beside c name f answered d s) :
    Outcome (Beside c name f answered) (Beside c name f answered)
      (Flow.callBound other b arguments d) (Flow.callBound other b arguments s) := by
  have hcalls : ∀ v : Story, callsOf name ({ v with
      bindings := v.bindings.insert other { b with calls := b.calls + 1 } }.log
        (.called other arguments)) = v.callsOf name := by
    intro v
    rw [callsOf_log, Event.callOf?, if_neg hother]
    exact List.append_nil _
  have hlogged : Beside c name f answered
      ({ d with bindings := d.bindings.insert other { b with calls := b.calls + 1 } }.log
        (.called other arguments))
      ({ s with bindings := s.bindings.insert other { b with calls := b.calls + 1 } }.log
        (.called other arguments)) := by
    refine h.of_parts rfl rfl h.sameState { h.parts with
      bound := (SortedMap.get?_insert_of_ne _ _ hother.symm).trans h.parts.bound
      unbound := (SortedMap.get?_insert_of_ne _ _ hother.symm).trans h.parts.unbound
      bindings := fun third hthird => ?_
      calls := by rw [hcalls, hcalls]; exact h.parts.calls }
    by_cases heq : third = other
    · subst heq
      exact (SortedMap.get?_insert_self _ _ _).trans (SortedMap.get?_insert_self _ _ _).symm
    · exact (SortedMap.get?_insert_of_ne _ _ heq).trans
        ((h.parts.bindings third hthird).trans (SortedMap.get?_insert_of_ne _ _ heq).symm)
  unfold Flow.callBound
  refine Outcome.bind (R := Beside c name f answered) (.ok hlogged) fun _ _ _ h => ?_
  cases b.function (b.calls + 1) arguments with
  | none => exact Flow.blind_push _ h
  | some v => exact Flow.blind_push _ h

/-- Calls of other functions are made in both stories; the function is called in neither while
they look ahead. -/
theorem callExternal {other : String} (hother : other ≠ name ∨ d.lineState.isSome = true)
    (count : Nat) (h : Beside c name f answered d s) :
    Outcome (Beside c name f answered) (Beside c name f answered)
      (Flow.callExternal other count d) (Flow.callExternal other count s) := by
  have hstring : d.state.output.inString = s.state.output.inString := by
    rw [h.sameState.output]
  have hmet : Beside c name f answered { d with metUnsafeCall := true }
      { s with metUnsafeCall := true } :=
    h.of_parts rfl rfl h.sameState { h.parts with met := rfl }
  by_cases hname : other = name
  · -- Both stories look ahead.
    subst hname
    have hkept : d.lineState.isSome = true := hother.resolve_left fun hne => hne rfl
    have hkept' : s.lineState.isSome = true := h.isSome_kept ▸ hkept
    obtain ⟨hin, hout⟩ := Flow.callExternal_ahead h.isUnsafe.1 hkept count
    obtain ⟨hin', hout'⟩ := Flow.callExternal_ahead h.isUnsafe.2 hkept' count
    cases hcase : d.state.output.inString with
    | true =>
      rw [hin hcase, hin' (hstring ▸ hcase)]
      exact .error h
    | false =>
      rw [hout hcase, hout' (hstring ▸ hcase)]
      exact .ok hmet
  · have hbinding := h.parts.bindings other hname
    have htree : d.tree = s.tree := by rw [tree, tree, h.left, h.right]
    unfold Flow.callExternal
    rw [Flow.bind_ok (Flow.get_ok d), Flow.bind_ok (Flow.get_ok s)]
    dsimp only
    rw [hbinding, h.parts.fallbacks, htree, h.isSome_kept, hstring]
    generalize (if ((s.bindings.get? other).isNone && s.fallbacks) = true then s.tree.knot? other
      else none) = standIn
    cases standIn with
    | some knot => exact Flow.blind_callKnot stable_sameOutput knot h
    | none =>
      dsimp only
      split
      · split
        · exact .error h
        · exact .ok hmet
      · refine Outcome.bind (Flow.blind_popArguments other [] count h) fun arguments _ _ h => ?_
        cases s.bindings.get? other with
        | some b => exact Beside.callBound hname b arguments h
        | none =>
          exact .ok (Beside.of_parts h rfl rfl ⟨h.state, h.shapes⟩ { Beside.parts h with
            pending := rfl
            waits := fun call hcall => by cases hcall; exact hname })

/-- A divert that does not call the function now. -/
theorem performDivert (id : NodeId) {divert : Divert}
    (hcalls : callOf? d.state divert = some name → d.lineState.isSome = true)
    (h : Beside c name f answered d s) :
    Outcome (Beside c name f answered) (Beside c name f answered)
      (Flow.performDivert id divert d) (Flow.performDivert id divert s) := by
  refine Flow.outcome_performDivert stable_sameOutput id h fun other count d' s' hcall hd hbeside =>
    Beside.callExternal ?_ count hbeside
  by_cases hname : other = name
  · subst hname
    rw [hd]
    exact .inr (hcalls hcall)
  · exact .inl hname

/-! ## Steps that do not call the function -/

/-- Carrying out the leaf that the next step reaches. -/
theorem executeLeaf {leaf : Option (NodeId × Instruction)}
    (hcalls : ∀ id divert, leaf = some (id, .divert divert) →
      callOf? d.state divert = some name → d.lineState.isSome = true)
    (h : Beside c name f answered d s) :
    Outcome (Beside c name f answered) (Beside c name f answered)
      (Flow.executeLeaf leaf d) (Flow.executeLeaf leaf s) := by
  by_cases hdivert : ∃ id divert, leaf = some (id, .divert divert)
  · obtain ⟨id, divert, rfl⟩ := hdivert
    rw [Flow.executeLeaf_divert]
    exact Beside.performDivert id (hcalls id divert rfl) h
  · exact Flow.blind_executeLeaf_same (fun id divert hleaf => absurd ⟨id, divert, hleaf⟩ hdivert) h

/-- A step that does not call the function. -/
theorem step (hcalls : d.nextCall? = some name → d.lineState.isSome = true)
    (h : Beside c name f answered d s) :
    Outcome (Beside c name f answered) (Beside c name f answered) (Flow.step d) (Flow.step s) := by
  unfold Flow.step
  rw [Flow.bind_ok (Flow.state_ok d), Flow.bind_ok (Flow.state_ok s), ← h.state.cursor_eq]
  cases hplace : d.state.cursor with
  | none => exact .ok h
  | some place =>
    obtain ⟨d', s', hbeside, ⟨visits, turns, there, rfl⟩, -, hreach, hreach'⟩ :=
      Flow.exists_reached hplace h
    dsimp only
    rw [Flow.bind_ok hreach, Flow.bind_ok hreach']
    refine Outcome.bind (Beside.executeLeaf (fun id divert hleaf hcall => ?_) hbeside)
      fun _ _ _ hleft => Flow.blind_leaveLeaf stable_sameOutput _ hleft
    refine hcalls ?_
    rw [nextCall?, hleaf]
    exact hcall

/-! ## Watching the line -/

theorem lineState_some {kept : State} (h : Beside c name f answered d s)
    (hkept : d.lineState = some kept) : ∃ other, s.lineState = some other ∧ SameState kept other := by
  have hrel := h.parts.kept
  rw [hkept] at hrel
  generalize s.lineState = b at hrel
  cases hrel with
  | some hsame => exact ⟨_, rfl, hsame⟩

theorem lineState_none (h : Beside c name f answered d s) (hkept : d.lineState = none) :
    s.lineState = none := by
  have hsome := h.isSome_kept
  rw [hkept] at hsome
  exact Option.isSome_eq_false_iff.mp hsome.symm |> Option.isNone_iff_eq_none.mp

theorem dropLineState (h : Beside c name f answered d s) :
    Beside c name f answered { d with lineState := none } { s with lineState := none } :=
  h.of_parts rfl rfl h.sameState { h.parts with kept := .none }

theorem keepLineState (h : Beside c name f answered d s) :
    Beside c name f answered d.keepLineState s.keepLineState := by
  have hsome := h.isSome_kept
  unfold Story.keepLineState
  rw [← h.sameState.output, ← h.state.canContinue_eq, ← Option.not_isSome, ← Option.not_isSome,
    ← hsome]
  split
  · split
    · exact h.dropLineState
    · split
      · exact h.of_parts rfl rfl h.sameState { h.parts with kept := .some h.sameState }
      · exact h
  · exact h

theorem restoreLineState (h : Beside c name f answered d s) :
    Beside c name f answered d.restoreLineState s.restoreLineState := by
  unfold Story.restoreLineState
  cases hkept : d.lineState with
  | none =>
    rw [h.lineState_none hkept]
    exact h
  | some kept =>
    obtain ⟨other, hother, hsame⟩ := h.lineState_some hkept
    rw [hother]
    exact h.of_parts rfl rfl
      ⟨{ hsame.state with errors := h.state.errors, firstError := h.state.firstError },
        hsame.output⟩ { h.parts with kept := .none }

/-- The line is watched with the same result. -/
theorem watchLine (h : Beside c name f answered d s) :
    d.watchLine.1 = s.watchLine.1 ∧ Beside c name f answered d.watchLine.2 s.watchLine.2 := by
  unfold Story.watchLine
  cases hkept : d.lineState with
  | none =>
    rw [h.lineState_none hkept]
    exact ⟨rfl, h.keepLineState⟩
  | some kept =>
    obtain ⟨other, hother, hsame⟩ := h.lineState_some hkept
    have hchange : lineChange kept d.state = lineChange other s.state := by
      unfold lineChange
      rw [hsame.output, h.sameState.output]
    rw [hother]
    dsimp only
    rw [hchange]
    by_cases hended : lineChange other s.state = .extended ∨ s.metUnsafeCall = true
    · rw [if_pos hended, if_pos (h.parts.met.symm ▸ hended)]
      exact ⟨rfl, h.restoreLineState⟩
    · rw [if_neg hended, if_neg (h.parts.met.symm ▸ hended)]
      split
      · exact ⟨rfl, h.dropLineState.keepLineState⟩
      · exact ⟨rfl, h.keepLineState⟩

/-- What is seen to behind a step. -/
theorem settle (h : Beside c name f answered d s) :
    Outcome (Beside c name f answered) (Beside c name f answered)
      (Flow.settle d) (Flow.settle s) := by
  refine Outcome.bind (R := Beside c name f answered) ?_ fun _ d s h => ?_
  · unfold Flow.followOn
    rw [Flow.bind_ok (Flow.get_ok d), Flow.bind_ok (Flow.get_ok s), h.parts.pending,
      h.state.canContinue_eq, h.state.callStack.inHostCall_eq]
    split
    · exact Flow.blind_followInvisibleChoice stable_sameOutput h
    · exact .ok h
  · obtain ⟨hresult, hwatched⟩ := h.watchLine
    unfold Flow.watch
    rw [Flow.bind_ok (Flow.get_ok d), Flow.bind_ok (Flow.get_ok s), h.parts.pending,
      h.sameState.output]
    split
    · exact .ok h
    · show Outcome _ _ (.ok d.watchLine.1 d.watchLine.2) (.ok s.watchLine.1 s.watchLine.2)
      rw [hresult]
      exact .ok hwatched

/-- A step of a line that does not call the function. -/
theorem lineStep (hcalls : d.nextCall? = some name → d.lineState.isSome = true)
    (h : Beside c name f answered d s) :
    Outcome (Beside c name f answered) (Beside c name f answered)
      (Flow.lineStep d) (Flow.lineStep s) := by
  rw [Flow.lineStep_eq]
  exact Outcome.bind (Beside.step hcalls h) fun _ _ _ h => h.settle

end Beside

end Story

end StoryMachine
