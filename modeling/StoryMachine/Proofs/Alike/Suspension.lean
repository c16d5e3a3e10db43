import StoryMachine.Proofs.Alike.Calls

/-!
# A call that waits for the host

Where the function is bound, a step that calls it pushes the answer and then moves on. Where it is
not bound the step moves on at once, and the answer is pushed when the host gives it. Moving on
does not look at the evaluation stack, but may push on it: a function that ends without a value
leaves `void` where an expression goes on. So the two orders lead to the same stack unless the
answer comes to lie beneath such a `void`.

* `Flow.carryOut` : a step without moving on;
* `Story.LeavesAnswer` : the answer of a call is still on top once the step has moved on;
* `Story.Beside.callStep` : a step that calls the function.
-/

namespace StoryMachine

namespace Flow

/-- A step without moving on. -/
def carryOut : Flow Unit := do
  match (← state).cursor with
  | none => return ()
  | some c => executeLeaf (← reachLeaf c)

variable {s : Story} {name : String}

/-- A bound function is called, unless the machine looks ahead. -/
theorem callExternal_bound {b : Binding} (hb : s.bindings.get? name = some b)
    (hline : s.lineState = none) (count : Nat) :
    callExternal name count s = (popArguments name [] count >>= callBound name b) s := by
  unfold callExternal
  rw [bind_ok (get_ok s)]
  dsimp only
  rw [hb, hline]
  simp

/-- A call of a missing function waits, unless the machine looks ahead. -/
theorem callExternal_waits (hmissing : s.isMissing name = true) (hline : s.lineState = none)
    (count : Nat) :
    callExternal name count s = (popArguments name [] count >>= fun arguments =>
      modify fun s => { s with pending := some ⟨name, arguments⟩ }) s := by
  rw [Story.isMissing, Bool.and_eq_true, Bool.not_eq_true', Bool.not_eq_true',
    SortedMap.contains, Option.isSome_eq_false_iff, Option.isNone_iff_eq_none] at hmissing
  obtain ⟨hnone, hstand⟩ := hmissing
  have hstand : (if (s.bindings.get? name).isNone && s.fallbacks then s.tree.knot? name else none) =
      none := by
    rw [hnone]
    cases hfall : s.fallbacks with
    | false => rfl
    | true =>
      rw [hfall, Bool.true_and, Option.isSome_eq_false_iff, Option.isNone_iff_eq_none] at hstand
      exact hstand
  unfold callExternal
  rw [bind_ok (get_ok s)]
  dsimp only
  rw [hstand, hnone, hline]
  simp

end Flow

namespace Story

/-- The answer of the call that the next step makes is on top of the evaluation stack once the
step has moved on, or it is `void`, like whatever is pushed on the way. -/
def LeavesAnswer (s : Story) : Prop :=
  (∃ rest, (Flow.carryOut.after s).state.evaluation = .void :: rest) ∨
    (Flow.step.after s).state.evaluation.length ≤ (Flow.carryOut.after s).state.evaluation.length

namespace Beside

variable {c : Content} {name : String} {f : HostFunction} {answered : List (List Value)}
  {d s : Story}

/-- The function is called in the first story, and its answer pushed in both. -/
theorem called (arguments : List Value) (h : Beside c name f answered d s) :
    Beside c name f (answered ++ [arguments])
      ((Flow.callBound name ⟨f, answered.length, false⟩ arguments).after d)
      { s with state := s.state.push (.ofAnswer (f (answered.length + 1) arguments)) } := by
  rw [Flow.after_of_ok (Flow.callBound_ok name _ arguments d)]
  have hcalls : callsOf name (d.log (.called name arguments)) =
      s.callsOf name ++ (answered ++ [arguments]) := by
    rw [callsOf_log, Event.callOf?, if_pos rfl, h.parts.calls, List.append_assoc]
    rfl
  refine ⟨h.left, h.right, h.state.push _, h.shapes, ?_⟩
  exact { h.parts with
    bound := by
      rw [List.length_append]
      exact SortedMap.get?_insert_self _ _ _
    bindings := fun other hother =>
      (SortedMap.get?_insert_of_ne _ _ hother).trans (h.parts.bindings other hother)
    calls := hcalls }

/-- Moving on behind the call, with the answer pushed in front of it or behind it. -/
theorem leaveCall (leaf : Option (NodeId × Instruction)) (call : PendingCall) {answer : Token}
    (hpending : d.pending = none)
    (hanswer : answer = .void ∨ ((Flow.leaveLeaf leaf).after d).state.evaluation.length ≤
      d.state.evaluation.length)
    (h : Beside c name f answered d { s with state := s.state.push answer }) :
    ∃ d' s', Flow.leaveLeaf leaf d = .ok () d' ∧
      Flow.leaveLeaf leaf { s with pending := some call } = .ok () s' ∧
      s'.pending = some call ∧
      Beside c name f answered d' { s' with pending := none, state := s'.state.push answer } := by
  have hnone : s.pending = none := h.parts.pending.symm.trans hpending
  obtain ⟨_, t, n, hmoves⟩ := Flow.moves_leaveLeaf leaf s
  have hright : Flow.leaveLeaf leaf { s with pending := some call } =
      .ok () (t.over (List.replicate n .void ++ s.state.evaluation) (some call)) :=
    hmoves s.state.evaluation (some call)
  have hleft : Flow.leaveLeaf leaf { s with state := s.state.push answer } =
      .ok () (t.over (List.replicate n .void ++ answer :: s.state.evaluation) s.pending) :=
    hmoves (answer :: s.state.evaluation) s.pending
  rcases (Flow.blind_leaveLeaf stable_sameOutput leaf h).cases with
    ⟨_, d', s', hd', hs', h'⟩ | ⟨_, _, _, -, hs', -⟩
  · rw [hleft] at hs'
    cases hs'
    refine ⟨d', _, hd', hright, rfl, ?_⟩
    -- What is pushed on the way is `void`, if anything.
    have horder : List.replicate n Token.void ++ answer :: s.state.evaluation =
        answer :: (List.replicate n Token.void ++ s.state.evaluation) := by
      rcases hanswer with rfl | hlength
      · rw [List.append_cons, ← List.replicate_succ', List.replicate_succ]
        rfl
      · rw [Flow.after_of_ok hd', h'.state.evaluation, h.state.evaluation] at hlength
        have hle : n + (s.state.evaluation.length + 1) ≤ s.state.evaluation.length + 1 := by
          have heval : (t.over (List.replicate n Token.void ++ answer :: s.state.evaluation)
              s.pending).state.evaluation.length = n + (s.state.evaluation.length + 1) := by
            show (List.replicate n Token.void ++ answer :: s.state.evaluation).length = _
            rw [List.length_append, List.length_replicate, List.length_cons]
          rw [← heval]
          exact hlength
        obtain rfl : n = 0 := by omega
        rfl
    rw [hnone, horder] at h'
    exact h'
  · rw [hleft] at hs'
    cases hs'

/-- A step that calls the function. In the first story it pushes the answer, in the second one
it waits for the host, who may then push the answer. -/
theorem callStep (hcall : d.CallsNow name) (hanswer : d.LeavesAnswer) (hpending : d.pending = none)
    (h : Beside c name f answered d s) :
    (∃ e d' s', Flow.step d = .error e d' ∧ Flow.step s = .error e s' ∧
      Beside c name f answered d' s') ∨
    ∃ arguments d' s', Flow.step d = .ok () d' ∧ Flow.step s = .ok () s' ∧
      s'.pending = some ⟨name, arguments⟩ ∧
      Beside c name f (answered ++ [arguments]) d' { s' with
        pending := none
        state := s'.state.push (.ofAnswer (f (answered.length + 1) arguments)) } := by
  obtain ⟨hname, hnone⟩ := hcall
  obtain ⟨id, divert, hleaf, hname⟩ := nextLeaf?_of_nextCall? hname
  obtain ⟨place, hplace⟩ : ∃ place, d.state.cursor = some place := by
    cases hcursor : d.state.cursor with
    | none =>
      rw [nextLeaf?, nextPlace?, hcursor] at hleaf
      cases hleaf
    | some place => exact ⟨place, rfl⟩
  obtain ⟨d₁, s₁, hreached, ⟨visits, turns, there, hd₁⟩, -, hreach, hreach'⟩ :=
    Flow.exists_reached hplace h
  have h₁ : Beside c name f answered d₁ s₁ := hreached
  have heval : d₁.state.evaluation = d.state.evaluation := by rw [hd₁]; rfl
  obtain ⟨es, count, hdivert⟩ := Flow.performDivert_of_callOf? hname id
  have hline : d₁.lineState = none := by rw [hd₁]; exact hnone
  have h₂ : Beside c name f answered
      { d₁ with state := { d₁.state with evaluation := es } }
      { s₁ with state := { s₁.state with evaluation := es } } :=
    h₁.of_parts rfl rfl ⟨{ h₁.state with evaluation := rfl }, h₁.shapes⟩ { h₁.parts with }
  -- Both stories come to the call with the same operands.
  have hleft : Flow.executeLeaf d.nextLeaf? d₁ = (Flow.popArguments name [] count >>=
      Flow.callBound name ⟨f, answered.length, false⟩)
        { d₁ with state := { d₁.state with evaluation := es } } := by
    rw [hleaf, Flow.executeLeaf_divert, hdivert d₁ heval,
      Flow.callExternal_bound h₂.parts.bound hline]
  have hright : Flow.executeLeaf d.nextLeaf? s₁ = (Flow.popArguments name [] count >>=
      fun arguments => modify fun s => { s with pending := some ⟨name, arguments⟩ })
        { s₁ with state := { s₁.state with evaluation := es } } := by
    rw [hleaf, Flow.executeLeaf_divert, hdivert s₁ (h₁.state.evaluation.symm.trans heval),
      Flow.callExternal_waits h₂.isMissing (h₁.lineState_none hline)]
  have hcarry : Flow.carryOut d = Flow.executeLeaf d.nextLeaf? d₁ := by
    unfold Flow.carryOut
    rw [Flow.bind_ok (Flow.state_ok d), hplace]
    exact Flow.bind_ok hreach
  have hstep : Flow.step d =
      (Flow.executeLeaf d.nextLeaf? >>= fun _ => Flow.leaveLeaf d.nextLeaf?) d₁ := by
    unfold Flow.step
    rw [Flow.bind_ok (Flow.state_ok d), hplace]
    exact Flow.bind_ok hreach
  have hstep' : Flow.step s =
      (Flow.executeLeaf d.nextLeaf? >>= fun _ => Flow.leaveLeaf d.nextLeaf?) s₁ := by
    unfold Flow.step
    rw [Flow.bind_ok (Flow.state_ok s), ← h.state.cursor_eq, hplace]
    exact Flow.bind_ok hreach'
  rcases (Flow.blind_popArguments name [] count h₂).cases with
    ⟨arguments, d₃, s₃, hd₃, hs₃, h₃⟩ | ⟨e, d₃, s₃, hd₃, hs₃, h₃⟩
  · have hpending₃ : d₃.pending = none := by
      have hpop := @Flow.within_popArguments d₁.content .silent name [] count
        { d₁ with state := { d₁.state with evaluation := es } } rfl
      rw [Flow.after_of_ok hd₃] at hpop
      rw [(hpop.state_only rfl).2, hd₁]
      exact hpending
    have hcall := Flow.callBound_ok name ⟨f, answered.length, false⟩ arguments d₃
    have hleft := hleft.trans ((Flow.bind_ok hd₃).trans hcall)
    have hright := hright.trans (Flow.bind_ok hs₃)
    have hafter := Flow.after_of_ok hcall
    unfold LeavesAnswer at hanswer
    rw [Flow.after.eq_def Flow.step, hstep, Flow.bind_ok hleft, Flow.after.eq_def Flow.carryOut,
      hcarry, hleft, ← hafter] at hanswer
    obtain ⟨d', s', hd', hs', hwaits, h'⟩ := Beside.leaveCall d.nextLeaf? ⟨name, arguments⟩
      (by rw [hafter]; exact hpending₃)
      (hanswer.imp_left fun hvoids => by
        obtain ⟨rest, hvoid⟩ := hvoids
        rw [hafter] at hvoid
        exact (List.cons.inj hvoid).1)
      (Beside.called arguments h₃)
    refine .inr ⟨arguments, d', s', ?_, ?_, hwaits, h'⟩
    · rw [hstep, Flow.bind_ok hleft, ← hafter]
      exact hd'
    · rw [hstep', Flow.bind_ok hright]
      exact hs'
  · refine .inl ⟨e, d₃, s₃, ?_, ?_, h₃⟩
    · rw [hstep]
      exact Flow.bind_error (hleft.trans (Flow.bind_error hd₃))
    · rw [hstep']
      exact Flow.bind_error (hright.trans (Flow.bind_error hs₃))

end Beside

end Story

end StoryMachine
