import StoryMachine.Proofs.Alike.Endings

/-!
# Lines with answers

A host that has not bound the function continues the line, and whenever it waits for a call of the
function, gives the answer and continues again. A line of the story in which the function is bound
comes to the same: where that calls the function, this one waits, and goes on behind the call with
the answer pushed.

* `Flow.answering` : continuing with answers, and the arguments of the calls answered;
* `Flow.runFrom` : the run of a line from its first step on;
* `Story.SameLine` : lines that come to the same;
* `Story.SideBySide.next` : a whole continue.
-/

namespace StoryMachine

namespace Flow

/-- Continue by `go`. As long as the line then waits for a call of the function `f`, which has
been called `calls` times before, give the answer and continue. The result is that of the last
continue, with the arguments of the calls that have been answered. `budget` bounds their number. -/
def answering (name : String) (f : HostFunction) (go : Flow String) :
    (budget calls : Nat) → Flow (Except StoryError String × List (List Value))
  | 0, _ => do
    let line ← attempt go
    return (line, [])
  | budget + 1, calls => do
    let line ← attempt go
    match (← get).pending with
    | none => return (line, [])
    | some call =>
      if call.name = name then
        resolve (f (calls + 1) call.arguments)
        let (line, later) ← answering name f next budget (calls + 1)
        return (line, call.arguments :: later)
      else return (line, [])

/-! ## A line from its first step on -/

/-- Run a line whose first step is `first`. -/
def runFrom (first : Flow Bool) (nodes : Nat) : Flow Bool := do
  match ← attempt first with
  | .error e =>
    recordError e
    return false
  | .ok ended =>
    if (← get).pending.isSome then
      modify fun s => { s with lineOpen := true }
      return false
    else if ended then return true
    else if !(← state).canContinue then return false
    else runLine nodes

theorem runLine_succ (nodes : Nat) : runLine (nodes + 1) = runFrom lineStep nodes := rfl

/-- Run a line, end it if it has come to its end, and tell the host. -/
def finishLine (run : Flow Bool) : Flow String := do
  let ended ← run
  modify (Story.endLine ended)
  tellLine

theorem next_eq : next =
    (refuseWaiting >>= fun _ => openLine false >>= fun _ => finishLine (runLine nodeBudget)) := by
  unfold next continueFor continueLine finishLine tellLine readLine
  simp only [bind_assoc]

variable {s u : Story} {first run : Flow Bool} {nodes : Nat} {ended : Bool}

theorem bind_congr {α β : Type} {x y : Flow α} {k : α → Flow β} {s u : Story} (h : x s = y u) :
    (x >>= k) s = (y >>= k) u := by
  show EStateM.bind x k s = EStateM.bind y k u
  unfold EStateM.bind
  rw [h]

theorem after_congr {α : Type} {x y : Flow α} (h : x s = y u) : x.after s = y.after u := by
  rw [after.eq_def, after.eq_def, h]

theorem after_of_attempt {α : Type} {x : Flow α} {r : Except StoryError α}
    (h : attempt x s = .ok r u) : x.after s = u := by
  unfold attempt at h
  cases hx : x s with
  | ok a v =>
    rw [hx] at h
    cases h
    exact after_of_ok hx
  | error e v =>
    rw [hx] at h
    cases h
    exact after_of_error hx

theorem finishLine_of_run (h : run s = .ok ended u) :
    finishLine run s = tellLine (u.endLine ended) :=
  bind_ok h

theorem runFrom_error {e : StoryError} (h : first s = .error e u) :
    runFrom first nodes s = .ok false { u with state := u.state.fail u.tree e } :=
  bind_ok (attempt_error h)

theorem runFrom_waits (h : first s = .ok ended u) (hwaits : u.pending.isSome = true) :
    runFrom first nodes s = .ok false { u with lineOpen := true } := by
  unfold runFrom
  rw [bind_ok (attempt_ok h)]
  dsimp only
  rw [bind_ok (get_ok u), hwaits]
  rfl

theorem runFrom_finished (h : first s = .ok ended u) (hpending : u.pending = none)
    (hend : ended = true ∨ u.state.canContinue = false) :
    runFrom first nodes s = .ok ended u := by
  unfold runFrom
  rw [bind_ok (attempt_ok h)]
  dsimp only
  rw [bind_ok (get_ok u), hpending, Option.isSome_none, if_neg Bool.false_ne_true]
  cases ended with
  | true => rfl
  | false =>
    rw [if_neg Bool.false_ne_true, bind_ok (state_ok u), hend.resolve_left Bool.false_ne_true]
    rfl

theorem runFrom_congr {first' : Flow Bool} (h : first s = first' u) :
    runFrom first nodes s = runFrom first' nodes u := by
  have hattempt : attempt first s = attempt first' u := by
    unfold attempt
    rw [h]
  exact bind_congr hattempt

theorem runFrom_goesOn (h : first s = .ok false u) (hpending : u.pending = none)
    (hcontinue : u.state.canContinue = true) : runFrom first nodes s = runLine nodes u := by
  unfold runFrom
  rw [bind_ok (attempt_ok h)]
  dsimp only
  rw [bind_ok (get_ok u), hpending, Option.isSome_none, if_neg Bool.false_ne_true,
    if_neg Bool.false_ne_true, bind_ok (state_ok u), hcontinue]
  rfl

/-! ## Answers -/

variable {name : String} {f : HostFunction} {go : Flow String} {budget calls : Nat}
  {r : Except StoryError String}

theorem answering_congr {go' : Flow String} (h : go s = go' u) :
    answering name f go budget calls s = answering name f go' budget calls u := by
  have hattempt : attempt go s = attempt go' u := by
    unfold attempt
    rw [h]
  cases budget with
  | zero => exact bind_congr hattempt
  | succ budget => exact bind_congr hattempt

/-- Nothing is left to answer. -/
theorem answering_stops (h : attempt go s = .ok r u) (hcalls : ∀ call ∈ u.pending, call.name ≠ name) :
    answering name f go budget calls s = .ok (r, []) u := by
  cases budget with
  | zero => exact bind_ok h
  | succ budget =>
    unfold answering
    rw [bind_ok h, bind_ok (get_ok u)]
    cases hpending : u.pending with
    | none => rfl
    | some call =>
      dsimp only
      rw [if_neg (hcalls call hpending)]
      rfl

/-- A call is answered, and the line continued. -/
theorem answering_resolves {arguments : List Value} (h : attempt go s = .ok r u)
    (hcall : u.pending = some ⟨name, arguments⟩) :
    answering name f go (budget + 1) calls s =
      (answering name f next budget (calls + 1) >>= fun p => pure (p.1, arguments :: p.2))
        { u with
          pending := none
          state := u.state.push (.ofAnswer (f (calls + 1) arguments)) } := by
  rw [answering, bind_ok h, bind_ok (get_ok u), hcall]
  dsimp only
  rw [if_pos rfl, bind_ok (resolve_ok hcall _)]

end Flow

namespace Story

variable {c : Content} {name : String} {f : HostFunction} {answered : List (List Value)}
  {x x' y y' : Flow String} {budget : Nat} {d s d' s' : Story}

/-- The line that `x` continues in the first story comes to the same as the line that `y`, and
then the answers, continue in the second one. -/
def SameLine (c : Content) (name : String) (f : HostFunction) (answered : List (List Value))
    (x : Flow String) (d : Story) (y : Flow String) (budget : Nat) (s : Story) : Prop :=
  ∃ r r' later d' s', Flow.attempt x d = .ok r d' ∧
    Flow.answering name f y budget answered.length s = .ok (r', later) s' ∧
    r.toOption = r'.toOption ∧ SideBySide c name f (answered ++ later) d' s'

theorem SameLine.congr (hx : x d = x' d') (hy : y s = y' s')
    (h : SameLine c name f answered x' d' y' budget s') :
    SameLine c name f answered x d y budget s := by
  obtain ⟨r, r', later, d'', s'', hd, hs, hsame⟩ := h
  refine ⟨r, r', later, d'', s'', ?_, ?_, hsame⟩
  · rw [← hd]
    unfold Flow.attempt
    rw [hx]
  · rw [← hs]
    exact Flow.answering_congr hy

theorem Ready.told (h : d.Ready) (htold : d.Told d') : d'.Ready := by
  obtain ⟨_, _, _, rfl⟩ := htold.eq
  exact { h with }

/-- Nothing is left of the line but to tell the host. -/
theorem SideBySide.tell (h : SideBySide c name f answered d s) (budget : Nat) :
    SameLine c name f answered Flow.tellLine d Flow.tellLine budget s := by
  have hbeside := h.beside
  obtain ⟨r, d', hd, hr, hdtold⟩ := Flow.attempt_tellLine d
  obtain ⟨r', s', hs, hr', hstold⟩ := Flow.attempt_tellLine s
  have hbeside' := Beside.told hdtold hstold hbeside
  have hlineOpen : d'.lineOpen = s'.lineOpen ∧ d'.lineOpen = d.lineOpen := by
    obtain ⟨_, _, _, rfl⟩ := hdtold.eq
    obtain ⟨_, _, _, rfl⟩ := hstold.eq
    exact ⟨h.lineOpen, rfl⟩
  refine ⟨r, r', [], d', s', hd, Flow.answering_stops hs fun call hcall => ?_, ?_, ?_⟩
  · exact hbeside'.parts.waits call (hbeside'.parts.pending.trans hcall)
  · rw [hr, hr']
    unfold lineText?
    rw [hbeside.state.hasError_eq, hbeside.parts.handler, hbeside.parts.pending, h.lineOpen,
      hbeside.sameState.output]
  · rw [List.append_nil]
    exact ⟨hbeside', hlineOpen.1, fun hopen => (h.ready (hlineOpen.2.symm.trans hopen)).told hdtold⟩

/-- A line whose first step begins to wait for the host stays open. -/
theorem finishLine_waits {first : Flow Bool} {ended : Bool} (h : first s = .ok ended s')
    (hwaits : s'.pending.isSome = true) (nodes : Nat) :
    Flow.finishLine (Flow.runFrom first nodes) s = Flow.tellLine { s' with lineOpen := true } := by
  rw [Flow.finishLine_of_run (Flow.runFrom_waits h hwaits)]
  unfold Story.endLine
  rw [← Option.not_isSome, hwaits]
  rfl

/-- A line from its first step on. -/
theorem SameLine.runFrom {first first' : Flow Bool} {n m : Nat}
    (hfirst : Outcome (Beside c name f answered) (Beside c name f answered) (first d) (first' s))
    (herror : ∀ e u, first d = .error e u → u.pending = none)
    (hwaits : ∀ ended u, first d = .ok ended u → u.pending.isSome = true → u.Ready)
    (hgoesOn : ∀ d' s', first d = .ok false d' → Beside c name f answered d' s' →
      d'.pending = none → d'.state.canContinue = true → SameLine c name f answered
        (Flow.finishLine (Flow.runLine n)) d' (Flow.finishLine (Flow.runLine m)) budget s') :
    SameLine c name f answered (Flow.finishLine (Flow.runFrom first n)) d
      (Flow.finishLine (Flow.runFrom first' m)) budget s := by
  -- A line that has come to its end is closed in both stories.
  have hclosed : ∀ (ended : Bool) (d' s' : Story), Beside c name f answered d' s' →
      d'.pending = none → (ended = true ∨ d'.state.canContinue = false) →
      SideBySide c name f answered (d'.endLine ended) (s'.endLine ended) := by
    intro ended d' s' hbeside hpending hend
    have hcloses : ∀ v : Story, v.pending = none →
        (ended = true ∨ v.state.canContinue = false) → (v.endLine ended).lineOpen = false := by
      intro v hpending hend
      have hcondition : (v.pending.isNone && (ended || !v.state.canContinue)) = true := by
        rcases hend with h | h
        · simp [hpending, h]
        · simp [hpending, h]
      unfold Story.endLine
      rw [if_pos hcondition]
      rfl
    have hd := hcloses d' hpending hend
    have hs := hcloses s' (hbeside.parts.pending.symm.trans hpending)
      (hbeside.state.canContinue_eq ▸ hend)
    refine ⟨hbeside.endLine ended, hd.trans hs.symm, fun hopen => ?_⟩
    rw [hd] at hopen
    cases hopen
  rcases hfirst.cases with ⟨ended, d', s', hd, hs, hbeside⟩ | ⟨e, d', s', hd, hs, hbeside⟩
  · cases hpending : d'.pending with
    | some call =>
      have hwait : d'.pending.isSome = true := by rw [hpending]; rfl
      have hwait' : s'.pending.isSome = true := by rw [← hbeside.parts.pending, hwait]
      have hside : SideBySide c name f answered { d' with lineOpen := true }
          { s' with lineOpen := true } :=
        ⟨hbeside.of_parts rfl rfl hbeside.sameState { hbeside.parts with }, rfl,
          fun _ => { hwaits ended d' hd hwait with }⟩
      exact SameLine.congr (finishLine_waits hd hwait n) (finishLine_waits hs hwait' m)
        (hside.tell budget)
    | none =>
      have hpending' : s'.pending = none := hbeside.parts.pending.symm.trans hpending
      by_cases hend : ended = true ∨ d'.state.canContinue = false
      · exact SameLine.congr (Flow.finishLine_of_run (Flow.runFrom_finished hd hpending hend))
          (Flow.finishLine_of_run (Flow.runFrom_finished hs hpending'
            (hbeside.state.canContinue_eq ▸ hend)))
          ((hclosed ended d' s' hbeside hpending hend).tell budget)
      · rw [not_or, Bool.not_eq_true, Bool.not_eq_false] at hend
        obtain ⟨rfl, hcontinue⟩ := hend
        exact SameLine.congr (Flow.bind_congr (Flow.runFrom_goesOn hd hpending hcontinue))
          (Flow.bind_congr (Flow.runFrom_goesOn hs hpending'
            (hbeside.state.canContinue_eq.symm.trans hcontinue)))
          (hgoesOn d' s' hd hbeside hpending hcontinue)
  · exact SameLine.congr (Flow.finishLine_of_run (Flow.runFrom_error hd))
      (Flow.finishLine_of_run (Flow.runFrom_error hs))
      ((hclosed false _ _ (hbeside.recordError e) (herror e d' hd) (.inr rfl)).tell budget)

/-- A line in progress is gone on with. -/
theorem next_of_open (hpending : s.pending = none) (hopen : s.lineOpen = true) : Flow.next s =
    Flow.finishLine (Flow.runLine Flow.nodeBudget) { s with metUnsafeCall := false } := by
  have hidle : Flow.refuseWaiting s = .ok () s := by
    unfold Flow.refuseWaiting
    rw [Flow.bind_ok (Flow.get_ok s), hpending]
    rfl
  rw [Flow.next_eq, Flow.bind_ok hidle, Flow.bind_ok (Flow.openLine_of_open false hopen)]

/-- The story in which the host has given an answer and continues. -/
def answeredStory (s : Story) (answer : Token) : Story :=
  { s with
    lineOpen := true, pending := none, metUnsafeCall := false, state := s.state.push answer }

/-- A line that begins to wait gets the answer, and is gone on with. -/
theorem answering_waits {arguments : List Value} (hs : Flow.lineStep s = .ok false s')
    (hwaiting : s'.pending = some ⟨name, arguments⟩) (calls : Nat) :
    ∃ u, s'.Told u ∧ ∀ budget m,
      Flow.answering name f (Flow.finishLine (Flow.runLine (m + 1))) (budget + 1) calls s =
        (Flow.answering name f (Flow.finishLine (Flow.runLine Flow.nodeBudget)) budget (calls + 1) >>=
          fun p => pure (p.1, arguments :: p.2))
          (u.answeredStory (.ofAnswer (f (calls + 1) arguments))) := by
  have hwaits : s'.pending.isSome = true := by rw [hwaiting]; rfl
  obtain ⟨r, u, hu, -, htold⟩ := Flow.attempt_tellLine { s' with lineOpen := true }
  obtain ⟨warnings, events, shown, heq⟩ := htold.eq
  have hopen : u.lineOpen = true := by rw [heq]
  have hcall : u.pending = some ⟨name, arguments⟩ := by rw [heq]; exact hwaiting
  refine ⟨{ u with lineOpen := s'.lineOpen }, ⟨⟨warnings, events, shown, by rw [heq]⟩, htold.calls⟩,
    fun budget m => ?_⟩
  have hgo : Flow.attempt (Flow.finishLine (Flow.runLine (m + 1))) s = .ok r u := by
    rw [← hu, Flow.runLine_succ]
    unfold Flow.attempt
    rw [finishLine_waits hs hwaits]
  rw [Flow.answering_resolves hgo hcall]
  refine Flow.bind_congr (Flow.answering_congr ?_)
  rw [next_of_open (s := { u with
    pending := none, state := u.state.push (.ofAnswer (f (calls + 1) arguments)) }) rfl hopen]
  unfold answeredStory
  rw [← hopen]

/-- What is left of a line behind a call. -/
theorem SameLine.settle {n : Nat} {v : Story} (hlineStep : Flow.lineStep v = Flow.settle d)
    (hpending : v.pending = none) (hready : v.Ready) (hready' : d.Ready)
    (hkept : d.lineState = none) (hpending' : d.pending = none)
    (h : Beside c name f answered d s)
    (hgoesOn : ∀ d' s' q, v.goesOn? = some d' → Flow.nodeBudget ≤ q + 1 →
      Beside c name f answered d' s' → SameLine c name f answered
        (Flow.finishLine (Flow.runLine n)) d' (Flow.finishLine (Flow.runLine q)) budget s') :
    SameLine c name f answered (Flow.finishLine (Flow.runLine (n + 1))) v
      (Flow.finishLine (Flow.runLine Flow.nodeBudget)) budget s := by
  cases hcontinue : d.state.canContinue with
  | true =>
    have hstep : Flow.lineStep v = .ok false d :=
      hlineStep.trans (hready'.settle hkept hcontinue)
    exact SameLine.congr (Flow.bind_congr (Flow.runFrom_goesOn hstep hpending' hcontinue)) rfl
      (hgoesOn d s _ (goesOn?_eq hstep hpending' hcontinue) (Nat.le_succ _) h)
  | false =>
    -- There is nothing to go on with, and an invisible choice may be taken.
    obtain ⟨q, hq⟩ : ∃ q, Flow.nodeBudget = q + 1 := ⟨10 ^ 12 - 1, rfl⟩
    have hcursor : d.state.cursor = none := by
      rw [State.canContinue, hready'.error, Bool.not_false, Bool.and_true,
        Option.isSome_eq_false_iff, Option.isNone_iff_eq_none] at hcontinue
      exact hcontinue
    have hstep : Flow.lineStep s = Flow.settle s := by
      rw [Flow.lineStep_eq]
      exact Flow.bind_ok (Flow.step_of_none (h.state.cursor_eq.symm.trans hcursor))
    rw [hq]
    refine SameLine.congr (Flow.bind_congr (Flow.runFrom_congr hlineStep))
      (Flow.bind_congr (Flow.runFrom_congr hstep)) (SameLine.runFrom h.settle ?_ ?_ ?_)
    · exact fun e u hu => Flow.pending_of_lineStep_error hpending (hlineStep.trans hu)
    · exact fun ended u hu => hready.waits hpending (hlineStep.trans hu)
    · exact fun d' s' hd' hbeside hnone hgo =>
        hgoesOn d' s' q (goesOn?_eq (hlineStep.trans hd') hnone hgo) (Nat.le_of_eq hq) hbeside

/-- A line that calls the function next. In the second story it waits, and goes on behind the call
as soon as it has the answer. -/
theorem SameLine.callLine {n m : Nat} (hcall : d.CallsNow name) (hanswer : d.LeavesAnswer)
    (hpending : d.pending = none) (hready : d.Ready) (h : Beside c name f answered d s)
    (hgoesOn : ∀ arguments d' s' q, d.goesOn? = some d' → Flow.nodeBudget ≤ q + 1 →
      Beside c name f (answered ++ [arguments]) d' s' →
      SameLine c name f (answered ++ [arguments]) (Flow.finishLine (Flow.runLine n)) d'
        (Flow.finishLine (Flow.runLine q)) budget s') :
    SameLine c name f answered (Flow.finishLine (Flow.runLine (n + 1))) d
      (Flow.finishLine (Flow.runLine (m + 1))) (budget + 1) s := by
  rcases Beside.callStep hcall hanswer hpending h with
    ⟨e, d₁, s₁, hd₁, hs₁, h₁⟩ | ⟨arguments, d₁, s₁, hd₁, hs₁, hwaiting, h₁⟩
  · have hd : Flow.lineStep d = .error e d₁ := by
      rw [Flow.lineStep_eq]
      exact Flow.bind_error hd₁
    have hs : Flow.lineStep s = .error e s₁ := by
      rw [Flow.lineStep_eq]
      exact Flow.bind_error hs₁
    have hpending₁ := Flow.pending_of_lineStep_error hpending hd
    rw [Flow.runLine_succ, Flow.runLine_succ]
    refine SameLine.runFrom ?_ ?_ ?_ ?_
    · rw [hd, hs]
      exact .error h₁
    · intro e' u hu
      rw [hd] at hu
      cases hu
      exact hpending₁
    · intro ended u hu
      rw [hd] at hu
      cases hu
    · intro d' s' hd'
      rw [hd] at hd'
      cases hd'
  · have hs : Flow.lineStep s = .ok false s₁ := by
      rw [Flow.lineStep_eq, Flow.bind_ok hs₁, Flow.settle_waits (by rw [hwaiting]; rfl)]
    obtain ⟨u, htold, hanswering⟩ := @answering_waits name f s s₁ arguments hs hwaiting answered.length
    obtain ⟨id, divert, hleaf, -⟩ := nextLeaf?_of_nextCall? hcall.1
    have hquiet := Flow.quiet_step hleaf
    rw [Flow.after_of_ok hd₁] at hquiet
    have hready₁ := hready.quiet hquiet hcall.2
    have h₄ : Beside c name f (answered ++ [arguments]) d₁
        (u.answeredStory (.ofAnswer (f (answered.length + 1) arguments))) := by
      have hcalls : d₁.callsOf name = u.callsOf name ++ (answered ++ [arguments]) := by
        rw [htold.calls]
        exact h₁.parts.calls
      obtain ⟨_, _, _, rfl⟩ := htold.eq
      exact h₁.of_parts rfl rfl ⟨{ h₁.state with }, h₁.sameState.output⟩
        { h₁.parts with met := hready₁.met, calls := hcalls }
    have hlineStep : Flow.lineStep d = Flow.settle d₁ := by
      rw [Flow.lineStep_eq, Flow.bind_ok hd₁]
    obtain ⟨r, r', later, d', s', hd', hs', hsame, hside⟩ :=
      SameLine.settle hlineStep hpending hready hready₁ (hquiet.lineState_eq.trans hcall.2)
        h₁.parts.pending h₄ (hgoesOn arguments)
    refine ⟨r, r', arguments :: later, d', s', hd', ?_, hsame, ?_⟩
    · rw [hanswering]
      rw [List.length_append] at hs'
      exact Flow.bind_ok hs'
    · rw [List.append_cons]
      exact hside

/-- A line that calls the function only where the answer stays on top comes to the same, unless it
is cut off behind a call. The induction is on the nodes that the first story may execute; the second
one may execute as many, at least, whenever it is continued. -/
theorem SameLine.runLine {n m : Nat} (hn : n ≤ m) (hnodes : n ≤ Flow.nodeBudget)
    (h : Beside c name f answered d s) (hready : d.Ready) (hpending : d.pending = none)
    (hgo : 0 < n ∨ d.state.canContinue = true)
    (hanswers : ∀ v, d.Passes n v → v.CallsNow name → v.LeavesAnswer)
    (hroom : n ≤ budget ∧ (((Flow.finishLine (Flow.runLine n)).after d).lineOpen = true →
        ((Flow.finishLine (Flow.runLine n)).after d).pending.isSome = true) ∨
      n = m ∧ ∀ v, d.Passes n v → ¬ v.CallsNow name) :
    SameLine c name f answered (Flow.finishLine (Flow.runLine n)) d
      (Flow.finishLine (Flow.runLine m)) budget s := by
  induction n generalizing answered d s m budget with
  | zero =>
    -- The line is cut off, in both stories.
    have hcontinue := hgo.resolve_left (Nat.lt_irrefl 0)
    have hstays : ∀ v : Story, v.state.canContinue = true →
        Flow.finishLine (Flow.runLine 0) v = Flow.tellLine { v with lineOpen := true } := by
      intro v hv
      have hrun : Flow.runLine 0 v = .ok false { v with lineOpen := true } := rfl
      refine (Flow.finishLine_of_run hrun).trans (congrArg Flow.tellLine ?_)
      unfold Story.endLine
      dsimp only
      rw [hv]
      simp
    rcases hroom with ⟨-, hends⟩ | ⟨rfl, -⟩
    · obtain ⟨r, u, hu, -, htold⟩ := Flow.attempt_tellLine { d with lineOpen := true }
      rw [Flow.after_congr (hstays d hcontinue), Flow.after_of_attempt hu] at hends
      obtain ⟨_, _, _, rfl⟩ := htold.eq
      have hsome : d.pending.isSome = true := hends rfl
      rw [hpending] at hsome
      cases hsome
    · have hside : SideBySide c name f answered { d with lineOpen := true }
          { s with lineOpen := true } :=
        ⟨h.of_parts rfl rfl h.sameState { h.parts with }, rfl, fun _ => { hready with }⟩
      exact SameLine.congr (hstays d hcontinue)
        (hstays s (h.state.canContinue_eq.symm.trans hcontinue)) (hside.tell budget)
  | succ n ih =>
    obtain ⟨m, rfl⟩ : ∃ m', m = m' + 1 := ⟨m - 1, by omega⟩
    have hrest : ∀ {d' : Story}, Flow.lineStep d = .ok false d' → d'.pending = none →
        d'.state.canContinue = true → (Flow.finishLine (Flow.runLine (n + 1))).after d =
          (Flow.finishLine (Flow.runLine n)).after d' := fun hd hnone hcontinue =>
      Flow.after_congr (Flow.bind_congr (Flow.runFrom_goesOn hd hnone hcontinue))
    by_cases hcall : d.CallsNow name
    · obtain ⟨hbudget, hends⟩ := hroom.resolve_right fun hnone => hnone.2 d (.here n d) hcall
      obtain ⟨budget, rfl⟩ : ∃ b, budget = b + 1 := ⟨budget - 1, by omega⟩
      refine SameLine.callLine hcall (hanswers d (.here n d) hcall) hpending hready h
        fun arguments d' s' q hstep hq hbeside => ?_
      obtain ⟨hd, hpending', hcontinue⟩ := Flow.lineStep_of_goesOn? hstep
      rw [hrest hd hpending' hcontinue] at hends
      exact ih (by omega) (by omega) hbeside (hready.goesOn hstep) hpending' (.inr hcontinue)
        (fun v hv => hanswers v (.step hstep hv)) (.inl ⟨by omega, hends⟩)
    · have hcalls : d.nextCall? = some name → d.lineState.isSome = true := by
        intro hname
        cases hkept : d.lineState with
        | some kept => rfl
        | none => exact absurd ⟨hname, hkept⟩ hcall
      refine SameLine.runFrom (Beside.lineStep hcalls h)
        (fun e u hu => Flow.pending_of_lineStep_error hpending hu)
        (fun ended u hu hwaits => hready.waits hpending hu hwaits)
        fun d' s' hd hbeside hpending' hcontinue => ?_
      have hstep := goesOn?_eq hd hpending' hcontinue
      refine ih (by omega) (by omega) hbeside (hready.goesOn hstep) hpending' (.inr hcontinue)
        (fun v hv => hanswers v (.step hstep hv)) ?_
      rw [hrest hd hpending' hcontinue] at hroom
      exact hroom.imp (fun hends => ⟨by omega, hends.2⟩)
        fun hnone => ⟨by omega, fun v hv => hnone.2 v (.step hstep hv)⟩

/-- A line is opened in both stories, or in neither. -/
theorem SideBySide.openLine (h : SideBySide c name f answered d s) :
    (∃ d' s', Flow.openLine false d = .ok () d' ∧ Flow.openLine false s = .ok () s' ∧
      Beside c name f answered d' s') ∨
    ∃ e d' s', Flow.openLine false d = .error e d' ∧ Flow.openLine false s = .error e s' ∧
      SideBySide c name f answered d' s' := by
  have hbeside := h.beside
  cases hopen : d.lineOpen with
  | true =>
    refine .inl ⟨_, _, Flow.openLine_of_open false hopen,
      Flow.openLine_of_open false (h.lineOpen.symm.trans hopen), ?_⟩
    exact hbeside.of_parts rfl rfl hbeside.sameState { hbeside.parts with met := rfl }
  | false =>
    have hopen' : s.lineOpen = false := h.lineOpen.symm.trans hopen
    cases hcontinue : d.state.canContinue with
    | true =>
      refine .inl ⟨_, _, Flow.openLine_of_canContinue false hopen hcontinue,
        Flow.openLine_of_canContinue false hopen'
          (hbeside.state.canContinue_eq.symm.trans hcontinue), ?_⟩
      have hbegun : Beside c name f answered { d with lineOpen := false }
          { s with lineOpen := false } :=
        hbeside.of_parts rfl rfl hbeside.sameState { hbeside.parts with }
      have hfresh := Beside.freshLine hbegun
      exact hfresh.of_parts rfl rfl hfresh.sameState { hfresh.parts with met := rfl }
    | false =>
      have hrefused : ∀ v : Story, v.lineOpen = false → v.state.canContinue = false →
          Flow.openLine false v = .error (.flow .cannotContinue) v := by
        intro v hv hcontinue
        rw [Flow.openLine_cannotContinue false hv hcontinue, ← hv]
      exact .inr ⟨_, d, s, hrefused d hopen hcontinue, hrefused s hopen'
        (hbeside.state.canContinue_eq.symm.trans hcontinue), h⟩

/-- A continue of the first story comes to the same as a continue with answers of the second one,
unless the line is cut off behind a call. -/
theorem SideBySide.next (h : SideBySide c name f answered d s)
    (hanswers : ∀ v, d.Visits false Flow.nodeBudget v → v.CallsNow name → v.LeavesAnswer)
    (hroom : Flow.nodeBudget ≤ budget ∧
        ((Flow.next.after d).lineOpen = true → (Flow.next.after d).pending.isSome = true) ∨
      ∀ v, d.Visits false Flow.nodeBudget v → ¬ v.CallsNow name) :
    SameLine c name f answered Flow.next d Flow.next budget s := by
  have hrefused : ∀ e d' s', Flow.next d = .error e d' → Flow.next s = .error e s' →
      SideBySide c name f answered d' s' →
      SameLine c name f answered Flow.next d Flow.next budget s := by
    intro e d' s' hd hs hside
    refine ⟨.error e, .error e, [], d', s', Flow.attempt_error hd,
      Flow.answering_stops (Flow.attempt_error hs) fun call hcall => ?_, rfl, ?_⟩
    · exact hside.beside.parts.waits call (hside.beside.parts.pending.trans hcall)
    · rwa [List.append_nil]
  rw [Flow.next_eq] at *
  cases hpending : d.pending with
  | some call =>
    have hwaits : ∀ v : Story, v.pending = some call →
        Flow.refuseWaiting v = .error (.request (.waiting call.name)) v := by
      intro v hv
      unfold Flow.refuseWaiting
      rw [Flow.bind_ok (Flow.get_ok v), hv]
      rfl
    exact hrefused _ d s (Flow.bind_error (hwaits d hpending))
      (Flow.bind_error (hwaits s (h.beside.parts.pending.symm.trans hpending))) h
  | none =>
    have hidle : ∀ v : Story, v.pending = none → Flow.refuseWaiting v = .ok () v := by
      intro v hv
      unfold Flow.refuseWaiting
      rw [Flow.bind_ok (Flow.get_ok v), hv]
      rfl
    have hd := hidle d hpending
    have hs := hidle s (h.beside.parts.pending.symm.trans hpending)
    rcases h.openLine with ⟨d', s', hd', hs', hbeside⟩ | ⟨e, d', s', hd', hs', hside⟩
    · have hrest : ∀ {v w : Story}, Flow.refuseWaiting v = .ok () v →
          Flow.openLine false v = .ok () w →
          (Flow.refuseWaiting >>= fun _ => Flow.openLine false >>= fun _ =>
            Flow.finishLine (Flow.runLine Flow.nodeBudget)) v =
              Flow.finishLine (Flow.runLine Flow.nodeBudget) w := fun hv hw =>
        (Flow.bind_ok hv).trans (Flow.bind_ok hw)
      rw [Flow.after_congr (hrest hd hd')] at hroom
      refine SameLine.congr (hrest hd hd') (hrest hs hs') (SameLine.runLine (Nat.le_refl _)
        (Nat.le_refl _) hbeside (Ready.openLine h.ready hd')
        ((Flow.pending_of_openLine hd').trans hpending) (.inl (by decide))
        (fun v hv => hanswers v ⟨d', hd', hv⟩)
        (hroom.imp_right fun hnone => ⟨rfl, fun v hv => hnone v ⟨d', hd', hv⟩⟩))
    · exact hrefused e d' s' ((Flow.bind_ok hd).trans (Flow.bind_error hd'))
        ((Flow.bind_ok hs).trans (Flow.bind_error hs')) hside

end Story

end StoryMachine
