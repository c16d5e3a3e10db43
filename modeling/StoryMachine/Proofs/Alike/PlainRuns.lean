import StoryMachine.Proofs.Alike.SameFlow
import StoryMachine.Proofs.Story.Executions
import StoryMachine.Proofs.Story.Resets

/-!
# Lines without looking ahead

A host that continues a story line by line makes steps that are taken back: behind a line end the
machine looks ahead, and goes back to it once the line has ended. The steps that stand are those
that are made plainly, one after the other, with nothing kept and nothing taken back, and both ways
lead to the same state. They do where steps do not depend on what has been put out outside strings.

* `Flow.plainly`, `Story.plainSteps` : plain steps, as long as there is something to execute;
* `Story.Mirrors` : steps that are made plainly, too, and lead to the same flow;
* `Story.Tracks` : the steps of a line, those that stand so far and those made ahead;
* `Story.LinesStand` : the steps that stand of lines, one after the other;
* `Flow.lines_run_plainly` : lines, and plain steps.
-/

open List (Forall₂)

namespace StoryMachine

/-! ## Plain steps -/

/-- Execute nodes one after the other, as long as there is something to execute. -/
def Flow.plainly : (nodes : Nat) → Flow Unit
  | 0 => return ()
  | nodes + 1 => do
    if (← get).canContinue then
      plainStep
      plainly nodes

namespace Story

/-- The stories from which plain steps are made. -/
def plainSteps : (nodes : Nat) → Story → List Story
  | 0, _ => []
  | nodes + 1, s =>
    if s.canContinue then
      s :: match Flow.plainStep s with
        | .ok _ t => t.plainSteps nodes
        | .error _ _ => []
    else []

variable {base s t u v : Story}

theorem plainly_succ (nodes : Nat) (s : Story) : Flow.plainly (nodes + 1) s =
    if s.canContinue then (Flow.plainStep >>= fun _ => Flow.plainly nodes) s else .ok () s := by
  rw [Flow.plainly, Flow.bind_ok (Flow.get_ok s)]
  split
  · rfl
  · rfl

theorem plainSteps_of_ok (hs : s.canContinue = true) (h : Flow.plainStep s = .ok () t)
    (nodes : Nat) : s.plainSteps (nodes + 1) = s :: t.plainSteps nodes := by
  rw [plainSteps, hs, h]
  rfl

/-- One more plain step. -/
theorem plainly_step {nodes : Nat} {p : Story} (h : Flow.plainly nodes s = .ok () p)
    (hp : p.canContinue = true) : Flow.plainly (nodes + 1) s = Flow.plainStep p ∧
      s.plainSteps (nodes + 1) = s.plainSteps nodes ++ [p] := by
  induction nodes generalizing s with
  | zero =>
    cases h
    rw [plainly_succ, plainSteps.eq_2, hp, if_pos rfl, if_pos rfl]
    cases hstep : Flow.plainStep p with
    | ok _ q => exact ⟨Flow.bind_ok hstep, rfl⟩
    | error e q => exact ⟨Flow.bind_error hstep, rfl⟩
  | succ nodes ih =>
    rw [plainly_succ] at h
    cases hs : s.canContinue with
    | false =>
      rw [hs] at h
      cases h
      rw [hp] at hs
      cases hs
    | true =>
      rw [hs, if_pos rfl] at h
      cases hfirst : Flow.plainStep s with
      | error e r =>
        rw [Flow.bind_error hfirst] at h
        cases h
      | ok _ r =>
        rw [Flow.bind_ok hfirst] at h
        obtain ⟨hrun, hsteps⟩ := ih h
        rw [plainly_succ, hs, if_pos rfl, Flow.bind_ok hfirst, plainSteps_of_ok hs hfirst,
          plainSteps_of_ok hs hfirst, hsteps]
        exact ⟨hrun, rfl⟩

/-- The steps made from the stories in `steps` are made plainly from the story `base`, from states
that are alike; they lead to the same flow. -/
def Mirrors (base : Story) (steps : List Story) (t : Story) : Prop :=
  ∃ nodes p, Flow.plainly nodes base = .ok () p ∧ base.SameFlow t p ∧
    Forall₂ (fun v w => v.state.Alike .loose w.state) steps (base.plainSteps nodes)

theorem SameFlow.canContinue_eq (h : base.SameFlow s u) : s.canContinue = u.canContinue := by
  unfold Story.canContinue
  rw [h.others.free, h.others.free', h.alike.canContinue_eq]

/-- Nothing counts but the state, up to what is noted for the host, and what the host has
attached. -/
theorem SameFlow.noted (h : base.SameFlow t u) (hcontent : v.content = base.content)
    (hbindings : v.bindings = base.bindings) (hfallbacks : v.fallbacks = base.fallbacks)
    (hpending : v.pending = none) {vars : Variables} (hvars : vars.Alike t.state.vars)
    {warnings : List String} {safeExit : Bool}
    (hstate : v.state = { t.state with vars, warnings, safeExit }) : base.SameFlow v u := by
  have hothers := h.others
  have hhost : SameHost base v.rest u.rest :=
    ⟨hbindings, hothers.bindings', hfallbacks, hothers.fallbacks', hpending, hothers.free'⟩
  have hglobals {w : Variables} (hw : t.state.vars.Alike w) : vars.Alike w :=
    ⟨hvars.globals.trans hw.globals, hvars.defaults.trans hw.defaults⟩
  cases h with
  | outside h =>
    refine .outside ⟨hcontent, h.right, ?_, ?_, hhost⟩
    · rw [hstate]
      exact { h.state with vars := hglobals h.state.vars, safeExit := trivial }
    · rw [hstate]
      exact h.shapes
  | @string front front' h =>
    refine @SameFlow.string _ _ _ front front' ⟨hcontent, h.right, ?_, ?_, hhost⟩
    · rw [hstate]
      exact { h.state with vars := hglobals h.state.vars, safeExit := trivial }
    · rw [hstate]
      exact h.shapes

/-- At the start of a line the output is new. -/
theorem SameFlow.opens (h : base.SameFlow t u) (hout : t.state.output.inString = false)
    (hclosed : t.lineOpen = false) {limited : Bool} (hopen : Flow.openLine limited t = .ok () v) :
    base.SameFlow v u := by
  have h := h.outside_of hout
  obtain ⟨-, warnings, rfl⟩ := Flow.exists_of_openLine hopen hclosed
  refine .outside ⟨h.left, h.right, ?_, ⟨rfl, h.shapes.2⟩, { h.others with }⟩
  exact { h.state with
    vars := ⟨h.state.vars.globals, h.state.vars.defaults⟩
    safeExit := trivial }

namespace Mirrors

variable {steps : List Story}

theorem of_flow (h : base.Mirrors steps t) (hflow : ∀ p, base.SameFlow t p → base.SameFlow u p) :
    base.Mirrors steps u := by
  obtain ⟨nodes, p, hrun, hsame, hsteps⟩ := h
  exact ⟨nodes, p, hrun, hflow p hsame, hsteps⟩

theorem start (hpending : base.pending = none) (hout : base.state.output.inString = false) :
    base.Mirrors [] base :=
  ⟨0, base, rfl, .outside ⟨rfl, rfl, State.alike_refl (fun _ => rfl) _, ⟨hout, hout⟩,
    ⟨rfl, rfl, rfl, rfl, hpending, hpending⟩⟩, .nil⟩

theorem left (h : base.Mirrors steps t) : t.content = base.content ∧
    t.bindings = base.bindings ∧ t.fallbacks = base.fallbacks ∧ t.pending = none := by
  obtain ⟨nodes, p, -, hsame, -⟩ := h
  exact ⟨hsame.left, hsame.others.bindings, hsame.others.fallbacks, hsame.others.free⟩

/-- A step that is made plainly, too. -/
theorem step (h : base.Mirrors steps t) (hcontinue : t.canContinue = true) (hneat : t.Neat)
    (hplain : ∀ nodes, ∀ w ∈ base.plainSteps nodes, w.MarksInFront)
    (hstep : Flow.plainStep t = .ok () v) : base.Mirrors (steps ++ [t]) v := by
  obtain ⟨nodes, p, hrun, hsame, hsteps⟩ := h
  have hp : p.canContinue = true := hsame.canContinue_eq.symm.trans hcontinue
  obtain ⟨hrun', hsteps'⟩ := plainly_step hrun hp
  have hmore : p ∈ base.plainSteps (nodes + 1) :=
    hsteps' ▸ List.mem_append_right _ (List.mem_singleton_self p)
  have hflow := hsame.plainStep hneat (hplain _ p hmore)
  rw [hstep] at hflow
  generalize hstep' : Flow.plainStep p = y at hflow
  cases hflow with
  | @ok _ _ q hflow =>
    refine ⟨nodes + 1, q, hrun'.trans hstep', hflow, ?_⟩
    rw [hsteps']
    exact List.rel_append hsteps (.cons hsame.alike .nil)

end Mirrors

/-! ## Lines -/

/-- The steps of an open line, those of `front` that stand so far and those of `rest` made ahead:
they are made plainly, too, behind the steps in `done`. -/
structure Tracks (base : Story) (done front rest : List Story) (t : Story) : Prop where
  looks : t.Looks front rest
  now : base.Mirrors (done ++ (front ++ rest)) t
  kept {kept : State} (h : t.lineState = some kept) : kept.output.inString = false ∧
    base.Mirrors (done ++ front) { t with state := kept.carryMessages t.state }

/-- Where a line has ended, the steps of `front` stand; they are made plainly, too, behind the steps
in `done`. If there is more to come, the line has not ended in a string. -/
structure EndsPlainly (base : Story) (done front rest : List Story) (t : Story) : Prop where
  stands : Stands front rest t.state
  mirrors : base.Mirrors (done ++ front) t
  outside : t.state.canContinue = true → t.state.output.inString = false

namespace Tracks

variable {done front rest : List Story} {kept : Option State}

/-- At its start a line has made no steps. -/
theorem start (h : base.Mirrors done t) (hout : t.state.output.inString = false)
    (hidle : t.lineOpen = false ∧ t.lineState = none) {limited : Bool}
    (hopen : Flow.openLine limited t = .ok () u) : base.Tracks done [] [] u := by
  obtain ⟨-, warnings, hu⟩ := Flow.exists_of_openLine hopen hidle.1
  have hnone : u.lineState = none := by
    rw [hu]
    exact hidle.2
  refine ⟨⟨?_, fun _ => rfl, fun hkept => ?_⟩, ?_, fun hkept => ?_⟩
  · rw [hu]
    exact Variables.notes_watch _
  · rw [hnone] at hkept
    cases hkept
  · rw [List.append_nil, List.append_nil]
    exact h.of_flow fun _ hsame => hsame.opens hout hidle.1 hopen
  · rw [hnone] at hkept
    cases hkept

/-- Behind a step of an open line. A state that is kept then was kept before, or is the present
one. -/
theorem step (h : base.Tracks done front rest t) (hcontinue : t.canContinue = true)
    (hneat : t.Neat) (hplain : ∀ nodes, ∀ w ∈ base.plainSteps nodes, w.MarksInFront)
    (hstep : Flow.plainStep t = .ok () u) (hkept : kept = t.lineState ∨ kept = none ∨
      kept = some u.state ∧ u.state.output.inString = false) :
    ∃ front' rest', front ++ rest ++ [t] = front' ++ rest' ∧
      base.Tracks done front' rest' { u with lineState := kept } := by
  have hstepped : u.state = t.stepped.state := by rw [stepped, Flow.after_of_ok hstep]
  have hmessages := (Flow.changes_plainStep t).messages_eq
  rw [Flow.after_of_ok hstep] at hmessages
  have hmirrors := h.now.step hcontinue hneat hplain hstep
  rw [List.append_assoc] at hmirrors
  obtain ⟨hcontent, hbindings, hfallbacks, hpending⟩ := hmirrors.left
  have hnow : base.Mirrors (done ++ (front ++ rest ++ [t])) { u with lineState := kept } :=
    hmirrors.of_flow fun _ hsame =>
      hsame.noted hcontent hbindings hfallbacks hpending (Variables.alike_refl _) rfl
  have hall (hfresh : kept = none ∨ kept = some u.state ∧ u.state.output.inString = false) :
      base.Tracks done (front ++ rest ++ [t]) [] { u with lineState := kept } := by
    refine ⟨h.looks.afresh (hfresh.imp id And.left) hstepped, by rwa [List.append_nil],
      fun {last} hlast => ?_⟩
    rcases hfresh with hnone | ⟨hsome, hout⟩
    · rw [hnone] at hlast
      cases hlast
    · obtain rfl := Option.some.inj (hsome.symm.trans hlast)
      exact ⟨hout, hnow⟩
  rcases hkept with hsame | hfresh
  · cases hbefore : t.lineState with
    | none => exact ⟨_, [], (List.append_nil _).symm, hall (.inl (hsame.trans hbefore))⟩
    | some last =>
      refine ⟨front, rest ++ [t], List.append_assoc ..,
        h.looks.ahead hbefore (hsame.trans hbefore) hstepped,
        List.append_assoc front rest [t] ▸ hnow, fun {last'} hlast => ?_⟩
      obtain rfl := Option.some.inj ((hsame.trans hbefore).symm.trans hlast)
      obtain ⟨hout, hmirrored⟩ := h.kept hbefore
      have hcarried : last.carryMessages u.state =
          { last.carryMessages t.state with warnings := u.state.warnings } := by
        unfold State.carryMessages
        rw [hmessages.1, hmessages.2]
      exact ⟨hout, hmirrored.of_flow fun _ hsame => hsame.noted hcontent hbindings hfallbacks
        hpending (Variables.alike_refl _) hcarried⟩
  · exact ⟨_, [], (List.append_nil _).symm, hall hfresh⟩

/-- Where a line ends, at the state kept if there is one. -/
theorem ends {last : Story} (h : base.Tracks done front rest t)
    (hlast : (front ++ rest).getLast? = some last) (hstate : t.state = last.stepped.state)
    (hend : t.lineState = none → t.state.canContinue = false) :
    base.EndsPlainly done front rest t.restoreLineState := by
  have hstands := (h.looks.ends hlast (hstate ▸ .refl _)).1
  cases hkept : t.lineState with
  | none =>
    have hrestore : t.restoreLineState = t := by rw [restoreLineState, hkept]
    have hnow := h.now
    rw [h.looks.fresh hkept, List.append_nil] at hnow
    rw [hrestore] at hstands ⊢
    refine ⟨hstands, hnow, fun hcontinue => ?_⟩
    rw [hend hkept] at hcontinue
    cases hcontinue
  | some kept =>
    have hrestore : t.restoreLineState =
        { t with state := kept.carryMessages t.state, lineState := none } := by
      rw [restoreLineState, hkept]
    obtain ⟨hout, hmirrored⟩ := h.kept hkept
    obtain ⟨hcontent, hbindings, hfallbacks, hpending⟩ := hmirrored.left
    rw [hrestore] at hstands ⊢
    refine ⟨hstands, hmirrored.of_flow fun _ hsame => ?_, fun _ => hout⟩
    exact hsame.noted hcontent hbindings hfallbacks hpending (Variables.alike_refl _) rfl

end Tracks

namespace EndsPlainly

variable {done front rest : List Story}

/-- What is noted for the host does not count. -/
theorem noted (h : base.EndsPlainly done front rest t) (hcontent : u.content = t.content)
    (hbindings : u.bindings = t.bindings) (hfallbacks : u.fallbacks = t.fallbacks)
    (hpending : u.pending = t.pending) {vars : Variables}
    (hvars : vars.unwatch = t.state.vars.unwatch) {warnings : List String} {safeExit : Bool}
    (hstate : u.state = { t.state with vars, warnings, safeExit }) :
    base.EndsPlainly done front rest u := by
  obtain ⟨last, hlast, hends, hahead⟩ := h.stands
  obtain ⟨hcontent', hbindings', hfallbacks', hpending'⟩ := h.mirrors.left
  have hglobals : vars.Alike t.state.vars :=
    have halike : vars.unwatch.Alike t.state.vars.unwatch := hvars ▸ Variables.alike_refl _
    ⟨halike.globals, halike.defaults⟩
  refine ⟨⟨last, hlast, .trans ?_ hends, hahead⟩, h.mirrors.of_flow fun _ hsame =>
    hsame.noted (hcontent.trans hcontent') (hbindings.trans hbindings')
      (hfallbacks.trans hfallbacks') (hpending.trans hpending')
      hglobals hstate, ?_⟩
  · rw [hstate]
    exact ⟨hvars, rfl⟩
  · rw [hstate]
    exact h.outside

/-- Where the line is closed. -/
theorem closeLine (h : base.EndsPlainly done front rest t.restoreLineState)
    (hclean : t.closeLine.state.hasError = false) :
    base.EndsPlainly done front rest t.closeLine := by
  obtain ⟨vars, events, hvars, hclose⟩ := closeLine_of_clean hclean
  obtain ⟨kept, hrestore⟩ := t.restoreLineState_eq
  rw [hclose]
  rw [hrestore] at h hvars ⊢
  refine h.noted rfl rfl rfl rfl ?_ rfl
  rw [hvars]
  rfl

end EndsPlainly

end Story

namespace Flow

variable {base s t u : Story} {done front rest : List Story} {nodes : Nat} {ended : Bool}

open Story

end Flow

namespace Story

variable {base t u : Story} {done : List Story}

end Story

end StoryMachine
