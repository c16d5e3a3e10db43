import StoryMachine.Proofs.Maps
import StoryMachine.Proofs.Story.Assignments
import StoryMachine.Proofs.Story.Failures

/-!
# The steps that stand

While a line runs, the machine notes the global variables that its steps assign. Behind a line end
it may look ahead; the state that it then keeps has its own note, and if the machine goes back to
this state, what it has assigned ahead is forgotten with the note. So where the line has ended,
some of its steps stand and those behind them have been taken back; what is noted is what the
steps that stand have assigned.

* `Variables.Notes` : the variables noted are those that some steps have assigned;
* `Story.steps` : the stories from which steps are made;
* `Story.Looks` : the steps that stand, and those made ahead, while the line runs;
* `Story.Stands` : the steps that stand where a line has ended;
* `Flow.looks_runLine` : what is known of the steps behind a run of a line.
-/

namespace StoryMachine

/-! ## The variables noted -/

namespace Variables

/-- The variables noted are those that some steps have assigned, and they have values. -/
structure Notes (steps : List Story) (v : Variables) : Prop where
  watching : v.watching = true
  changed (name : String) :
    v.changed.contains name = true ↔ ∃ w ∈ steps, w.assigns? = some name
  known (name : String) : v.changed.contains name = true → (v.globals.get? name).isSome = true

variable {v v' : Variables} {steps : List Story}

theorem notes_watch (v : Variables) : v.watch.Notes [] where
  watching := rfl
  changed name := by
    refine ⟨fun h => ?_, fun ⟨w, hw, _⟩ => nomatch hw⟩
    cases h
  known name h := by cases h

/-- A step notes the variable that it assigns. -/
theorem Notes.step {w : Story} (h : v.Notes steps) (hassigned : v.Assigned w.assigns? v') :
    v'.Notes (steps ++ [w]) := by
  generalize hname : w.assigns? = assigned at hassigned
  cases hassigned with
  | none =>
    refine ⟨h.watching, fun name => ?_, h.known⟩
    rw [h.changed]
    simp [or_and_right, exists_or, hname]
  | put name value =>
    have hput : (v.put name value).changed = v.changed.insert name () := by
      unfold put
      dsimp only
      rw [if_pos h.watching]
    have hcontains (other : String) : (v.put name value).changed.contains other = true ↔
        other = name ∨ v.changed.contains other = true := by
      rw [hput, SortedMap.contains, SortedMap.contains]
      by_cases hsame : other = name
      · rw [hsame, SortedMap.get?_insert_self]
        exact ⟨fun _ => .inl rfl, fun _ => rfl⟩
      · rw [SortedMap.get?_insert_of_ne _ _ hsame]
        exact ⟨.inr, fun h => h.resolve_left hsame⟩
    refine ⟨h.watching, fun other => ?_, fun other hother => ?_⟩
    · rw [hcontains, h.changed]
      simp only [List.mem_append, List.mem_singleton, or_and_right, exists_or, exists_eq_left, hname,
        Option.some_inj]
      rw [or_comm, eq_comm]
    · unfold put
      by_cases hsame : other = name
      · rw [hsame, SortedMap.get?_insert_self]
        rfl
      · rw [SortedMap.get?_insert_of_ne _ _ hsame]
        exact h.known other (((hcontains other).mp hother).resolve_left hsame)

/-- What is told at the end: the variables noted, in order of their names, with their values. -/
theorem changes_spec (h : ∀ name, v.changed.contains name = true →
    (v.globals.get? name).isSome = true) : v.changes.Pairwise KeyLt ∧
      (∀ name, name ∈ v.changes.map Prod.fst ↔ v.changed.contains name = true) ∧
      ∀ change ∈ v.changes, v.globals.get? change.1 = some change.2 := by
  have hkey (name : String) : name ∈ v.changed.keys ↔ v.changed.contains name = true := by
    rw [SortedMap.contains, Option.isSome_iff_exists, SortedMap.keys, List.mem_map]
    constructor
    · rintro ⟨⟨_, u⟩, hmem, rfl⟩
      exact ⟨u, SortedMap.mem_entries_iff.mp hmem⟩
    · rintro ⟨u, hget⟩
      exact ⟨(name, u), SortedMap.mem_entries_iff.mpr hget, rfl⟩
  have hmem (change : String × Value) : change ∈ v.changes ↔
      v.changed.contains change.1 = true ∧ v.globals.get? change.1 = some change.2 := by
    unfold changes
    rw [List.mem_filterMap]
    constructor
    · rintro ⟨name, hname, hchange⟩
      obtain ⟨value, hvalue, rfl⟩ := Option.map_eq_some_iff.mp hchange
      exact ⟨(hkey name).mp hname, hvalue⟩
    · rintro ⟨hname, hvalue⟩
      exact ⟨change.1, (hkey change.1).mpr hname, by rw [hvalue]; rfl⟩
  refine ⟨?_, fun name => ?_, fun change hchange => ((hmem change).mp hchange).2⟩
  · have hsorted : v.changed.keys.Pairwise fun a b => compare a b = .lt :=
      List.pairwise_map.mpr v.changed.sorted
    unfold changes
    refine List.Pairwise.filterMap _ (fun a b hlt c hc d hd => ?_) hsorted
    obtain ⟨_, -, rfl⟩ := Option.map_eq_some_iff.mp hc
    obtain ⟨_, -, rfl⟩ := Option.map_eq_some_iff.mp hd
    exact hlt
  · rw [List.mem_map]
    constructor
    · rintro ⟨change, hchange, rfl⟩
      exact ((hmem change).mp hchange).1
    · intro hname
      obtain ⟨value, hvalue⟩ := Option.isSome_iff_exists.mp (h name hname)
      exact ⟨(name, value), (hmem _).mpr ⟨hname, hvalue⟩, rfl⟩

end Variables

/-! ## The steps of a line -/

/-- A line has ended at the state `t`: only the messages, the marks, and what an error ends may
differ. -/
structure State.EndsAt (s t : State) : Prop where
  vars : s.vars.unwatch = t.vars.unwatch
  others : s = { t with
    callStack := s.callStack
    vars := s.vars
    choices := s.choices
    safeExit := s.safeExit
    errors := s.errors
    warnings := s.warnings
    firstError := s.firstError }

namespace State.EndsAt

variable {s t u : State}

theorem refl (s : State) : s.EndsAt s := ⟨rfl, rfl⟩

theorem trans (h : s.EndsAt t) (h' : t.EndsAt u) : s.EndsAt u where
  vars := h.vars.trans h'.vars
  others := h.others.trans (congrArg (fun t : State => { t with
    callStack := s.callStack
    vars := s.vars
    choices := s.choices
    safeExit := s.safeExit
    errors := s.errors
    warnings := s.warnings
    firstError := s.firstError }) h'.others)

theorem fail (s : State) (t : ContentTree) (e : StoryError) : (s.fail t e).EndsAt s := ⟨rfl, rfl⟩

theorem checkEnd (s : State) (t : ContentTree) : (s.checkEnd t).EndsAt s := by
  have hfail (s : State) (e : StoryError) : (s.fail t e).EndsAt s := fail s t e
  unfold State.checkEnd
  split
  · exact refl s
  · dsimp only
    split
    · split
      · exact (hfail _ _).trans (hfail _ _)
      · exact hfail _ _
    · split
      · exact hfail _ _
      · exact refl s

end State.EndsAt

namespace Story

/-- The stories from which steps are made, in order, when a line is continued. -/
def steps : (nodes : Nat) → Story → List Story
  | 0, _ => []
  | nodes + 1, s => s :: match s.goesOn? with
    | some t => t.steps nodes
    | none => []

theorem mem_steps_iff {nodes : Nat} {s u : Story} : u ∈ s.steps nodes ↔ s.Passes nodes u := by
  induction nodes generalizing s with
  | zero =>
    constructor
    · intro h
      cases h
    · intro h
      cases h
  | succ nodes ih =>
    rw [steps, List.mem_cons]
    constructor
    · rintro (rfl | h)
      · exact .here nodes _
      · cases hgo : s.goesOn? with
        | none =>
          rw [hgo] at h
          cases h
        | some t =>
          rw [hgo] at h
          exact .step hgo (ih.mp h)
    · intro h
      cases h with
      | here => exact .inl rfl
      | step hgo hrest =>
        rw [hgo]
        exact .inr (ih.mpr hrest)

/-- The story right behind a step, before the machine sees to the line end. -/
def stepped (s : Story) : Story :=
  Flow.plainStep.after s

/-- The steps of an open line: those of `front` stand, and those of `rest` have been made ahead,
behind the state kept. -/
structure Looks (front rest : List Story) (s : Story) : Prop where
  notes : s.state.vars.Notes (front ++ rest)
  fresh : s.lineState = none → rest = []
  kept {kept : State} (h : s.lineState = some kept) : kept.vars.Notes front ∧
    (∃ last, front.getLast? = some last ∧ last.stepped.state = kept) ∧
    ∀ w ∈ rest, w.lineState = some kept

/-- Where a line has ended, the steps of `front` stand: it has ended at the state behind the last
of them. Those of `rest`, made while this state was kept, have been taken back. -/
def Stands (front rest : List Story) (s : State) : Prop :=
  ∃ last, front.getLast? = some last ∧ s.EndsAt last.stepped.state ∧
    ∀ w ∈ rest, w.lineState = some last.stepped.state

variable {front rest : List Story} {s t u : Story}

/-- At its start a line has made no steps. -/
theorem Looks.start (hkept : s.lineState = none) : s.freshLine.Looks [] [] where
  notes := Variables.notes_watch _
  fresh _ := rfl
  kept h := by
    rw [show s.freshLine.lineState = none from hkept] at h
    cases h

theorem Looks.same (h : s.Looks front rest) (hvars : t.state.vars = s.state.vars)
    (hkept : t.lineState = s.lineState) : t.Looks front rest :=
  ⟨hvars ▸ h.notes, fun hnone => h.fresh (hkept ▸ hnone), fun hsome => h.kept (hkept ▸ hsome)⟩

theorem Looks.notes_step (h : s.Looks front rest) (hstate : t.state = s.stepped.state) :
    t.state.vars.Notes (front ++ rest ++ [s]) := by
  rw [hstate]
  exact h.notes.step (Flow.assigned_plainStep s)

/-- Behind a step all steps stand, if no state is kept, or the present one. -/
theorem Looks.afresh (h : s.Looks front rest)
    (hlineState : t.lineState = none ∨ t.lineState = some t.state)
    (hstate : t.state = s.stepped.state) : t.Looks (front ++ rest ++ [s]) [] := by
  have hnotes := h.notes_step hstate
  refine ⟨by rwa [List.append_nil], fun _ => rfl, fun {kept} hkept => ?_⟩
  rcases hlineState with hnone | hsome
  · rw [hnone] at hkept
    cases hkept
  · rw [hsome] at hkept
    cases hkept
    exact ⟨hnotes, ⟨s, List.getLast?_concat, hstate.symm⟩, fun w hw => nomatch hw⟩

/-- Behind a step the machine goes on looking ahead. -/
theorem Looks.ahead (h : s.Looks front rest) {kept : State} (hkept : s.lineState = some kept)
    (hlineState : t.lineState = some kept) (hstate : t.state = s.stepped.state) :
    t.Looks front (rest ++ [s]) := by
  have hnotes := h.notes_step hstate
  refine ⟨by rwa [← List.append_assoc], fun hnone => ?_, fun {kept'} hkept' => ?_⟩
  · rw [hlineState] at hnone
    cases hnone
  · rw [hlineState] at hkept'
    cases hkept'
    obtain ⟨hfront, hlast, hahead⟩ := h.kept hkept
    refine ⟨hfront, hlast, fun w hw => ?_⟩
    rcases List.mem_append.mp hw with hw | hw
    · exact hahead w hw
    · rw [List.mem_singleton.mp hw]
      exact hkept

/-- Behind a step the machine goes on looking ahead, or all steps stand. -/
theorem Looks.step (h : s.Looks front rest) (hlineState : t.lineState = s.lineState ∨
    t.lineState = none ∨ t.lineState = some t.state) (hstate : t.state = s.stepped.state) :
    ∃ front' rest', front ++ rest ++ [s] = front' ++ rest' ∧ t.Looks front' rest' := by
  rcases hlineState with hsame | hfresh
  · cases hkept : s.lineState with
    | none => exact ⟨_, [], (List.append_nil _).symm, h.afresh (.inl (hsame.trans hkept)) hstate⟩
    | some kept =>
      exact ⟨front, rest ++ [s], List.append_assoc .., h.ahead hkept (hsame.trans hkept) hstate⟩
  · exact ⟨_, [], (List.append_nil _).symm, h.afresh hfresh hstate⟩

/-- Where a line ends behind its last step, the steps that stand are those that do so far, and
what they have assigned is noted. -/
theorem Looks.ends (h : t.Looks front rest) (hlast : (front ++ rest).getLast? = some s)
    (hstate : t.state.EndsAt s.stepped.state) : Stands front rest t.restoreLineState.state ∧
      t.restoreLineState.state.vars.Notes front := by
  unfold restoreLineState
  cases hkept : t.lineState with
  | none =>
    obtain rfl := h.fresh hkept
    have hnotes := h.notes
    rw [List.append_nil] at hlast hnotes
    exact ⟨⟨s, hlast, hstate, fun w hw => nomatch hw⟩, hnotes⟩
  | some kept =>
    obtain ⟨hfront, ⟨last, hfirst, hkeeps⟩, hahead⟩ := h.kept hkept
    refine ⟨⟨last, hfirst, ?_, fun w hw => ?_⟩, hfront⟩
    · rw [hkeeps]
      exact ⟨rfl, rfl⟩
    · rw [hkeeps]
      exact hahead w hw

theorem goesOn?_of_ok {ended : Bool} (h : Flow.lineStep s = .ok ended t) : s.goesOn? =
    if (!ended && (t.pending.isNone && t.state.canContinue)) = true then some t else none := by
  rw [goesOn?, h]
  cases ended with
  | true => rfl
  | false => rfl

/-- Where the line is seen to have ended, the machine has gone back. -/
theorem watchLine_ends (h : s.watchLine = (true, t)) : t = s.restoreLineState := by
  unfold watchLine at h
  split at h
  · cases h
  · dsimp only at h
    split at h
    · cases h
      rfl
    · split at h
      · cases h
      · cases h

end Story

namespace Flow

variable {front rest : List Story} {s t u : Story} {limited ended : Bool} {nodes : Nat}

/-- The story behind a step, once the machine has seen to the line end. -/
theorem stepped_of_lineStep (h : lineStep t = .ok ended u) :
    (u.pending.isSome = true → u = t.stepped) ∧ (ended = true → u = t.stepped.restoreLineState) ∧
      (ended = false → u.state = t.stepped.state) := by
  obtain ⟨w, hplain, hbehind⟩ := lineStep_cases h
  rw [show t.stepped = w from after_of_ok hplain]
  rcases hbehind with ⟨-, rfl, rfl⟩ | ⟨hnone, -, hwatch⟩
  · refine ⟨fun _ => rfl, fun hended => ?_, fun _ => rfl⟩
    cases hended
  · refine ⟨fun hwaits => ?_, fun hended => ?_, fun hended => ?_⟩
    · rw [Story.pending_of_watchLine hwatch, hnone] at hwaits
      cases hwaits
    · rw [hended] at hwatch
      exact Story.watchLine_ends hwatch
    · rw [hended] at hwatch
      exact (Story.watchLine_goesOn hwatch).1

/-- A run of a line: either the line is left open, or it is known which steps stand. -/
theorem looks_runLine (h : t.Looks front rest) (hpending : t.pending = none)
    (hnodes : nodes = 0 → t.state.canContinue = true) (hrun : runLine nodes t = .ok ended u) :
    ∃ front' rest', front ++ rest ++ t.steps nodes = front' ++ rest' ∧
      if (u.pending.isNone && (ended || !u.state.canContinue)) = true then
        Story.Stands front' rest' u.restoreLineState.state ∧
          u.restoreLineState.state.vars.Notes front'
      else u.Looks front' rest' ∧ u.lineOpen = true := by
  induction nodes generalizing t front rest with
  | zero =>
    cases hrun
    refine ⟨front, rest, List.append_nil _, ?_⟩
    rw [if_neg (by rw [hnodes rfl]; simp)]
    exact ⟨h.same rfl rfl, rfl⟩
  | succ nodes ih =>
    -- The story right behind the step, before the machine sees to the line end.
    obtain ⟨front', rest', hsplit, hstepped⟩ := h.step (.inl (changes_plainStep t).lineState_eq) rfl
    have hlast : (front' ++ rest').getLast? = some t := by rw [← hsplit, List.getLast?_concat]
    have hhere (hgoes : t.goesOn? = none) :
        front ++ rest ++ t.steps (nodes + 1) = front' ++ rest' := by
      rw [Story.steps, hgoes]
      exact hsplit
    cases hstep : lineStep t with
    | error e v =>
      have hgoes : t.goesOn? = none := by rw [Story.goesOn?, hstep]
      have hv : t.stepped = v := after_of_error (plainStep_of_lineStep_error hstep)
      have hends := (hstepped.same (t := { t.stepped with state := t.stepped.state.fail v.tree e })
        rfl rfl).ends hlast (.fail _ _ e)
      rw [hv] at hends
      rw [runLine, bind_ok (attempt_error hstep)] at hrun
      cases hrun
      refine ⟨front', rest', hhere hgoes, ?_⟩
      rw [if_pos (by
        show (v.pending.isNone && (false || !(v.state.fail v.tree e).canContinue)) = true
        rw [pending_of_lineStep_error hpending hstep, Story.canContinue_fail]
        rfl)]
      exact hends
    | ok last v =>
      obtain ⟨hwaiting, hback, hon⟩ := stepped_of_lineStep hstep
      rw [runLine, bind_ok (attempt_ok hstep)] at hrun
      dsimp only at hrun
      rw [bind_ok (get_ok v)] at hrun
      split at hrun
      · next hwaits =>
        have hgoes : t.goesOn? = none := by
          rw [Story.goesOn?_of_ok hstep, ← Option.not_isSome, hwaits]
          simp
        cases hrun
        refine ⟨front', rest', hhere hgoes, ?_⟩
        rw [if_neg (by
          show ¬ (v.pending.isNone && _) = true
          rw [← Option.not_isSome, hwaits]
          simp)]
        rw [hwaiting hwaits]
        exact ⟨hstepped.same rfl rfl, rfl⟩
      · next hnone =>
        rw [Bool.not_eq_true, Option.isSome_eq_false_iff] at hnone
        cases last with
        | true =>
          have hgoes : t.goesOn? = none := by
            rw [Story.goesOn?_of_ok hstep]
            rfl
          have hsame : v.restoreLineState = v := by
            rw [hback rfl, Story.restoreLineState_restoreLineState]
          cases hrun
          refine ⟨front', rest', hhere hgoes, ?_⟩
          rw [if_pos (by rw [hnone]; rfl), hsame, hback rfl]
          exact hstepped.ends hlast (.refl _)
        | false =>
          have hlineState := t.lineState_after
          rw [after_of_ok hstep] at hlineState
          obtain ⟨front₁, rest₁, hsplit₁, hlooks⟩ := h.step hlineState (hon rfl)
          rw [if_neg Bool.false_ne_true, bind_ok (state_ok v)] at hrun
          cases hcontinue : v.state.canContinue with
          | false =>
            have hgoes : t.goesOn? = none := by
              rw [Story.goesOn?_of_ok hstep, hcontinue]
              simp
            rw [hcontinue] at hrun
            cases hrun
            refine ⟨front₁, rest₁, by rw [Story.steps, hgoes]; exact hsplit₁, ?_⟩
            rw [if_pos (by rw [hnone, hcontinue]; rfl)]
            exact hlooks.ends (by rw [← hsplit₁, List.getLast?_concat]) (by
              rw [hon rfl]
              exact .refl _)
          | true =>
            have hgoes : t.goesOn? = some v :=
              Story.goesOn?_eq hstep (Option.isNone_iff_eq_none.mp hnone) hcontinue
            rw [hcontinue] at hrun
            obtain ⟨front₂, rest₂, hsplit₂, hends⟩ :=
              ih hlooks (Option.isNone_iff_eq_none.mp hnone) (fun _ => hcontinue) hrun
            refine ⟨front₂, rest₂, ?_, hends⟩
            rw [← hsplit₂, ← hsplit₁, Story.steps, hgoes]
            simp

end Flow

end StoryMachine
