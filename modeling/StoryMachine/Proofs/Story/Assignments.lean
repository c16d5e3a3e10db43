import StoryMachine.Proofs.Story.CallSteps
import StoryMachine.Proofs.Story.Ready

/-!
# What a step assigns

A step assigns at most one global variable: the one that the assignment that it carries out goes
to, if it carries out one. Everything else that a step does leaves the variables of the story
alone.

* `Story.assigns?` : the global variable that the next step assigns;
* `Variables.Assigned` : an assignment to a global variable, if there is one;
* `Flow.plainStep_cases` : a step makes no assignment, or that of its leaf;
* `Flow.assigned_plainStep` : a step makes this assignment and no other.
-/

namespace StoryMachine

namespace Variables

/-- Whether an assignment that declares nothing goes to a global variable. -/
def goesToGlobal (v : Variables) (lists : ListDefinitions) (s : CallStack) (a : Assignment) : Bool :=
  let (name, scope) := v.target lists s a.name
  if (name, scope) = (a.name, unknownScope) then v.declares name else scope = globalScope

/-- The global variable that an assignment goes to, if it goes to one. -/
def assigned? (v : Variables) (lists : ListDefinitions) (s : CallStack) (a : Assignment) :
    Option String :=
  if a.isDeclaration then if a.isGlobal then some a.name else none
  else if v.goesToGlobal lists s a then some (v.target lists s a.name).1
  else none

/-- What an assignment to a global variable, if there is one, makes of the variables. -/
inductive Assigned (v : Variables) : Option String → Variables → Prop
  | none : Assigned v none v
  | put (name : String) (value : Value) : Assigned v (some name) (v.put name value)

variable {v v' : Variables} {lists : ListDefinitions} {s u : CallStack} {a : Assignment}
  {value : Value}

theorem assign_of_not_declaration (h : a.isDeclaration = false) : v.assign lists s a value =
    if v.goesToGlobal lists s a then .ok (v.put (v.target lists s a.name).1 value, s)
    else (s.setTemporary (v.target lists s a.name).1 value false
      (v.target lists s a.name).2).map (v, ·) := by
  unfold assign goesToGlobal
  rw [h]
  rfl

/-- An assignment goes to this global variable, or leaves the variables of the story alone. -/
theorem assigned_of_assign (h : v.assign lists s a value = .ok (v', u)) :
    v.Assigned (v.assigned? lists s a) v' := by
  have hother {x : Except StoryError CallStack} (h : x.map (v, ·) = .ok (v', u)) : v' = v := by
    cases x with
    | ok w =>
      cases h
      rfl
    | error e => cases h
  unfold assigned?
  cases hdeclares : a.isDeclaration with
  | true =>
    unfold assign at h
    rw [if_pos hdeclares] at h
    dsimp only at h
    rw [if_pos rfl]
    split at h
    · next hglobal =>
      cases h
      rw [if_pos hglobal]
      exact .put a.name _
    · next hglobal =>
      rw [if_neg hglobal, hother h]
      exact .none
  | false =>
    rw [assign_of_not_declaration hdeclares] at h
    rw [if_neg Bool.false_ne_true]
    split at h
    · next hglobal =>
      cases h
      rw [if_pos hglobal]
      exact .put _ value
    · next hglobal =>
      rw [if_neg hglobal, hother h]
      exact .none

/-- An assignment to a global variable does not fail. -/
theorem assigned?_of_error {e : StoryError} (h : v.assign lists s a value = .error e) :
    v.assigned? lists s a = none := by
  unfold assigned?
  cases hdeclares : a.isDeclaration with
  | true =>
    unfold assign at h
    rw [if_pos hdeclares] at h
    dsimp only at h
    rw [if_pos rfl]
    split at h
    · cases h
    · next hglobal => rw [if_neg hglobal]
  | false =>
    rw [assign_of_not_declaration hdeclares] at h
    rw [if_neg Bool.false_ne_true]
    split at h
    · cases h
    · next hglobal => rw [if_neg hglobal]

end Variables

/-- The global variable that an assignment goes to in a state: it takes its value from the
evaluation stack. -/
def State.assigned? (s : State) (lists : ListDefinitions) (a : Assignment) : Option String :=
  match s.evaluation with
  | .value _ :: _ => s.vars.assigned? lists s.callStack a
  | _ => none

theorem State.assigned?_of_value {s : State} {value : Value} {rest : List Token}
    (h : s.evaluation = .value value :: rest) (lists : ListDefinitions) (a : Assignment) :
    s.assigned? lists a = s.vars.assigned? lists s.callStack a := by
  rw [assigned?, h]

/-- The global variable that the next step assigns, if it assigns one. -/
def Story.assigns? (s : Story) : Option String :=
  match s.nextLeaf? with
  | some (_, .assign a) => s.state.assigned? s.content.lists a
  | _ => none

namespace Flow

/-- An assignment takes its value from the evaluation stack, and is made, or it fails. One that
fails goes to no global variable. -/
theorem performAssignment_cases (a : Assignment) (s : Story) :
    (s.state.assigned? s.content.lists a = none ∧ ∃ evaluation, (performAssignment a).after s =
        { s with state := { s.state with evaluation } }) ∨
      ∃ value rest vars callStack, s.state.evaluation = .value value :: rest ∧
        s.state.vars.assign s.content.lists s.state.callStack a value = .ok (vars, callStack) ∧
        (performAssignment a).after s =
          { s with state := { s.state with evaluation := rest, vars, callStack } } := by
  unfold performAssignment State.assigned?
  cases hstack : s.state.evaluation with
  | nil =>
    have hpop : pop s = .error (.flow .evaluationEmpty) s := tryState_run_error (by
      rw [State.pop, hstack])
    rw [after_bind_error hpop]
    exact .inl ⟨rfl, s.state.evaluation, rfl⟩
  | cons token rest =>
    have hpop : pop s = .ok token { s with state := { s.state with evaluation := rest } } :=
      pop_run_cons hstack
    rw [after_bind_ok hpop]
    cases token with
    | value v =>
      cases hassign : s.state.vars.assign s.content.lists s.state.callStack a v with
      | ok r =>
        obtain ⟨vars, callStack⟩ := r
        have hrun : tryState (assignValue s.content.lists a v)
            { s with state := { s.state with evaluation := rest } } =
            .ok () { s with state := { s.state with evaluation := rest, vars, callStack } } :=
          tryState_run_ok (assignValue_ok hassign)
        exact .inr ⟨v, rest, vars, callStack, rfl, hassign, after_of_ok hrun⟩
      | error e =>
        have hrun : tryState (assignValue s.content.lists a v)
            { s with state := { s.state with evaluation := rest } } =
            .error e { s with state := { s.state with evaluation := rest } } :=
          tryState_run_error (assignValue_error hassign)
        exact .inl ⟨Variables.assigned?_of_error hassign, rest, after_of_error hrun⟩
    | _ => exact .inl ⟨rfl, rest, rfl⟩

end Flow

/-! ## Everything else -/

/-- Without an assignment the variables of the story stay as they are. -/
theorem StateChange.vars_eq {c : Content} {fx : Effects} {s u : State} (hfx : fx.assigns = false)
    (h : StateChange c fx s u) : u.vars = s.vars := by
  cases h with
  | assign _ hassigns =>
    rw [hfx] at hassigns
    cases hassigns
  | enter id atStart =>
    obtain ⟨visits, turns, henter⟩ := s.exists_enter_eq c.tree id atStart
    rw [henter]
  | «return» hpop =>
    obtain ⟨output, stack, -, rfl⟩ := State.popFrame_ok hpop
    rfl
  | markText =>
    obtain ⟨thread, hmark, -⟩ := s.exists_markText_eq
    rw [hmark]
  | _ => rfl

theorem Changes.vars_eq {c : Content} {fx : Effects} {s u : Story} (hfx : fx.assigns = false)
    (h : Changes c fx s u) : u.state.vars = s.state.vars := by
  induction h with
  | refl => rfl
  | tail _ h ih =>
    cases h with
    | state h => exact (h.vars_eq hfx).trans ih
    | called | wait | unsafeCall => exact ih

theorem Variables.goesToGlobal_modifyTop (v : Variables) (lists : ListDefinitions) (s : CallStack)
    {g : Frame → Frame} (hg : ∀ f, (g f).temporaries = f.temporaries) (a : Assignment) :
    v.goesToGlobal lists (s.modifyTop g) a = v.goesToGlobal lists s a := by
  unfold goesToGlobal
  rw [v.target_modifyTop s hg]

/-- What an assignment goes to does not depend on the places of execution. -/
theorem State.assigned?_setCursor (s : State) (c : Option Cursor) (lists : ListDefinitions)
    (a : Assignment) : (s.setCursor c).assigned? lists a = s.assigned? lists a := by
  have htarget : s.vars.target lists (s.setCursor c).callStack a.name =
      s.vars.target lists s.callStack a.name :=
    s.vars.target_modifyTop s.callStack (g := fun f => { f with cursor := c }) (fun _ => rfl) lists
      a.name
  have hglobal : s.vars.goesToGlobal lists (s.setCursor c).callStack a =
      s.vars.goesToGlobal lists s.callStack a :=
    s.vars.goesToGlobal_modifyTop lists s.callStack (g := fun f => { f with cursor := c })
      (fun _ => rfl) a
  unfold assigned?
  show (match s.evaluation with
    | .value _ :: _ => s.vars.assigned? lists (s.setCursor c).callStack a
    | _ => none) = _
  unfold Variables.assigned?
  rw [htarget, hglobal]

namespace Flow

theorem after_executeAt_assign (id : NodeId) (a : Assignment) (s : Story) :
    (executeAt id (.assign a)).after s = (performAssignment a).after s := by
  unfold executeAt
  cases hrun : performAssignment a s with
  | error e u =>
    have hexecute : execute id (.assign a) s = .error e u := bind_error hrun
    rw [after_bind_error hexecute, after_of_error hrun]
  | ok _ u =>
    have hexecute : execute id (.assign a) s = .ok true u := bind_ok hrun
    rw [after_bind_ok hexecute, after_of_ok hrun, after_bind_ok (state_ok u)]
    split <;> rfl

/-- Where there is a leaf for it, a step reaches the leaf, carries it out, and goes on from there;
neither before nor behind it assigns anything. -/
theorem changes_aroundLeaf {s : Story} {place : Cursor} (hplace : s.state.cursor = some place) :
    ∃ visits turns place, ∃ w : Story,
      w = { s with state := { s.state with visits, turns }.setCursor place } ∧
      Changes s.content .still s w ∧
      Changes s.content .still ((executeLeaf s.nextLeaf?).after w) (plainStep.after s) := by
  obtain ⟨visits, turns, hreach⟩ := exists_reachLeaf_eq hplace
  let w : Story := { s with
    state := { s.state with visits, turns }.setCursor (some (place.descend s.tree s.tree.size)) }
  have hreached : Changes s.content .still s ((reachLeaf place).after s) :=
    within_reachLeaf place s rfl
  rw [after_of_ok hreach] at hreached
  refine ⟨visits, turns, _, w, rfl, hreached, ?_⟩
  let follow : Flow Unit := do
    let s ← get
    if s.pending.isNone && !s.state.canContinue && !s.state.callStack.inHostCall then
      followInvisibleChoice
  have hstep : plainStep s = (executeLeaf s.nextLeaf? >>= fun _ =>
      leaveLeaf s.nextLeaf? >>= fun _ => follow) w := by
    show (step >>= fun _ => follow) s = _
    unfold step
    rw [bind_assoc, bind_ok (state_ok s), hplace]
    dsimp only
    rw [bind_assoc, bind_ok hreach, bind_assoc]
  have hexecuted : Changes s.content .ofStep w ((executeLeaf s.nextLeaf?).after w) :=
    within_executeLeaf rfl s.leaf?_of_mem_nextLeaf? (fun _ _ _ => rfl) (fun _ _ _ => rfl) w rfl
  have hcontent := hexecuted.content_eq
  have hafter : plainStep.after s =
      (executeLeaf s.nextLeaf? >>= fun _ => leaveLeaf s.nextLeaf? >>= fun _ => follow).after w := by
    unfold after
    rw [hstep]
  rw [hafter]
  cases hrun : executeLeaf s.nextLeaf? w with
  | error e v =>
    rw [after_bind_error hrun, after_of_error hrun]
  | ok _ v =>
    rw [after_of_ok hrun] at hcontent
    rw [after_bind_ok hrun, after_of_ok hrun]
    have hfollow : Within s.content .still follow :=
      within_get_any fun _ => within_ite within_followInvisibleChoice (within_pure ())
    exact within_bind (within_leaveLeaf _) (fun _ => hfollow) v hcontent

/-- A step makes no assignment, or the one that its leaf says, of a value on the evaluation
stack. -/
theorem plainStep_cases (s : Story) :
    (s.assigns? = none ∧ Changes s.content .unassigned s (plainStep.after s)) ∨
    ∃ id a value rest reached vars callStack, s.nextLeaf? = some (id, .assign a) ∧
      s.state.evaluation = .value value :: rest ∧
      (∃ visits turns place, reached = { s.state with visits, turns }.setCursor place) ∧
      reached.vars.assign s.content.lists reached.callStack a value = .ok (vars, callStack) ∧
      Changes s.content .still
        { s with state := { reached with evaluation := rest, vars, callStack } }
        (plainStep.after s) := by
  cases hplace : s.state.cursor with
  | none =>
    have hleaf : s.nextLeaf? = none := by rw [Story.nextLeaf?, Story.nextPlace?, hplace]; rfl
    have hfollow : Changes s.content .still s (plainStep.after s) := by
      unfold plainStep
      rw [after_bind_ok (step_of_none hplace)]
      exact within_get_any (fun _ => within_ite within_followInvisibleChoice (within_pure ())) s rfl
    exact .inl ⟨by rw [Story.assigns?, hleaf], hfollow.of_still⟩
  | some place =>
    obtain ⟨visits, turns, _, w, hw, hreach, hbehind⟩ := changes_aroundLeaf hplace
    by_cases hassign : ∃ id a, s.nextLeaf? = some (id, .assign a)
    · obtain ⟨id, a, hleaf⟩ := hassign
      rw [hleaf, show (executeLeaf (some (id, .assign a))).after w = _ from
        after_executeAt_assign id a w] at hbehind
      have hassigned : s.assigns? = w.state.assigned? w.content.lists a := by
        rw [Story.assigns?, hleaf, hw]
        exact (State.assigned?_setCursor _ _ _ _).symm
      rcases performAssignment_cases a w with ⟨hnone, evaluation, hpopped⟩ |
        ⟨value, rest, vars, callStack, hstack, hmade, hdone⟩
      · have hpop : Changes s.content .unassigned w ((performAssignment a).after w) := by
          rw [hpopped]
          exact .single (.state (.evaluation w.state evaluation))
        exact .inl ⟨hassigned.trans hnone, hreach.of_still.trans (hpop.trans hbehind.of_still)⟩
      · rw [hdone] at hbehind
        subst hw
        exact .inr ⟨id, a, value, rest, _, vars, callStack, hleaf, hstack, ⟨visits, turns, _, rfl⟩,
          hmade, hbehind⟩
    · have hleaf : Changes s.content .unassigned w ((executeLeaf s.nextLeaf?).after w) :=
        within_executeLeaf rfl s.leaf?_of_mem_nextLeaf? (fun _ _ _ => rfl)
          (fun id a ha => absurd ⟨id, a, ha⟩ hassign) w hreach.content_eq
      refine .inl ⟨?_, hreach.of_still.trans (hleaf.trans hbehind.of_still)⟩
      unfold Story.assigns?
      split
      · next id a ha => exact absurd ⟨id, a, ha⟩ hassign
      · rfl

/-- A step assigns the variable told, if there is one, and no other. -/
theorem assigned_plainStep (s : Story) :
    s.state.vars.Assigned s.assigns? (plainStep.after s).state.vars := by
  rcases plainStep_cases s with ⟨hnone, hchanges⟩ |
    ⟨id, a, value, rest, _, vars, callStack, hleaf, hstack, ⟨visits, turns, place, rfl⟩, hassign,
      hbehind⟩
  · rw [hnone, hchanges.vars_eq rfl]
    exact .none
  · rw [hbehind.vars_eq rfl]
    have hassigned := Variables.assigned_of_assign hassign
    have hsame : s.assigns? = ({ s.state with visits, turns }.setCursor place).vars.assigned?
        s.content.lists ({ s.state with visits, turns }.setCursor place).callStack a := by
      let moved : State := { s.state with visits, turns }.setCursor place
      have hvalue : moved.assigned? s.content.lists a =
          moved.vars.assigned? s.content.lists moved.callStack a :=
        State.assigned?_of_value (s := moved) hstack s.content.lists a
      refine Eq.trans ?_ hvalue
      rw [Story.assigns?, hleaf]
      exact (State.assigned?_setCursor { s.state with visits, turns } place s.content.lists a).symm
    rw [hsame]
    exact hassigned

end Flow

end StoryMachine
