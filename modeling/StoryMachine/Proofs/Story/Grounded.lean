import StoryMachine.Proofs.Story.Lasting
import StoryMachine.Proofs.Story.References
import StoryMachine.Proofs.Story.Sound

/-!
# Variables whose references end

References end wherever they start if they know their scopes and none leads back to the variable
that holds it. A value that is put at a variable is the only one that changes. If it is a reference,
references still end just when it does not lead back to this variable. Nothing else that happens to
threads and frames makes a reference: a thread starts with the variables of another one, a frame
without any, and dropping a frame drops its variables.

* `Variables.Grounded` : references that know their scopes end;
* `Variables.LeadsTo` : references lead from one variable to another one;
* `Variables.grounded_iff_of_puts` : what a reference that is put at a variable does;
* `Thread.Fades`, `StateChange.fades` : threads without new references, and changes that make none;
* `State.Grounded` : references end in every thread of a state;
* `State.Admits` : a value for a variable does not lead back to it;
* `State.Grounded.assign_iff` : references still end just when such a value is assigned;
* `Story.Straight`, `State.kept_grounded` : what keeps references ending.
-/

namespace StoryMachine

namespace Variables

variable {v v' : Variables} {lists : ListDefinitions} {s s' : CallStack} {w x y : String × Int}
  {value : Value}

/-! ## References that end -/

/-- From every variable of a known scope references lead to an end, on a way of known scopes. -/
def Grounded (v : Variables) (lists : ListDefinitions) (s : CallStack) : Prop :=
  ∀ x : String × Int, x.2 ≠ unknownScope →
    ∃ path last, v.Follows lists s x path last ∧ ∀ y ∈ path, y.2 ≠ unknownScope

/-- References lead from one variable to another one, or it is the same. -/
def LeadsTo (v : Variables) (lists : ListDefinitions) (s : CallStack) :
    String × Int → String × Int → Prop :=
  Relation.ReflTransGen fun x y => v.raw? lists s x.1 x.2 = some (.reference y.1 y.2)

/-- The second variables are the first ones with a value put at a variable. -/
def Puts (v v' : Variables) (lists : ListDefinitions) (s s' : CallStack) (x : String × Int)
    (value : Value) : Prop :=
  ∀ y : String × Int, y.2 ≠ unknownScope →
    v'.raw? lists s' y.1 y.2 = if y = x then some value else v.raw? lists s y.1 y.2

/-- Every reference that the second variables hold is held by the first ones. -/
def Fades (v v' : Variables) (lists : ListDefinitions) (s s' : CallStack) : Prop :=
  ∀ x : String × Int, x.2 ≠ unknownScope → ∀ y : String × Int,
    v'.raw? lists s' x.1 x.2 = some (.reference y.1 y.2) →
      v.raw? lists s x.1 x.2 = some (.reference y.1 y.2)

/-- A name of open scope stands for a global variable, or for one of the innermost frame. -/
theorem exists_raw?_eq_of_unknown (v : Variables) (lists : ListDefinitions) (s : CallStack)
    (name : String) : ∃ scope, scope ≠ unknownScope ∧
      v.raw? lists s name unknownScope = v.raw? lists s name scope := by
  cases hshadow : v.shadow? lists name unknownScope with
  | some found =>
    refine ⟨globalScope, by decide, ?_⟩
    have hglobal : v.shadow? lists name globalScope = some found := hshadow
    rw [raw?_eq, raw?_eq, hshadow, hglobal]
    rfl
  | none =>
    have hdepth : (s.depth : Int) = s.current.below.length + 1 := rfl
    refine ⟨s.depth, by rw [unknownScope]; omega, ?_⟩
    have hframe : v.shadow? lists name s.depth = none :=
      if_neg (by rw [globalScope, unknownScope]; omega)
    have htop : s.scopeFrame? s.depth = some s.top := by
      unfold CallStack.scopeFrame?
      rw [if_neg (by rw [unknownScope]; omega), if_pos (by omega),
        show ((s.depth : Int) - 1).toNat = s.current.below.length by omega, Thread.frame?,
        if_pos rfl]
      rfl
    rw [raw?_eq, raw?_eq, hshadow, hframe, CallStack.temporary?, CallStack.temporary?, htop]
    rfl

/-- Variables that hold the same lead the same way. -/
theorem Follows.exists_of_raw?_eq {path : List (String × Int)} {last : String × Int}
    (h : v.Follows lists s x path last)
    (hsame : v.raw? lists s y.1 y.2 = v.raw? lists s x.1 x.2) :
    ∃ last', v.Follows lists s y path last' := by
  cases h with
  | ends h => exact ⟨y, .ends fun z => hsame ▸ h z⟩
  | step hstep hrest => exact ⟨last, .step (hsame.trans hstep) hrest⟩

/-- References end wherever they start. -/
theorem Grounded.follows (h : v.Grounded lists s) (x : String × Int) :
    ∃ path last, v.Follows lists s x path last := by
  obtain ⟨name, scope⟩ := x
  by_cases hscope : scope = unknownScope
  · subst hscope
    obtain ⟨scope, hknown, hsame⟩ := v.exists_raw?_eq_of_unknown lists s name
    obtain ⟨path, last, hfollows, -⟩ := h (name, scope) hknown
    obtain ⟨last', hsame⟩ := hfollows.exists_of_raw?_eq (y := (name, unknownScope)) hsame
    exact ⟨path, last', hsame⟩
  · obtain ⟨path, last, hfollows, -⟩ := h (name, scope) hscope
    exact ⟨path, last, hfollows⟩

theorem Grounded.fades (h : v.Grounded lists s) (hfades : v.Fades v' lists s s') :
    v'.Grounded lists s' := by
  intro x hx
  obtain ⟨path, last, hfollows, hknown⟩ := h x hx
  induction hfollows with
  | ends hends => exact ⟨[], _, .ends fun y hy => hends y (hfades _ hx y hy), nofun⟩
  | @step x y last path hstep _ ih =>
    by_cases hstays : v'.raw? lists s' x.1 x.2 = some (.reference y.1 y.2)
    · obtain ⟨hy, hknown⟩ := List.forall_mem_cons.mp hknown
      obtain ⟨path', last', hrest, hknown'⟩ := ih hy hknown
      exact ⟨y :: path', last', .step hstays hrest, List.forall_mem_cons.mpr ⟨hy, hknown'⟩⟩
    · refine ⟨[], x, .ends fun z hz => hstays ?_, nofun⟩
      rwa [eq_of_reference hstep (hfades x hx z hz)]

/-- References that end lead to the variables on their path. -/
theorem Follows.mem_of_leads {path : List (String × Int)} {last : String × Int}
    (h : v.Follows lists s x path last) (hleads : v.LeadsTo lists s x y) : y = x ∨ y ∈ path := by
  induction h with
  | ends hends =>
    rcases Relation.ReflTransGen.cases_head hleads with rfl | ⟨z, hstep, -⟩
    · exact .inl rfl
    · exact absurd hstep (hends z)
  | @step x z last path hstep _ ih =>
    rcases Relation.ReflTransGen.cases_head hleads with rfl | ⟨z', hstep', hrest⟩
    · exact .inl rfl
    · obtain rfl := eq_of_reference hstep hstep'
      rcases ih hrest with rfl | hmem
      · exact .inr List.mem_cons_self
      · exact .inr (List.mem_cons_of_mem _ hmem)

/-! ## Putting a value at a variable -/

/-- A value that is no reference ends the references that lead to it. -/
theorem Puts.fades (h : v.Puts v' lists s s' x value) (hplain : value.IsPlain) :
    v.Fades v' lists s s' := by
  intro y hy z hz
  rw [h y hy] at hz
  split at hz
  · exact absurd (Option.some.inj hz) (hplain _ _)
  · exact hz

/-- References that do not lead to the variable stay as they are. -/
theorem Puts.follows (h : v.Puts v' lists s s' x value) {path : List (String × Int)}
    {last : String × Int} (hfollows : v.Follows lists s y path last) (hy : y.2 ≠ unknownScope)
    (hknown : ∀ z ∈ path, z.2 ≠ unknownScope) (haway : ¬v.LeadsTo lists s y x) :
    v'.Follows lists s' y path last := by
  have hsame {z : String × Int} (hz : z.2 ≠ unknownScope) (haway : ¬v.LeadsTo lists s z x) :
      v'.raw? lists s' z.1 z.2 = v.raw? lists s z.1 z.2 := by
    rw [h z hz, if_neg]
    rintro rfl
    exact haway .refl
  induction hfollows with
  | ends hends => exact .ends fun z hz => hends z ((hsame hy haway).symm.trans hz)
  | @step y z last path hstep _ ih =>
    obtain ⟨hz, hknown⟩ := List.forall_mem_cons.mp hknown
    exact .step ((hsame hy haway).trans hstep)
      (ih hz hknown fun hleads => haway (.head hstep hleads))

/-- A reference to another variable is put at a variable. References still end just when none leads
back from there. -/
theorem grounded_iff_of_puts (hv : v.Grounded lists s)
    (h : v.Puts v' lists s s' x (.reference w.1 w.2)) (hx : x.2 ≠ unknownScope)
    (hw : w.2 ≠ unknownScope) : v'.Grounded lists s' ↔ ¬v.LeadsTo lists s w x := by
  have hput : v'.raw? lists s' x.1 x.2 = some (.reference w.1 w.2) := by
    rw [h x hx, if_pos rfl]
  obtain ⟨pathw, lastw, hfollows, hknown⟩ := hv w hw
  constructor
  · rintro hground hleads
    -- From the variable the reference leads on, and then back the way that there was.
    have hback {y : String × Int} (hy : v.LeadsTo lists s w y) (hyx : v.LeadsTo lists s y x) :
        v'.LeadsTo lists s' y x := by
      induction hyx using Relation.ReflTransGen.head_induction_on with
      | refl => exact .refl
      | @head y z hstep _ ih =>
        by_cases hyx : y = x
        · exact hyx ▸ .refl
        · have hscope : y.2 ≠ unknownScope := by
            rcases hfollows.mem_of_leads hy with rfl | hmem
            · exact hw
            · exact hknown y hmem
          refine .head ?_ (ih (hy.tail hstep))
          rw [h y hscope, if_neg hyx]
          exact hstep
    obtain ⟨path, last, hfollows, -⟩ := hground x hx
    cases hfollows with
    | ends hends => exact hends w hput
    | @step _ y _ path hstep hrest =>
      obtain rfl := eq_of_reference hput hstep
      refine (Follows.step hstep hrest).not_mem ?_
      rcases hrest.mem_of_leads (hback .refl hleads) with rfl | hmem
      · exact List.mem_cons_self
      · exact List.mem_cons_of_mem _ hmem
  · intro haway y hy
    have hrest := h.follows hfollows hw hknown haway
    obtain ⟨path, last, hfollows, hpath⟩ := hv y hy
    induction hfollows with
    | @ends y hends =>
      by_cases hyx : y = x
      · exact ⟨w :: pathw, lastw, .step (hyx ▸ hput) hrest, List.forall_mem_cons.mpr ⟨hw, hknown⟩⟩
      · refine ⟨[], y, .ends fun z hz => hends z ?_, nofun⟩
        rwa [h y hy, if_neg hyx] at hz
    | @step y z last path hstep _ ih =>
      by_cases hyx : y = x
      · exact ⟨w :: pathw, lastw, .step (hyx ▸ hput) hrest, List.forall_mem_cons.mpr ⟨hw, hknown⟩⟩
      · obtain ⟨hz, hpath⟩ := List.forall_mem_cons.mp hpath
        obtain ⟨path', last', hfollows, hpath'⟩ := ih hz hpath
        refine ⟨z :: path', last', .step ?_ hfollows, List.forall_mem_cons.mpr ⟨hz, hpath'⟩⟩
        rw [h y hy, if_neg hyx]
        exact hstep

end Variables

/-! ## Threads -/

/-- The call stack of one thread alone. -/
def CallStack.only (t : Thread) : CallStack :=
  ⟨t, [], 0⟩

namespace Thread

/-- The temporary variables of the frames, the outermost one first. -/
def tables (t : Thread) : List (Table Value) :=
  ((t.top :: t.below).map Frame.temporaries).reverse

/-- The value of a temporary variable in the frame of a number. -/
def value? (t : Thread) (i : Nat) (name : String) : Option Value :=
  t.tables[i]?.bind fun table => table.get? name

/-- Every reference that the second thread holds is held by the first one. -/
def Fades (t u : Thread) : Prop :=
  ∀ (i : Nat) (name : String) (y : String × Int), u.value? i name = some (.reference y.1 y.2) →
    t.value? i name = some (.reference y.1 y.2)

variable {t u : Thread}

/-- Frames may be dropped, and one without variables pushed. -/
theorem fades_of_prefix (h : u.tables <+: t.tables ++ [.empty]) : t.Fades u := by
  intro i name y hy
  obtain ⟨table, hu, hget⟩ := Option.bind_eq_some_iff.mp hy
  obtain ⟨rest, hrest⟩ := h
  obtain ⟨hi, -⟩ := List.getElem?_eq_some_iff.mp hu
  have htable : (t.tables ++ [.empty])[i]? = some table := by
    rw [← hrest, List.getElem?_append_left hi, hu]
  rw [List.getElem?_append] at htable
  split at htable
  · exact Option.bind_eq_some_iff.mpr ⟨table, htable, hget⟩
  · obtain rfl := List.mem_singleton.mp (List.mem_of_getElem? htable)
    cases hget

theorem fades_of_eq (h : u.tables = t.tables) : t.Fades u :=
  fades_of_prefix (h ▸ List.prefix_append _ _)

/-- Without variables there are no references. -/
theorem fades_of_fresh (h : u.tables = [.empty]) : t.Fades u := by
  intro i name y hy
  obtain ⟨table, hu, hget⟩ := Option.bind_eq_some_iff.mp hy
  rw [h] at hu
  obtain rfl := List.mem_singleton.mp (List.mem_of_getElem? hu)
  cases hget

end Thread

namespace Variables

variable {v v' : Variables} {lists : ListDefinitions} {t u : Thread}

/-- What a variable of a known scope holds. -/
theorem raw?_of_known (v : Variables) (lists : ListDefinitions) (s : CallStack) (name : String)
    {scope : Int} (h : scope ≠ unknownScope) : v.raw? lists s name scope =
      if scope = globalScope then (v.get? name).or ((lists.single? name).map .list)
      else if 1 ≤ scope then s.current.value? (scope - 1).toNat name
      else none := by
  rw [raw?_eq, shadow?, CallStack.temporary?, CallStack.scopeFrame?, if_neg h]
  by_cases hglobal : scope = globalScope
  · subst hglobal
    rw [if_pos (.inl rfl), if_pos rfl, if_neg (by decide)]
    exact Option.or_none
  · rw [if_neg (not_or.mpr ⟨hglobal, h⟩), if_neg hglobal, Option.none_or]
    split
    · rw [Thread.value?, Thread.tables, ← List.map_reverse, List.getElem?_map,
        Thread.frame?_eq_getElem?]
      show _ = ((s.current.frames[(scope - 1).toNat]?).map Frame.temporaries).bind _
      cases s.current.frames[(scope - 1).toNat]? <;> rfl
    · rfl

/-- Every global reference of the second variables is one of the first ones. -/
def GlobalsFade (v v' : Variables) : Prop :=
  ∀ (name : String) (y : String × Int), v'.get? name = some (.reference y.1 y.2) →
    v.get? name = some (.reference y.1 y.2)

theorem GlobalsFade.refl (v : Variables) : v.GlobalsFade v :=
  fun _ _ h => h

/-- Where neither the global variables nor those of a thread hold a new reference, there is none. -/
theorem fades_of_thread (hvars : v.GlobalsFade v') (hthread : t.Fades u) :
    v.Fades v' lists (.only t) (.only u) := by
  rintro ⟨name, scope⟩ hscope y hy
  dsimp only at hscope hy ⊢
  rw [raw?_of_known _ _ _ _ hscope] at hy ⊢
  split at hy
  · next hglobal =>
    rw [if_pos hglobal]
    rcases Option.or_eq_some_iff.mp hy with hget | ⟨-, hlist⟩
    · exact Option.or_eq_some_iff.mpr (.inl (hvars name y hget))
    · obtain ⟨l, -, hl⟩ := Option.map_eq_some_iff.mp hlist
      cases hl
  · next hlocal =>
    rw [if_neg hlocal]
    split at hy
    · next hframe =>
      rw [if_pos hframe]
      exact hthread _ name y hy
    · cases hy

end Variables

/-! ## States -/

namespace State

/-- The live threads, and the threads that the choices keep. -/
def everyThread (s : State) : List Thread :=
  s.callStack.current :: (s.callStack.others ++ s.choices.map Choice.thread)

/-- In every thread references that know their scopes end. -/
def Grounded (lists : ListDefinitions) (s : State) : Prop :=
  ∀ t ∈ s.everyThread, s.vars.Grounded lists (.only t)

/-- Every thread of the second state has no references but those of a thread of the first one. -/
def Fades (s u : State) : Prop :=
  ∀ t ∈ u.everyThread, ∃ t' ∈ s.everyThread, t'.Fades t

variable {lists : ListDefinitions} {s u : State} {t : Thread}

theorem current_mem_everyThread (s : State) : s.callStack.current ∈ s.everyThread :=
  List.mem_cons_self

theorem mem_everyThread_of_others (h : t ∈ s.callStack.others) : t ∈ s.everyThread :=
  List.mem_cons_of_mem _ (List.mem_append_left _ h)

theorem mem_everyThread_of_choice {o : Choice} (h : o ∈ s.choices) : o.thread ∈ s.everyThread :=
  List.mem_cons_of_mem _ (List.mem_append_right _ (List.mem_map_of_mem h))

theorem fades_of_threads (hcurrent : ∃ t ∈ s.everyThread, t.Fades u.callStack.current)
    (hothers : u.callStack.others ⊆ s.everyThread)
    (hchoices : ∀ o ∈ u.choices, ∃ t ∈ s.everyThread, t.Fades o.thread) : s.Fades u := by
  intro t ht
  rcases List.mem_cons.mp ht with rfl | ht
  · exact hcurrent
  · rcases List.mem_append.mp ht with hother | hchoice
    · exact ⟨t, hothers hother, Thread.fades_of_eq rfl⟩
    · obtain ⟨o, ho, rfl⟩ := List.mem_map.mp hchoice
      exact hchoices o ho

/-- The current thread fades; the other ones stay, or go. -/
theorem fades_of_current (hcurrent : s.callStack.current.Fades u.callStack.current)
    (hothers : u.callStack.others ⊆ s.callStack.others) (hchoices : u.choices ⊆ s.choices) :
    s.Fades u :=
  fades_of_threads ⟨_, s.current_mem_everyThread, hcurrent⟩
    (fun _ ht => mem_everyThread_of_others (hothers ht))
    fun _ ho => ⟨_, mem_everyThread_of_choice (hchoices ho), Thread.fades_of_eq rfl⟩

theorem fades_of_eq (hstack : u.callStack = s.callStack) (hchoices : u.choices = s.choices) :
    s.Fades u :=
  fades_of_current (hstack ▸ Thread.fades_of_eq rfl) (hstack ▸ List.Subset.refl _)
    (hchoices ▸ List.Subset.refl _)

theorem Grounded.fades (h : s.Grounded lists)
    (hvars : s.vars.GlobalsFade u.vars) (hfades : s.Fades u) : u.Grounded lists := by
  intro t ht
  obtain ⟨t', ht', hthread⟩ := hfades t ht
  exact (h t' ht').fades (Variables.fades_of_thread hvars hthread)

end State

/-- Dropping a frame drops its variables. -/
theorem CallStack.fades_of_pop {s u : CallStack} (h : s.pop = .ok u) :
    s.current.Fades u.current ∧ u.others = s.others := by
  unfold pop at h
  split at h
  · next next rest hbelow =>
    cases h
    have htables : s.current.tables =
        ((next :: rest).map Frame.temporaries).reverse ++ [s.current.top.temporaries] := by
      rw [Thread.tables, hbelow, List.map_cons, List.reverse_cons]
    refine ⟨Thread.fades_of_prefix ?_, rfl⟩
    rw [htables, List.append_assoc]
    exact List.prefix_append _ _
  · cases h

theorem CallStack.fades_push (s : CallStack) (k : FrameKind) (height start : Nat) :
    s.current.Fades (s.push k height start).current := by
  refine Thread.fades_of_prefix ?_
  unfold Thread.tables
  rw [List.map_cons, List.reverse_cons]
  exact List.prefix_rfl

/-- Text that is put out ends the trimming of functions, and leaves the variables. -/
theorem State.tables_markText (s : State) :
    s.markText.callStack.current.tables = s.callStack.current.tables := by
  unfold markText
  dsimp only
  split
  · have hclear (frames : List Frame) :
        (frames.map fun f => { f with outputStart := none }).map Frame.temporaries =
          frames.map Frame.temporaries := by
      rw [List.map_map]
      rfl
    unfold Thread.tables
    rw [List.map_cons, List.map_cons, List.map_append, hclear, ← List.map_append,
      List.takeWhile_append_dropWhile]
  · rfl

/-- No change of a step makes a reference, assignments apart. -/
theorem StateChange.fades {c : Content} {fx : Effects} {s u : State} (hfx : fx.assigns = false)
    (h : StateChange c fx s u) : s.Fades u := by
  have hcurrent {stack : CallStack} (hstack : stack.current.tables = s.callStack.current.tables)
      (hothers : stack.others = s.callStack.others) : s.Fades { s with callStack := stack } :=
    State.fades_of_current (Thread.fades_of_eq hstack) (hothers ▸ List.Subset.refl _)
      (List.Subset.refl _)
  cases h with
  | assign _ hassigns =>
    rw [hfx] at hassigns
    cases hassigns
  | evaluation | warn | random | divert | turn | safeExit | putOut =>
    exact State.fades_of_eq rfl rfl
  | enter id atStart =>
    obtain ⟨visits, turns, henter⟩ := s.exists_enter_eq c.tree id atStart
    rw [henter]
    exact State.fades_of_eq rfl rfl
  | move place | notePlace | expression b => exact hcurrent rfl rfl
  | markText =>
    have htables := s.tables_markText
    obtain ⟨thread, hmark, -⟩ := s.exists_markText_eq
    rw [hmark] at htables ⊢
    exact hcurrent htables rfl
  | offer =>
    refine State.fades_of_threads ⟨_, s.current_mem_everyThread, Thread.fades_of_eq rfl⟩
      (fun _ ht => State.mem_everyThread_of_others ht) fun o ho => ?_
    rcases List.mem_append.mp ho with ho | ho
    · exact ⟨_, State.mem_everyThread_of_choice ho, Thread.fades_of_eq rfl⟩
    · cases List.mem_singleton.mp ho
      exact ⟨_, s.current_mem_everyThread, Thread.fades_of_eq rfl⟩
  | withdraw =>
    exact State.fades_of_current (Thread.fades_of_eq rfl) (List.Subset.refl _) (List.nil_subset _)
  | call k =>
    exact State.fades_of_current (s.callStack.fades_push k _ _) (List.Subset.refl _)
      (List.Subset.refl _)
  | «return» h =>
    obtain ⟨output, stack, hstack, rfl⟩ := State.popFrame_ok h
    obtain ⟨hfades, hothers⟩ := CallStack.fades_of_pop hstack
    exact State.fades_of_current hfades (hothers ▸ List.Subset.refl _) (List.Subset.refl _)
  | thread =>
    refine State.fades_of_threads ⟨_, s.current_mem_everyThread, Thread.fades_of_eq rfl⟩
      (fun t ht => ?_) fun o ho => ⟨_, State.mem_everyThread_of_choice ho, Thread.fades_of_eq rfl⟩
    rcases List.mem_cons.mp ht with rfl | ht
    · exact s.current_mem_everyThread
    · exact State.mem_everyThread_of_others ht
  | @endThread stack h =>
    have hothers : stack.current :: stack.others = s.callStack.others := by
      unfold CallStack.popThread at h
      split at h
      · next hothers =>
        split at h
        · cases h
        · cases h
          exact hothers.symm
      · cases h
    have hmem {t : Thread} (ht : t ∈ stack.current :: stack.others) : t ∈ s.everyThread :=
      State.mem_everyThread_of_others (hothers ▸ ht)
    exact State.fades_of_threads ⟨_, hmem List.mem_cons_self, Thread.fades_of_eq rfl⟩
      (fun _ ht => hmem (List.mem_cons_of_mem _ ht))
      fun _ ho => ⟨_, State.mem_everyThread_of_choice ho, Thread.fades_of_eq rfl⟩
  | resume ho =>
    exact State.fades_of_threads ⟨_, State.mem_everyThread_of_choice ho, Thread.fades_of_eq rfl⟩
      (List.nil_subset _) nofun
  | copy =>
    exact State.fades_of_threads ⟨_, s.current_mem_everyThread, Thread.fades_of_eq rfl⟩
      (List.nil_subset _) fun _ ho => ⟨_, State.mem_everyThread_of_choice ho, Thread.fades_of_eq rfl⟩
  | finish =>
    exact State.fades_of_current (Thread.fades_of_fresh rfl) (List.nil_subset _) (List.nil_subset _)

/-! ## Assignments -/

/-- The scope that numbers a frame. -/
theorem CallStack.scope_of_frameNumber? {s : CallStack} {scope : Int} {i : Nat}
    (h : s.frameNumber? scope = some i) :
    (if scope = unknownScope then (s.depth : Int) else scope) = i + 1 := by
  unfold frameNumber? at h
  split at h
  · next hunknown =>
    cases h
    rw [if_pos hunknown]
    rfl
  · next hknown =>
    rw [if_neg hknown]
    split at h
    · cases h
      omega
    · cases h

/-- A temporary variable that is set has the value in its frame. -/
theorem CallStack.setTemporary_ok {s u : CallStack} {name : String} {value : Value}
    {declares : Bool} {scope : Int} (h : s.setTemporary name value declares scope = .ok u) :
    ∃ i old, s.frameNumber? scope = some i ∧ (s.current.frame? i).isSome = true ∧
      u = s.putTemporary scope name (.replacing old value) := by
  unfold setTemporary at h
  rw [scopeFrame?_eq] at h
  cases hnumber : s.frameNumber? scope with
  | none =>
    rw [hnumber] at h
    cases h
  | some i =>
    rw [hnumber, Option.bind_some] at h
    cases hframe : s.current.frame? i with
    | none =>
      rw [hframe] at h
      cases h
    | some f =>
      rw [hframe] at h
      dsimp only at h
      split at h
      · next old _ =>
        cases h
        exact ⟨i, some old, rfl, by rw [hframe]; rfl, rfl⟩
      · split at h
        · cases h
          exact ⟨i, none, rfl, by rw [hframe]; rfl, rfl⟩
        · cases h

/-- A reference that takes the place of a value is still this reference. -/
theorem Value.replacing_reference (old : Option Value) (name : String) (scope : Int) :
    Value.replacing old (.reference name scope) = .reference name scope := by
  cases old with
  | none => rfl
  | some old => cases old <;> rfl

namespace Variables

variable {v v' : Variables} {lists : ListDefinitions} {s s' : CallStack} {a : Assignment}
  {value : Value}

/-- The variable that an assignment goes to, by its name and its scope. -/
def place (v : Variables) (lists : ListDefinitions) (s : CallStack) (a : Assignment) :
    String × Int :=
  if a.isDeclaration then (a.name, if a.isGlobal then globalScope else s.depth)
  else
    let (name, scope) := v.target lists s a.name
    (name, if v.goesToGlobal lists s a then globalScope
      else if scope = unknownScope then s.depth else scope)

/-- The value that an assignment puts there. -/
def placed (v : Variables) (lists : ListDefinitions) (s : CallStack) (a : Assignment)
    (value : Value) : Value :=
  if a.isDeclaration then v.resolved lists s value else value

theorem puts_put (v : Variables) (lists : ListDefinitions) (s : CallStack) (name : String)
    (value : Value) : v.Puts (v.put name value) lists s s (name, globalScope)
      (.replacing (v.globals.get? name) value) := by
  rintro ⟨other, scope⟩ hscope
  dsimp only at hscope ⊢
  by_cases hname : other = name
  · subst hname
    by_cases hglobal : scope = globalScope
    · subst hglobal
      rw [if_pos rfl, raw?_eq, v.shadow?_put_self lists other value (.inl rfl)]
      rfl
    · rw [if_neg (by simp [hglobal]), raw?_of_known _ _ _ _ hscope, raw?_of_known _ _ _ _ hscope,
        if_neg hglobal, if_neg hglobal]
  · rw [if_neg (by simp [hname]), raw?_eq, raw?_eq, v.shadow?_put_of_ne lists value scope hname]

theorem puts_putTemporary (v : Variables) (lists : ListDefinitions) {scope : Int} {i : Nat}
    (h : s.frameNumber? scope = some i) (hframe : (s.current.frame? i).isSome = true)
    (name : String) (value : Value) :
    v.Puts v lists s (s.putTemporary scope name value) (name, i + 1) value := by
  rintro ⟨other, scope'⟩ hscope
  dsimp only at hscope ⊢
  have hnumber : s.frameNumber? scope' = some i ↔ scope' = i + 1 := by
    constructor
    · intro hi
      have hscope' := CallStack.scope_of_frameNumber? hi
      rwa [if_neg hscope] at hscope'
    · rintro rfl
      rw [CallStack.frameNumber?, if_neg hscope, if_pos (by omega)]
      congr 1
      omega
  rw [raw?_eq, raw?_eq, temporary?_putTemporary h hframe]
  by_cases hplace : other = name ∧ scope' = i + 1
  · obtain ⟨rfl, rfl⟩ := hplace
    have hshadow : v.shadow? lists other (i + 1) = none :=
      if_neg (by rw [globalScope, unknownScope]; omega)
    rw [if_pos ⟨rfl, hnumber.mpr rfl⟩, if_pos rfl, hshadow, Option.none_or]
  · rw [if_neg fun hput => hplace ⟨hput.1, hnumber.mp hput.2⟩, if_neg (by simpa using hplace)]

/-- An assignment puts its value at its place: that of a global variable for all threads, and that
of a temporary one for the current thread. -/
theorem assign_puts (h : v.assign lists s a value = .ok (v', s')) : ∃ old,
    ((v.place lists s a).2 = globalScope ∧ s' = s ∧ ∀ t, v.Puts v' lists (.only t) (.only t)
        (v.place lists s a) (.replacing old (v.placed lists s a value))) ∨
      (1 ≤ (v.place lists s a).2 ∧ v' = v ∧ s'.others = s.others ∧
        v.Puts v lists (.only s.current) (.only s'.current) (v.place lists s a)
          (.replacing old (v.placed lists s a value))) := by
  have htemporary {name : String} {value : Value} {declares : Bool} {scope : Int}
      (h : (s.setTemporary name value declares scope).map (v, ·) = .ok (v', s')) :
      1 ≤ (if scope = unknownScope then (s.depth : Int) else scope) ∧ v' = v ∧
        s'.others = s.others ∧ ∃ old, v.Puts v lists (.only s.current) (.only s'.current)
          (name, if scope = unknownScope then (s.depth : Int) else scope)
          (.replacing old value) := by
    obtain ⟨stack, hset, heq⟩ := Except.exists_of_map_eq_ok h
    cases heq
    obtain ⟨i, old, hi, hframe, rfl⟩ := CallStack.setTemporary_ok hset
    rw [CallStack.scope_of_frameNumber? hi]
    exact ⟨by omega, rfl, (s.threads_putTemporary _ _ _).2, old,
      v.puts_putTemporary lists hi hframe name _⟩
  unfold place placed
  cases hdeclares : a.isDeclaration with
  | true =>
    rw [assign_of_declaration hdeclares] at h
    rw [if_pos rfl, if_pos rfl]
    split at h
    · next hglobal =>
      cases h
      rw [if_pos hglobal]
      exact ⟨_, .inl ⟨rfl, rfl, fun t => v.puts_put lists (.only t) a.name _⟩⟩
    · next hlocal =>
      rw [if_neg hlocal]
      obtain ⟨hscope, hv, hothers, old, hputs⟩ := htemporary h
      exact ⟨old, .inr ⟨hscope, hv, hothers, hputs⟩⟩
  | false =>
    rw [assign_of_not_declaration hdeclares] at h
    rw [if_neg Bool.false_ne_true, if_neg Bool.false_ne_true]
    dsimp only
    split at h
    · next hglobal =>
      cases h
      rw [if_pos hglobal]
      exact ⟨_, .inl ⟨rfl, rfl, fun t => v.puts_put lists (.only t) _ value⟩⟩
    · next hlocal =>
      rw [if_neg hlocal]
      obtain ⟨hscope, hv, hothers, old, hputs⟩ := htemporary h
      exact ⟨old, .inr ⟨hscope, hv, hothers, hputs⟩⟩

theorem place_known (v : Variables) (lists : ListDefinitions) (s : CallStack) (a : Assignment) :
    (v.place lists s a).2 ≠ unknownScope := by
  have hdepth : (s.depth : Int) ≠ unknownScope := by rw [unknownScope]; omega
  have hglobal : globalScope ≠ unknownScope := by decide
  unfold place
  dsimp only
  split
  · show (if a.isGlobal then globalScope else (s.depth : Int)) ≠ _
    split
    · exact hglobal
    · exact hdepth
  · show (if v.goesToGlobal lists s a then globalScope else _) ≠ unknownScope
    split
    · exact hglobal
    · split
      · exact hdepth
      · next hknown => exact hknown

/-- In one thread references still end just when the value, if it is a reference, does not lead
back to its place. -/
theorem Grounded.puts_iff {t t' : Thread} {x : String × Int} {old : Option Value}
    (h : v.Grounded lists (.only t))
    (hputs : v.Puts v' lists (.only t) (.only t') x (.replacing old value))
    (hx : x.2 ≠ unknownScope)
    (hknown : ∀ w : String × Int, value = .reference w.1 w.2 → w.2 ≠ unknownScope) :
    v'.Grounded lists (.only t') ↔
      ∀ w : String × Int, value = .reference w.1 w.2 → ¬v.LeadsTo lists (.only t) w x := by
  by_cases hplain : value.IsPlain
  · exact ⟨fun _ w hw => absurd hw (hplain _ _),
      fun _ => h.fades (hputs.fades (hplain.replacing old))⟩
  · obtain ⟨name, scope, rfl⟩ : ∃ name scope, value = .reference name scope := by
      by_contra hnone
      exact hplain fun name scope hvalue => hnone ⟨name, scope, hvalue⟩
    rw [Value.replacing_reference] at hputs
    rw [grounded_iff_of_puts (w := (name, scope)) h hputs hx (hknown (name, scope) rfl)]
    constructor
    · rintro haway ⟨name', scope'⟩ hw
      cases hw
      exact haway
    · exact fun haway => haway (name, scope) rfl

/-- Where an assignment goes to, and what it puts there, does not depend on the places of
execution. -/
theorem place_modifyTop (v : Variables) (lists : ListDefinitions) (s : CallStack)
    {g : Frame → Frame} (hg : ∀ f, (g f).temporaries = f.temporaries) (a : Assignment) :
    v.place lists (s.modifyTop g) a = v.place lists s a := by
  unfold place
  rw [v.target_modifyTop s hg, v.goesToGlobal_modifyTop lists s hg]
  rfl

theorem placed_modifyTop (v : Variables) (lists : ListDefinitions) (s : CallStack)
    {g : Frame → Frame} (hg : ∀ f, (g f).temporaries = f.temporaries) (a : Assignment)
    (value : Value) : v.placed lists (s.modifyTop g) a value = v.placed lists s a value := by
  unfold placed
  cases value with
  | reference name scope =>
    unfold resolved
    dsimp only
    unfold resolveReference
    dsimp only
    rw [v.raw?_modifyTop s hg]
    rfl
  | _ => rfl

end Variables

namespace State

variable {lists : ListDefinitions} {s u : State} {a : Assignment} {value : Value}
  {x : String × Int}

/-- The threads that know a variable of this scope. -/
def seeing (s : State) (scope : Int) : List Thread :=
  if scope = globalScope then s.everyThread else [s.callStack.current]

/-- A value for a variable: if it is a reference, it knows its scope, and does not lead back. -/
def Admits (lists : ListDefinitions) (s : State) (x : String × Int) (value : Value) : Prop :=
  ∀ w : String × Int, value = .reference w.1 w.2 → w.2 ≠ unknownScope ∧
    ∀ t ∈ s.seeing x.2, ¬s.vars.LeadsTo lists (.only t) w x

/-- An assignment leaves references that end just when its place admits its value. -/
theorem Grounded.assign_iff {vars : Variables} {callStack : CallStack} (h : s.Grounded lists)
    (hassign : s.vars.assign lists s.callStack a value = .ok (vars, callStack))
    (hknown : ∀ w : String × Int, s.vars.placed lists s.callStack a value = .reference w.1 w.2 →
      w.2 ≠ unknownScope) :
    ({ s with vars, callStack } : State).Grounded lists ↔
      s.Admits lists (s.vars.place lists s.callStack a)
        (s.vars.placed lists s.callStack a value) := by
  have hadmits : s.Admits lists (s.vars.place lists s.callStack a)
      (s.vars.placed lists s.callStack a value) ↔
        ∀ t ∈ s.seeing (s.vars.place lists s.callStack a).2, ∀ w : String × Int,
          s.vars.placed lists s.callStack a value = .reference w.1 w.2 →
            ¬s.vars.LeadsTo lists (.only t) w (s.vars.place lists s.callStack a) :=
    ⟨fun hadmits t ht w hw => (hadmits w hw).2 t ht,
      fun hadmits w hw => ⟨hknown w hw, fun t ht => hadmits t ht w hw⟩⟩
  have hplace := s.vars.place_known lists s.callStack a
  rw [hadmits]
  obtain ⟨old, ⟨hglobal, rfl, hputs⟩ | ⟨htemporary, rfl, hothers, hputs⟩⟩ :=
    Variables.assign_puts hassign
  · rw [seeing, if_pos hglobal]
    exact forall₂_congr fun t ht => (h t ht).puts_iff (hputs t) hplace hknown
  · have hlocal : ¬(s.vars.place lists s.callStack a).2 = globalScope := by
      rw [globalScope]
      omega
    have hcurrent := (h _ s.current_mem_everyThread).puts_iff hputs hplace hknown
    rw [seeing, if_neg hlocal, List.forall_mem_singleton, ← hcurrent]
    -- The other threads, and those of the choices, are as they were.
    refine ⟨fun hground => hground _ (List.mem_cons_self), fun hground t ht => ?_⟩
    rcases List.mem_cons.mp ht with rfl | ht
    · exact hground
    · exact h t (List.mem_cons_of_mem _ (hothers ▸ ht))

/-- The host sets a global variable. -/
theorem Grounded.put (h : s.Grounded lists) {name : String}
    (hadmits : s.Admits lists (name, globalScope) value) :
    ({ s with vars := s.vars.put name value } : State).Grounded lists := by
  intro t ht
  have hglobal : globalScope ≠ unknownScope := by decide
  refine ((h t ht).puts_iff (s.vars.puts_put lists (.only t) name value) hglobal
    fun w hw => (hadmits w hw).1).mpr fun w hw => ?_
  exact (hadmits w hw).2 t (by rwa [seeing, if_pos rfl])

/-- What a place admits does not depend on the places of execution. -/
theorem Admits.setCursor (h : s.Admits lists x value) (c : Option Cursor) :
    (s.setCursor c).Admits lists x value := by
  intro w hw
  refine ⟨(h w hw).1, fun t ht => ?_⟩
  have hcurrent : s.vars.LeadsTo lists (.only (s.setCursor c).callStack.current) =
      s.vars.LeadsTo lists (.only s.callStack.current) := by
    unfold Variables.LeadsTo
    congr 1
    funext x y
    exact congrArg (· = _) (s.vars.raw?_modifyTop (.only s.callStack.current)
      (g := fun f => { f with cursor := c }) (fun _ => rfl) lists x.1 x.2)
  have hback : s.callStack.current ∈ s.seeing x.2 := by
    unfold seeing
    split
    · exact s.current_mem_everyThread
    · exact List.mem_singleton_self _
  have hmoved : t = (s.setCursor c).callStack.current ∨ t ∈ s.seeing x.2 := by
    unfold seeing at ht ⊢
    split at ht
    · next hglobal =>
      rw [if_pos hglobal]
      exact (List.mem_cons.mp ht).imp_right (List.mem_cons_of_mem _)
    · exact .inl (List.mem_singleton.mp ht)
  rcases hmoved with rfl | ht
  · show ¬s.vars.LeadsTo lists _ w x
    rw [hcurrent]
    exact (h w hw).2 _ hback
  · exact (h w hw).2 t ht

end State

/-! ## Steps -/

theorem Changes.grounded {c : Content} {fx : Effects} {lists : ListDefinitions} {s u : Story}
    (hfx : fx.assigns = false) (h : Changes c fx s u) (hs : s.state.Grounded lists) :
    u.state.Grounded lists := by
  induction h with
  | refl => exact hs
  | tail _ hchange ih =>
    cases hchange with
    | state hstate =>
      exact ih.fades (hstate.vars_eq hfx ▸ .refl _) (hstate.fades hfx)
    | called | wait | unsafeCall => exact ih

/-- If the next step makes an assignment, its place admits the value. -/
def Story.Straight (s : Story) : Prop :=
  ∀ id a value rest, s.nextLeaf? = some (id, .assign a) →
    s.state.evaluation = .value value :: rest →
    s.state.Admits s.content.lists (s.state.vars.place s.content.lists s.state.callStack a)
      (s.state.vars.placed s.content.lists s.state.callStack a value)

theorem Story.Straight.grounded {s : Story} (h : s.Straight)
    (hs : s.state.Grounded s.content.lists) : s.stepped.state.Grounded s.content.lists := by
  rcases Flow.plainStep_cases s with ⟨-, hchanges⟩ |
    ⟨id, a, value, rest, _, vars, callStack, hleaf, hstack, ⟨visits, turns, place, rfl⟩, hassign,
      hbehind⟩
  · exact hchanges.grounded rfl hs
  · refine hbehind.grounded rfl ?_
    let moved : State := { s.state with visits, turns }.setCursor place
    have hmoved : moved.Grounded s.content.lists :=
      hs.fades (.refl _) (State.fades_of_current (Thread.fades_of_eq rfl) (List.Subset.refl _)
        (List.Subset.refl _))
    have hadmits : moved.Admits s.content.lists (moved.vars.place s.content.lists moved.callStack a)
        (moved.vars.placed s.content.lists moved.callStack a value) := by
      have hstraight := (h id a value rest hleaf hstack).setCursor place
      rwa [← s.state.vars.place_modifyTop s.content.lists s.state.callStack
          (g := fun f => { f with cursor := place }) (fun _ => rfl),
        ← s.state.vars.placed_modifyTop s.content.lists s.state.callStack
          (g := fun f => { f with cursor := place }) (fun _ => rfl)] at hstraight
    exact (hmoved.assign_iff hassign fun w hw => (hadmits w hw).1).mpr hadmits

/-- References that end keep ending, where every assignment is to a place that admits its value. -/
theorem State.kept_grounded :
    State.Kept Story.Straight fun c state => state.Grounded c.lists where
  same {c s u} h hsame := by
    refine h.fades (fun name y hy => ?_) (fades_of_eq hsame.callStack hsame.choices)
    rwa [Variables.get?, hsame.globals, hsame.defaults] at hy
  frame {c s} h height start :=
    h.fades (.refl _) (fades_of_current (s.callStack.fades_push _ _ _) (List.Subset.refl _)
      (List.Subset.refl _))
  drop {c s stack} h hpop :=
    have hdropped := CallStack.fades_of_pop hpop
    h.fades (.refl _) (fades_of_current hdropped.1 (hdropped.2 ▸ List.Subset.refl _)
      (List.Subset.refl _))
  settle {c s} h := by
    refine h.fades (fun name y hy => ?_) (fades_of_eq rfl rfl)
    rw [Variables.get?, Variables.settle, Option.or_self] at hy
    exact Option.or_eq_some_iff.mpr (.inl hy)
  change hfx _ h hchange := h.fades (hchange.vars_eq hfx ▸ .refl _) (hchange.fades hfx)
  step h hstraight := hstraight.grounded h

end StoryMachine
