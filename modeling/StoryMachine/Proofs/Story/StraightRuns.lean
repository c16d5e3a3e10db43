import StoryMachine.Proofs.Story.Grounded

/-!
# References that end in every run

A story starts without references. A step makes one where it carries out an assignment, and a host
where it sets a variable, or brings in another state. If no reference is made that leads back to its
variable, then references end in every thread, in front of every call and of every step, and
reading and assigning find the variable at the end. Nothing refuses a reference that leads back.

* `HostCall.Straight`, `StraightRun` : runs in which no reference that is made leads back;
* `Story.ReferencesEnd` : what holds then;
* `Story.goesStraight` : whether the next step makes a reference that leads back;
* `Flow.references_end` : references end in such runs;
* `Flow.handed_on_has_no_end` : a story that makes a reference which leads back.
-/

namespace StoryMachine

/-! ## Runs -/

/-- The call makes no reference that leads back, and brings in none. -/
def HostCall.Straight : HostCall → Story → Prop
  | setVariable name v, s => s.state.Admits s.content.lists (name, globalScope) v
  | load text, s => ∀ state, s.state.ofText s.tree text = .ok state → state.Grounded s.content.lists
  | restore snapshot, s => snapshot.state.Grounded s.content.lists
  | _, _ => True

/-- The stories that a host brings about where no reference that is made leads back. -/
inductive StraightRun : Story → Prop
  | start {content : Content} {seed : Int32} {s : Story} (h : Story.ofContent content seed = .ok s)
      (hsteps : ∀ v ∈ (Story.unstarted content seed).declarationSteps, v.Straight) : StraightRun s
  | call {s : Story} (h : StraightRun s) (call : HostCall) (hcall : call.Straight s)
      (hsteps : ∀ v ∈ call.executed s, v.Straight) : StraightRun (call.after s)

/-- References end in every thread, wherever they start, on a path that is no longer than the
number of the values that are stored. Reading and assigning follow a name to the end, and reading
finds no reference there. -/
structure Story.ReferencesEnd (s : Story) : Prop where
  ends : ∀ t ∈ s.state.everyThread, ∀ x : String × Int, ∃ path last,
    s.state.vars.Follows s.content.lists (.only t) x path last ∧
      path.length ≤ (s.state.vars.stored (.only t)).length
  target (name : String) : ∃ path, s.state.vars.Follows s.content.lists s.state.callStack
    (name, unknownScope) path (s.state.vars.target s.content.lists s.state.callStack name)
  read (name : String) (y : String × Int) :
    s.state.vars.read? s.content.lists s.state.callStack name ≠ some (.reference y.1 y.2)

theorem Story.referencesEnd_of_grounded {s : Story} (h : s.state.Grounded s.content.lists) :
    s.ReferencesEnd := by
  have hcurrent : s.state.vars.Grounded s.content.lists s.state.callStack :=
    (h _ s.state.current_mem_everyThread).fades fun _ _ _ hy => hy
  exact {
    ends := fun t ht x => by
      obtain ⟨path, last, hfollows⟩ := (h t ht).follows x
      exact ⟨path, last, hfollows, hfollows.length_le⟩
    target := fun name => by
      obtain ⟨path, last, hfollows⟩ := hcurrent.follows (name, unknownScope)
      exact ⟨path, Variables.target_of_follows hfollows ▸ hfollows⟩
    read := fun name y => by
      obtain ⟨path, last, hfollows⟩ := hcurrent.follows (name, unknownScope)
      rw [Variables.read?_of_follows hfollows]
      exact hfollows.raw?_last y }

/-- At the start there are no references. -/
theorem State.grounded_start (lists : ListDefinitions) (seed : Int32) :
    (State.start seed).Grounded lists := by
  intro t ht x hx
  refine ⟨[], x, .ends fun y hy => ?_, nofun⟩
  obtain rfl := List.mem_singleton.mp ht
  rw [Variables.raw?_of_known _ _ _ _ hx] at hy
  split at hy
  · rcases Option.or_eq_some_iff.mp hy with hget | ⟨-, hlist⟩
    · cases hget
    · obtain ⟨l, -, hl⟩ := Option.map_eq_some_iff.mp hlist
      cases hl
  · split at hy
    · obtain ⟨table, htable, hget⟩ := Option.bind_eq_some_iff.mp hy
      obtain rfl := List.mem_singleton.mp (List.mem_of_getElem? htable)
      cases hget
    · cases hy

namespace StraightRun

variable {s : Story}

/-- A call makes no reference that leads back. -/
theorem leads_of_keeps {call : HostCall} (h : s.Keeps fun c state => state.Grounded c.lists)
    (hcall : call.Straight s) (hsteps : ∀ v ∈ call.executed s, v.Straight) :
    (call.after s).Keeps (fun c state => state.Grounded c.lists) ∧
      ∀ v ∈ call.executed s, v.Keeps fun c state => state.Grounded c.lists := by
  have hstart (seed : Int32) : (State.start seed).Grounded s.content.lists :=
    State.grounded_start _ seed
  refine State.kept_grounded.of_leads h hsteps ?_ ?_ ?_ (fun seed _ => hstart seed)
    (fun _ _ _ h => h) (call.leads s)
  · rintro name v vars rfl hset
    unfold Variables.set at hset
    split at hset
    · cases hset
      exact h.state.put hcall
    · cases hset
  · rintro text state rfl hread
    exact hcall state hread
  · rintro snapshot rfl
    exact hcall

theorem keeps (hs : StraightRun s) : s.Keeps fun c state => state.Grounded c.lists := by
  induction hs with
  | start h hsteps => exact State.kept_grounded.ofContent (State.grounded_start _ _) hsteps h
  | call _ call hcall hsteps ih => exact (leads_of_keeps ih hcall hsteps).1

end StraightRun

/-! ## Checking runs -/

/-- References do not lead from a variable to another one, within a number of steps. -/
def Variables.avoids (v : Variables) (lists : ListDefinitions) (s : CallStack) :
    Nat → String × Int → String × Int → Bool
  | 0, _, _ => false
  | bound + 1, w, x => w != x &&
    match v.raw? lists s w.1 w.2 with
    | some (.reference name scope) => v.avoids lists s bound (name, scope) x
    | _ => true

theorem Variables.not_leadsTo_of_avoids {v : Variables} {lists : ListDefinitions} {s : CallStack}
    {bound : Nat} {w x : String × Int} (h : v.avoids lists s bound w x = true) :
    ¬v.LeadsTo lists s w x := by
  induction bound generalizing w with
  | zero => cases h
  | succ bound ih =>
    intro hleads
    rw [avoids, Bool.and_eq_true, bne_iff_ne] at h
    rcases Relation.ReflTransGen.cases_head hleads with rfl | ⟨y, hstep, hrest⟩
    · exact h.1 rfl
    · rw [hstep] at h
      exact ih h.2 hrest

/-- The place is checked to admit the value. -/
def State.admits (lists : ListDefinitions) (s : State) (x : String × Int) : Value → Bool
  | .reference name scope => scope != unknownScope && (s.seeing x.2).all fun t =>
      s.vars.avoids lists (.only t) (s.vars.chainBound (.only t)) (name, scope) x
  | _ => true

theorem State.admits_of_check {lists : ListDefinitions} {s : State} {x : String × Int}
    {value : Value} (h : s.admits lists x value = true) : s.Admits lists x value := by
  rintro ⟨name, scope⟩ rfl
  rw [admits, Bool.and_eq_true, bne_iff_ne, List.all_eq_true] at h
  exact ⟨h.1, fun t ht => Variables.not_leadsTo_of_avoids (h.2 t ht)⟩

/-- The next step is checked to make no reference that leads back. -/
def Story.goesStraight (s : Story) : Bool :=
  match s.nextLeaf?, s.state.evaluation with
  | some (_, .assign a), .value value :: _ =>
    s.state.admits s.content.lists (s.state.vars.place s.content.lists s.state.callStack a)
      (s.state.vars.placed s.content.lists s.state.callStack a value)
  | _, _ => true

theorem Story.straight_of_goesStraight {s : Story} (h : s.goesStraight = true) : s.Straight := by
  intro id a value rest hleaf hstack
  rw [goesStraight, hleaf, hstack] at h
  exact State.admits_of_check h

/-! ## References end -/

/-- Where no reference that is made leads back to its variable, and none that does is brought in,
references end: in front of every call, and wherever a call makes a step. -/
theorem Flow.references_end {s : Story} (hs : StraightRun s) : s.ReferencesEnd ∧
    ∀ call : HostCall, call.Straight s → (∀ v ∈ call.executed s, v.Straight) →
      (call.after s).ReferencesEnd ∧ ∀ v ∈ call.executed s, v.ReferencesEnd := by
  have hkeeps := hs.keeps
  refine ⟨Story.referencesEnd_of_grounded hkeeps.state, fun call hcall hsteps => ?_⟩
  obtain ⟨hafter, hexecuted⟩ := StraightRun.leads_of_keeps hkeeps hcall hsteps
  exact ⟨Story.referencesEnd_of_grounded hafter.state,
    fun v hv => Story.referencesEnd_of_grounded (hexecuted v hv).state⟩

/-- A variable, and a function that is called with a reference to it, and assigns through this. -/
def lentOut : Content :=
  ⟨0, 21, .ofBlock (.container none ⟨false, false, false⟩
    [.leaf (.command .evalStart), .leaf (.value (.int 5)), .leaf (.assign ⟨"x", true, false⟩),
      .leaf (.value (.reference "x" unknownScope)),
      .leaf (.divert ⟨.function, .path ⟨[.name "f"], false⟩, false⟩), .leaf (.command .popValue),
      .leaf (.command .evalEnd), .leaf (.value (.text "Hi")), .leaf (.value (.text "\n")),
      .leaf (.command .done)]
    [("f", .container (some "f") ⟨false, false, false⟩
      [.leaf (.assign ⟨"r", true, false⟩), .leaf (.command .evalStart), .leaf (.value (.int 6)),
        .leaf (.assign ⟨"r", false, false⟩), .leaf .void, .leaf (.command .evalEnd),
        .leaf (.command .popFunction)] [])]), .empty⟩

/-- The story at its start. -/
def lentOutStory : Story :=
  { Story.unstarted lentOut 0 with state := { State.start 0 with vars := Variables.empty.settle } }

/-- In the function references lead from its parameter to the variable of the caller. -/
theorem Flow.lent_out_ends : StraightRun lentOutStory ∧ ∃ v ∈ HostCall.next.executed lentOutStory,
    v.ReferencesEnd ∧ v.state.vars.target v.content.lists v.state.callStack "r" = ("x", 1) := by
  have hstart : Story.ofContent lentOut 0 = .ok lentOutStory := rfl
  have hrun : StraightRun lentOutStory := by
    refine .start hstart fun v hv => ?_
    rw [show (Story.unstarted lentOut 0).declarationSteps = [] from rfl] at hv
    cases hv
  have hchecked : (HostCall.next.executed lentOutStory).all Story.goesStraight = true := by
    decide +kernel
  have hsteps : ∀ v ∈ HostCall.next.executed lentOutStory, v.Straight := fun v hv =>
    Story.straight_of_goesStraight (List.all_eq_true.mp hchecked v hv)
  obtain ⟨-, hexecuted⟩ := (Flow.references_end hrun).2 .next trivial hsteps
  have hfound : (HostCall.next.executed lentOutStory).any (fun v =>
      v.state.vars.target v.content.lists v.state.callStack "r" == ("x", 1)) = true := by
    decide +kernel
  obtain ⟨v, hv, htarget⟩ := List.any_eq_true.mp hfound
  exact ⟨hrun, v, hv, hexecuted v hv, eq_of_beq htarget⟩

/-- A variable, and a jump with a reference to it. Behind the jump a variable of the same name is
declared, as one for the reference. -/
def handedOn : Content :=
  ⟨0, 21, .ofBlock (.container none ⟨false, false, false⟩
    [.leaf (.command .evalStart), .leaf (.value (.int 5)), .leaf (.assign ⟨"x", true, false⟩),
      .leaf (.value (.reference "x" unknownScope)), .leaf (.command .evalEnd),
      .leaf (.divert ⟨.jump, .path ⟨[.name "k"], false⟩, false⟩)]
    [("k", .container (some "k") ⟨false, false, false⟩
      [.leaf (.assign ⟨"x", true, false⟩), .leaf (.value (.text "Hi")), .leaf (.value (.text "\n")),
        .leaf (.command .done)] [])]), .empty⟩

/-- The story at its start. -/
def handedOnStory : Story :=
  { Story.unstarted handedOn 0 with state := { State.start 0 with vars := Variables.empty.settle } }

/-- Whether the variable `x` of the outermost frame holds a reference to itself. -/
def Story.holdsItself (s : Story) : Bool :=
  match s.state.vars.raw? s.content.lists (.only s.state.callStack.current) "x" 1 with
  | some (.reference "x" 1) => true
  | _ => false

/-- Nothing refuses a reference that leads back: from this variable references do not end. -/
theorem Flow.handed_on_has_no_end : Reachable (HostCall.next.after handedOnStory) ∧
    ¬(HostCall.next.after handedOnStory).ReferencesEnd := by
  have hstart : Story.ofContent handedOn 0 = .ok handedOnStory := rfl
  refine ⟨.call (.start hstart fun u hu => by cases hu.1) .next trivial fun _ _ => trivial, ?_⟩
  intro hends
  have hitself : (HostCall.next.after handedOnStory).holdsItself = true := by decide +kernel
  unfold Story.holdsItself at hitself
  split at hitself
  · next hraw =>
    obtain ⟨path, last, hfollows, -⟩ := hends.ends _ (State.current_mem_everyThread _) ("x", 1)
    cases hfollows with
    | ends hnone => exact hnone ("x", 1) hraw
    | step hstep hrest =>
      cases Variables.eq_of_reference (y := ("x", 1)) hraw hstep
      exact (Variables.Follows.step hraw hrest).not_mem List.mem_cons_self
  · cases hitself

end StoryMachine
