import StoryMachine.Proofs.Story.Parts
import StoryMachine.Story.Host

/-!
# Runs

A host drives a story by calls. A run is a sequence of calls, from a story that has been
started on. The calls that continue the story make steps; a run may be required to make
them only from stories of some kind, which says something about what the content does on
the way.

* `HostCall` : the calls of a host that change a story;
* `HostCall.Visits` : the stories that a call makes steps from;
* `Run` : the stories that calls lead to, where the stories that steps are made from, and the
  calls, are of some kind; `Reachable` : without such conditions;
* `CallRun` : the stories that calls lead to from a story.
-/

namespace StoryMachine

/-- What a host may call that changes a story. -/
inductive HostCall where
  | next
  | nextTagged
  | nextAll
  | continueFor (limited : Bool)
  | continueSlice (more : Nat)
  | choose (index : Nat)
  | choosePath (path : String) (reset : Bool) (arguments : List Value)
  | setVariable (name : String) (v : Value)
  | observe (name observer : String)
  | unobserve (observer : String) (name : Option String)
  | bind (name : String) (f : HostFunction) (lookaheadSafe : Bool)
  | unbind (name : String)
  | resolve (result : Option Value)
  | resetCallStack
  | evaluate (name : String) (arguments : List Value)
  | load (text : String)
  | restore (snapshot : Snapshot)
  | resetState (seed : Int32)
  | resetErrors
  | installHandler
  | allowFallbacks (allow : Bool)
  | takeEvents

namespace HostCall

/-- What a call does. -/
def run : HostCall → Flow Unit
  | next => do
    let _ ← Flow.next
  | nextTagged => do
    let _ ← Flow.nextTagged
  | nextAll => do
    let _ ← Flow.nextAll
  | continueFor limited => Flow.continueFor limited
  | continueSlice more => Flow.continueSlice more
  | choose index => Flow.choose index
  | choosePath path reset arguments => Flow.choosePath path reset arguments
  | setVariable name v => Flow.setVariable name v
  | observe name observer => Flow.observe name observer
  | unobserve observer name => Flow.unobserve observer name
  | bind name f lookaheadSafe => Flow.bind name f lookaheadSafe
  | unbind name => Flow.unbind name
  | resolve result => Flow.resolve result
  | resetCallStack => Flow.resetCallStack
  | evaluate name arguments => do
    let _ ← Flow.evaluate name arguments
  | load text => Flow.load text
  | restore snapshot => Flow.restore snapshot
  | resetState seed => Flow.resetState seed
  | resetErrors => modify Story.resetErrors
  | installHandler => modify Story.installHandler
  | allowFallbacks allow => modify fun s => s.allowFallbacks allow
  | takeEvents => modify fun s => s.takeEvents.2

/-- The story behind a call. -/
def after (call : HostCall) (s : Story) : Story :=
  call.run.after s

end HostCall

namespace Story

/-- The story behind a step, if the line goes on. -/
def goesOn? (s : Story) : Option Story :=
  match Flow.lineStep s with
  | .ok false t => if t.pending.isNone && t.state.canContinue then some t else none
  | _ => none

theorem goesOn?_eq {s t : Story} (h : Flow.lineStep s = .ok false t) (hpending : t.pending = none)
    (hcontinue : t.state.canContinue = true) : s.goesOn? = some t := by
  rw [goesOn?, h]
  simp [hpending, hcontinue]

/-- The stories from which steps are made when a line is continued for a number of nodes. -/
inductive Passes : (nodes : Nat) → Story → Story → Prop
  | here (nodes : Nat) (s : Story) : Passes (nodes + 1) s s
  | step {nodes : Nat} {s t u : Story} (h : s.goesOn? = some t) (hrest : Passes nodes t u) :
      Passes (nodes + 1) s u

theorem forall_passes_succ {P : Story → Prop} {nodes : Nat} {s : Story} :
    (∀ u, s.Passes (nodes + 1) u → P u) ↔
      P s ∧ ∀ t, s.goesOn? = some t → ∀ u, t.Passes nodes u → P u := by
  refine ⟨fun h => ⟨h s (.here nodes s), fun t ht u hu => h u (.step ht hu)⟩, fun ⟨hs, h⟩ u hu => ?_⟩
  cases hu with
  | here => exact hs
  | step ht hrest => exact h _ ht u hrest

instance decidableForallPasses (P : Story → Prop) [DecidablePred P] :
    (nodes : Nat) → (s : Story) → Decidable (∀ u, s.Passes nodes u → P u)
  | 0, _ => .isTrue fun _ h => nomatch h
  | nodes + 1, s =>
    have : Decidable (∀ t, s.goesOn? = some t → ∀ u, t.Passes nodes u → P u) :=
      match s.goesOn? with
      | none => .isTrue fun _ h' => nomatch h'
      | some t => match decidableForallPasses P nodes t with
        | .isTrue ht => .isTrue fun _ h' => Option.some.inj h' ▸ ht
        | .isFalse ht => .isFalse fun hall => ht (hall t rfl)
    decidable_of_iff' _ forall_passes_succ

/-- The stories from which steps are made when a line is begun, or gone on with. -/
def Visits (limited : Bool) (nodes : Nat) (s u : Story) : Prop :=
  ∃ t, Flow.openLine limited s = .ok () t ∧ Passes nodes t u

theorem forall_visits_iff {P : Story → Prop} {limited : Bool} {nodes : Nat} {s : Story} :
    (∀ u, s.Visits limited nodes u → P u) ↔
      match Flow.openLine limited s with
      | .ok _ t => ∀ u, t.Passes nodes u → P u
      | .error _ _ => True := by
  unfold Visits
  cases Flow.openLine limited s with
  | ok _ t =>
    refine ⟨fun h u hu => h u ⟨t, rfl, hu⟩, fun h u ⟨v, hv, hu⟩ => ?_⟩
    cases hv
    exact h u hu
  | error e t => exact ⟨fun _ => trivial, fun _ u ⟨v, hv, _⟩ => nomatch hv⟩

instance decidableForallVisits (P : Story → Prop) [DecidablePred P] (limited : Bool) (nodes : Nat)
    (s : Story) : Decidable (∀ u, s.Visits limited nodes u → P u) :=
  have : Decidable (match Flow.openLine limited s with
      | .ok _ t => ∀ u, t.Passes nodes u → P u
      | .error _ _ => True) :=
    match Flow.openLine limited s with
    | .ok _ t => inferInstanceAs (Decidable (∀ u, t.Passes nodes u → P u))
    | .error _ _ => .isTrue trivial
  decidable_of_iff' _ forall_visits_iff

/-- The stories from which steps are made when lines are continued one after the other. -/
inductive VisitsLines : Story → Story → Prop
  | here {s u : Story} (h : s.Visits false Flow.nodeBudget u) : VisitsLines s u
  | next {s t u : Story} {text : String} (h : Flow.next s = .ok text t)
      (hrest : VisitsLines t u) : VisitsLines s u

/-- The story at its start, over content without global declarations. -/
def undeclared (content : Content) (seed : Int32) : Story :=
  { unstarted content seed with state := { State.start seed with vars := Variables.empty.settle } }

theorem ofContent_undeclared {content : Content} {seed : Int32}
    (hdeclares : content.tree.declaresGlobals = false) (hversion : content.version = formatVersion) :
    ofContent content seed = .ok (undeclared content seed) := by
  have hdeclared : Flow.declareGlobals (unstarted content seed) = .ok () (undeclared content seed) := by
    unfold Flow.declareGlobals
    rw [Flow.bind_ok (Flow.tree_ok _), show (unstarted content seed).tree.declaresGlobals = false from
      hdeclares]
    rfl
  have hchecked : Flow.checkVersion (undeclared content seed) = .ok () (undeclared content seed) := by
    unfold Flow.checkVersion
    rw [Flow.bind_ok (Flow.get_ok _)]
    exact congrFun (if_neg (Decidable.not_not.mpr hversion)) _
  unfold ofContent
  rw [Flow.bind_ok hdeclared, hchecked]

/-- The stories from which steps are made when the global declarations run. -/
def VisitsDeclarations (s u : Story) : Prop :=
  s.tree.declaresGlobals = true ∧
    ∃ t, Flow.jumpTo (Path.parse declarationsName) false s = .ok () t ∧
      t.Visits false Flow.nodeBudget u

end Story

/-- The stories from which steps of the line are made in a call. Calls of functions put out
no line. -/
def HostCall.Visits : HostCall → Story → Story → Prop
  | next, s, u | nextTagged, s, u => s.Visits false Flow.nodeBudget u
  | continueFor limited, s, u => s.Visits limited Flow.nodeBudget u
  | continueSlice more, s, u => s.Visits true (more + 1) u
  | nextAll, s, u => s.VisitsLines u
  | resetState seed, s, u =>
    Story.VisitsDeclarations { s with state := .start seed } u
  | _, _, _ => False

/-- The stories that a run leads to, where all stories that steps of a line are made from
satisfy `P`, and only calls that `A` allows are made. -/
inductive Run (P : Story → Prop) (A : HostCall → Story → Prop) : Story → Prop
  | start {content : Content} {seed : Int32} {s : Story}
      (h : Story.ofContent content seed = .ok s)
      (hvisits : ∀ u, (Story.unstarted content seed).VisitsDeclarations u → P u) : Run P A s
  | call {s : Story} (h : Run P A s) (call : HostCall) (hallowed : A call s)
      (hvisits : ∀ u, call.Visits s u → P u) : Run P A (call.after s)

/-- The stories that a host can bring about. -/
abbrev Reachable : Story → Prop :=
  Run (fun _ => True) fun _ _ => True

/-- The stories that calls which `A` allows lead to from a story. -/
inductive CallRun (A : HostCall → Story → Prop) (s : Story) : Story → Prop
  | here : CallRun A s s
  | call {u : Story} (h : CallRun A s u) (call : HostCall) (hallowed : A call u) :
    CallRun A s (call.after u)

end StoryMachine
