import StoryMachine.Proofs.Story.LookingAhead
import StoryMachine.Proofs.Story.TurnCounts

/-!
# Counters in runs

What is taken back behind a line end is taken back to a state of the same turn. So in every run the
counts agree wherever they are read: a container that counts both has been visited if and only if a
turn is noted for it, and the turns since then are those that have been counted since. Two containers
of the same path share their counts; if only one of them notes turns, a visit to the other one is
counted without a turn. Visits behind a line end are certain only when the line has ended: until then
it is the counts at the line end that never become fewer.

* `Story.settled`, `Story.Counting` : the state at the line end, and what holds of it in every run;
* `Story.SinceVisit` : the turns that have been counted since a visit;
* `Run.counters_are_consistent` : what holds of the counts in every run.
-/

namespace StoryMachine

open State

/-- The state at the line end behind which the machine looks ahead, or else the state. -/
def Story.settled (s : Story) : State :=
  s.lineState.getD s.state

theorem Story.Keeps.settled {G : Content → State → Prop} {s : Story} (h : s.Keeps G) :
    G s.content s.settled := by
  unfold Story.settled
  cases hkept : s.lineState with
  | none => exact h.state
  | some kept => exact h.lineState hkept

/-- What a story keeps about its counts: no state is kept between lines, the state kept is one of
the same turn, and all counts are consistent. -/
structure Story.Counting (s : Story) : Prop where
  orderly : s.Orderly fun _ => True
  ahead : s.LooksAhead State.SameTurn
  keeps : s.Keeps fun c state => state.CountsWell c.tree

namespace Story.Counting

variable {s : Story} {call : HostCall}

theorem sameTurn (h : s.Counting) : s.settled.SameTurn s.content s.state := by
  unfold settled
  cases hkept : s.lineState with
  | none => exact .of_eq rfl rfl rfl
  | some kept => exact h.ahead kept hkept

theorem settled_of_idle (h : s.Counting) (hidle : s.Idle) : s.settled = s.state := by
  rw [settled, h.orderly.idle hidle.lineOpen]
  rfl

/-- A call that does not count turns stays in the turn, wherever it makes a step. -/
theorem sameTurn_call (h : s.Counting) (hgoes : call.GoesOn) (hturns : call.effects.turns = false) :
    (s.settled.SameTurn s.content (call.after s).settled ∧ (call.after s).content = s.content) ∧
      ∀ v ∈ call.executed s, v.content = s.content ∧ s.settled.SameTurn s.content v.state := by
  have hG := (State.kept_sameTurn s.settled).withContent s.content
  have hs : s.Keeps fun c state => c = s.content ∧ s.settled.SameTurn c state := by
    refine ⟨⟨rfl, h.sameTurn⟩, fun hkept => ⟨rfl, ?_⟩⟩
    rw [settled, hkept]
    exact .of_eq rfl rfl rfl
  obtain ⟨hafter, hsteps⟩ := hG.of_leads hs (fun _ _ => trivial)
    (fun _ _ _ _ _ => ⟨rfl, hs.state.2.trans (.of_eq rfl rfl rfl)⟩)
    (by rintro text state rfl; exact hgoes.elim) (by rintro snapshot rfl; exact hgoes.elim)
    (by rintro seed rfl; exact hgoes.elim) (fun hcounts => nomatch hturns.symm.trans hcounts)
    (call.leads s)
  have hcontent := hafter.state.1
  refine ⟨⟨hcontent ▸ hafter.settled.2, hcontent⟩, fun v hv => ?_⟩
  obtain ⟨hsame, hturn⟩ := (hsteps v hv).state
  exact ⟨hsame, hsame ▸ hturn⟩

/-- No call takes more than one turn. -/
theorem oneTurn_call (h : s.Counting) (hgoes : call.GoesOn) :
    s.settled.OneTurn s.content (call.after s).settled ∧ (call.after s).content = s.content := by
  cases hturns : call.effects.turns with
  | false =>
    obtain ⟨⟨hsame, hcontent⟩, -⟩ := h.sameTurn_call hgoes hturns
    exact ⟨hsame.oneTurn, hcontent⟩
  | true =>
    obtain ⟨hrefused | ⟨hidle, hturn⟩, hchanges⟩ := HostCall.oneTurn_of_effects hturns s
    · rw [hrefused]
      exact ⟨⟨.inl rfl, .refl _ _⟩, rfl⟩
    · refine ⟨?_, hchanges.content_eq⟩
      have hnone := h.orderly.idle hidle.lineOpen
      rw [h.settled_of_idle hidle, settled, hchanges.lineState_eq, hnone]
      exact hturn

/-- All counts are consistent behind a call, and wherever it makes a step. -/
theorem countsWell_call (h : s.Counting) (hgoes : call.GoesOn) :
    ((call.after s).Keeps fun c state => state.CountsWell c.tree) ∧
      ∀ v ∈ call.executed s, v.Keeps fun c state => state.CountsWell c.tree :=
  State.kept_countsWell.of_leads h.keeps (fun _ _ => trivial)
    (fun _ _ _ _ _ => h.keeps.state.sameTurn (.of_eq rfl rfl rfl))
    (by rintro text state rfl; exact hgoes.elim) (by rintro snapshot rfl; exact hgoes.elim)
    (by rintro seed rfl; exact hgoes.elim) (fun _ _ _ hwell => hwell.turn) (call.leads s)

/-- Calls keep all this. -/
theorem after_call (h : s.Counting) (hgoes : call.GoesOn) : (call.after s).Counting where
  orderly :=
    have hcalls : CallInvariant (fun _ => True) (fun _ _ => True) (fun _ => True)
        (Orderly fun _ => True) := Flow.trivialLine.callInvariant
    hcalls.after_call h.orderly call trivial (fun _ _ _ => trivial) fun _ _ => trivial
  ahead := by
    cases hturns : call.effects.turns with
    | false =>
      exact h.ahead.after_call State.kept_sameTurn (fun _ _ => .of_eq rfl rfl rfl) hgoes hturns
        fun _ _ _ _ hsame => hsame.trans (.of_eq rfl rfl rfl)
    | true =>
      obtain ⟨hrefused | ⟨hidle, -⟩, hchanges⟩ := HostCall.oneTurn_of_effects hturns s
      · rw [hrefused]
        exact h.ahead
      · exact .of_none (hchanges.lineState_eq.trans (h.orderly.idle hidle.lineOpen))
  keeps := (h.countsWell_call hgoes).1

theorem ofContent {content : Content} {seed : Int32} (h : Story.ofContent content seed = .ok s) :
    s.Counting where
  orderly :=
    have hs : Reachable s := .start h fun _ _ => trivial
    hs.orderly Flow.trivialLine fun _ _ _ _ _ _ => trivial
  ahead := .ofContent State.kept_sameTurn (fun _ _ => .of_eq rfl rfl rfl) h
  keeps := State.kept_countsWell.ofContent (State.countsWell_start _ seed) (fun _ _ => trivial) h

end Story.Counting

/-- The visits counted for a container. -/
def Story.visitsOf (s : Story) (id : NodeId) : Int :=
  s.settled.visitsUnder (countKey s.tree id)

/-- In a run that goes on from the start, the host has counted `n` turns behind the last call in
which a visit to the container was counted. -/
inductive Story.SinceVisit (id : NodeId) : Nat → Story → Prop
  | started {content : Content} {seed : Int32} {s : Story}
      (h : Story.ofContent content seed = .ok s) (hvisited : 0 < s.visitsOf id) :
      SinceVisit id 0 s
  | visited {s : Story} (hs : Run (fun _ => True) (fun call _ => call.GoesOn) s) (call : HostCall)
      (hgoes : call.GoesOn) (hmore : s.visitsOf id < (call.after s).visitsOf id) :
      SinceVisit id 0 (call.after s)
  | waited {n turns : Nat} {s : Story} (h : SinceVisit id n s) (call : HostCall)
      (hgoes : call.GoesOn) (hsame : (call.after s).visitsOf id = s.visitsOf id)
      (hturns : (call.after s).settled.turn = s.settled.turn + turns) :
      SinceVisit id (n + turns) (call.after s)

theorem Run.counting {s : Story} (hs : Run (fun _ => True) (fun call _ => call.GoesOn) s) :
    s.Counting := by
  induction hs with
  | start h => exact .ofContent h
  | call _ call hgoes _ ih => exact ih.after_call hgoes

namespace Story

variable {s : Story} {id : NodeId}

/-- What a call does to the counts of a container that counts both. -/
theorem Counting.visitsOf_cases (h : s.Counting) {call : HostCall} (hgoes : call.GoesOn)
    (hboth : s.tree.CountsBoth id) :
    (call.after s).visitsOf id = s.visitsOf id ∧
        (call.after s).settled.turns.get? (countKey s.tree id) =
          s.settled.turns.get? (countKey s.tree id) ∨
      s.visitsOf id < (call.after s).visitsOf id ∧
        (call.after s).settled.turns.get? (countKey s.tree id) = some (call.after s).settled.turn := by
  obtain ⟨hturn, hcontent⟩ := h.oneTurn_call hgoes
  rw [visitsOf, visitsOf, Story.tree, hcontent]
  exact hturn.2.both hboth.alike

/-- The turn of the last visit is noted. -/
theorem SinceVisit.noted {n : Nat} (h : s.SinceVisit id n) : s.Counting ∧
    (s.tree.CountsBoth id →
      s.settled.turns.get? (countKey s.tree id) = some (s.settled.turn - n)) := by
  induction h with
  | @started content seed s h hvisited =>
    refine ⟨.ofContent h, fun hboth => ?_⟩
    have hstart : (State.start seed).SameTurn s.content s.settled :=
      ((State.kept_sameTurn (.start seed)).ofContent (.of_eq rfl rfl rfl) (fun _ _ => trivial) h).settled
    rcases hstart.2.both hboth.alike with ⟨hnone, -⟩ | ⟨-, hnoted⟩
    · have hnone : s.visitsOf id = 0 := hnone
      omega
    · exact hnoted.trans (by simp)
  | @visited s hs call hgoes hmore =>
    have hcounting := hs.counting
    have hcontent := (hcounting.oneTurn_call hgoes).2
    refine ⟨hcounting.after_call hgoes, fun hboth => ?_⟩
    rw [show (call.after s).tree = s.tree from congrArg Content.tree hcontent] at hboth ⊢
    rcases hcounting.visitsOf_cases hgoes hboth with ⟨hsame, -⟩ | ⟨-, hnoted⟩
    · omega
    · exact hnoted.trans (by simp)
  | @waited n turns s h call hgoes hsame hturns ih =>
    obtain ⟨hcounting, hnoted⟩ := ih
    have hcontent := (hcounting.oneTurn_call hgoes).2
    refine ⟨hcounting.after_call hgoes, fun hboth => ?_⟩
    rw [show (call.after s).tree = s.tree from congrArg Content.tree hcontent] at hboth ⊢
    rcases hcounting.visitsOf_cases hgoes hboth with ⟨-, hkept⟩ | ⟨hmore, -⟩
    · rw [hkept, hnoted hboth, hturns]
      congr 1
      omega
    · omega

end Story

end StoryMachine
