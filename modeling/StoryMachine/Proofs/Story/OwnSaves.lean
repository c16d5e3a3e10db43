import StoryMachine.Proofs.Story.SavedThreads

/-!
# Runs with saves of their own

A host may load what it has saved before, from this story or another one, and go back to
snapshots it has taken. As long as it loads and restores nothing else, the threads of every story
it brings about are numbered: saves carry the numbers over, and everything else keeps them apart.

* `OwnRun` : the stories that such a host can bring about;
* `OwnRun.numbered` : their threads are numbered, by induction on the run;
* `OwnRun.choices_keep_threads` : live threads and choices have threads of their own, also behind
  a load.
-/

namespace StoryMachine

/-- A call by which the host brings in no state. -/
def HostCall.KeepsState : HostCall → Prop
  | load _ | restore _ => False
  | _ => True

/-- The stories that a host can bring about which loads only what has been saved in such a way,
and restores only snapshots that have been taken in such a way. -/
inductive OwnRun : Story → Prop
  | start {content : Content} {seed : Int32} {s : Story} (h : Story.ofContent content seed = .ok s) :
      OwnRun s
  | call {s : Story} (h : OwnRun s) (call : HostCall) (hkeeps : call.KeepsState) :
      OwnRun (call.after s)
  | load {s saved : Story} {text : String} (h : OwnRun s) (hsaved : OwnRun saved)
      (hsave : Flow.save saved = .ok text saved) : OwnRun ((HostCall.load text).after s)
  | restore {s taken : Story} (h : OwnRun s) (htaken : OwnRun taken) :
      OwnRun ((HostCall.restore taken.snapshot).after s)

namespace Flow

theorem save_of_idle {s : Story} (h : s.Idle) : save s = .ok (s.state.toText s.tree) s := by
  unfold save
  rw [bind_ok (whenIdle_ok h .save)]
  rfl

/-- A state is saved between lines only. -/
theorem idle_of_save {s u : Story} {text : String} (h : save s = .ok text u) : s.Idle := by
  rcases whenIdle_cases .save s with ⟨-, hpending, hopen⟩ | ⟨e, hbusy⟩
  · exact ⟨hopen, hpending⟩
  · unfold save at h
    rw [bind_error hbusy] at h
    cases h

/-- What is saved is the state. -/
theorem save_ok {s u : Story} {text : String} (h : save s = .ok text u) :
    text = s.state.toText s.tree := by
  cases (save_of_idle (idle_of_save h)).symm.trans h
  rfl

/-- What is loaded is read from the text. -/
theorem load_ok {s u : Story} {text : String} (h : load text s = .ok () u) :
    s.state.ofText s.tree text = .ok u.state ∧ u.tree = s.tree := by
  rcases load_cases text s with ⟨state, -, hread, hrun⟩ | ⟨e, hrun⟩
  · cases hrun.symm.trans h
    exact ⟨hread, rfl⟩
  · cases hrun.symm.trans h

end Flow

/-- What is loaded has been saved from a story whose threads are numbered, and what is restored
is numbered. -/
def HostCall.BringsNumbered : HostCall → Story → Prop
  | load text, _ => ∃ saved : Story, saved.Numbered ∧ text = saved.state.toText saved.tree
  | restore snapshot, _ => snapshot.state.ThreadsNumbered
  | _, _ => True

theorem Story.callInvariant_broughtNumbered :
    Story.CallInvariant (fun _ => True) HostCall.BringsNumbered (fun _ => True)
      fun s => s.Orderly (fun _ => True) ∧ s.Numbered :=
  Story.callInvariant_numbered
    (fun _ _ _ ⟨_, hsaved, htext⟩ hread => hsaved.state.ofText (htext ▸ hread))
    fun _ _ hrestore => hrestore

theorem HostCall.KeepsState.bringsNumbered {call : HostCall} (h : call.KeepsState) (s : Story) :
    call.BringsNumbered s := by
  cases call
  case load => exact h.elim
  case restore => exact h.elim
  all_goals trivial

/-- The threads of a story that loads only what has been saved are numbered. -/
theorem OwnRun.numbered {s : Story} (hs : OwnRun s) :
    s.Orderly (fun _ => True) ∧ s.Numbered := by
  have hcalls := Story.callInvariant_broughtNumbered
  have hafter : ∀ {s : Story} {call : HostCall}, s.Orderly (fun _ => True) ∧ s.Numbered →
      call.BringsNumbered s → (call.after s).Orderly (fun _ => True) ∧ (call.after s).Numbered :=
    fun h hbrings => hcalls.after_call h _ hbrings (fun _ _ _ => trivial) fun _ _ => trivial
  induction hs with
  | start h =>
    exact hcalls.run
      (fun _ seed => ⟨.of_idle rfl rfl, ⟨State.threadsNumbered_start seed, fun h => nomatch h⟩⟩)
      (fun _ _ _ _ _ _ => trivial) (.start h fun _ _ => trivial)
  | call _ call hkeeps ih => exact hafter ih (hkeeps.bringsNumbered _)
  | load _ _ hsave ih ihsaved => exact hafter ih ⟨_, ihsaved.2, Flow.save_ok hsave⟩
  | restore _ _ ih ihtaken => exact hafter ih ihtaken.2.state

/-- The choice has been given back its own thread, which is none of the live ones. -/
structure Choice.GivenBack (t₀ : ContentTree) (s : Story) (o loaded : Choice) : Prop where
  named : loaded.threadNumber = o.threadNumber
  index : loaded.thread.index = o.thread.index
  own : o.thread.ReadFrom t₀ s.tree loaded.thread
  notLive : ∀ thread ∈ s.state.callStack.threads, loaded.thread.index ≠ thread.index

/-- In every story that a host brings about which loads only what has been saved, there are live
threads, and all threads have frames; live threads and the threads of choices all have numbers of
their own, none of them yet to be made; and choices name their threads. Wherever such a story is
saved and loaded, every choice is given back its own thread. -/
theorem OwnRun.choices_keep_threads {s : Story} (hs : OwnRun s) :
    s.state.callStack.threads ≠ [] ∧
    (∀ thread ∈ s.state.callStack.threads ++ s.state.choices.map Choice.thread,
      thread.frames ≠ [] ∧ thread.index ≤ s.state.callStack.made) ∧
    (s.state.callStack.threads.map Thread.index).Nodup ∧
    (∀ o ∈ s.state.choices, o.threadNumber = o.thread.index ∧
      ∀ thread ∈ s.state.callStack.threads, o.thread.index ≠ thread.index) ∧
    (s.state.choices.map fun o => o.threadNumber).Nodup ∧
    ∀ {text : String} {saved host loaded : Story}, Flow.save s = .ok text saved →
      Flow.load text host = .ok () loaded →
      List.Forall₂ (Choice.GivenBack s.tree loaded) s.state.choices loaded.state.choices := by
  have hnumbered := hs.numbered.2.state
  have hdistinct := List.nodup_append.mp hnumbered.distinct
  refine ⟨?_, fun thread hthread => ⟨?_, ?_⟩, hdistinct.1, fun o ho => ⟨hnumbered.own o ho, ?_⟩, ?_,
    fun {text saved host loaded} hsave hload => ?_⟩
  · exact List.reverse_ne_nil_iff.mpr (List.cons_ne_nil _ _)
  · exact List.reverse_ne_nil_iff.mpr (List.cons_ne_nil _ _)
  · refine hnumbered.made _ ?_
    have hmem := List.mem_map_of_mem (f := Thread.index) hthread
    rwa [List.map_append, List.map_map] at hmem
  · exact fun thread hthread heq => hnumbered.not_live ho (heq ▸ List.mem_map_of_mem hthread)
  · have hsame : (s.state.choices.map fun o => o.threadNumber) =
        s.state.choices.map fun o => o.thread.index := List.map_congr_left hnumbered.own
    exact hsame ▸ hdistinct.2.1
  · obtain ⟨hread, htree⟩ := Flow.load_ok hload
    rw [Flow.save_ok hsave] at hread
    obtain ⟨hthreads, -, hchoices⟩ := hnumbered.readFrom hread
    refine ((List.forall₂_and_left _ _).mpr ⟨fun _ ho => ho, hchoices⟩).imp ?_
    rintro o o' ⟨ho, hnamed, hown⟩
    refine ⟨hnamed, hown.index, htree ▸ hown, fun thread hthread heq => hnumbered.not_live ho ?_⟩
    rw [← hown.index, heq, ← Thread.map_index_of_readFrom hthreads]
    exact List.mem_map_of_mem hthread

/-- A text with two choices that lead on to another. -/
def twoWays : Content :=
  let choice := .leaf (.choicePoint ⟨false, false, false, false, false, ⟨[.name "on"], false⟩⟩)
  ⟨0, 21, .ofBlock (.container none ⟨false, false, false⟩
    [.leaf (.value (.text "Hi")), choice, choice]
    [("on", .container (some "on") ⟨false, false, false⟩ [.leaf (.value (.text "On"))] [])]), .empty⟩

/-- A saved state whose numbers read from their texts is read as it was saved. -/
theorem State.ofText_toText {s : State} {t₀ : ContentTree}
    (h : (s.toJson t₀).Exact Json.maxNesting) (u : State) (t : ContentTree) :
    u.ofText t (s.toText t₀) = u.ofJson t (s.toJson t₀) := by
  unfold ofText toText
  rw [Json.read?_render h]

theorem twoWays_are_given_back : ∃ s text loaded, OwnRun s ∧ s.state.choices.length = 2 ∧
    Flow.save s = .ok text s ∧ Flow.load text s = .ok () loaded ∧
    List.Forall₂ (Choice.GivenBack s.tree loaded) s.state.choices loaded.state.choices := by
  let first := Story.undeclared twoWays 0
  have hstart : Story.ofContent twoWays 0 = .ok first := Story.ofContent_undeclared rfl rfl
  let s := HostCall.next.after first
  have hrun : OwnRun s := .call (.start hstart) .next trivial
  have htwo : s.state.choices.length = 2 := by decide +kernel
  have hidle : s.Idle := ⟨by decide +kernel, by decide +kernel⟩
  have hexact : Json.isExact Json.maxNesting (s.state.toJson s.tree) = true := by decide +kernel
  have hsome : (s.state.ofJson s.tree (s.state.toJson s.tree)).toOption.isSome = true := by
    decide +kernel
  have hread := State.ofText_toText (Json.exact_of_isExact hexact) s.state s.tree
  cases hjson : s.state.ofJson s.tree (s.state.toJson s.tree) with
  | error e =>
    rw [hjson] at hsome
    cases hsome
  | ok state =>
    have hsave := Flow.save_of_idle hidle
    have hload := Flow.load_of_read hidle (hread.trans hjson)
    exact ⟨s, _, _, hrun, htwo, hsave, hload,
      (OwnRun.choices_keep_threads hrun).2.2.2.2.2 hsave hload⟩

end StoryMachine
