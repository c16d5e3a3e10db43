import Mathlib.Data.List.Nodup
import Mathlib.Data.List.Perm.Subperm
import StoryMachine.Proofs.Story.Inside
import StoryMachine.Proofs.Story.Lasting

/-!
# Numbers of threads

Threads are told apart by their numbers: those of the live threads and of the threads that the
choices keep are all different, and none has yet to be made.

* `State.ThreadsNumbered` : what holds of a state;
* `StateChange.threadsNumbered` : no change of a step breaks it;
* `Story.Numbered` : what holds of a story, and of the state kept;
* `Story.callInvariant_numbered` : no call of a host breaks it, if what is loaded and restored is
  numbered.
-/

namespace StoryMachine

/-! ## States -/

namespace State

/-- The numbers of the live threads, and of the threads of the choices. -/
def threadNumbers (s : State) : List Nat :=
  s.callStack.threads.map Thread.index ++ s.choices.map fun o => o.thread.index

/-- The threads are numbered: no two of them have the same number, none a number that has not
been given yet, and every choice names its own thread. -/
structure ThreadsNumbered (s : State) : Prop where
  distinct : s.threadNumbers.Nodup
  made : ∀ n ∈ s.threadNumbers, n ≤ s.callStack.made
  own : ∀ o ∈ s.choices, o.threadNumber = o.thread.index

variable {s u : State}

/-- Threads may go. -/
theorem ThreadsNumbered.drop (h : s.ThreadsNumbered)
    (hnumbers : u.threadNumbers.Subperm s.threadNumbers)
    (hmade : u.callStack.made = s.callStack.made) (hchoices : u.choices ⊆ s.choices) :
    u.ThreadsNumbered where
  distinct := by
    obtain ⟨numbers, hperm, hsublist⟩ := hnumbers
    exact hperm.nodup_iff.mp (h.distinct.sublist hsublist)
  made n hn := hmade ▸ h.made n (hnumbers.subset hn)
  own o ho := h.own o (hchoices ho)

/-- One thread may be made. -/
theorem ThreadsNumbered.add (h : s.ThreadsNumbered)
    (hnumbers : u.threadNumbers.Subperm ((s.callStack.made + 1) :: s.threadNumbers))
    (hmade : u.callStack.made = s.callStack.made + 1)
    (hown : ∀ o ∈ u.choices, o.threadNumber = o.thread.index) : u.ThreadsNumbered where
  distinct := by
    obtain ⟨numbers, hperm, hsublist⟩ := hnumbers
    have hnew : s.callStack.made + 1 ∉ s.threadNumbers := fun hmem =>
      Nat.not_succ_le_self _ (h.made _ hmem)
    exact hperm.nodup_iff.mp ((List.nodup_cons.mpr ⟨hnew, h.distinct⟩).sublist hsublist)
  made n hn := by
    rcases List.mem_cons.mp (hnumbers.subset hn) with rfl | hmem
    · exact Nat.le_of_eq hmade.symm
    · exact hmade ▸ Nat.le_succ_of_le (h.made n hmem)
  own := hown

/-- Frames may change, and everything else but the choices. -/
theorem ThreadsNumbered.same (h : s.ThreadsNumbered)
    (hindex : u.callStack.current.index = s.callStack.current.index)
    (hothers : u.callStack.others = s.callStack.others)
    (hmade : u.callStack.made = s.callStack.made) (hchoices : u.choices = s.choices) :
    u.ThreadsNumbered := by
  have hnumbers : u.threadNumbers = s.threadNumbers := by
    simp only [threadNumbers, CallStack.threads, List.reverse_cons, List.map_append, List.map_cons,
      List.map_nil, hindex, hothers, hchoices]
  exact h.drop (hnumbers ▸ List.Subperm.refl _) hmade (hchoices ▸ List.Subset.refl _)

theorem threadsNumbered_start (seed : Int32) : (start seed).ThreadsNumbered where
  distinct := List.nodup_singleton 0
  made _ hn := Nat.le_of_eq (List.mem_singleton.mp hn)
  own _ ho := nomatch ho

/-- Where the flow has ended there is one thread, with the number of the first one. -/
theorem threadsNumbered_forceEnd (s : State) : s.forceEnd.ThreadsNumbered where
  distinct := List.nodup_singleton 0
  made _ hn := (List.mem_singleton.mp hn).symm ▸ Nat.zero_le _
  own _ ho := nomatch ho

/-- A choice is taken by going on with its thread alone. -/
theorem ThreadsNumbered.resume (h : s.ThreadsNumbered) {o : Choice} (ho : o ∈ s.choices) :
    { s with callStack := s.callStack.resume o.thread, choices := [] }.ThreadsNumbered := by
  refine h.drop ?_ rfl (List.nil_subset _)
  have hmem : o.thread.index ∈ s.threadNumbers :=
    List.mem_append_right _ (List.mem_map_of_mem (f := fun o : Choice => o.thread.index) ho)
  exact List.singleton_subperm_iff.mpr hmem

theorem ThreadsNumbered.offer (h : s.ThreadsNumbered) (o : Offer) : (s.offer o).ThreadsNumbered := by
  have hnumbers : (s.offer o).threadNumbers = s.threadNumbers ++ [s.callStack.made + 1] := by
    simp [threadNumbers, State.offer, CallStack.fork, CallStack.threads]
  refine h.add ?_ rfl fun o' ho' => ?_
  · rw [hnumbers]
    exact (List.perm_append_singleton _ _).subperm
  · rcases List.mem_append.mp ho' with hmem | hmem
    · exact h.own o' hmem
    · rw [List.mem_singleton.mp hmem]

theorem ThreadsNumbered.pushThread (h : s.ThreadsNumbered) :
    { s with callStack := s.callStack.pushThread }.ThreadsNumbered := by
  refine h.add ?_ rfl h.own
  have hnumbers : { s with callStack := s.callStack.pushThread }.threadNumbers =
      s.callStack.threads.map Thread.index ++
        (s.callStack.made + 1) :: s.choices.map fun o => o.thread.index := by
    simp [threadNumbers, CallStack.threads_pushThread, CallStack.fork]
  rw [hnumbers]
  exact List.perm_middle.subperm

theorem ThreadsNumbered.popThread (h : s.ThreadsNumbered) {callStack : CallStack}
    (hpop : s.callStack.popThread = .ok callStack) : { s with callStack }.ThreadsNumbered := by
  unfold CallStack.popThread at hpop
  split at hpop
  · next next rest hothers =>
    split at hpop
    · cases hpop
    · cases hpop
      refine h.drop ((List.Sublist.append ?_ (List.Sublist.refl _)).subperm) rfl
        (List.Subset.refl _)
      have hthreads : s.callStack.threads =
          (next :: rest).reverse ++ [s.callStack.current] := by
        rw [CallStack.threads, hothers, List.reverse_cons]
      rw [hthreads]
      exact (List.sublist_append_left _ _).map _
  · cases hpop

/-- A copy of the current thread goes on alone. -/
theorem ThreadsNumbered.resumeCopy (h : s.ThreadsNumbered) : s.resumeCopy.ThreadsNumbered := by
  have hnumbers : s.resumeCopy.threadNumbers =
      (s.callStack.made + 1) :: s.choices.map fun o => o.thread.index := rfl
  refine h.add ?_ rfl h.own
  rw [hnumbers]
  exact (List.subperm_cons _).mpr (List.sublist_append_right _ _).subperm

end State

/-! ## Changes -/

theorem CallStack.index_putTemporary (s : CallStack) (scope : Int) (name : String) (v : Value) :
    (s.putTemporary scope name v).current.index = s.current.index := by
  unfold putTemporary modifyScopeFrame
  split
  · rfl
  · split
    · dsimp only
      unfold Thread.modifyFrame
      split
      · rfl
      · split
        · rfl
        · rfl
    · rfl

theorem index_of_assign {v vars : Variables} {lists : ListDefinitions} {s stack : CallStack}
    {a : Assignment} {value : Value} (h : v.assign lists s a value = .ok (vars, stack)) :
    stack.current.index = s.current.index := by
  rcases v.callStack_of_assign h with rfl | ⟨scope, name, value', rfl, -⟩
  · rfl
  · exact s.index_putTemporary scope name value'

/-- No change breaks the numbering of threads. -/
theorem StateChange.threadsNumbered {c : Content} {fx : Effects} {s u : State}
    (h : StateChange c fx s u) (hs : s.ThreadsNumbered) : u.ThreadsNumbered := by
  cases h with
  | evaluation | warn | random | divert | move | notePlace | expression | turn | call | safeExit |
    putOut => exact hs.same rfl rfl rfl rfl
  | assign h =>
    exact hs.same (index_of_assign h) (threads_of_assign h).2 (threads_of_assign h).1 rfl
  | enter id atStart =>
    obtain ⟨visits, turns, henter⟩ := s.exists_enter_eq c.tree id atStart
    rw [henter]
    exact hs.same rfl rfl rfl rfl
  | offer => exact hs.offer _
  | withdraw =>
    exact hs.drop (List.Sublist.append (List.Sublist.refl _) (List.nil_sublist _)).subperm rfl
      (List.nil_subset _)
  | «return» h =>
    obtain ⟨output, stack, hstack, rfl⟩ := State.popFrame_ok h
    obtain ⟨hindex, hothers, hmade⟩ := CallStack.threads_of_pop hstack
    exact hs.same hindex hothers hmade rfl
  | thread => exact hs.pushThread
  | endThread h => exact hs.popThread h
  | resume ho => exact hs.resume ho
  | copy => exact hs.resumeCopy
  | finish => exact s.threadsNumbered_forceEnd
  | markText =>
    obtain ⟨thread, hmark, hindex⟩ := s.exists_markText_eq
    rw [hmark]
    exact hs.same hindex rfl rfl rfl

/-! ## Stories -/

/-- The threads of the state are numbered, and those of the state kept. -/
abbrev Story.Numbered : Story → Prop :=
  Story.Keeps fun _ state => state.ThreadsNumbered

theorem State.lasting_threadsNumbered : State.Lasting fun _ state => state.ThreadsNumbered where
  same h hsame := h.same hsame.current hsame.others hsame.made hsame.choices
  change h hchange := hchange.threadsNumbered h

/-- The numbering of threads is kept by every call, if what is loaded and restored is
numbered. -/
theorem Story.callInvariant_numbered {P R : Story → Prop} {A : HostCall → Story → Prop}
    (hload : ∀ (s : Story) text state, A (.load text) s →
      s.state.ofText s.tree text = .ok state → state.ThreadsNumbered)
    (hrestore : ∀ s snapshot, A (.restore snapshot) s → snapshot.state.ThreadsNumbered) :
    Story.CallInvariant P A R fun s => s.Orderly (fun _ => True) ∧ s.Numbered :=
  State.lasting_threadsNumbered.callInvariant (fun s text state h _ => hload s text state h)
    (fun s snapshot h _ => hrestore s snapshot h) fun _ seed _ _ => State.threadsNumbered_start seed

end StoryMachine
