import StoryMachine.Proofs.Story.SavedThreads
import StoryMachine.Proofs.Story.Sound

/-!
# What is read from a save is sound

Whatever is read as a state is sound, as far as what is read as a value is of the kind in question:
the places that are read are at containers of the content, and the variables that are read have
defaults already.

* `Frame.sound_ofJson`, `Thread.sound_ofJson`, `CallStack.sound_ofJson` : frames, threads and call
  stacks that have been read;
* `Variables.Sound.ofJson` : variables that have been read;
* `State.Sound.ofText` : states that have been read.
-/

namespace StoryMachine

/-- What is read as a value is of a kind. -/
def ReadsAs (V : Value → Prop) : Prop :=
  ∀ j v, Instruction.ofJson j = .ok (.value v) → V v

namespace ReadsAs

variable {V : Value → Prop} (hread : ReadsAs V)
include hread

theorem value {j : Json} {v : Value} (h : Value.ofJson j = .ok v) : V v := by
  obtain ⟨i, hi, h⟩ := Except.bind_eq_ok.mp h
  split at h
  · cases h
    exact hread j _ hi
  · cases h

theorem table {fields : List (String × Json)} {t : Table Value}
    (h : Value.tableOfJson fields = .ok t) : ∀ e ∈ t.entries, V e.2 := by
  obtain ⟨entries, hentries, h⟩ := Except.bind_eq_ok.mp h
  cases h
  intro e he
  obtain ⟨f, -, hf⟩ := exists_of_forall₂ (forall₂_of_mapM hentries) (Entries.mem_of_mem_ofList he)
  obtain ⟨v, hv, hf⟩ := Except.bind_eq_ok.mp hf
  cases hf
  exact hread.value hv

theorem token {j : Json} {token : Token} (h : Token.ofJson j = .ok token) : token.Sound V := by
  obtain ⟨i, hi, h⟩ := Except.bind_eq_ok.mp h
  split at h
  · next htoken =>
    cases h
    rintro v rfl
    cases i <;> cases htoken
    exact hread j v hi
  · cases h

end ReadsAs

variable {V : Value → Prop} {t : ContentTree}

theorem Frame.isPlace_of_cursorOfJson {j : Json} {c : Cursor} {warnings : List String}
    (h : Frame.cursorOfJson t j = .ok (some c, warnings)) : c.IsPlace t := by
  unfold Frame.cursorOfJson at h
  split at h
  · cases h
  · dsimp only at h
    split at h
    · cases h
    · split at h
      · cases h
      · next hcontainer =>
        cases h
        exact ⟨ContentTree.isContainer_of_container? hcontainer, fun _ => wrap32_wrap32 _⟩

theorem Frame.sound_ofJson (hread : ReadsAs V) {j : Json} {f : Frame} {warnings : List String}
    (h : Frame.ofJson t j = .ok (f, warnings)) : f.Sound t V := by
  unfold Frame.ofJson at h
  dsimp only at h
  split at h
  · cases h
  · split at h
    · cases h
    · obtain ⟨kind, -, h⟩ := Except.bind_eq_ok.mp h
      obtain ⟨⟨cursor, w⟩, hcursor, h⟩ := Except.bind_eq_ok.mp h
      have hplace : ∀ c ∈ cursor, c.IsPlace t := fun c hc => by
        have hsome : cursor = some c := hc
        rw [hsome] at hcursor
        exact Frame.isPlace_of_cursorOfJson hcursor
      dsimp only at h
      split at h
      · obtain ⟨temporaries, htemporaries, h⟩ := Except.bind_eq_ok.mp h
        cases h
        exact ⟨hplace, hread.table htemporaries⟩
      · cases h
        exact ⟨hplace, nofun⟩

theorem Frame.sound_listOfJson (hread : ReadsAs V) {items : List Json} {frames : List Frame}
    {warnings : List String} (h : Frame.listOfJson t items = .ok (frames, warnings)) :
    ∀ f ∈ frames, f.Sound t V := by
  induction items generalizing frames warnings with
  | nil =>
    cases h
    nofun
  | cons j rest ih =>
    obtain ⟨⟨f, w⟩, hf, h⟩ := Except.bind_eq_ok.mp h
    obtain ⟨⟨more, w'⟩, hmore, h⟩ := Except.bind_eq_ok.mp h
    cases h
    exact List.forall_mem_cons.mpr ⟨Frame.sound_ofJson hread hf, ih hmore⟩

theorem Thread.sound_ofJson (hread : ReadsAs V) {j : Json} {thread : Thread} {warnings : List String}
    (h : Thread.ofJson t j = .ok (thread, warnings)) : thread.Sound t V := by
  unfold Thread.ofJson at h
  split at h
  · cases h
  · split at h
    · cases h
    · obtain ⟨⟨frames, w⟩, hframes, h⟩ := Except.bind_eq_ok.mp h
      have hsound := Frame.sound_listOfJson hread hframes
      dsimp only at h
      split at h
      · cases h
      · next top below horder =>
        have hall : ∀ f ∈ top :: below, f.Sound t V := fun f hf =>
          hsound f (List.mem_reverse.mp (horder ▸ hf))
        obtain ⟨htop, hbelow⟩ := List.forall_mem_cons.mp hall
        split at h
        · cases h
          exact ⟨htop, hbelow, fun c hc => absurd hc (Option.not_mem_none c)⟩
        · obtain ⟨⟨previous, warning⟩, hprevious, h⟩ := Except.bind_eq_ok.mp h
          cases h
          refine ⟨htop, hbelow, fun c hc => ?_⟩
          have hplace : previous = some c := hc
          rw [hplace] at hprevious
          exact ContentTree.isPlace_of_cursorAt hprevious

theorem CallStack.sound_ofJson (hread : ReadsAs V) {j : Json} {s : CallStack} {warnings : List String}
    (h : CallStack.ofJson t j = .ok (s, warnings)) : s.Sound t V := by
  unfold CallStack.ofJson at h
  split at h
  · cases h
  · obtain ⟨⟨threads, w⟩, hthreads, h⟩ := Except.bind_eq_ok.mp h
    have hsound : ∀ thread ∈ threads, thread.Sound t V := fun thread hthread => by
      obtain ⟨j, -, w, hj⟩ := exists_of_forall₂ (Thread.forall₂_of_listOfJson hthreads) hthread
      exact Thread.sound_ofJson hread hj
    dsimp only at h
    split at h
    · cases h
    · next current others horder =>
      have hall : ∀ thread ∈ current :: others, thread.Sound t V := fun thread hthread =>
        hsound thread (List.mem_reverse.mp (horder ▸ hthread))
      obtain ⟨hcurrent, hothers⟩ := List.forall_mem_cons.mp hall
      split at h
      · cases h
      · cases h
        exact ⟨hcurrent, hothers⟩

/-- A variable that is read has its default, or the value that is read for it. -/
theorem Variables.Sound.ofJson {v u : Variables} (hread : ReadsAs V) (h : v.Sound V) {j : Json}
    (hu : v.ofJson j = .ok u) : u.Sound V := by
  obtain ⟨entries, hentries, hu⟩ := Except.bind_eq_ok.mp hu
  cases hu
  refine ⟨fun e he => ?_, h.defaults⟩
  obtain ⟨d, hd, hentry⟩ :=
    exists_of_forall₂ (forall₂_of_mapM hentries) (Entries.mem_of_mem_ofList he)
  split at hentry
  · obtain ⟨value, hvalue, hentry⟩ := Except.bind_eq_ok.mp hentry
    cases hentry
    exact hread.value hvalue
  · cases hentry
    exact h.defaults _ hd

namespace State

variable {s u : State}

theorem sound_threadOf (hread : ReadsAs V) {stack : CallStack} (hstack : stack.Sound t V)
    {saved : Option Json} {o : Offer} {thread : Thread} {warnings : List String}
    (h : threadOf t stack saved o = .ok (thread, warnings)) : thread.Sound t V := by
  unfold threadOf at h
  split at h
  · next live hlive =>
    cases h
    rcases List.mem_cons.mp (List.mem_reverse.mp (List.mem_of_find?_eq_some hlive)) with rfl | hother
    · exact hstack.current
    · exact hstack.others _ hother
  · split at h
    · exact Thread.sound_ofJson hread h
    · cases h

theorem Sound.ofFields (hread : ReadsAs V) (h : s.Sound t V) {j : Json}
    (hu : s.ofFields t j = .ok u) : u.Sound t V := by
  unfold State.ofFields at hu
  obtain ⟨_, -, hu⟩ := Except.bind_eq_ok.mp hu
  obtain ⟨⟨callStack, _⟩, hstack, hu⟩ := Except.bind_eq_ok.mp hu
  obtain ⟨_, -, hu⟩ := Except.bind_eq_ok.mp hu
  obtain ⟨output, -, hu⟩ := Except.bind_eq_ok.mp hu
  obtain ⟨_, -, hu⟩ := Except.bind_eq_ok.mp hu
  obtain ⟨offers, -, hu⟩ := Except.bind_eq_ok.mp hu
  obtain ⟨⟨choices, _⟩, hchoices, hu⟩ := Except.bind_eq_ok.mp hu
  obtain ⟨_, -, hu⟩ := Except.bind_eq_ok.mp hu
  obtain ⟨vars, hvars, hu⟩ := Except.bind_eq_ok.mp hu
  obtain ⟨jevaluation, -, hu⟩ := Except.bind_eq_ok.mp hu
  obtain ⟨evaluation, hevaluation, hu⟩ := Except.bind_eq_ok.mp hu
  have hstack := CallStack.sound_ofJson hread hstack
  have hevaluation : ∀ token ∈ evaluation.reverse, token.Sound V := fun token htoken => by
    obtain ⟨j, -, hj⟩ :=
      exists_of_forall₂ (forall₂_of_mapM hevaluation) (List.mem_reverse.mp htoken)
    exact hread.token hj
  have hchoices : ∀ o ∈ choices, o.thread.Sound t V := fun o ho => by
    obtain ⟨_, -, -, _, hthread⟩ := exists_of_forall₂ (forall₂_of_giveThreads hchoices) ho
    exact sound_threadOf hread hstack hthread
  have hvars := h.vars.ofJson hread hvars
  -- With or without a place that a divert leads to, the other parts are read the same way.
  dsimp only at hu
  split at hu
  all_goals
    obtain ⟨⟨diverted, warning⟩, hdiverted, hu⟩ := Except.bind_eq_ok.mp hu
    obtain ⟨_, -, hu⟩ := Except.bind_eq_ok.mp hu
    obtain ⟨visits, -, hu⟩ := Except.bind_eq_ok.mp hu
    obtain ⟨_, -, hu⟩ := Except.bind_eq_ok.mp hu
    obtain ⟨turns, -, hu⟩ := Except.bind_eq_ok.mp hu
    obtain ⟨turn, -, hu⟩ := Except.bind_eq_ok.mp hu
    obtain ⟨seed, -, hu⟩ := Except.bind_eq_ok.mp hu
    cases hu
    refine Sound.warnAll ⟨hstack, hvars, hevaluation, hchoices, fun c hc => ?_⟩ _
    have hplace : diverted = some c := hc
    rw [hplace] at hdiverted
  · exact ContentTree.isPlace_of_cursorAt hdiverted
  · cases hdiverted

/-- A state that is read over a sound one is sound. -/
theorem Sound.ofText (hread : ReadsAs V) (h : s.Sound t V) {text : String}
    (hu : s.ofText t text = .ok u) : u.Sound t V := by
  obtain ⟨j, -, hfields⟩ := exists_of_ofText hu
  exact h.ofFields hread hfields

end State

end StoryMachine
