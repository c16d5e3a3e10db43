import StoryMachine.Proofs.Content.Instructions
import StoryMachine.Proofs.Json.Reread
import StoryMachine.Proofs.Story.ThreadNumbers

/-!
# Saved threads

The threads of a state come back from its text under their numbers, the live ones and those of
the choices. A choice is given back the thread saved with it: no live thread has its number.

* `Thread.ReadFrom` : a thread that has been read from what another was saved as;
* `CallStack.readFrom_threads`, `Offer.threadNumber_of_ofJson` : live threads and offers;
* `State.ThreadsNumbered.choiceThread_eq` : what is saved for the thread of a choice;
* `State.ThreadsNumbered.threadOf_eq` : it is found again, and read;
* `State.ThreadsNumbered.readFrom` : a state of which the text is read;
* `State.ThreadsNumbered.ofText` : its threads are numbered again.
-/

namespace StoryMachine

/-- What holds one by one of two lists and of two more holds across them. -/
theorem forall₂_across {α β γ : Type} {R : α → β → Prop} {S : β → γ → Prop} {as : List α}
    {bs : List β} {cs : List γ} (h : List.Forall₂ R as bs) (h' : List.Forall₂ S bs cs) :
    List.Forall₂ (fun a c => ∃ b, R a b ∧ S b c) as cs := by
  induction h generalizing cs with
  | nil =>
    cases h'
    exact .nil
  | cons hab _ ih =>
    cases h' with
    | cons hbc hrest => exact .cons ⟨_, hab, hbc⟩ (ih hrest)

theorem exists_of_forall₂ {α β : Type} {R : α → β → Prop} {as : List α} {bs : List β}
    (h : List.Forall₂ R as bs) {b : β} (hb : b ∈ bs) : ∃ a ∈ as, R a b := by
  induction h with
  | nil => cases hb
  | @cons a _ _ _ hab _ ih =>
    rcases List.mem_cons.mp hb with rfl | hb
    · exact ⟨a, List.mem_cons_self, hab⟩
    · obtain ⟨a', ha', hR⟩ := ih hb
      exact ⟨a', List.mem_cons_of_mem _ ha', hR⟩

theorem forall₂_of_mapM {ε α β : Type} {f : α → Except ε β} {as : List α} {bs : List β}
    (h : as.mapM f = .ok bs) : List.Forall₂ (fun a b => f a = .ok b) as bs := by
  induction as generalizing bs with
  | nil =>
    cases h
    exact .nil
  | cons a as ih =>
    rw [List.mapM_cons] at h
    obtain ⟨b, hb, h⟩ := Except.bind_eq_ok.mp h
    obtain ⟨rest, hrest, h⟩ := Except.bind_eq_ok.mp h
    cases h
    exact .cons hb (ih hrest)

variable {t₀ t : ContentTree}

/-! ## Threads -/

namespace Thread

/-- The thread has been read from what `thread` was saved as. -/
def ReadFrom (t₀ t : ContentTree) (thread loaded : Thread) : Prop :=
  ∃ j warnings, (thread.toJson t₀).Rereads j ∧ ofJson t j = .ok (loaded, warnings)

theorem field?_toJson_index (thread : Thread) :
    (thread.toJson t).field? "threadIndex" = some (.nat thread.index) := by
  unfold toJson
  split
  · simp
  · simp

theorem nat?_index_of_ofJson {j : Json} {thread : Thread} {warnings : List String}
    (h : ofJson t j = .ok (thread, warnings)) :
    (j.field? "threadIndex").bind Json.nat? = some thread.index := by
  unfold ofJson at h
  split at h
  · cases h
  · next index hindex =>
    rw [hindex]
    split at h
    · cases h
    · obtain ⟨⟨frames, more⟩, -, h⟩ := Except.bind_eq_ok.mp h
      dsimp only at h
      split at h
      · cases h
      · split at h
        · cases h
          rfl
        · obtain ⟨⟨previous, warning⟩, -, h⟩ := Except.bind_eq_ok.mp h
          cases h
          rfl

/-- A thread keeps its number. -/
theorem ReadFrom.index {thread loaded : Thread} (h : thread.ReadFrom t₀ t loaded) :
    loaded.index = thread.index := by
  obtain ⟨j, warnings, hj, hread⟩ := h
  obtain ⟨n, hfield, hn⟩ := hj.field?_some thread.field?_toJson_index
  have hnumber := nat?_index_of_ofJson hread
  rw [hfield] at hnumber
  exact hn.nat? hnumber

theorem map_index_of_readFrom {threads loaded : List Thread}
    (h : List.Forall₂ (ReadFrom t₀ t) threads loaded) : loaded.map index = threads.map index := by
  induction h with
  | nil => rfl
  | cons hthread _ ih => rw [List.map_cons, List.map_cons, hthread.index, ih]

theorem forall₂_of_listOfJson {items : List Json} {threads : List Thread} {warnings : List String}
    (h : listOfJson t items = .ok (threads, warnings)) :
    List.Forall₂ (fun j thread => ∃ w, ofJson t j = .ok (thread, w)) items threads := by
  induction items generalizing threads warnings with
  | nil =>
    cases h
    exact .nil
  | cons j rest ih =>
    unfold listOfJson at h
    split at h
    · cases h
    · obtain ⟨⟨thread, w⟩, hthread, h⟩ := Except.bind_eq_ok.mp h
      obtain ⟨⟨more, w'⟩, hmore, h⟩ := Except.bind_eq_ok.mp h
      cases h
      exact .cons ⟨w, hthread⟩ (ih hmore)

end Thread

/-- The live threads come back one by one, with the number of threads made. -/
theorem CallStack.readFrom_threads {s u : CallStack} {j : Json} {warnings : List String}
    (hj : (s.toJson t₀).Rereads j) (h : ofJson t j = .ok (u, warnings)) :
    List.Forall₂ (Thread.ReadFrom t₀ t) s.threads u.threads ∧ u.made = s.made := by
  obtain ⟨jthreads, hthreads, hback⟩ := hj.field?_some
    (show Json.field? _ "threads" = some (Json.array (Thread.toJson t₀) s.threads) by simp)
  obtain ⟨jmade, hmade, hcounter⟩ := hj.field?_some
    (show Json.field? _ "threadCounter" = some (Json.nat s.made) by simp)
  obtain ⟨items, hitems, hall⟩ := hback.arr?
  unfold ofJson at h
  rw [hthreads, hmade, Option.bind_some, Option.bind_some, hitems] at h
  dsimp only at h
  obtain ⟨⟨threads, w⟩, hread, h⟩ := Except.bind_eq_ok.mp h
  dsimp only at h
  split at h
  · cases h
  · next current others horder =>
    split at h
    · cases h
    · next made hnumber =>
      cases h
      have hlist : (⟨current, others, made⟩ : CallStack).threads = threads := by
        rw [CallStack.threads, ← horder, List.reverse_reverse]
      rw [hlist]
      refine ⟨?_, hcounter.nat? hnumber⟩
      exact (forall₂_across hall (Thread.forall₂_of_listOfJson hread)).imp
        fun _ _ ⟨j, hj, w, hthread⟩ => ⟨j, w, hj, hthread⟩

/-! ## Choices -/

namespace Offer

/-- What an offer is read from, as far as it names the choice point and the thread. -/
theorem exists_of_ofJson {o : Offer} {j : Json} (h : ofJson j = .ok o) :
    ∃ jsource jnumber, neededField j "originalChoicePath" = .ok jsource ∧
      fieldString j jsource = .ok o.source ∧
      neededField j "originalThreadIndex" = .ok jnumber ∧ fieldNat j jnumber = .ok o.threadNumber := by
  unfold ofJson at h
  obtain ⟨_, -, h⟩ := Except.bind_eq_ok.mp h
  obtain ⟨text, -, h⟩ := Except.bind_eq_ok.mp h
  obtain ⟨_, -, h⟩ := Except.bind_eq_ok.mp h
  obtain ⟨index, -, h⟩ := Except.bind_eq_ok.mp h
  obtain ⟨jsource, hjsource, h⟩ := Except.bind_eq_ok.mp h
  obtain ⟨source, hsource, h⟩ := Except.bind_eq_ok.mp h
  obtain ⟨jnumber, hjnumber, h⟩ := Except.bind_eq_ok.mp h
  obtain ⟨threadNumber, hnumber, h⟩ := Except.bind_eq_ok.mp h
  obtain ⟨_, -, h⟩ := Except.bind_eq_ok.mp h
  obtain ⟨target, -, h⟩ := Except.bind_eq_ok.mp h
  dsimp only at h
  split at h
  all_goals
    obtain ⟨tags, -, h⟩ := Except.bind_eq_ok.mp h
    cases h
    exact ⟨jsource, jnumber, hjsource, hsource, hjnumber, hnumber⟩

/-- What is written in a field that is needed is read back from it. -/
theorem rereads_of_neededField {o : Offer} {j value field : Json} {name : String}
    (hj : o.toJson.Rereads j) (hvalue : o.toJson.field? name = some value)
    (h : neededField j name = .ok field) : value.Rereads field := by
  obtain ⟨found, hfound, hback⟩ := hj.field?_some hvalue
  rw [neededField, hfound] at h
  cases h
  exact hback

/-- The fields of an offer that name the choice point and the thread. -/
theorem field?_toJson (o : Offer) : o.toJson.field? "originalChoicePath" = some (.str o.source) ∧
    o.toJson.field? "originalThreadIndex" = some (.nat o.threadNumber) := by
  unfold toJson
  split
  · simp
  · simp

variable {o o' : Offer} {j : Json}

/-- An offer names the thread that it named. -/
theorem threadNumber_of_ofJson (hj : o.toJson.Rereads j) (h : ofJson j = .ok o') :
    o'.threadNumber = o.threadNumber := by
  obtain ⟨-, jnumber, -, -, hfield, hread⟩ := exists_of_ofJson h
  have hn := rereads_of_neededField hj o.field?_toJson.2 hfield
  unfold fieldNat at hread
  split at hread
  · next m hm =>
    cases hread
    exact hn.nat? hm
  · cases hread

/-- An offer names the choice point that it named. -/
theorem source_of_ofJson (hj : o.toJson.Rereads j) (h : ofJson j = .ok o') :
    o'.source = o.source := by
  obtain ⟨jsource, -, hfield, hread, -⟩ := exists_of_ofJson h
  cases rereads_of_neededField hj o.field?_toJson.1 hfield
  exact (Except.ok.inj hread).symm

end Offer

namespace State

theorem forall₂_of_giveThreads {stack : CallStack} {saved : Option Json} {offers : List Offer}
    {choices : List Choice} {warnings : List String}
    (h : giveThreads t stack saved offers = .ok (choices, warnings)) :
    List.Forall₂ (fun o c => c.toOffer = o ∧ ∃ w, threadOf t stack saved o = .ok (c.thread, w))
      offers choices := by
  induction offers generalizing choices warnings with
  | nil =>
    cases h
    exact .nil
  | cons o rest ih =>
    unfold giveThreads at h
    obtain ⟨⟨thread, w⟩, hthread, h⟩ := Except.bind_eq_ok.mp h
    obtain ⟨⟨more, w'⟩, hmore, h⟩ := Except.bind_eq_ok.mp h
    cases h
    exact .cons ⟨rfl, w, hthread⟩ (ih hmore)

theorem thread?_eq_none_iff {s : CallStack} {n : Nat} :
    s.thread? n = none ↔ n ∉ s.threads.map Thread.index := by
  simp [CallStack.thread?, List.find?_eq_none]

variable {s u loaded : State}

/-- The thread of a choice is not live. -/
theorem ThreadsNumbered.not_live (h : s.ThreadsNumbered) {o : Choice} (ho : o ∈ s.choices) :
    o.thread.index ∉ s.callStack.threads.map Thread.index := fun hlive =>
  List.disjoint_of_nodup_append h.distinct hlive
    (List.mem_map_of_mem (f := fun o : Choice => o.thread.index) ho)

/-- Every choice has its thread saved with it. -/
theorem ThreadsNumbered.choiceThreads_eq (h : s.ThreadsNumbered) :
    s.choiceThreads t = s.choices.map fun o =>
      (Decimal.ofNat o.thread.index, o.thread.toJson t) := by
  unfold choiceThreads
  rw [← List.filterMap_eq_map]
  refine List.filterMap_congr fun o ho => ?_
  rw [thread?_eq_none_iff.mpr (h.not_live ho)]
  rfl

theorem ofNat_injective {m n : Nat} (h : Decimal.ofNat m = Decimal.ofNat n) : m = n := by
  have hread := Decimal.natural?_ofNat m
  rw [h, Decimal.natural?_ofNat] at hread
  exact (Option.some.inj hread).symm

/-- What is saved under the number of a choice's thread is this thread. -/
theorem ThreadsNumbered.choiceThread_eq (h : s.ThreadsNumbered) {o : Choice} (ho : o ∈ s.choices) :
    (Json.object (s.choiceThreads t)).field? (Decimal.ofNat o.thread.index) =
      some (o.thread.toJson t) := by
  have hdistinct : (s.choiceThreads t).Pairwise fun a b => a.1 ≠ b.1 := by
    have hnumbers := (List.nodup_append.mp h.distinct).2.1
    rw [h.choiceThreads_eq, List.pairwise_map]
    exact (List.pairwise_map.mp hnumbers).imp fun hne heq => hne (ofNat_injective heq)
  refine Entries.get?_of_mem (Entries.pairwise_ofList _) ?_
  rw [(Entries.perm_ofList hdistinct).mem_iff, h.choiceThreads_eq]
  exact List.mem_map_of_mem (f := fun o : Choice => (Decimal.ofNat o.thread.index, o.thread.toJson t)) ho

/-- The parts of a saved state from which its threads, its choices and its visits are read. -/
theorem exists_of_ofFields {j : Json} (h : u.ofFields t j = .ok loaded) :
    ∃ jstack joffers offers jvisits stackWarnings choiceWarnings,
      j.field? "callstackThreads" = some jstack ∧
      CallStack.ofJson t jstack = .ok (loaded.callStack, stackWarnings) ∧
      (j.field? "currentChoices").bind Json.arr? = some joffers ∧
      joffers.mapM Offer.ofJson = .ok offers ∧
      giveThreads t loaded.callStack (j.field? "choiceThreads") offers =
        .ok (loaded.choices, choiceWarnings) ∧
      (j.field? "visitCounts").bind Json.obj? = some jvisits ∧
      countsOfJson jvisits = .ok loaded.visits := by
  unfold ofFields at h
  obtain ⟨jstack, hjstack, h⟩ := Except.bind_eq_ok.mp h
  obtain ⟨⟨callStack, stackWarnings⟩, hstack, h⟩ := Except.bind_eq_ok.mp h
  obtain ⟨_, -, h⟩ := Except.bind_eq_ok.mp h
  obtain ⟨output, -, h⟩ := Except.bind_eq_ok.mp h
  obtain ⟨joffers, hjoffers, h⟩ := Except.bind_eq_ok.mp h
  obtain ⟨offers, hoffers, h⟩ := Except.bind_eq_ok.mp h
  obtain ⟨⟨choices, choiceWarnings⟩, hchoices, h⟩ := Except.bind_eq_ok.mp h
  obtain ⟨_, -, h⟩ := Except.bind_eq_ok.mp h
  obtain ⟨vars, -, h⟩ := Except.bind_eq_ok.mp h
  obtain ⟨_, -, h⟩ := Except.bind_eq_ok.mp h
  obtain ⟨evaluation, -, h⟩ := Except.bind_eq_ok.mp h
  have hfield : j.field? "callstackThreads" = some jstack := by
    unfold objectField at hjstack
    split at hjstack
    · next fields hfields =>
      cases hjstack
      exact hfields
    · cases hjstack
  have hitems : (j.field? "currentChoices").bind Json.arr? = some joffers := by
    unfold arrayField at hjoffers
    split at hjoffers
    · next items hitems =>
      cases hjoffers
      exact hitems
    · cases hjoffers
  dsimp only at h
  split at h
  all_goals
    obtain ⟨⟨diverted, warning⟩, -, h⟩ := Except.bind_eq_ok.mp h
    obtain ⟨jvisits, hjvisits, h⟩ := Except.bind_eq_ok.mp h
    obtain ⟨visits, hvisits, h⟩ := Except.bind_eq_ok.mp h
    obtain ⟨_, -, h⟩ := Except.bind_eq_ok.mp h
    obtain ⟨turns, -, h⟩ := Except.bind_eq_ok.mp h
    obtain ⟨turn, -, h⟩ := Except.bind_eq_ok.mp h
    obtain ⟨seed, -, h⟩ := Except.bind_eq_ok.mp h
    cases h
    obtain ⟨warnings, heq⟩ := exists_warnAll_eq _ t _
    rw [heq]
    have hfields : (j.field? "visitCounts").bind Json.obj? = some jvisits := by
      unfold objectFields at hjvisits
      split at hjvisits
      · next fields hfields =>
        cases hjvisits
        exact hfields
      · cases hjvisits
    exact ⟨jstack, joffers, offers, jvisits, stackWarnings, choiceWarnings, hfield, hstack, hitems,
      hoffers, hchoices, hfields, hvisits⟩

/-- What a field of a saved state holds. -/
theorem field?_toJson (s : State) :
    (s.toJson t).field? "callstackThreads" = some (s.callStack.toJson t) ∧
      (s.toJson t).field? "currentChoices" =
        some (Json.array Offer.toJson (s.choices.map Choice.toOffer)) ∧
      (s.toJson t).field? "choiceThreads" =
        (if (s.choiceThreads t).isEmpty then none else some (.object (s.choiceThreads t))) ∧
      (s.toJson t).field? "visitCounts" = some (countsToJson s.visits) := by
  unfold toJson
  dsimp only
  split
  · split
    · simp
    · simp
  · split
    · simp
    · simp

/-- For the thread of a choice, what has been saved for it is read and nothing else. -/
theorem ThreadsNumbered.threadOf_eq (h : s.ThreadsNumbered) {o : Choice} (ho : o ∈ s.choices)
    {stack : CallStack} {j : Json} {o' : Offer}
    (hstack : stack.threads.map Thread.index = s.callStack.threads.map Thread.index)
    (hj : (s.toJson t₀).Rereads j) (hnumber : o'.threadNumber = o.threadNumber) :
    ∃ jthread, (o.thread.toJson t₀).Rereads jthread ∧
      threadOf t stack (j.field? "choiceThreads") o' = Thread.ofJson t jthread := by
  have hnonempty : (s.choiceThreads t₀).isEmpty = false := by
    rw [h.choiceThreads_eq, List.isEmpty_map]
    exact List.isEmpty_eq_false_iff.mpr (List.ne_nil_of_mem ho)
  have hsaved := (field?_toJson (t := t₀) s).2.2.1
  rw [hnonempty, if_neg Bool.false_ne_true] at hsaved
  obtain ⟨jthreads, hthreads, hback⟩ := hj.field?_some hsaved
  obtain ⟨jthread, hthread, hown⟩ := hback.field?_some (h.choiceThread_eq ho)
  have hnotLive : stack.thread? o'.threadNumber = none := by
    rw [hnumber, h.own o ho]
    exact thread?_eq_none_iff.mpr (hstack ▸ h.not_live ho)
  obtain ⟨fields, rfl, -⟩ := (show (Json.obj _).Rereads jthread from hown)
  refine ⟨_, hown, ?_⟩
  unfold threadOf
  rw [hnotLive, hthreads, Option.bind_some, hnumber, h.own o ho, hthread]
  rfl

theorem exists_of_ofText {text : String} (h : u.ofText t text = .ok loaded) :
    ∃ j, Json.read? text = some j ∧ u.ofFields t j = .ok loaded := by
  unfold ofText at h
  split at h
  · cases h
  · next j hj =>
    refine ⟨j, hj, ?_⟩
    unfold ofJson at h
    dsimp only at h
    split at h
    · cases h
    · split at h
      · cases h
      · split at h
        · cases h
        · exact h

/-- The threads of a state that is read from its text have been read from its own, one by one. -/
theorem ThreadsNumbered.readFrom (h : s.ThreadsNumbered)
    (hread : u.ofText t (s.toText t₀) = .ok loaded) :
    List.Forall₂ (Thread.ReadFrom t₀ t) s.callStack.threads loaded.callStack.threads ∧
      loaded.callStack.made = s.callStack.made ∧
      List.Forall₂ (fun o o' : Choice => o'.threadNumber = o.threadNumber ∧
        o.thread.ReadFrom t₀ t o'.thread) s.choices loaded.choices := by
  obtain ⟨j, hjson, hfields⟩ := exists_of_ofText hread
  have hj := Json.rereads_of_read? hjson
  obtain ⟨jstack, joffers, offers, -, stackWarnings, choiceWarnings, hjstack, hstack, hjoffers,
    hoffers, hchoices, -⟩ := exists_of_ofFields hfields
  obtain ⟨hsavedStack, hsavedOffers, -⟩ := field?_toJson (t := t₀) s
  obtain ⟨_, hfound, hstackBack⟩ := hj.field?_some hsavedStack
  rw [hjstack] at hfound
  cases hfound
  obtain ⟨hthreads, hmade⟩ := CallStack.readFrom_threads hstackBack hstack
  refine ⟨hthreads, hmade, ?_⟩
  obtain ⟨_, hfound, hoffersBack⟩ := hj.field?_some hsavedOffers
  rw [hfound, Option.bind_some] at hjoffers
  obtain ⟨items, hitems, hall⟩ := hoffersBack.arr?
  rw [hjoffers] at hitems
  cases hitems
  have hacross := forall₂_across (forall₂_across (List.forall₂_map_left_iff.mp hall)
    (forall₂_of_mapM hoffers)) (forall₂_of_giveThreads hchoices)
  refine ((List.forall₂_and_left _ _).mpr ⟨fun _ ho => ho, hacross⟩).imp ?_
  rintro o o' ⟨ho, offer, ⟨joffer, hoffer, hofferRead⟩, rfl, warnings, hthread⟩
  have hnumber := Offer.threadNumber_of_ofJson hoffer hofferRead
  obtain ⟨jthread, hown, heq⟩ := h.threadOf_eq (t := t) ho
    (Thread.map_index_of_readFrom hthreads) hj hnumber
  exact ⟨hnumber, jthread, warnings, hown, heq.symm.trans hthread⟩

/-- The threads of a state that is read from its text are numbered. -/
theorem ThreadsNumbered.ofText (h : s.ThreadsNumbered)
    (hread : u.ofText t (s.toText t₀) = .ok loaded) : loaded.ThreadsNumbered := by
  obtain ⟨hthreads, hmade, hchoices⟩ := h.readFrom hread
  have hnumbers : loaded.threadNumbers = s.threadNumbers := by
    have hkept := Thread.map_index_of_readFrom
      (List.forall₂_map_left_iff.mpr (List.forall₂_map_right_iff.mpr
        (hchoices.imp fun o o' ho => ho.2)) :
      List.Forall₂ (Thread.ReadFrom t₀ t) (s.choices.map Choice.thread)
        (loaded.choices.map Choice.thread))
    rw [List.map_map, List.map_map] at hkept
    unfold threadNumbers
    rw [Thread.map_index_of_readFrom hthreads]
    exact congrArg _ hkept
  refine ⟨hnumbers ▸ h.distinct, fun n hn => ?_, fun o' ho' => ?_⟩
  · rw [hmade]
    exact h.made n (hnumbers ▸ hn)
  · obtain ⟨o, ho, hnumber, hthread⟩ := exists_of_forall₂ hchoices ho'
    rw [hnumber, h.own o ho, hthread.index]

end State

end StoryMachine
