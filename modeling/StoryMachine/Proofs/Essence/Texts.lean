import StoryMachine.Proofs.Essence.Saves

/-!
# The text of a saved state

What is saved of a state is read from its text as it was written. Values are nested a fixed number
of times, in frames in threads in call stacks, all of it far less deeply than is read; the fields of
every object stand in order; and the numbers are those that a save keeps.

* `Json.exact_object`, `Json.exact_array` and their like : what is put together from values that come
  back comes back;
* `Value.CarriesOver.exact`, `Thread.exact_toJson`, `Variables.exact_toJson` : the parts of a state;
* `State.CarriesOver.exact_toJson` : the state.
-/

namespace StoryMachine

/-! ## Objects and arrays -/

namespace Json

variable {depth : Nat}

theorem itemsExact_iff {items : List Json} :
    ItemsExact depth items ↔ ∀ j ∈ items, j.Exact depth := by
  induction items with
  | nil => exact ⟨fun _ => List.forall_mem_nil _, fun _ => trivial⟩
  | cons j rest ih => rw [ItemsExact, ih, List.forall_mem_cons]

theorem fieldsExact_iff {fields : List (String × Json)} :
    FieldsExact depth fields ↔ ∀ f ∈ fields, f.2.Exact depth := by
  induction fields with
  | nil => exact ⟨fun _ => List.forall_mem_nil _, fun _ => trivial⟩
  | cons f rest ih => rw [FieldsExact, ih, List.forall_mem_cons]

theorem exact_array {α : Type} {write : α → Json} {xs : List α}
    (h : ∀ x ∈ xs, (write x).Exact depth) : (array write xs).Exact (depth + 1) :=
  ⟨depth.succ_pos, itemsExact_iff.mpr (List.forall_mem_map.mpr h)⟩

theorem exact_strings (ss : List String) : (strings ss).Exact (depth + 1) :=
  exact_array fun _ _ => trivial

theorem exact_obj {fields : List (String × Json)} (hsorted : fields.Pairwise KeyLt)
    (h : ∀ f ∈ fields, f.2.Exact depth) : (obj fields).Exact (depth + 1) :=
  ⟨depth.succ_pos, hsorted, fieldsExact_iff.mpr h⟩

theorem exact_object {fields : List (String × Json)} (h : ∀ f ∈ fields, f.2.Exact depth) :
    (object fields).Exact (depth + 1) :=
  exact_obj (Entries.pairwise_ofList fields) fun f hf => h f (Entries.mem_of_mem_ofList hf)

theorem exact_ofTable {α : Type} {write : α → Json} {table : Table α}
    (h : ∀ e ∈ table.entries, (write e.2).Exact depth) : (ofTable write table).Exact (depth + 1) :=
  exact_obj (Entries.pairwise_map (f := fun _ => write) table.sorted) (List.forall_mem_map.mpr h)

theorem exact_nat {n : Nat} (h : n ≤ Decimal.max64) : (nat n).Exact depth := by
  refine ⟨by omega, ?_⟩
  exact_mod_cast h

theorem exact_int_of_wrap32 {n : Int} (h : wrap32 n = n) : (int n).Exact depth := by
  have hlow := Int.le_bmod (x := n) (m := 0x100000000) (by decide)
  have hhigh := wrap32_lt n
  unfold wrap32 at h hhigh
  exact ⟨by omega, by unfold Decimal.max64; omega⟩

theorem exact_int (n : Int32) : (int n.toInt).Exact depth :=
  exact_int_of_wrap32 (wrap32_toInt n)

/-- What has no parts comes back at every depth. -/
theorem Exact.of_flat {j : Json} (h : j.Exact 0) : j.Exact depth := by
  cases j with
  | arr | obj => exact absurd h.1 (by decide)
  | _ => exact h

end Json

variable {t : ContentTree} {depth : Nat}

/-! ## Values -/

namespace Value

theorem exact_listJson (l : ListValue) : (listJson l).Exact (depth + 2) := by
  have hitems : (Json.object (l.items.entries.map fun e => (e.1.fullName, .int e.2.toInt))).Exact
      (depth + 1) :=
    Json.exact_object (List.forall_mem_map.mpr fun e _ => Json.exact_int e.2)
  unfold listJson
  dsimp only
  split
  · exact Json.exact_object (List.forall_mem_cons.mpr
      ⟨hitems, List.forall_mem_singleton.mpr (Json.exact_strings _)⟩)
  · exact Json.exact_object (List.forall_mem_singleton.mpr hitems)

theorem CarriesOver.exact {v : Value} (h : v.CarriesOver) : v.toJson.Exact (depth + 2) := by
  cases v with
  | bool | text => trivial
  | int n => exact Json.exact_int n
  | float x => exact (h.text x rfl).of_flat
  | list l => exact exact_listJson l
  | target p => exact Json.exact_object (List.forall_mem_singleton.mpr trivial)
  | reference name scope =>
    exact Json.exact_object (List.forall_mem_cons.mpr
      ⟨trivial, List.forall_mem_singleton.mpr (Json.exact_int_of_wrap32 h.savable)⟩)

theorem exact_ofTable {m : Table Value} (h : ∀ e ∈ m.entries, e.2.CarriesOver) :
    (Json.ofTable toJson m).Exact (depth + 3) :=
  Json.exact_ofTable fun e he => (h e he).exact

end Value

theorem Token.CarriesOver.exact {token : Token} (h : token.CarriesOver) :
    token.toJson.Exact (depth + 2) := by
  cases token with
  | value v => exact (h v rfl).1.exact
  | tag text => exact Json.exact_object (List.forall_mem_singleton.mpr trivial)
  | command | glue | void => trivial

/-- The variables that differ from their defaults. -/
theorem Variables.exact_toJson {v : Variables} (h : ∀ e ∈ v.globals.entries, e.2.CarriesOver) :
    v.toJson.Exact (depth + 3) := by
  rw [toJson_eq]
  refine Json.exact_obj (Entries.pairwise_filterMap v.globals.sorted) fun f hf => ?_
  obtain ⟨e, he, hsaved⟩ := List.mem_filterMap.mp hf
  obtain ⟨j, hj, rfl⟩ := Option.map_eq_some_iff.mp hsaved
  unfold savedValue? at hj
  split at hj
  · split at hj
    · cases hj
    · cases hj
      exact (h e he).exact
  · cases hj
    exact (h e he).exact

/-! ## Threads -/

theorem Frame.exact_toJson {f : Frame} (hcursor : ∀ c ∈ f.cursor, wrap32 c.index = c.index)
    (hvalues : ∀ e ∈ f.temporaries.entries, e.2.CarriesOver) : (f.toJson t).Exact (depth + 4) := by
  unfold toJson
  refine Json.exact_object ?_
  rw [List.forall_mem_append, List.forall_mem_append, List.forall_mem_cons, List.forall_mem_singleton]
  refine ⟨⟨?_, trivial, ?_⟩, ?_⟩
  · split
    · next c hc =>
      exact List.forall_mem_cons.mpr ⟨trivial, List.forall_mem_singleton.mpr
        (Json.exact_int_of_wrap32 (hcursor c hc))⟩
    · exact List.forall_mem_nil _
  · cases f.kind <;> exact ⟨by decide, by decide⟩
  · split
    · exact List.forall_mem_nil _
    · exact List.forall_mem_singleton.mpr (Value.exact_ofTable hvalues)

theorem Thread.exact_toJson {V : Value → Prop} (hindexed : t.root.Indexed) {thread : Thread}
    (hsound : thread.Sound t V) (h : thread.CarriesOver t) (hnumber : thread.index ≤ Decimal.max64) :
    (thread.toJson t).Exact (depth + 6) := by
  have hframes : (Json.array (Frame.toJson t) thread.frames).Exact (depth + 5) := by
    refine Json.exact_array fun f hf => Frame.exact_toJson (fun c hc => ?_) (h.values f hf)
    rcases List.mem_cons.mp (List.mem_reverse.mp hf) with rfl | hbelow
    · exact (hsound.top.cursor c hc).index hindexed
    · exact ((hsound.below f hbelow).cursor c hc).index hindexed
  unfold toJson
  refine Json.exact_object ?_
  rw [List.forall_mem_append, List.forall_mem_cons, List.forall_mem_singleton]
  refine ⟨⟨hframes, Json.exact_nat hnumber⟩, ?_⟩
  split
  · exact List.forall_mem_singleton.mpr trivial
  · exact List.forall_mem_nil _

/-! ## States -/

theorem Offer.exact_toJson {o : Offer} (hindex : o.index ≤ Decimal.max64)
    (hnumber : o.threadNumber ≤ Decimal.max64) : o.toJson.Exact (depth + 2) := by
  unfold toJson
  refine Json.exact_object ?_
  simp only [List.forall_mem_append, List.forall_mem_cons]
  refine ⟨⟨trivial, Json.exact_nat hindex, trivial, Json.exact_nat hnumber, trivial,
    List.forall_mem_nil _⟩, ?_⟩
  split
  · exact List.forall_mem_nil _
  · exact List.forall_mem_singleton.mpr (Json.exact_strings _)

theorem exact_countsToJson {counts : Table Int} (h : ∀ e ∈ counts.entries, wrap32 e.2 = e.2) :
    (countsToJson counts).Exact (depth + 1) :=
  Json.exact_ofTable fun e he => Json.exact_int_of_wrap32 (h e he)

namespace State

variable {s : State}

/-- The numbers of the threads fit, if that of the newest one does. -/
theorem ThreadsNumbered.index_le (hnumbered : s.ThreadsNumbered) (h : s.CarriesOver t)
    {thread : Thread} (hthread : thread ∈ s.callStack.threads ++ s.choices.map Choice.thread) :
    thread.index ≤ Decimal.max64 := by
  refine (hnumbered.made _ ?_).trans h.made
  have hmem := List.mem_map_of_mem (f := Thread.index) hthread
  rwa [List.map_append, List.map_map] at hmem

/-- A state that a save keeps is written with numbers that are read again. -/
theorem CarriesOver.exact_toJson (h : s.CarriesOver t) {V : Value → Prop}
    (hindexed : t.root.Indexed) (hsound : s.Sound t V) (hnumbered : s.ThreadsNumbered) :
    (s.toJson t).Exact (depth + 9) := by
  have hthread : ∀ thread ∈ s.callStack.threads ++ s.choices.map Choice.thread, ∀ depth,
      (thread.toJson t).Exact (depth + 6) := fun thread hthread _ =>
    Thread.exact_toJson hindexed (hsound.thread hthread) (h.threads thread hthread)
      (hnumbered.index_le h hthread)
  have hstack : (s.callStack.toJson t).Exact (depth + 8) := by
    refine Json.exact_object (List.forall_mem_cons.mpr
      ⟨Json.exact_array fun thread hlive => ?_, List.forall_mem_singleton.mpr (Json.exact_nat h.made)⟩)
    exact hthread thread (List.mem_append_left _ hlive) depth
  have hchoices : ∀ f ∈ s.choiceThreads t, f.2.Exact (depth + 7) := by
    rw [hnumbered.choiceThreads_eq, List.forall_mem_map]
    exact fun o ho => hthread o.thread (List.mem_append_right _ (List.mem_map_of_mem ho)) (depth + 1)
  have htokens : ∀ {tokens : List Token}, (∀ token ∈ tokens, token.CarriesOver) →
      (Json.array Token.toJson tokens.reverse).Exact (depth + 8) := fun htokens =>
    Json.exact_array fun token htoken => (htokens token (List.mem_reverse.mp htoken)).exact
  have hoffers : (Json.array Offer.toJson (s.choices.map Choice.toOffer)).Exact (depth + 8) := by
    refine Json.exact_array (List.forall_mem_map.mpr fun o ho => ?_)
    refine Offer.exact_toJson (h.indexes o ho) (hnumbered.own o ho ▸ hnumbered.index_le h ?_)
    exact List.mem_append_right _ (List.mem_map_of_mem ho)
  unfold toJson
  refine Json.exact_object ?_
  simp only [List.forall_mem_append, List.forall_mem_cons]
  refine ⟨⟨⟨⟨⟨hstack, htokens h.output, List.forall_mem_nil _⟩, ?_⟩, hoffers, ?_, htokens h.evaluation,
    List.forall_mem_nil _⟩, ?_⟩, exact_countsToJson h.visits, exact_countsToJson h.turns,
    Json.exact_int_of_wrap32 h.turn, Json.exact_int _, Json.exact_int _, ?_, ?_,
    List.forall_mem_nil _⟩
  · split
    · exact List.forall_mem_nil _
    · exact List.forall_mem_singleton.mpr (Json.exact_object hchoices)
  · exact Variables.exact_toJson h.globals
  · split
    · exact List.forall_mem_singleton.mpr trivial
    · exact List.forall_mem_nil _
  · exact ⟨by decide, by decide⟩
  · exact ⟨by decide, by decide⟩

end State

end StoryMachine
