import StoryMachine.Proofs.Essence.States
import StoryMachine.Proofs.Json.Reread
import StoryMachine.Proofs.Story.OwnSaves
import StoryMachine.Proofs.Story.SavedVariables

/-!
# The essence of a saved state

A state that is read from what is saved of it has the essence of the state that was saved, unless
some of it is lost. What is lost is named one by one: that a choice is invisible; a variable without
a default; the sign of a zero; where the text of a running function begins; where a thread was, if no
node stands there or the root does; and numbers that are not finite or do not fit.

* `Thread.CarriesOver`, `Token.CarriesOver`, `State.CarriesOver` : nothing of it is lost;
* `Thread.exists_essence`, `CallStack.exists_twin` : threads and call stacks are read;
* `Token.ofJson_toJson`, `Offer.ofJson_toJson`, `countsOfJson_toJson` : the other parts;
* `State.exists_twin_ofFields` : the state is read.
-/

open List (Forall₂)

namespace StoryMachine

theorem wrap32_toInt (n : Int32) : wrap32 n.toInt = n.toInt := by
  have hlow := n.le_toInt
  have hhigh := n.toInt_lt
  exact Int.bmod_eq_of_le (by omega) (by omega)

variable {t : ContentTree}

/-! ## Values and tokens -/

namespace Value

variable {v : Value}

theorem Savable.essence_normal (h : v.Savable) : v.normal.essence = v.essence :=
  (essence_eq_iff.mpr h.sameAs_normal).symm

theorem essence_normal_table {m : Table Value} (h : ∀ e ∈ m.entries, e.2.Savable) :
    ((m.map fun _ v => v.normal).map fun _ v => v.essence) = m.map fun _ v => v.essence := by
  refine SortedMap.ext_get? fun name => ?_
  rw [SortedMap.get?_map, SortedMap.get?_map, SortedMap.get?_map]
  cases hvalue : m.get? name with
  | none => rfl
  | some v => exact congrArg some (h (name, v) (SortedMap.mem_entries_iff.mpr hvalue)).essence_normal

/-- A save keeps the value: it can be told from what is saved, and a number is read from its text. -/
structure CarriesOver (v : Value) : Prop where
  savable : v.Savable
  text : ∀ x, v = .float x → (floatJson x).Exact 0

end Value

namespace Token

/-- A save keeps the value that the token holds, if it holds one. -/
def CarriesOver (token : Token) : Prop :=
  ∀ v, token = .value v → v.CarriesOver ∧ v.PathReads

/-- What a token is read as. -/
def normal : Token → Token
  | .value v => .value v.normal
  | token => token

variable {token : Token}

theorem CarriesOver.sameAs_normal (h : token.CarriesOver) : token.SameAs token.normal := by
  cases token with
  | value v => exact .of_value (h v rfl).1.savable.sameAs_normal
  | _ => exact .refl _

theorem ofJson_toJson (h : token.CarriesOver) : ofJson token.toJson = .ok token.normal := by
  cases token with
  | value v =>
    obtain ⟨hvalue, hpath⟩ := h v rfl
    unfold ofJson toJson
    rw [Value.ofJson_toJson (hvalue.savable.readable hpath)]
    rfl
  | command c =>
    unfold ofJson toJson
    show (Instruction.ofString c.word >>= _) = _
    rw [Command.ofString_word]
    rfl
  | tag text =>
    unfold ofJson toJson
    rw [Instruction.ofJson_object]
    simp [Instruction.ofObject, Instruction.divertFields, ofInstruction?, normal]
  | glue => rfl
  | void => rfl

end Token

theorem Frame.essence_reread {f : Frame} (h : f.Savable)
    (hmark : f.kind = .function → f.outputStart = some 0) : f.reread.essence = f.essence := by
  unfold reread essence Frame.new
  dsimp only
  rw [Value.essence_normal_table h]
  by_cases hkind : f.kind = .function
  · rw [if_pos hkind, if_pos hkind, hmark hkind]
  · rw [if_neg hkind, if_neg hkind]

theorem ContentTree.stand_of_openAt {a b : Option Cursor} (h : t.openAt a = t.openAt b) :
    t.stand a = t.stand b := by
  rw [stand, stand, h]

namespace Thread

/-- A save keeps the thread: its values, where the texts of its functions begin, and where it was. -/
structure CarriesOver (thread : Thread) (t : ContentTree) : Prop where
  values : ∀ f ∈ thread.frames, ∀ e ∈ f.temporaries.entries, e.2.CarriesOver
  marks : ∀ f ∈ thread.frames, f.kind = .function → f.outputStart = some 0
  previous : ∀ place ∈ thread.previous, ∃ id, place.node? t = some id ∧ id ≠ ContentTree.rootId

variable {thread : Thread}

theorem exists_essence (hnames : t.root.WellNamed) (hindexed : t.root.Indexed)
    (hsound : thread.Sound t Value.PathReads) (h : thread.CarriesOver t) :
    ∃ loaded, ofJson t (thread.toJson t) = .ok (loaded, []) ∧
      thread.essence t = loaded.essence t := by
  have hvalues : ∀ f ∈ thread.frames, f.Savable := fun f hf e he => (h.values f hf e he).savable
  obtain ⟨previous, hread, hopen⟩ := exists_ofJson_toJson hnames hindexed hsound hvalues
  have hframe : ∀ f ∈ thread.frames, f.essence = f.reread.essence := fun f hf =>
    (Frame.essence_reread (hvalues f hf) (h.marks f hf)).symm
  have hmem : ∀ f ∈ thread.top :: thread.below, f ∈ thread.frames := fun f hf =>
    List.mem_reverse.mpr hf
  refine ⟨_, hread, essence_congr (hframe _ (hmem _ List.mem_cons_self)) ?_
    (t.stand_of_openAt (hopen.mpr h.previous)).symm rfl⟩
  rw [List.map_map]
  exact List.map_congr_left fun f hf => hframe f (hmem f (List.mem_cons_of_mem _ hf))

theorem exists_essences (hnames : t.root.WellNamed) (hindexed : t.root.Indexed)
    {threads : List Thread} (hsound : ∀ thread ∈ threads, thread.Sound t Value.PathReads)
    (h : ∀ thread ∈ threads, thread.CarriesOver t) :
    ∃ loaded, listOfJson t (threads.map (Thread.toJson t)) = .ok (loaded, []) ∧
      threads.map (Thread.essence t) = loaded.map (Thread.essence t) := by
  induction threads with
  | nil => exact ⟨[], rfl, rfl⟩
  | cons thread rest ih =>
    obtain ⟨hthread, hrest⟩ := List.forall_mem_cons.mp h
    obtain ⟨hsoundThread, hsoundRest⟩ := List.forall_mem_cons.mp hsound
    obtain ⟨a, ha, hessence⟩ := exists_essence hnames hindexed hsoundThread hthread
    obtain ⟨as, has, hessences⟩ := ih hsoundRest hrest
    refine ⟨a :: as, ?_, by rw [List.map_cons, List.map_cons, hessence, hessences]⟩
    rw [List.map_cons, listOfJson, if_neg (show ¬(thread.toJson t).obj?.isNone = true from nofun),
      ha, has]
    rfl

end Thread

theorem CallStack.exists_twin (hnames : t.root.WellNamed) (hindexed : t.root.Indexed)
    {s : CallStack} (hsound : ∀ thread ∈ s.threads, thread.Sound t Value.PathReads)
    (h : ∀ thread ∈ s.threads, thread.CarriesOver t) :
    ∃ loaded, ofJson t (s.toJson t) = .ok (loaded, []) ∧ s.Twin t loaded := by
  obtain ⟨threads, hread, hessences⟩ := Thread.exists_essences hnames hindexed hsound h
  have horder : (s.current :: s.others).map (Thread.essence t) =
      threads.reverse.map (Thread.essence t) := by
    rw [List.map_reverse, ← hessences, CallStack.threads, List.map_reverse, List.reverse_reverse]
  have hmade : (Json.nat s.made).nat? = some s.made := by simp [Json.nat, Json.nat?]
  cases hreverse : threads.reverse with
  | nil =>
    rw [hreverse] at horder
    cases horder
  | cons a as =>
    rw [hreverse, List.map_cons, List.map_cons] at horder
    obtain ⟨hcurrent, hothers⟩ := List.cons.inj horder
    refine ⟨⟨a, as, s.made⟩, ?_, .of_parts hcurrent hothers rfl⟩
    unfold ofJson
    rw [show (s.toJson t).field? "threads" = some (Json.array (Thread.toJson t) s.threads) by simp [toJson],
      show (s.toJson t).field? "threadCounter" = some (.nat s.made) by simp [toJson],
      Option.bind_some, Option.bind_some, hmade]
    dsimp only [Json.array, Json.arr?]
    rw [hread]
    dsimp only [bind, Except.bind]
    rw [hreverse]
    rfl

/-! ## Choices -/

namespace Offer

variable {o : Offer}

/-- An offer is read as it was, and as visible. -/
theorem ofJson_toJson (htarget : o.target.Readable) :
    ofJson o.toJson = .ok { o with isInvisible := false } := by
  have htarget : Path.parse o.target.render = o.target := htarget
  have hneeded : ∀ {name : String} {j : Json}, o.toJson.field? name = some j →
      neededField o.toJson name = .ok j := fun h => by
    unfold neededField
    rw [h]
  have hfields : o.toJson.field? "text" = some (.str o.text) ∧
      o.toJson.field? "index" = some (.nat o.index) ∧
      o.toJson.field? "targetPath" = some (.str o.target.render) ∧
      o.toJson.field? "tags" = if o.tags.isEmpty then none else some (Json.strings o.tags) := by
    unfold toJson
    cases o.tags.isEmpty <;> simp
  obtain ⟨htext, hindex, hpath, htags⟩ := hfields
  obtain ⟨hsource, hnumber⟩ := o.field?_toJson
  unfold ofJson
  rw [hneeded htext, hneeded hindex, hneeded hsource, hneeded hnumber, hneeded hpath, htags]
  simp only [bind, Except.bind, fieldString_str, fieldNat_nat, htarget]
  cases hempty : o.tags.isEmpty with
  | true =>
    have hnone : o.tags = [] := List.isEmpty_iff.mp hempty
    rw [if_pos rfl, hnone]
    rfl
  | false =>
    rw [if_neg Bool.false_ne_true]
    dsimp only
    rw [fieldStrings_strings]
    rfl

end Offer

namespace State

/-- Every choice gets a thread with the essence of its own. -/
theorem exists_giveThreads {stack : CallStack} {saved : Option Json} {choices : List Choice}
    (hvisible : ∀ o ∈ choices, o.isInvisible = false)
    (h : ∀ o ∈ choices, ∃ thread, threadOf t stack saved o.toOffer = .ok (thread, []) ∧
      o.thread.essence t = thread.essence t) :
    ∃ loaded, giveThreads t stack saved (choices.map Choice.toOffer) = .ok (loaded, []) ∧
      Forall₂ (Choice.Twin t) choices loaded := by
  induction choices with
  | nil => exact ⟨[], rfl, .nil⟩
  | cons o rest ih =>
    obtain ⟨⟨thread, hthread, hessence⟩, hrest⟩ := List.forall_mem_cons.mp h
    obtain ⟨loaded, hloaded, htwin⟩ := ih (List.forall_mem_cons.mp hvisible).2 hrest
    refine ⟨{ o.toOffer with thread } :: loaded, ?_, .cons ⟨rfl, hessence⟩ htwin⟩
    rw [List.map_cons, giveThreads, hthread, hloaded]
    rfl

/-- The thread that is given back to a choice is read from what has been saved for its own. -/
theorem ThreadsNumbered.threadOf_toJson {s : State} (hnumbered : s.ThreadsNumbered) {o : Choice}
    (ho : o ∈ s.choices) {stack : CallStack}
    (hstack : stack.threads.map Thread.index = s.callStack.threads.map Thread.index) :
    threadOf t stack ((s.toJson t).field? "choiceThreads") o.toOffer =
      Thread.ofJson t (o.thread.toJson t) := by
  have hnonempty : (s.choiceThreads t).isEmpty = false := by
    rw [hnumbered.choiceThreads_eq, List.isEmpty_map]
    exact List.isEmpty_eq_false_iff.mpr (List.ne_nil_of_mem ho)
  have hsaved := (field?_toJson (t := t) s).2.2.1
  rw [hnonempty, if_neg Bool.false_ne_true] at hsaved
  have hnotLive : stack.thread? o.threadNumber = none := by
    rw [hnumbered.own o ho]
    exact thread?_eq_none_iff.mpr (hstack ▸ hnumbered.not_live ho)
  unfold threadOf
  rw [hnotLive, hsaved, Option.bind_some, hnumbered.own o ho, hnumbered.choiceThread_eq ho]
  rfl

/-! ## Counts -/

/-- A save keeps the state. -/
structure CarriesOver (s : State) (t : ContentTree) : Prop where
  visible : ∀ o ∈ s.choices, o.isInvisible = false
  threads : ∀ thread ∈ s.callStack.threads ++ s.choices.map Choice.thread, thread.CarriesOver t
  globals : ∀ e ∈ s.vars.globals.entries, e.2.CarriesOver
  declared : ∀ name, s.vars.globals.contains name = s.vars.defaults.contains name
  zeros : ∀ e ∈ s.vars.globals.entries ++ s.vars.defaults.entries, ¬e.2.IsNegativeZero
  output : ∀ token ∈ s.output.newest, token.CarriesOver
  evaluation : ∀ token ∈ s.evaluation, token.CarriesOver
  diverted : ∀ place ∈ s.diverted,
    t.cursorAt (Path.parse (place.path t).render) = .ok (some place, none)
  visits : ∀ e ∈ s.visits.entries, wrap32 e.2 = e.2
  turns : ∀ e ∈ s.turns.entries, wrap32 e.2 = e.2
  turn : wrap32 s.turn = s.turn
  made : s.callStack.made ≤ Decimal.max64
  indexes : ∀ o ∈ s.choices, o.index ≤ Decimal.max64

/-- Variables that all have defaults come back. -/
theorem CarriesOver.vars {s : State} (h : s.CarriesOver t)
    (hpaths : ∀ e ∈ s.vars.globals.entries, e.2.PathReads) {u : Variables}
    (hdefaults : u.defaults = s.vars.defaults) :
    ∃ loaded, u.ofJson s.vars.toJson = .ok loaded ∧ s.vars.Twin loaded := by
  obtain ⟨loaded, hread, hsame, hback, hlost⟩ :=
    Variables.come_back_iff hdefaults hpaths (fun e he => (h.globals e he).savable) h.zeros
  refine ⟨loaded, hread, SortedMap.ext_get? fun name => ?_, by rw [hsame]⟩
  rw [SortedMap.get?_map, SortedMap.get?_map]
  have hdeclared := h.declared name
  cases hvalue : s.vars.globals.get? name with
  | none =>
    rw [SortedMap.contains, hvalue, SortedMap.contains] at hdeclared
    rw [hlost name hvalue, Option.isNone_iff_eq_none.mp (Option.isSome_eq_false_iff.mp hdeclared.symm)]
  | some value =>
    rw [SortedMap.contains, hvalue] at hdeclared
    obtain ⟨w, hw, hsame⟩ := (hback name value hvalue).mpr hdeclared.symm
    rw [hw]
    exact congrArg some (Value.essence_eq_iff.mpr hsame)

/-- What the other fields of a saved state hold. -/
theorem field?_toJson_values (s : State) :
    (s.toJson t).field? "outputStream" = some (Json.array Token.toJson s.output.tokens) ∧
      (s.toJson t).field? "variablesState" = some s.vars.toJson ∧
      (s.toJson t).field? "evalStack" = some (Json.array Token.toJson s.evaluation.reverse) ∧
      (s.toJson t).field? "currentDivertTarget" =
        s.diverted.map (fun c => .str (c.path t).render) ∧
      (s.toJson t).field? "turnIndices" = some (countsToJson s.turns) ∧
      (s.toJson t).field? "turnIdx" = some (.int s.turn) ∧
      (s.toJson t).field? "storySeed" = some (.int s.seed.toInt) ∧
      (s.toJson t).field? "previousRandom" = some (.int s.drawn.toInt) ∧
      (s.toJson t).field? "inkSaveVersion" = some (.int saveVersion) := by
  unfold toJson
  dsimp only
  cases s.diverted <;> split <;> simp

section

variable {s : State} (hnames : t.root.WellNamed) (hindexed : t.root.Indexed)
include hnames hindexed

theorem CarriesOver.callStack (h : s.CarriesOver t) (hsound : s.Sound t Value.PathReads) :
    ∃ stack, CallStack.ofJson t (s.callStack.toJson t) = .ok (stack, []) ∧
      s.callStack.Twin t stack :=
  CallStack.exists_twin hnames hindexed
    (fun _ hthread => hsound.thread (List.mem_append_left _ hthread))
    fun thread hthread => h.threads thread (List.mem_append_left _ hthread)

theorem CarriesOver.choices (h : s.CarriesOver t) (hsound : s.Sound t Value.PathReads)
    (hnumbered : s.ThreadsNumbered) {stack : CallStack} (hstack : s.callStack.Twin t stack) :
    ∃ choices, giveThreads t stack ((s.toJson t).field? "choiceThreads")
        (s.choices.map Choice.toOffer) = .ok (choices, []) ∧
      Forall₂ (Choice.Twin t) s.choices choices := by
  refine exists_giveThreads h.visible fun o ho => ?_
  have hthread : o.thread ∈ s.callStack.threads ++ s.choices.map Choice.thread :=
    List.mem_append_right _ (List.mem_map_of_mem ho)
  obtain ⟨thread, hread, hessence⟩ :=
    Thread.exists_essence hnames hindexed (hsound.thread hthread) (h.threads _ hthread)
  exact ⟨thread, (hnumbered.threadOf_toJson ho hstack.indexes_eq.symm).trans hread, hessence⟩

end

theorem CarriesOver.offers {s : State} (h : s.CarriesOver t)
    (htargets : ∀ o ∈ s.choices, o.target.Readable) :
    ((s.choices.map Choice.toOffer).map Offer.toJson).mapM Offer.ofJson =
      .ok (s.choices.map Choice.toOffer) := by
  rw [List.map_map, List.mapM_map]
  refine Except.mapM_eq_ok_of_mem fun o ho => ?_
  dsimp only [Function.comp]
  rw [Offer.ofJson_toJson (htargets o ho)]
  exact congrArg (fun b => Except.ok { o.toOffer with isInvisible := b }) (h.visible o ho).symm

/-- Where a divert leads to is read, if a divert has been carried out. -/
theorem CarriesOver.divert {s : State} (h : s.CarriesOver t) :
    (((s.toJson t).field? "currentDivertTarget").bind Json.str? = none ∧ s.diverted = none) ∨
      ∃ path, ((s.toJson t).field? "currentDivertTarget").bind Json.str? = some path ∧
        t.cursorAt (Path.parse path) = .ok (s.diverted, none) := by
  rw [s.field?_toJson_values.2.2.2.1]
  cases hplace : s.diverted with
  | none => exact .inl ⟨rfl, rfl⟩
  | some place => exact .inr ⟨_, rfl, h.diverted place hplace⟩

end State

end StoryMachine
