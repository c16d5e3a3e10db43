import StoryMachine.Proofs.Essence.Values
import StoryMachine.Proofs.Story.SavedFrames

/-!
# Essences of states

The essence of a state is what decides how a story goes on: of its values all but what lists with
items remember of definitions, of the place executed before the containers that are open there, of
the frames all but the heights of calls of the host, and, where it is not a function's, the mark
where the text of a frame begins. Neither warnings nor the variables watched belong to it, and at
rest a deliberate end does not.

* `State.essence` : the essence of a state; `State.Twin` : states with the same one;
* `Output.essence_pushText` and its like : what is put out, and taken back;
* `CallStack.Twin.pop`, `Variables.Twin.assign` and their like : what is read from twins is the
  same, and what is written to them leaves them twins.
-/

open List (Forall₂)

namespace StoryMachine

theorem map_eq_map_cases {α β : Type} {f : α → β} {l m : List α} (h : l.map f = m.map f) :
    (l = [] ∧ m = []) ∨
      ∃ a as b bs, l = a :: as ∧ m = b :: bs ∧ f a = f b ∧ as.map f = bs.map f := by
  cases l with
  | nil => exact .inl ⟨rfl, List.map_eq_nil_iff.mp h.symm⟩
  | cons a as =>
    cases m with
    | nil => cases h
    | cons b bs =>
      obtain ⟨hab, hrest⟩ := List.cons.inj h
      exact .inr ⟨a, as, b, bs, rfl, rfl, hab, hrest⟩

/-! ## Output -/

namespace Token

@[simp]
theorem text?_essence (t : Token) : t.essence.text? = t.text? := by
  cases t with
  | value v => cases v <;> rfl
  | _ => rfl

@[simp]
theorem isCommand_essence (c : Command) (t : Token) : t.essence.isCommand c = t.isCommand c := by
  cases t <;> rfl

end Token

namespace Output

/-- The output with the essences of its tokens. -/
def essence (o : Output) : Output :=
  ⟨o.newest.map Token.essence⟩

variable {ts : List Token}

theorem inString_essence (o : Output) : o.essence.inString = o.inString := by
  unfold inString essence
  rw [List.any_map]
  exact congrArg o.newest.any (funext fun t => t.isCommand_essence _)

theorem hasText_essence (o : Output) : o.essence.hasText = o.hasText := by
  unfold hasText essence
  rw [List.any_map]
  exact congrArg o.newest.any (funext fun t => congrArg Option.isSome t.text?_essence)

theorem length_essence (o : Output) : o.essence.length = o.length :=
  List.length_map _

theorem textsFrom_essence (inTag : Bool) (ts : List Token) :
    textsFrom inTag (ts.map Token.essence) = textsFrom inTag ts := by
  induction ts generalizing inTag with
  | nil => rfl
  | cons t rest ih =>
    cases t with
    | value v => cases v <;> simp [textsFrom, Token.essence, Value.essence, ih]
    | command c => cases c <;> simp [textsFrom, Token.essence, ih]
    | _ => simp [textsFrom, Token.essence, ih]

theorem tagsFrom_essence (inTag : Bool) (tag : String) (ts : List Token) :
    tagsFrom inTag tag (ts.map Token.essence) = tagsFrom inTag tag ts := by
  induction ts generalizing inTag tag with
  | nil => rfl
  | cons t rest ih =>
    cases t with
    | value v => cases v <;> simp [tagsFrom, Token.essence, Value.essence, ih]
    | command c => cases c <;> simp [tagsFrom, Token.essence, ih]
    | _ => simp [tagsFrom, Token.essence, ih]

theorem endsLine_essence (ts : List Token) : endsLine (ts.map Token.essence) = endsLine ts := by
  induction ts with
  | nil => rfl
  | cons t rest ih =>
    cases t with
    | value v => cases v <;> simp [endsLine, Token.essence, Value.essence, ih]
    | _ => simp [endsLine, Token.essence, ih]

theorem dropLineEnds_essence (ts : List Token) :
    dropLineEnds (ts.map Token.essence) = (dropLineEnds ts).map Token.essence := by
  induction ts with
  | nil => rfl
  | cons t rest ih =>
    cases t with
    | value v =>
      cases v with
      | text s =>
        simp only [dropLineEnds, Token.essence, Value.essence, List.map_cons, endsLine_essence]
        split
        · rfl
        · split
          · exact ih
          · rfl
      | _ => simp [dropLineEnds, Token.essence, Value.essence, ih]
    | _ => simp [dropLineEnds, Token.essence, ih]

theorem dropGlue_essence (ts : List Token) :
    dropGlue (ts.map Token.essence) = (dropGlue ts).map Token.essence := by
  induction ts with
  | nil => rfl
  | cons t rest ih =>
    cases t with
    | value v => cases v <;> simp [dropGlue, Token.essence, Value.essence, ih]
    | _ => simp [dropGlue, Token.essence, ih]

theorem dropSpacing_essence (count : Nat) (ts : List Token) :
    dropSpacing count (ts.map Token.essence) = (dropSpacing count ts).map Token.essence := by
  induction ts generalizing count with
  | nil => cases count <;> rfl
  | cons t rest ih =>
    cases count with
    | zero => rfl
    | succ count =>
      cases t with
      | value v =>
        cases v with
        | text s =>
          simp only [dropSpacing, Token.essence, Value.essence, List.map_cons]
          split
          · rfl
          · exact ih count
        | _ => simp [dropSpacing, Token.essence, Value.essence, ih]
      | _ => simp [dropSpacing, Token.essence, ih]

theorem trimming_essence (start : Option Nat) (ts : List Token) :
    trimming start (ts.map Token.essence) = trimming start ts := by
  induction ts with
  | nil => rfl
  | cons t rest ih =>
    cases t with
    | command c => cases c <;> simp [trimming, Token.essence, ih]
    | _ => simp [trimming, Token.essence, ih]

theorem splitAtCommand_essence (c : Command) (ts : List Token) :
    splitAtCommand c (ts.map Token.essence) =
      ((splitAtCommand c ts).1.map Token.essence, (splitAtCommand c ts).2.map Token.essence) := by
  induction ts with
  | nil => rfl
  | cons t rest ih =>
    rw [List.map_cons, splitAtCommand, splitAtCommand, Token.isCommand_essence, ih]
    split
    · rfl
    · rfl

theorem joined_essence (ts : List Token) : joined (ts.map Token.essence) = joined ts := by
  unfold joined
  rw [← List.map_reverse, List.filterMap_map]
  exact congrArg (fun f => String.join (ts.reverse.filterMap f)) (funext Token.text?_essence)

theorem text_essence (o : Output) : o.essence.text = o.text := by
  unfold text tokens essence
  rw [← List.map_reverse, textsFrom_essence]

theorem tags_essence (o : Output) : o.essence.tags = o.tags := by
  unfold tags tokens essence
  rw [← List.map_reverse, tagsFrom_essence]

theorem endsInLineEnd_essence (o : Output) : o.essence.endsInLineEnd = o.endsInLineEnd :=
  endsLine_essence o.newest

theorem add_essence (o : Output) (t : Token) : (o.add t).essence = o.essence.add t.essence :=
  rfl

theorem pushGlue_essence (o : Output) : o.pushGlue.essence = o.essence.pushGlue := by
  unfold pushGlue essence
  rw [dropLineEnds_essence]
  rfl

theorem trimFrom_essence (o : Output) (start : Nat) :
    (o.trimFrom start).essence = o.essence.trimFrom start := by
  unfold trimFrom essence
  rw [List.length_map, dropSpacing_essence]

/-- A text is put out, or dropped, in the same way. -/
theorem pushText_essence (o : Output) (start : Option Nat) (s : String) :
    ((o.pushText start s).1.essence, (o.pushText start s).2) = o.essence.pushText start s := by
  unfold pushText
  dsimp only
  rw [endsInLineEnd_essence, hasText_essence,
    show trimming start o.essence.newest = trimming start o.newest from trimming_essence _ _,
    show dropGlue o.essence.newest = (dropGlue o.newest).map Token.essence from dropGlue_essence _]
  generalize trimming start o.newest = trim
  split
  · split
    · rfl
    · split
      · cases trim.glue <;> rfl
      · rfl
  · split
    · rfl
    · rfl

end Output

/-! ## Frames and threads -/

/-- The frame with the essences of its variables. Where a call of the host found the evaluation
stack does not matter to the story, and where the text of a frame begins only if it is a function's. -/
def Frame.essence (f : Frame) : Frame :=
  { f with
    temporaries := f.temporaries.map fun _ v => v.essence
    evaluationHeight := 0
    outputStart := if f.kind = .function then f.outputStart else none }

/-- One place for all at which the same containers are open. -/
def ContentTree.stand (t : ContentTree) (previous : Option Cursor) : Option Cursor :=
  (t.openAt previous).head?.map fun id => ⟨id, -1⟩

/-- The thread with the essences of its frames, at the place that stands for where it was. -/
def Thread.essence (t : ContentTree) (thread : Thread) : Thread :=
  { thread with
    top := thread.top.essence
    below := thread.below.map Frame.essence
    previous := t.stand thread.previous }

/-- The call stack with the essences of its threads. -/
def CallStack.essence (t : ContentTree) (s : CallStack) : CallStack :=
  ⟨s.current.essence t, s.others.map (Thread.essence t), s.made⟩

namespace ContentTree

theorem stand_eq_some {t : ContentTree} {c : Cursor} {id : NodeId} {rest : List NodeId}
    (h : t.openAt (some c) = id :: rest) : t.stand (some c) = some ⟨id, -1⟩ := by
  rw [stand, h]
  rfl

theorem openAt_stand (t : ContentTree) (previous : Option Cursor) :
    t.openAt (t.stand previous) = t.openAt previous := by
  cases previous with
  | none => rfl
  | some c =>
    -- Both are the ancestry of some node.
    obtain ⟨id, hid⟩ : ∃ id, t.openAt (some c) = t.ancestry id := by
      unfold openAt
      dsimp only
      split
      · exact ⟨_, rfl⟩
      · exact ⟨_, rfl⟩
    have hcons := t.ancestry_eq_cons id
    rw [stand_eq_some (hid.trans hcons), hid]
    unfold openAt Cursor.node?
    dsimp only
    cases hk : t.container? id with
    | none => rfl
    | some k =>
      have hcontainer : t.isContainer id = true := by rw [isContainer, hk]; rfl
      dsimp only
      rw [if_pos (by rfl), Option.filter_some, if_pos hcontainer]

end ContentTree

variable {t : ContentTree}

namespace Frame

variable {f g : Frame} {name : String}

theorem get?_essence (f : Frame) (name : String) :
    f.essence.temporaries.get? name = (f.temporaries.get? name).map Value.essence :=
  SortedMap.get?_map _ _ _

theorem contains_essence (f : Frame) (name : String) :
    f.essence.temporaries.contains name = f.temporaries.contains name := by
  unfold SortedMap.contains
  rw [f.get?_essence, Option.isSome_map]

theorem essence_clear (f : Frame) :
    Frame.essence { f with outputStart := none } = { f.essence with outputStart := none } := by
  unfold essence
  dsimp only
  rw [ite_self]

theorem mark_eq (h : f.essence = g.essence) (hkind : f.kind = .function) :
    f.outputStart = g.outputStart := by
  have hsame : f.kind = g.kind := (congrArg Frame.kind h :)
  have hmark := congrArg Frame.outputStart h
  unfold essence at hmark
  dsimp only at hmark
  rwa [if_pos hkind, if_pos (hsame ▸ hkind)] at hmark

end Frame

theorem SortedMap.map_insert {α β : Type} (m : Table α) (f : String → α → β) (name : String)
    (a : α) : (m.insert name a).map f = (m.map f).insert name (f name a) := by
  refine SortedMap.ext_get? fun k => ?_
  rw [SortedMap.get?_map]
  by_cases hk : k = name
  · subst hk
    rw [SortedMap.get?_insert_self, SortedMap.get?_insert_self]
    rfl
  · rw [SortedMap.get?_insert_of_ne _ _ hk, SortedMap.get?_insert_of_ne _ _ hk,
      SortedMap.get?_map]

namespace Frame

theorem essence_insert (f : Frame) (name : String) (v : Value) :
    Frame.essence { f with temporaries := f.temporaries.insert name v } =
      { f.essence with temporaries := f.essence.temporaries.insert name v.essence } := by
  unfold essence
  dsimp only
  rw [SortedMap.map_insert]

end Frame

namespace Thread

variable {a b : Thread}

theorem essence_congr (htop : a.top.essence = b.top.essence)
    (hbelow : a.below.map Frame.essence = b.below.map Frame.essence)
    (hprevious : t.stand a.previous = t.stand b.previous) (hindex : a.index = b.index) :
    a.essence t = b.essence t := by
  unfold essence
  rw [htop, hbelow, hprevious, hindex]

theorem length_below_eq (h : a.essence t = b.essence t) : a.below.length = b.below.length := by
  have hbelow : a.below.map Frame.essence = b.below.map Frame.essence :=
    (congrArg Thread.below h :)
  simpa using congrArg List.length hbelow

theorem frame?_essence (thread : Thread) (i : Nat) :
    (thread.essence t).frame? i = (thread.frame? i).map Frame.essence := by
  unfold frame? essence
  dsimp only
  rw [List.length_map]
  split
  · rfl
  · split
    · rw [List.getElem?_map]
    · rfl

theorem modifyFrame_essence {f g : Frame → Frame} (hf : ∀ a : Frame, (f a).essence = g a.essence)
    (thread : Thread) (i : Nat) :
    (thread.modifyFrame i f).essence t = (thread.essence t).modifyFrame i g := by
  have hmodify : ∀ (l : List Frame) (i : Nat),
      (l.modify i f).map Frame.essence = (l.map Frame.essence).modify i g := by
    intro l i
    refine List.ext_getElem? fun j => ?_
    rw [List.getElem?_map, List.getElem?_modify, List.getElem?_modify, List.getElem?_map]
    cases l[j]? with
    | none => rfl
    | some a =>
      show some (Frame.essence (if i = j then f a else a)) =
        some (if i = j then g a.essence else a.essence)
      split
      · rw [hf]
      · rfl
  unfold modifyFrame essence
  dsimp only
  rw [List.length_map]
  split
  · dsimp only
    rw [hf]
  · split
    · dsimp only
      rw [hmodify]
    · rfl

end Thread

/-! ## Call stacks -/

namespace CallStack

/-- Call stacks with the same essence. -/
def Twin (t : ContentTree) (s u : CallStack) : Prop :=
  s.essence t = u.essence t

variable {s u : CallStack}

theorem Twin.of_parts (hcurrent : s.current.essence t = u.current.essence t)
    (hothers : s.others.map (Thread.essence t) = u.others.map (Thread.essence t))
    (hmade : s.made = u.made) : s.Twin t u := by
  unfold Twin essence
  rw [hcurrent, hothers, hmade]

theorem Twin.current (h : s.Twin t u) : s.current.essence t = u.current.essence t :=
  (congrArg CallStack.current h :)

theorem Twin.others (h : s.Twin t u) :
    s.others.map (Thread.essence t) = u.others.map (Thread.essence t) :=
  (congrArg CallStack.others h :)

theorem Twin.made (h : s.Twin t u) : s.made = u.made :=
  (congrArg CallStack.made h :)

theorem Twin.top (h : s.Twin t u) : s.top.essence = u.top.essence :=
  (congrArg CallStack.top h :)

theorem Twin.below (h : s.Twin t u) :
    s.current.below.map Frame.essence = u.current.below.map Frame.essence :=
  (congrArg (fun e : CallStack => e.current.below) h :)

theorem Twin.kind (h : s.Twin t u) : s.top.kind = u.top.kind :=
  (congrArg (fun e : CallStack => e.top.kind) h :)

theorem Twin.cursor (h : s.Twin t u) : s.top.cursor = u.top.cursor :=
  (congrArg (fun e : CallStack => e.top.cursor) h :)

theorem Twin.previous (h : s.Twin t u) : t.stand s.current.previous = t.stand u.current.previous :=
  (congrArg (fun e : CallStack => e.current.previous) h :)

theorem Twin.index (h : s.Twin t u) : s.current.index = u.current.index :=
  (congrArg (fun e : CallStack => e.current.index) h :)

theorem Twin.depth_eq (h : s.Twin t u) : s.depth = u.depth := by
  unfold depth Thread.depth
  rw [Thread.length_below_eq h.current]

theorem Twin.inHostCall_eq (h : s.Twin t u) : s.inHostCall = u.inHostCall :=
  (congrArg CallStack.inHostCall h :)

theorem Twin.canPop_eq (h : s.Twin t u) : s.canPop = u.canPop := by
  have hbelow := congrArg List.isEmpty h.below
  rw [List.isEmpty_map, List.isEmpty_map] at hbelow
  unfold canPop
  rw [hbelow]

theorem Twin.canPopKind_eq (h : s.Twin t u) (k : FrameKind) : s.canPopKind k = u.canPopKind k := by
  unfold canPopKind
  rw [h.canPop_eq, h.kind]

theorem Twin.canPopThread_eq (h : s.Twin t u) : s.canPopThread = u.canPopThread := by
  have hothers := congrArg List.isEmpty h.others
  rw [List.isEmpty_map, List.isEmpty_map] at hothers
  unfold canPopThread
  rw [hothers, h.inHostCall_eq]

/-- What can be seen of the essence of a thread is the same of all live threads. -/
theorem Twin.map_threads_eq {α : Type} (h : s.Twin t u) {f : Thread → α}
    (hf : ∀ thread, f (thread.essence t) = f thread) : s.threads.map f = u.threads.map f := by
  have hthreads : ∀ s : CallStack, s.threads.map f = (s.essence t).threads.map f := by
    intro s
    have hsame : f ∘ Thread.essence t = f := funext hf
    unfold threads essence
    rw [List.map_reverse, List.map_reverse, List.map_cons, List.map_cons, List.map_map, hsame, hf]
  rw [hthreads s, hthreads u, h]

theorem Twin.depths_eq (h : s.Twin t u) :
    s.threads.map Thread.depth = u.threads.map Thread.depth :=
  h.map_threads_eq fun _ => congrArg (· + 1) (List.length_map _)

theorem Twin.indexes_eq (h : s.Twin t u) :
    s.threads.map Thread.index = u.threads.map Thread.index :=
  h.map_threads_eq fun _ => rfl

theorem Twin.modifyTop (h : s.Twin t u) {f g : Frame → Frame}
    (hf : (f s.top).essence = (g u.top).essence) : (s.modifyTop f).Twin t (u.modifyTop g) :=
  .of_parts (Thread.essence_congr hf h.below h.previous h.index) h.others h.made

theorem Twin.setPrevious (h : s.Twin t u) (c : Option Cursor) :
    Twin t { s with current := { s.current with previous := c } }
      { u with current := { u.current with previous := c } } :=
  .of_parts (Thread.essence_congr h.top h.below rfl h.index) h.others h.made

theorem Twin.reset (h : s.Twin t u) : s.reset.Twin t u.reset :=
  .of_parts rfl rfl h.made

theorem Twin.fork (h : s.Twin t u) :
    s.fork.1.essence t = u.fork.1.essence t ∧ s.fork.2.Twin t u.fork.2 := by
  have hnumber : s.made + 1 = u.made + 1 := congrArg (· + 1) h.made
  exact ⟨Thread.essence_congr h.top h.below h.previous hnumber,
    .of_parts h.current h.others hnumber⟩

theorem Twin.pushThread (h : s.Twin t u) : s.pushThread.Twin t u.pushThread :=
  .of_parts h.fork.1 (by
    show s.current.essence t :: _ = u.current.essence t :: _
    rw [h.current, h.others]) h.fork.2.made

theorem Twin.resume (h : s.Twin t u) {a b : Thread} (hab : a.essence t = b.essence t) :
    (s.resume a).Twin t (u.resume b) :=
  .of_parts hab rfl h.made

theorem Twin.pop (h : s.Twin t u) : Agree (Twin t) s.pop u.pop := by
  unfold CallStack.pop
  rcases map_eq_map_cases h.below with ⟨hs, hu⟩ | ⟨f, fs, g, gs, hs, hu, hfg, hrest⟩
  · rw [hs, hu]
    exact .error _
  · rw [hs, hu]
    exact .ok (.of_parts (Thread.essence_congr hfg hrest h.previous h.index) h.others h.made)

theorem Twin.popThread (h : s.Twin t u) : Agree (Twin t) s.popThread u.popThread := by
  unfold CallStack.popThread
  rw [h.inHostCall_eq]
  rcases map_eq_map_cases h.others with ⟨hs, hu⟩ | ⟨a, as, b, bs, hs, hu, hab, hrest⟩
  · rw [hs, hu]
    exact .error _
  · rw [hs, hu]
    dsimp only
    split
    · exact .error _
    · exact .ok (.of_parts hab hrest h.made)

theorem Twin.push (h : s.Twin t u) (k : FrameKind) (height height' : Nat) {n m : Nat} (hnm : n = m) :
    (s.push k height n).Twin t (u.push k height' m) := by
  subst hnm
  refine .of_parts (Thread.essence_congr ?_ ?_ h.previous h.index) h.others h.made
  · show Frame.essence { Frame.new k s.top.cursor with evaluationHeight := height, outputStart := some n } =
      Frame.essence { Frame.new k u.top.cursor with evaluationHeight := height', outputStart := some n }
    rw [h.cursor]
    rfl
  · show s.top.essence :: _ = u.top.essence :: _
    rw [h.top, h.below]

/-! ### Temporary variables -/

theorem scopeFrame?_essence (s : CallStack) (scope : Int) :
    (s.essence t).scopeFrame? scope = (s.scopeFrame? scope).map Frame.essence := by
  unfold scopeFrame?
  split
  · rfl
  · split
    · exact s.current.frame?_essence _
    · rfl

theorem temporary?_essence (s : CallStack) (name : String) (scope : Int) :
    (s.essence t).temporary? name scope = (s.temporary? name scope).map Value.essence := by
  unfold temporary?
  rw [s.scopeFrame?_essence]
  cases s.scopeFrame? scope with
  | none => rfl
  | some f => exact f.get?_essence name

theorem putTemporary_essence (s : CallStack) (scope : Int) (name : String) (v : Value) :
    (s.putTemporary scope name v).essence t = (s.essence t).putTemporary scope name v.essence := by
  have hput := fun f : Frame => f.essence_insert name v
  unfold putTemporary modifyScopeFrame
  split
  · unfold modifyTop essence Thread.essence
    dsimp only
    rw [hput]
  · split
    · unfold essence
      dsimp only
      rw [s.current.modifyFrame_essence
        (g := fun f => { f with temporaries := f.temporaries.insert name v.essence }) hput]
    · rfl

theorem Twin.temporary? (h : s.Twin t u) (name : String) (scope : Int) :
    (s.temporary? name scope).map Value.essence = (u.temporary? name scope).map Value.essence := by
  rw [← temporary?_essence (t := t), ← temporary?_essence (t := t), h]

theorem Twin.putTemporary (h : s.Twin t u) (scope : Int) (name : String) {v w : Value}
    (hvw : v.SameAs w) : (s.putTemporary scope name v).Twin t (u.putTemporary scope name w) := by
  unfold Twin
  rw [putTemporary_essence, putTemporary_essence, h, Value.essence_eq_iff.mpr hvw]

theorem Twin.setTemporary (h : s.Twin t u) (name : String) {v w : Value} (hvw : v.SameAs w)
    (isDeclaration : Bool) (scope : Int) :
    Agree (Twin t) (s.setTemporary name v isDeclaration scope)
      (u.setTemporary name w isDeclaration scope) := by
  have hframe : (s.scopeFrame? scope).map Frame.essence = (u.scopeFrame? scope).map Frame.essence := by
    rw [← scopeFrame?_essence (t := t), ← scopeFrame?_essence (t := t), h]
  unfold CallStack.setTemporary
  generalize s.scopeFrame? scope = f at hframe ⊢
  generalize u.scopeFrame? scope = g at hframe ⊢
  cases f with
  | none =>
    obtain rfl := Option.map_eq_none_iff.mp hframe.symm
    exact .error _
  | some f =>
    obtain ⟨g, rfl, hg⟩ := Option.map_eq_some_iff.mp hframe.symm
    have hvalue : (f.temporaries.get? name).map Value.essence =
        (g.temporaries.get? name).map Value.essence := by
      rw [← f.get?_essence, ← g.get?_essence, hg]
    dsimp only
    generalize f.temporaries.get? name = old at hvalue ⊢
    generalize g.temporaries.get? name = old' at hvalue ⊢
    cases old with
    | none =>
      obtain rfl := Option.map_eq_none_iff.mp hvalue.symm
      dsimp only
      split
      · exact .ok (h.putTemporary scope name hvw)
      · exact .error _
    | some old =>
      obtain ⟨old', rfl, hold⟩ := Option.map_eq_some_iff.mp hvalue.symm
      have hsame := (Value.essence_eq_iff.mp hold.symm).inheritOrigins hvw
      exact .ok (h.putTemporary scope name hsame)

theorem Twin.scopeOf_eq (h : s.Twin t u) (name : String) : s.scopeOf name = u.scopeOf name := by
  unfold scopeOf
  rw [← s.top.contains_essence, ← u.top.contains_essence, h.top, h.depth_eq]

end CallStack

/-! ## Variables -/

/-- Variables whose values, and defaults, are the same, whoever watches them. -/
structure Variables.Twin (v w : Variables) : Prop where
  globals : (v.globals.map fun _ a => a.essence) = w.globals.map fun _ a => a.essence
  defaults : (v.defaults.map fun _ a => a.essence) = w.defaults.map fun _ a => a.essence

section

variable {a b : Table Value}

theorem get?_of_essence (h : (a.map fun _ v => v.essence) = b.map fun _ v => v.essence)
    (name : String) : (a.get? name).map Value.essence = (b.get? name).map Value.essence := by
  have hget := congrArg (SortedMap.get? · name) h
  rwa [SortedMap.get?_map, SortedMap.get?_map] at hget

theorem contains_of_essence (h : (a.map fun _ v => v.essence) = b.map fun _ v => v.essence)
    (name : String) : a.contains name = b.contains name := by
  have hget := congrArg Option.isSome (get?_of_essence h name)
  rwa [Option.isSome_map, Option.isSome_map] at hget

theorem size_of_essence (h : (a.map fun _ v => v.essence) = b.map fun _ v => v.essence) :
    a.size = b.size := by
  have hsize := congrArg SortedMap.size h
  unfold SortedMap.size SortedMap.map at hsize
  rwa [List.length_map, List.length_map] at hsize

/-- Values of the same essence are both missing, or the same. -/
theorem rel_of_essence {x y : Option Value} (h : x.map Value.essence = y.map Value.essence) :
    Option.Rel Value.SameAs x y := by
  cases x with
  | none =>
    obtain rfl := Option.map_eq_none_iff.mp h.symm
    exact .none
  | some v =>
    obtain ⟨w, rfl, hw⟩ := Option.map_eq_some_iff.mp h.symm
    exact .some (Value.essence_eq_iff.mp hw.symm)

end

namespace Variables

variable {v w : Variables} {s u : CallStack}

theorem Twin.get? (h : v.Twin w) (name : String) :
    (v.get? name).map Value.essence = (w.get? name).map Value.essence := by
  unfold Variables.get?
  rw [Option.map_or, Option.map_or, get?_of_essence h.globals, get?_of_essence h.defaults]

theorem Twin.declares_eq (h : v.Twin w) (name : String) : v.declares name = w.declares name := by
  unfold declares
  rw [contains_of_essence h.globals, contains_of_essence h.defaults]

theorem Twin.raw? (h : v.Twin w) (hs : s.Twin t u) (lists : ListDefinitions) (name : String)
    (scope : Int) : Option.Rel Value.SameAs (v.raw? lists s name scope)
      (w.raw? lists u name scope) := by
  refine rel_of_essence ?_
  unfold Variables.raw?
  rw [Option.map_or, Option.map_or, hs.temporary?]
  split
  · rw [Option.map_or, Option.map_or, h.get?]
  · rfl

/-- A chain of references is followed to the same variable. -/
theorem Twin.follow_eq (h : v.Twin w) (hs : s.Twin t u) (lists : ListDefinitions) (bound : Nat)
    (name : String) (scope : Int) :
    v.follow lists s bound name scope = w.follow lists u bound name scope := by
  induction bound generalizing name scope with
  | zero => rfl
  | succ bound ih =>
    have hraw := h.raw? hs lists name scope
    rw [Variables.follow, Variables.follow]
    generalize v.raw? lists s name scope = x at hraw ⊢
    generalize w.raw? lists u name scope = y at hraw ⊢
    cases hraw with
    | none => rfl
    | some hvw =>
      cases hvw with
      | list => rfl
      | refl =>
        split
        · exact ih _ _
        · rfl

theorem Twin.chainBound_eq (h : v.Twin w) (hs : s.Twin t u) : v.chainBound s = w.chainBound u := by
  have hsize : ∀ f : Frame, f.essence.temporaries.size = f.temporaries.size := fun f =>
    List.length_map _
  have hframes : ∀ s : CallStack, (s.current.frames.map fun f => f.temporaries.size) =
      (s.essence t).current.frames.map fun f => f.temporaries.size := by
    intro s
    have hsizes : (fun f : Frame => f.temporaries.size) ∘ Frame.essence =
        fun f => f.temporaries.size := funext hsize
    unfold Thread.frames CallStack.essence Thread.essence
    dsimp only
    rw [List.map_reverse, List.map_reverse, List.map_cons, List.map_cons, List.map_map, hsizes, hsize]
  unfold chainBound
  rw [size_of_essence h.globals, size_of_essence h.defaults, hframes s, hframes u, hs]

theorem Twin.target_eq (h : v.Twin w) (hs : s.Twin t u) (lists : ListDefinitions) (name : String) :
    v.target lists s name = w.target lists u name := by
  have hraw := h.raw? hs lists name unknownScope
  unfold target
  rw [h.chainBound_eq hs]
  generalize v.raw? lists s name unknownScope = x at hraw ⊢
  generalize w.raw? lists u name unknownScope = y at hraw ⊢
  cases hraw with
  | none => rfl
  | some hvw =>
    cases hvw with
    | list => rfl
    | refl =>
      split
      · exact h.follow_eq hs lists _ _ _
      · rfl

theorem Twin.read? (h : v.Twin w) (hs : s.Twin t u) (lists : ListDefinitions) (name : String) :
    Option.Rel Value.SameAs (v.read? lists s name) (w.read? lists u name) := by
  unfold Variables.read?
  rw [h.target_eq hs]
  exact h.raw? hs lists _ _

theorem Twin.resolveReference_eq (h : v.Twin w) (hs : s.Twin t u) (lists : ListDefinitions)
    (name : String) (scope : Int) :
    v.resolveReference lists s name scope = w.resolveReference lists u name scope := by
  unfold resolveReference
  rw [h.declares_eq, hs.depth_eq]
  dsimp only
  generalize (if scope = unknownScope then
    if w.declares name = true then globalScope else (u.depth : Int) - 1 else scope) = known
  have hraw := h.raw? hs lists name known
  generalize v.raw? lists s name known = x at hraw ⊢
  generalize w.raw? lists u name known = y at hraw ⊢
  cases hraw with
  | none => rfl
  | some hvw =>
    cases hvw with
    | list => rfl
    | refl => rfl

theorem Twin.put (h : v.Twin w) (name : String) {a b : Value} (hab : a.SameAs b) :
    (v.put name a).Twin (w.put name b) := by
  have hold := rel_of_essence (get?_of_essence h.globals name)
  unfold Variables.put
  dsimp only
  refine ⟨?_, h.defaults⟩
  dsimp only
  rw [SortedMap.map_insert, SortedMap.map_insert, h.globals]
  refine congrArg _ (Value.essence_eq_iff.mpr ?_)
  generalize v.globals.get? name = x at hold ⊢
  generalize w.globals.get? name = y at hold ⊢
  cases hold with
  | none => exact hab
  | some hold => exact hold.inheritOrigins hab

/-- Variables and call stack behind an assignment. -/
theorem Twin.assign (h : v.Twin w) (hs : s.Twin t u) (lists : ListDefinitions) (a : Assignment)
    {x y : Value} (hxy : x.SameAs y) :
    Agree (fun p q => p.1.Twin q.1 ∧ p.2.Twin t q.2) (v.assign lists s a x)
      (w.assign lists u a y) := by
  have hscoped : ∀ (name : String) (isDeclaration : Bool) (scope : Int) {x y : Value}, x.SameAs y →
      Agree (fun p q : Variables × CallStack => p.1.Twin q.1 ∧ p.2.Twin t q.2)
        ((s.setTemporary name x isDeclaration scope).map (v, ·))
        ((u.setTemporary name y isDeclaration scope).map (w, ·)) :=
    fun name isDeclaration scope _ _ hxy =>
      (hs.setTemporary name hxy isDeclaration scope).map fun _ _ hstack => ⟨h, hstack⟩
  have hdeclared : ∀ {x y : Value}, x.SameAs y →
      Agree (fun p q : Variables × CallStack => p.1.Twin q.1 ∧ p.2.Twin t q.2)
        (if a.isGlobal then .ok (v.put a.name x, s)
          else (s.setTemporary a.name x true unknownScope).map (v, ·))
        (if a.isGlobal then .ok (w.put a.name y, u)
          else (u.setTemporary a.name y true unknownScope).map (w, ·)) := by
    intro x y hxy
    split
    · exact .ok ⟨h.put _ hxy, hs⟩
    · exact hscoped _ _ _ hxy
  unfold Variables.assign
  split
  · cases hxy with
    | list hlist => exact hdeclared (.list hlist)
    | refl =>
      cases x with
      | reference name scope =>
        dsimp only
        rw [h.resolveReference_eq hs]
        exact hdeclared (.refl _)
      | _ => exact hdeclared (.refl _)
  · rw [h.target_eq hs]
    generalize w.target lists u a.name = place
    obtain ⟨name, scope⟩ := place
    dsimp only
    rw [h.declares_eq]
    generalize (if (name, scope) = (a.name, unknownScope) then w.declares name
      else decide (scope = globalScope)) = isGlobal
    cases isGlobal with
    | true => exact .ok ⟨h.put _ hxy, hs⟩
    | false => exact hscoped _ _ _ hxy

end Variables

/-! ## States -/

/-- The same offer, with threads of the same essence. -/
structure Choice.Twin (t : ContentTree) (c d : Choice) : Prop where
  offer : c.toOffer = d.toOffer
  thread : c.thread.essence t = d.thread.essence t

theorem Choice.Twin.offers_eq {t : ContentTree} {cs ds : List Choice}
    (h : Forall₂ (Choice.Twin t) cs ds) : cs.map Choice.toOffer = ds.map Choice.toOffer := by
  rw [← List.forall₂_eq_eq_eq, List.forall₂_map_left_iff, List.forall₂_map_right_iff]
  exact h.imp fun _ _ hchoice => hchoice.offer

/-- States that differ in nothing that decides how the story goes on. A deliberate end counts if
`running` says so. -/
structure State.Twin (t : ContentTree) (running : Bool) (s u : State) : Prop where
  callStack : s.callStack.Twin t u.callStack
  vars : s.vars.Twin u.vars
  evaluation : Forall₂ Token.SameAs s.evaluation u.evaluation
  output : s.output.essence = u.output.essence
  choices : Forall₂ (Choice.Twin t) s.choices u.choices
  diverted : s.diverted = u.diverted
  visits : s.visits = u.visits
  turns : s.turns = u.turns
  turn : s.turn = u.turn
  seed : s.seed = u.seed
  drawn : s.drawn = u.drawn
  errors : s.errors = u.errors
  safeExit : running = true → s.safeExit = u.safeExit

namespace State

variable {running : Bool} {s u : State}

theorem Twin.cursor_eq (h : s.Twin t running u) : s.cursor = u.cursor :=
  h.callStack.cursor

theorem Twin.inExpression_eq (h : s.Twin t running u) : s.inExpression = u.inExpression :=
  (congrArg (fun e : CallStack => e.top.inExpression) h.callStack :)

theorem Twin.hasError_eq (h : s.Twin t running u) : s.hasError = u.hasError := by
  unfold State.hasError
  rw [h.errors]

theorem Twin.canContinue_eq (h : s.Twin t running u) : s.canContinue = u.canContinue := by
  unfold State.canContinue
  rw [h.cursor_eq, h.hasError_eq]

theorem Twin.inString_eq (h : s.Twin t running u) : s.output.inString = u.output.inString := by
  rw [← s.output.inString_essence, ← u.output.inString_essence, h.output]

theorem Twin.length_output_eq (h : s.Twin t running u) : s.output.length = u.output.length := by
  rw [← s.output.length_essence, ← u.output.length_essence, h.output]

theorem Twin.text_eq (h : s.Twin t running u) : s.output.text = u.output.text := by
  rw [← s.output.text_essence, ← u.output.text_essence, h.output]

theorem Twin.tags_eq (h : s.Twin t running u) : s.output.tags = u.output.tags := by
  rw [← s.output.tags_essence, ← u.output.tags_essence, h.output]

theorem Twin.openBefore_eq (h : s.Twin t running u) : s.openBefore t = u.openBefore t := by
  rw [State.openBefore_eq, State.openBefore_eq, ← t.openAt_stand, ← t.openAt_stand u.previous]
  exact congrArg t.openAt h.callStack.previous

theorem Twin.withOutput (h : s.Twin t running u) {o p : Output} (hop : o.essence = p.essence) :
    State.Twin t running { s with output := o } { u with output := p } :=
  { h with output := hop }

theorem Twin.push (h : s.Twin t running u) {a b : Token} (hab : a.SameAs b) :
    (s.push a).Twin t running (u.push b) :=
  { h with evaluation := .cons hab h.evaluation }

theorem Twin.modifyTop (h : s.Twin t running u) {f : Frame → Frame}
    (hf : (f s.callStack.top).essence = (f u.callStack.top).essence) :
    State.Twin t running { s with callStack := s.callStack.modifyTop f }
      { u with callStack := u.callStack.modifyTop f } :=
  { h with callStack := h.callStack.modifyTop hf }

theorem Twin.setCursor (h : s.Twin t running u) (c : Option Cursor) :
    (s.setCursor c).Twin t running (u.setCursor c) :=
  h.modifyTop (f := fun f => { f with cursor := c })
    (congrArg (fun f : Frame => { f with cursor := c }) h.callStack.top :)

theorem Twin.setInExpression (h : s.Twin t running u) (value : Bool) :
    (s.setInExpression value).Twin t running (u.setInExpression value) :=
  h.modifyTop (f := fun f => { f with inExpression := value })
    (congrArg (fun f : Frame => { f with inExpression := value }) h.callStack.top :)

theorem Twin.setPrevious (h : s.Twin t running u) (c : Option Cursor) :
    (s.setPrevious c).Twin t running (u.setPrevious c) :=
  { h with callStack := h.callStack.setPrevious c }

theorem Twin.enter (h : s.Twin t running u) (id : NodeId) (atStart : Bool) :
    (s.enter t id atStart).Twin t running (u.enter t id atStart) := by
  unfold State.enter
  split
  · exact h
  · split
    · exact h
    · dsimp only
      rw [h.visits, h.turns, h.turn]
      exact { h with visits := rfl, turns := rfl, turn := rfl }

theorem Twin.enterAncestors (opened : List NodeId) (h : s.Twin t running u) (child : NodeId)
    (atStart : Bool) (ids : List NodeId) :
    (State.enterAncestors t opened s child atStart ids).Twin t running
      (State.enterAncestors t opened u child atStart ids) := by
  induction ids generalizing s u child atStart with
  | nil => exact h
  | cons id rest ih =>
    rw [State.enterAncestors, State.enterAncestors]
    split
    · exact h
    · dsimp only
      split
      · exact h
      · exact ih (h.enter id _) _ _

theorem Twin.enterByJump (h : s.Twin t running u) :
    (s.enterByJump t).Twin t running (u.enterByJump t) := by
  unfold State.enterByJump
  rw [h.cursor_eq, h.openBefore_eq]
  split
  · exact h
  · split
    · exact h
    · split
      · exact h
      · exact h.enterAncestors _ _ _ _

/-- Warnings do not count. -/
theorem Twin.withWarnings (h : s.Twin t running u) (warnings warnings' : List String) :
    State.Twin t running { s with warnings := warnings } { u with warnings := warnings' } :=
  { h with }

theorem Twin.warnAll (h : s.Twin t running u) (messages messages' : List String) :
    (s.warnAll t messages).Twin t running (u.warnAll t messages') := by
  obtain ⟨warnings, hs⟩ := s.exists_warnAll_eq t messages
  obtain ⟨warnings', hu⟩ := u.exists_warnAll_eq t messages'
  rw [hs, hu]
  exact h.withWarnings _ _

theorem Twin.forceEnd (h : s.Twin t running u) : s.forceEnd.Twin t running u.forceEnd :=
  { h with
    callStack := (h.callStack.reset.modifyTop
      (f := fun f => { f with cursor := none }) (g := fun f => { f with cursor := none })
      rfl).setPrevious none
    choices := .nil
    safeExit := fun _ => rfl }

theorem Twin.fail (h : s.Twin t running u) (e : StoryError) :
    (s.fail t e).Twin t running (u.fail t e) := by
  have hlocated : s.located t "ERROR" e.detail = u.located t "ERROR" e.detail := by
    unfold State.located
    rw [h.cursor_eq]
  refine Twin.forceEnd { h with errors := ?_ }
  show s.errors ++ [_] = u.errors ++ [_]
  rw [h.errors, hlocated]

theorem Twin.leaveHostCall (h : s.Twin t running u) :
    s.leaveHostCall.Twin t running u.leaveHostCall := by
  unfold State.leaveHostCall
  rw [h.callStack.inHostCall_eq]
  split
  · exact { h.setCursor none with safeExit := fun _ => rfl }
  · exact h

theorem Twin.offer (h : s.Twin t running u) (o : Offer) :
    (s.offer o).Twin t running (u.offer o) := by
  obtain ⟨hthread, hstack⟩ := h.callStack.fork
  have hindex : s.callStack.fork.1.index = u.callStack.fork.1.index :=
    congrArg (· + 1) h.callStack.made
  refine { h with
    callStack := hstack
    choices := List.rel_append h.choices (.cons ⟨?_, hthread⟩ .nil) }
  exact congrArg (fun n => { o with threadNumber := n }) hindex

theorem Twin.resume (h : s.Twin t running u) {a b : Thread} (hab : a.essence t = b.essence t) :
    State.Twin t running { s with callStack := s.callStack.resume a }
      { u with callStack := u.callStack.resume b } :=
  { h with callStack := h.callStack.resume hab }

theorem Twin.resumeCopy (h : s.Twin t running u) : s.resumeCopy.Twin t running u.resumeCopy :=
  { h with callStack := h.callStack.fork.2.resume h.callStack.fork.1 }

/-- A jump leads to the same place, or fails, in both states. -/
theorem Twin.jump (h : s.Twin t running u) (p : Path) (countTurn : Bool) :
    (s.jump t p countTurn).1.Twin t running (u.jump t p countTurn).1 ∧
      (s.jump t p countTurn).2 = (u.jump t p countTurn).2 := by
  have hclear : State.Twin t running { s with choices := [] } { u with choices := [] } :=
    { h with choices := .nil }
  unfold State.jump
  dsimp only
  split
  · exact ⟨hclear, rfl⟩
  · next place warning _ =>
    have hmove := (hclear.warnAll warning.toList warning.toList).setCursor
      (place.map fun c => if c.index = -1 then { c with index := 0 } else c)
    refine ⟨?_, rfl⟩
    split
    · exact { hmove with turn := congrArg (· + 1) hmove.turn }
    · exact hmove

theorem Twin.advance (h : s.Twin t running u) :
    (s.advance t).1 = (u.advance t).1 ∧ (s.advance t).2.Twin t running (u.advance t).2 := by
  unfold State.advance
  dsimp only
  rw [h.cursor_eq]
  exact ⟨rfl, h.setCursor _⟩

/-! ### Putting out -/

theorem Twin.functionStart_eq (h : s.Twin t running u) : s.functionStart = u.functionStart := by
  unfold functionStart
  rw [← h.callStack.kind]
  split
  · next hkind => exact Frame.mark_eq h.callStack.top hkind
  · rfl

/-- Frames of functions lose their marks together. -/
theorem Twin.markText (h : s.Twin t running u) : s.markText.Twin t running u.markText := by
  let clear := fun f : Frame => { f with outputStart := none }
  let isFunction := fun f : Frame => decide (f.kind = .function)
  have hmark : ∀ thread : Thread,
      ((thread.below.takeWhile isFunction).map clear ++
          thread.below.dropWhile isFunction).map Frame.essence =
        ((thread.essence t).below.takeWhile isFunction).map clear ++
          (thread.essence t).below.dropWhile isFunction := by
    intro thread
    have hkind : isFunction ∘ Frame.essence = isFunction := rfl
    have hclear : Frame.essence ∘ clear = clear ∘ Frame.essence := funext Frame.essence_clear
    show _ = ((thread.below.map Frame.essence).takeWhile isFunction).map clear ++
      (thread.below.map Frame.essence).dropWhile isFunction
    rw [List.takeWhile_map, List.dropWhile_map, hkind, List.map_append, List.map_map, List.map_map,
      hclear]
  have hkind : isFunction s.callStack.current.top = isFunction u.callStack.current.top := by
    show decide (s.callStack.top.kind = _) = decide (u.callStack.top.kind = _)
    rw [h.callStack.kind]
  unfold State.markText
  dsimp only
  by_cases hfunction : isFunction u.callStack.current.top = true
  · rw [if_pos (hkind.trans hfunction), if_pos hfunction]
    refine { h with callStack := .of_parts (Thread.essence_congr ?_ ?_ h.callStack.previous
      h.callStack.index) h.callStack.others h.callStack.made }
    · dsimp only
      rw [Frame.essence_clear, Frame.essence_clear]
      exact (congrArg clear h.callStack.top :)
    · exact (hmark _).trans (h.callStack.current ▸ (hmark _).symm)
  · rw [if_neg (fun hs => hfunction (hkind.symm.trans hs)), if_neg hfunction]
    exact h

theorem Twin.emitText (h : s.Twin t running u) (text : String) :
    (s.emitText text).Twin t running (u.emitText text) := by
  have hput : ((s.output.pushText s.functionStart text).1.essence,
      (s.output.pushText s.functionStart text).2) =
      ((u.output.pushText u.functionStart text).1.essence,
        (u.output.pushText u.functionStart text).2) := by
    rw [Output.pushText_essence, Output.pushText_essence, h.output, h.functionStart_eq]
  obtain ⟨houtput, hended⟩ := Prod.mk.inj hput
  have hstate : State.Twin t running
      { s with output := (s.output.pushText s.functionStart text).1 }
      { u with output := (u.output.pushText u.functionStart text).1 } := { h with output := houtput }
  unfold State.emitText
  dsimp only
  rw [hended]
  split
  · exact hstate.markText
  · exact hstate

theorem Twin.emit (h : s.Twin t running u) {a b : Token} (hab : a.SameAs b) :
    (s.emit a).Twin t running (u.emit b) := by
  have hadd : State.Twin t running { s with output := s.output.add a }
      { u with output := u.output.add b } := by
    refine { h with output := ?_ }
    dsimp only
    rw [Output.add_essence, Output.add_essence, h.output, Token.essence_eq_iff.mpr hab]
  have hparts : ∀ (parts : List String) {s u : State}, s.Twin t running u →
      (parts.foldl State.emitText s).Twin t running (parts.foldl State.emitText u) := by
    intro parts
    induction parts with
    | nil => exact fun h => h
    | cons part rest ih => exact fun h => ih (h.emitText part)
  cases hab with
  | list => exact hadd
  | refl =>
    unfold State.emit
    split
    · split
      · exact hparts _ h
      · exact h.emitText _
    · refine { h with output := ?_ }
      dsimp only
      rw [Output.pushGlue_essence, Output.pushGlue_essence, h.output]
    · exact hadd

/-- The text of a function is trimmed when it returns. -/
theorem Twin.popFrame (h : s.Twin t running u) :
    Agree (Twin t running) s.popFrame u.popFrame := by
  unfold State.popFrame
  refine h.callStack.pop.bind fun a b hab => .ok { h with callStack := hab, output := ?_ }
  dsimp only
  rw [← h.callStack.kind]
  split
  · next hkind =>
    rw [Output.trimFrom_essence, Output.trimFrom_essence, h.output,
      Frame.mark_eq h.callStack.top hkind]
  · exact h.output

end State

end StoryMachine
