import StoryMachine.Proofs.Content.Addresses
import StoryMachine.Proofs.Content.Instructions
import StoryMachine.Proofs.Story.Jumps
import StoryMachine.Proofs.Story.References

/-!
# Sound states

Wherever a state names a place, it is at a container, and its index is a whole number of 32 bits:
the places of frames, the places executed before, and the place that a divert leads to. And its
values, in variables and on the evaluation stack, are of some kind `V`, provided that the content
carries values of this kind alone: its literals, what operators give, and references to variables of
a known scope.

* `Cursor.IsPlace` : places, and where they come from;
* `Content.Carries` : content with values of a kind;
* `State.Sound` : sound states, and what keeps them so.
-/

namespace StoryMachine

/-- The place is at a container. Where indices are whole numbers of 32 bits, its index is one. -/
structure Cursor.IsPlace (c : Cursor) (t : ContentTree) : Prop where
  container : t.isContainer c.container = true
  index (h : t.root.Indexed) : wrap32 c.index = c.index

/-! ## Places -/

namespace ContentTree

variable {t : ContentTree} {id : NodeId} {c : Cursor} {p : Path}

theorem isPlace_start (h : t.isContainer id = true) : (Cursor.start id).IsPlace t :=
  ⟨h, fun _ => rfl⟩

theorem isContainer_of_container? {f : Found} (h : f.container? t = some id) :
    t.isContainer id = true := by
  unfold Found.container? at h
  split at h
  · next hcontainer =>
    cases h
    exact hcontainer
  · cases h

theorem isPlace_of_map {f : Found} {n : Int} (hwrap : wrap32 n = n)
    (h : ((f.container? t).map fun id => (⟨id, n⟩ : Cursor)) = some c) : c.IsPlace t := by
  obtain ⟨id, hid, rfl⟩ := Option.map_eq_some_iff.mp h
  exact ⟨isContainer_of_container? hid, fun _ => hwrap⟩

theorem isPlace_of_cursorAt {warning : Option String} (h : t.cursorAt p = .ok (some c, warning)) :
    c.IsPlace t := by
  unfold cursorAt at h
  split at h
  · cases h
  · next last _ =>
    cases last with
    | index i =>
      dsimp only at h
      split at h
      · cases h
      · exact isPlace_of_map (wrap32_wrap32 i) (congrArg Prod.fst (Except.ok.inj h))
    | name n =>
      dsimp only at h
      split at h
      · cases h
      · exact isPlace_of_map rfl (congrArg Prod.fst (Except.ok.inj h))

theorem isPlace_of_divertCursor? (h : t.divertCursor? id p = some c) : c.IsPlace t := by
  unfold divertCursor? at h
  split at h
  · cases h
  · exact isPlace_of_map (wrap32_wrap32 _) h
  · exact isPlace_of_map rfl h

theorem isContainer_of_knot? {name : String} (h : t.knot? name = some id) :
    t.isContainer id = true := by
  obtain ⟨root, -, h⟩ := Option.bind_eq_some_iff.mp h
  obtain ⟨knot, -, h⟩ := Option.bind_eq_some_iff.mp h
  split at h
  · next hcontainer =>
    cases h
    exact hcontainer
  · cases h

theorem length_places (start : NodeId) (bs : List Block) :
    (Block.places start bs).length = bs.length := by
  induction bs generalizing start with
  | nil => rfl
  | cons b rest ih => rw [Block.places, List.length_cons, List.length_cons, ih]

/-- An element of a container is at a place. -/
theorem isPlace_of_lt_length {i : Nat} (h : i < (t.content id).length) :
    (⟨id, i⟩ : Cursor).IsPlace t := by
  cases hk : t.container? id with
  | none =>
    rw [content, hk] at h
    cases h
  | some k =>
    refine ⟨by rw [isContainer, hk]; rfl, fun hindexed => ?_⟩
    obtain ⟨parent, path, name, flags, content, named, hstands⟩ := exists_stands_of_container hk
    rw [hstands.content_eq, length_places] at h
    exact wrap32_of_lt (h.trans_le (hstands.of_everywhere hindexed))

theorem isPlace_of_nextCursor? {k : Cursor} (h : State.nextCursor? t k = some c) : c.IsPlace t := by
  fun_induction State.nextCursor? t k with
  | case1 k next hnext =>
    cases h
    have hplace : (⟨k.container, (next.toNat : Int)⟩ : Cursor).IsPlace t :=
      isPlace_of_lt_length (by omega)
    rwa [Int.toNat_of_nonneg hnext.1] at hplace
  | case4 _ _ _ _ _ _ _ _ ih => exact ih h
  | _ => cases h

end ContentTree

/-! ## Content and its values -/

/-- The values of the content are of the kind `V`, and so is what operators give, and references to
variables of a known scope. -/
structure Content.Carries (c : Content) (V : Value → Prop) : Prop where
  root : c.tree.isContainer ContentTree.rootId = true
  passable (v : Value) (h : v.Passable) : V v
  known (name : String) {scope : Int} (h : 0 ≤ scope) : V (.reference name scope)
  literal {id : NodeId} {v : Value} (h : c.tree.leaf? id = some (.value v))
    (hknown : ∀ name, v ≠ .reference name unknownScope) : V v

namespace Operator

variable {o : Operator} {defs : ListDefinitions} {operands : List Value} {v w result : Value}

theorem passable_onInt {x : Int32} (h : o.onInt x = .ok result) : result.Passable := by
  unfold onInt at h
  split at h <;> cases h <;> trivial

theorem passable_onInts {x y : Int32} (h : o.onInts x y = .ok result) : result.Passable := by
  have hdivided {z : Int32} (h : o.divided x y z = .ok result) : result.Passable := by
    unfold divided at h
    split at h
    · cases h
    · cases h
      trivial
  unfold onInts at h
  split at h
  case h_4 => exact hdivided h
  case h_5 => exact hdivided h
  all_goals cases h <;> trivial

theorem passable_onFloat {x : Float32} (h : o.onFloat x = .ok result) : result.Passable := by
  unfold onFloat at h
  split at h <;> cases h <;> trivial

theorem passable_onFloats {x y : Float32} (h : o.onFloats x y = .ok result) : result.Passable := by
  unfold onFloats at h
  split at h <;> cases h <;> trivial

theorem passable_onTexts {x y : String} (h : o.onTexts x y = .ok result) : result.Passable := by
  unfold onTexts at h
  split at h <;> cases h <;> trivial

theorem passable_onTargets {p q : Path} (h : o.onTargets p q = .ok result) : result.Passable := by
  unfold onTargets at h
  split at h <;> cases h <;> trivial

theorem passable_onList {l : ListValue} (h : o.onList defs l = .ok result) : result.Passable := by
  unfold onList at h
  split at h <;> cases h <;> trivial

theorem passable_onLists {a b : ListValue} (h : o.onLists a b = .ok result) : result.Passable := by
  unfold onLists at h
  split at h <;> cases h <;> trivial

theorem passable_apply1 (h : o.apply1 defs v = .ok result) : result.Passable := by
  obtain ⟨w, -, h⟩ := Except.bind_eq_ok.mp h
  split at h
  · exact passable_onInt h
  · exact passable_onFloat h
  · exact passable_onList h
  · cases h

theorem passable_applyPlain (h : o.applyPlain v w = .ok result) : result.Passable := by
  obtain ⟨a, -, h⟩ := Except.bind_eq_ok.mp h
  obtain ⟨b, -, h⟩ := Except.bind_eq_ok.mp h
  split at h
  · exact passable_onInts h
  · exact passable_onFloats h
  · exact passable_onTexts h
  · exact passable_onTargets h
  · cases h

theorem passable_applyMixed (h : o.applyMixed defs v w = .ok result) : result.Passable := by
  unfold applyMixed at h
  split at h
  · cases h
    trivial
  · cases h
    trivial
  · dsimp only at h
    split at h
    · obtain ⟨x, -, h⟩ := Except.bind_eq_ok.mp h
      obtain ⟨y, -, h⟩ := Except.bind_eq_ok.mp h
      cases h
      trivial
    · obtain ⟨a, -, h⟩ := Except.bind_eq_ok.mp h
      obtain ⟨b, -, h⟩ := Except.bind_eq_ok.mp h
      exact passable_onLists h

/-- Operators give neither targets nor references. -/
theorem passable_apply (h : o.apply defs operands = .ok result) : result.Passable := by
  unfold apply at h
  split at h
  · cases h
  · split at h
    · exact passable_apply1 h
    · unfold apply2 at h
      split at h
      · exact passable_applyMixed h
      · exact passable_applyPlain h
    · cases h

end Operator

/-! ## Sound states -/

/-- The frame is at a place, or nowhere, and its variables have values of a kind. -/
structure Frame.Sound (t : ContentTree) (V : Value → Prop) (f : Frame) : Prop where
  cursor : ∀ c ∈ f.cursor, c.IsPlace t
  temporaries : ∀ e ∈ f.temporaries.entries, V e.2

/-- The frames are sound, and what was executed before was at a place. -/
structure Thread.Sound (t : ContentTree) (V : Value → Prop) (thread : Thread) : Prop where
  top : thread.top.Sound t V
  below : ∀ f ∈ thread.below, f.Sound t V
  previous : ∀ c ∈ thread.previous, c.IsPlace t

/-- The threads are sound. -/
structure CallStack.Sound (t : ContentTree) (V : Value → Prop) (s : CallStack) : Prop where
  current : s.current.Sound t V
  others : ∀ thread ∈ s.others, thread.Sound t V

/-- The values of the variables, and their defaults, are of a kind. -/
structure Variables.Sound (V : Value → Prop) (v : Variables) : Prop where
  globals : ∀ e ∈ v.globals.entries, V e.2
  defaults : ∀ e ∈ v.defaults.entries, V e.2

/-- A value that the token holds is of a kind. -/
def Token.Sound (V : Value → Prop) (token : Token) : Prop :=
  ∀ v, token = .value v → V v

/-- All places of the state are at containers, and all its values are of a kind. -/
structure State.Sound (t : ContentTree) (V : Value → Prop) (s : State) : Prop where
  callStack : s.callStack.Sound t V
  vars : s.vars.Sound V
  evaluation : ∀ token ∈ s.evaluation, token.Sound V
  choices : ∀ o ∈ s.choices, o.thread.Sound t V
  diverted : ∀ c ∈ s.diverted, c.IsPlace t

theorem Entries.of_mem_insert {α : Type} {P : α → Prop} {es : List (String × α)} {name : String}
    {value : α} (h : ∀ e ∈ es, P e.2) (hvalue : P value) :
    ∀ e ∈ Entries.insert name value es, P e.2 := by
  induction es with
  | nil =>
    intro e he
    rw [List.mem_singleton.mp he]
    exact hvalue
  | cons d rest ih =>
    obtain ⟨hd, hrest⟩ := List.forall_mem_cons.mp h
    rw [Entries.insert]
    split
    · exact List.forall_mem_cons.mpr ⟨hvalue, h⟩
    · exact List.forall_mem_cons.mpr ⟨hvalue, hrest⟩
    · exact List.forall_mem_cons.mpr ⟨hd, ih hrest⟩

theorem Token.sound_of_not_value {V : Value → Prop} {token : Token} (h : token.value? = none) :
    token.Sound V := by
  rintro v rfl
  cases h

theorem Token.sound_value {V : Value → Prop} {v : Value} (h : V v) : (Token.value v).Sound V := by
  intro w hw
  cases hw
  exact h

section

variable {c : Content} {V : Value → Prop} {t : ContentTree}

theorem Content.Carries.inheritOrigins (hV : c.Carries V) {old new : Value} (h : V new) :
    V (old.inheritOrigins new) := by
  unfold Value.inheritOrigins
  split
  · split
    · exact hV.passable _ trivial
    · exact h
  · exact h

/-! ### Call stacks -/

theorem Frame.sound_new {kind : FrameKind} {cursor : Option Cursor}
    (h : ∀ c ∈ cursor, c.IsPlace t) : (Frame.new kind cursor).Sound t V :=
  ⟨h, nofun⟩

theorem Thread.Sound.of_mem_frames {thread : Thread} {f : Frame} (h : thread.Sound t V)
    (hf : f ∈ thread.frames) : f.Sound t V := by
  rcases List.mem_cons.mp (List.mem_reverse.mp hf) with rfl | hf
  · exact h.top
  · exact h.below f hf

theorem Thread.Sound.modifyFrame {thread : Thread} (h : thread.Sound t V) (i : Nat) {g : Frame → Frame}
    (hg : ∀ f : Frame, f.Sound t V → (g f).Sound t V) : (thread.modifyFrame i g).Sound t V := by
  unfold Thread.modifyFrame
  split
  · exact ⟨hg _ h.top, h.below, h.previous⟩
  · split
    · refine ⟨h.top, fun f hf => ?_, h.previous⟩
      obtain ⟨j, hj⟩ := List.mem_iff_getElem?.mp hf
      rw [List.getElem?_modify] at hj
      obtain ⟨f', hf', rfl⟩ := Option.map_eq_some_iff.mp hj
      split
      · exact hg _ (h.below _ (List.mem_of_getElem? hf'))
      · exact h.below _ (List.mem_of_getElem? hf')
    · exact h

namespace CallStack

variable {s u : CallStack}

theorem Sound.modifyTop (h : s.Sound t V) {g : Frame → Frame} (hg : (g s.top).Sound t V) :
    (s.modifyTop g).Sound t V :=
  ⟨⟨hg, h.current.below, h.current.previous⟩, h.others⟩

theorem sound_startThread (hroot : t.isContainer ContentTree.rootId = true) :
    startThread.Sound t V :=
  ⟨Frame.sound_new fun _ hc => Option.mem_some.mp hc ▸ ContentTree.isPlace_start hroot, nofun, nofun⟩

theorem sound_start (hroot : t.isContainer ContentTree.rootId = true) : start.Sound t V :=
  ⟨sound_startThread hroot, nofun⟩

theorem Sound.popThread (h : s.Sound t V) (hpop : s.popThread = .ok u) : u.Sound t V := by
  unfold CallStack.popThread at hpop
  split at hpop
  · next next rest hothers =>
    split at hpop
    · cases hpop
    · cases hpop
      obtain ⟨hnext, hrest⟩ := List.forall_mem_cons.mp (hothers ▸ h.others)
      exact ⟨hnext, hrest⟩
  · cases hpop

theorem Sound.fork (h : s.Sound t V) : s.fork.1.Sound t V ∧ s.fork.2.Sound t V :=
  ⟨⟨h.current.top, h.current.below, h.current.previous⟩, h.current, h.others⟩

theorem Sound.pushThread (h : s.Sound t V) : s.pushThread.Sound t V :=
  ⟨h.fork.1, List.forall_mem_cons.mpr ⟨h.current, h.others⟩⟩

theorem sound_resume {thread : Thread} (h : thread.Sound t V) (s : CallStack) :
    (s.resume thread).Sound t V :=
  ⟨h, nofun⟩

theorem Sound.pop (h : s.Sound t V) (hpop : s.pop = .ok u) : u.Sound t V := by
  unfold CallStack.pop at hpop
  split at hpop
  · next next rest hbelow =>
    cases hpop
    obtain ⟨hnext, hrest⟩ := List.forall_mem_cons.mp (hbelow ▸ h.current.below)
    exact ⟨⟨hnext, hrest, h.current.previous⟩, h.others⟩
  · cases hpop

theorem Sound.popKind (h : s.Sound t V) {kind : FrameKind} (hpop : s.popKind kind = .ok u) :
    u.Sound t V := by
  unfold CallStack.popKind at hpop
  split at hpop
  · exact h.pop hpop
  · cases hpop

theorem Sound.push (h : s.Sound t V) (kind : FrameKind) (height start : Nat) :
    (s.push kind height start).Sound t V :=
  ⟨⟨⟨h.current.top.cursor, nofun⟩, List.forall_mem_cons.mpr ⟨h.current.top, h.current.below⟩,
    h.current.previous⟩, h.others⟩

theorem Sound.temporary? (h : s.Sound t V) {name : String} {scope : Int} {value : Value}
    (hvalue : s.temporary? name scope = some value) : V value := by
  obtain ⟨f, hf, hget⟩ := Option.bind_eq_some_iff.mp hvalue
  have hmem := Variables.mem_frames_of_scopeFrame? hf
  exact (h.current.of_mem_frames hmem).temporaries _ (Entries.mem_of_get? hget)

theorem Sound.putTemporary (h : s.Sound t V) (scope : Int) (name : String) {value : Value}
    (hvalue : V value) : (s.putTemporary scope name value).Sound t V := by
  have hput (f : Frame) (hf : f.Sound t V) :
      Frame.Sound t V { f with temporaries := f.temporaries.insert name value } :=
    ⟨hf.cursor, Entries.of_mem_insert hf.temporaries hvalue⟩
  unfold CallStack.putTemporary modifyScopeFrame
  split
  · exact h.modifyTop (hput _ h.current.top)
  · split
    · exact ⟨h.current.modifyFrame _ hput, h.others⟩
    · exact h

theorem Sound.setTemporary (hV : c.Carries V) (h : s.Sound t V) {name : String} {value : Value}
    {isDeclaration : Bool} {scope : Int} (hvalue : V value)
    (hset : s.setTemporary name value isDeclaration scope = .ok u) : u.Sound t V := by
  unfold CallStack.setTemporary at hset
  split at hset
  · cases hset
  · split at hset
    · cases hset
      exact h.putTemporary scope name (hV.inheritOrigins hvalue)
    · split at hset
      · cases hset
        exact h.putTemporary scope name hvalue
      · cases hset

end CallStack

/-! ### Variables -/

namespace Variables

variable {v v' : Variables} {lists : ListDefinitions} {s s' : CallStack} {name : String} {value : Value}

theorem Sound.get? (h : v.Sound V) (hget : v.get? name = some value) : V value := by
  rcases Option.or_eq_some_iff.mp hget with hget | ⟨-, hget⟩
  · exact h.globals _ (Entries.mem_of_get? hget)
  · exact h.defaults _ (Entries.mem_of_get? hget)

theorem Sound.raw? (hV : c.Carries V) (h : v.Sound V) (hs : s.Sound t V) {scope : Int}
    (hraw : v.raw? lists s name scope = some value) : V value := by
  rw [raw?_eq] at hraw
  rcases Option.or_eq_some_iff.mp hraw with hshadow | ⟨-, htemporary⟩
  · unfold shadow? at hshadow
    split at hshadow
    · rcases Option.or_eq_some_iff.mp hshadow with hget | ⟨-, hlist⟩
      · exact h.get? hget
      · obtain ⟨l, -, rfl⟩ := Option.map_eq_some_iff.mp hlist
        exact hV.passable _ trivial
    · cases hshadow
  · exact hs.temporary? htemporary

theorem Sound.read? (hV : c.Carries V) (h : v.Sound V) (hs : s.Sound t V)
    (hread : v.read? lists s name = some value) : V value :=
  h.raw? hV hs hread

theorem Sound.put (hV : c.Carries V) (h : v.Sound V) (name : String) (hvalue : V value) :
    (v.put name value).Sound V := by
  refine ⟨Entries.of_mem_insert h.globals ?_, h.defaults⟩
  split
  · exact hV.inheritOrigins hvalue
  · exact hvalue

theorem Sound.resolveReference (hV : c.Carries V) (h : v.Sound V) (hs : s.Sound t V) {scope : Int}
    (hvalue : V (.reference name scope)) : V (v.resolveReference lists s name scope) := by
  have hknown : V (.reference name (if scope = unknownScope then
      if v.declares name then globalScope else (s.depth : Int) - 1 else scope)) := by
    split
    · refine hV.known name ?_
      split
      · exact Int.le_refl 0
      · show 0 ≤ ((s.current.below.length + 1 : Nat) : Int) - 1
        omega
    · exact hvalue
  unfold Variables.resolveReference
  dsimp only
  split
  · next hraw => exact h.raw? hV hs hraw
  · exact hknown

/-- The value that a declaration stores. -/
def resolved (v : Variables) (lists : ListDefinitions) (s : CallStack) : Value → Value
  | .reference name scope => v.resolveReference lists s name scope
  | value => value

theorem assign_of_declaration {a : Assignment} (h : a.isDeclaration = true) :
    v.assign lists s a value =
      if a.isGlobal then .ok (v.put a.name (v.resolved lists s value), s)
      else (s.setTemporary a.name (v.resolved lists s value) true unknownScope).map (v, ·) := by
  unfold assign
  rw [if_pos h]
  rfl

theorem Sound.resolved (hV : c.Carries V) (h : v.Sound V) (hs : s.Sound t V) (hvalue : V value) :
    V (v.resolved lists s value) := by
  unfold Variables.resolved
  split
  · exact h.resolveReference hV hs hvalue
  · exact hvalue

theorem Sound.of_map {x : Except StoryError CallStack} (h : v.Sound V)
    (hx : ∀ u : CallStack, x = .ok u → u.Sound t V) (hok : x.map (v, ·) = .ok (v', s')) :
    v'.Sound V ∧ s'.Sound t V := by
  cases x with
  | error e => cases hok
  | ok u =>
    cases hok
    exact ⟨h, hx _ rfl⟩

theorem Sound.assign (hV : c.Carries V) (h : v.Sound V) (hs : s.Sound t V) {a : Assignment}
    (hvalue : V value) (hassign : v.assign lists s a value = .ok (v', s')) :
    v'.Sound V ∧ s'.Sound t V := by
  cases hdeclares : a.isDeclaration with
  | true =>
    rw [assign_of_declaration hdeclares] at hassign
    have hresolved : V (v.resolved lists s value) := h.resolved hV hs hvalue
    split at hassign
    · cases hassign
      exact ⟨h.put hV _ hresolved, hs⟩
    · exact h.of_map (fun u hu => hs.setTemporary hV hresolved hu) hassign
  | false =>
    rw [assign_of_not_declaration hdeclares] at hassign
    split at hassign
    · cases hassign
      exact ⟨h.put hV _ hvalue, hs⟩
    · exact h.of_map (fun u hu => hs.setTemporary hV hvalue hu) hassign

end Variables

/-! ### States -/

namespace State

variable {s u : State}

theorem sound_start (hroot : t.isContainer ContentTree.rootId = true) (seed : Int32) :
    (start seed).Sound t V :=
  ⟨CallStack.sound_start hroot, ⟨nofun, nofun⟩, nofun, nofun, nofun⟩

/-- Only these parts of a state matter. -/
theorem Sound.same (h : s.Sound t V)
    (hparts : (u.callStack, u.vars, u.evaluation, u.choices, u.diverted) =
      (s.callStack, s.vars, s.evaluation, s.choices, s.diverted)) : u.Sound t V := by
  obtain ⟨hstack, hvars, hevaluation, hchoices, hdiverted⟩ : u.callStack = s.callStack ∧
      u.vars = s.vars ∧ u.evaluation = s.evaluation ∧ u.choices = s.choices ∧
      u.diverted = s.diverted := by
    simpa only [Prod.mk.injEq] using hparts
  exact ⟨hstack ▸ h.callStack, hvars ▸ h.vars, hevaluation ▸ h.evaluation, hchoices ▸ h.choices,
    hdiverted ▸ h.diverted⟩

theorem Sound.ofCallStack (h : s.Sound t V) {stack : CallStack} (hstack : stack.Sound t V) :
    Sound t V { s with callStack := stack } :=
  ⟨hstack, h.vars, h.evaluation, h.choices, h.diverted⟩

theorem Sound.setCursor (h : s.Sound t V) {place : Option Cursor} (hplace : ∀ c ∈ place, c.IsPlace t) :
    (s.setCursor place).Sound t V :=
  h.ofCallStack (h.callStack.modifyTop (g := fun f => { f with cursor := place })
    ⟨hplace, h.callStack.current.top.temporaries⟩)

theorem Sound.cursor (h : s.Sound t V) : ∀ c ∈ s.cursor, c.IsPlace t :=
  h.callStack.current.top.cursor

theorem Sound.notePlace (h : s.Sound t V) : (s.setPrevious s.cursor).Sound t V :=
  h.ofCallStack ⟨⟨h.callStack.current.top, h.callStack.current.below, h.cursor⟩, h.callStack.others⟩

theorem Sound.setInExpression (h : s.Sound t V) (b : Bool) : (s.setInExpression b).Sound t V :=
  h.ofCallStack (h.callStack.modifyTop (g := fun f => { f with inExpression := b })
    ⟨h.cursor, h.callStack.current.top.temporaries⟩)

theorem Sound.forceEnd (h : s.Sound t V) : s.forceEnd.Sound t V :=
  ⟨⟨⟨⟨nofun, nofun⟩, nofun, nofun⟩, nofun⟩, h.vars, h.evaluation, nofun, h.diverted⟩

theorem Sound.warnAll (h : s.Sound t V) (messages : List String) :
    (s.warnAll t messages).Sound t V := by
  induction messages generalizing s with
  | nil => exact h
  | cons message rest ih =>
    have hwarn : (s.warn t message).Sound t V := h.same rfl
    exact ih hwarn

/-! The evaluation stack -/

theorem Sound.push (h : s.Sound t V) {token : Token} (htoken : token.Sound V) :
    (s.push token).Sound t V :=
  ⟨h.callStack, h.vars, List.forall_mem_cons.mpr ⟨htoken, h.evaluation⟩, h.choices, h.diverted⟩

theorem Sound.ofEvaluation (h : s.Sound t V) {es : List Token} (hes : ∀ token ∈ es, token.Sound V) :
    Sound t V { s with evaluation := es } :=
  ⟨h.callStack, h.vars, hes, h.choices, h.diverted⟩

theorem Sound.pop (h : s.Sound t V) {token : Token} (hpop : s.pop = .ok (token, u)) :
    u.Sound t V ∧ token.Sound V := by
  unfold State.pop at hpop
  split at hpop
  · next first rest hstack =>
    cases hpop
    obtain ⟨hfirst, hrest⟩ := List.forall_mem_cons.mp (hstack ▸ h.evaluation)
    exact ⟨h.ofEvaluation hrest, hfirst⟩
  · cases hpop

theorem Sound.popMany (h : s.Sound t V) {count : Nat} {tokens : List Token}
    (hpop : s.popMany count = .ok (tokens, u)) : u.Sound t V ∧ ∀ token ∈ tokens, token.Sound V := by
  unfold State.popMany at hpop
  dsimp only at hpop
  split at hpop
  · cases hpop
  · cases hpop
    exact ⟨h.ofEvaluation fun token htoken => h.evaluation token (List.mem_of_mem_drop htoken),
      fun token htoken => h.evaluation token (List.mem_of_mem_take (List.mem_reverse.mp htoken))⟩

theorem Sound.pushArguments (hV : c.Carries V) (h : s.Sound t V) (arguments : List Value) :
    (s.pushArguments arguments).1.Sound t V := by
  induction arguments generalizing s with
  | nil => exact h
  | cons v rest ih =>
    unfold State.pushArguments
    split
    · exact h
    · exact h
    · next htarget hreference =>
      refine ih (h.push (Token.sound_value (hV.passable v ?_)))
      cases v with
      | target p => exact absurd rfl (htarget p)
      | reference name scope => exact absurd rfl (hreference name scope)
      | _ => trivial

/-! Output -/

theorem Sound.markText (h : s.Sound t V) : s.markText.Sound t V := by
  have hclear (f : Frame) (hf : f.Sound t V) : Frame.Sound t V { f with outputStart := none } :=
    ⟨hf.cursor, hf.temporaries⟩
  unfold State.markText
  dsimp only
  split
  · refine h.ofCallStack ⟨⟨hclear _ h.callStack.current.top, fun f hf => ?_,
      h.callStack.current.previous⟩, h.callStack.others⟩
    rcases List.mem_append.mp hf with hf | hf
    · obtain ⟨g, hg, rfl⟩ := List.mem_map.mp hf
      exact hclear g (h.callStack.current.below g ((List.takeWhile_sublist _).mem hg))
    · exact h.callStack.current.below f ((List.dropWhile_sublist _).mem hf)
  · exact h

theorem Sound.emitText (h : s.Sound t V) (text : String) : (s.emitText text).Sound t V := by
  have hput (output : Output) : Sound t V { s with output } := h.same rfl
  unfold State.emitText
  dsimp only
  split
  · exact (hput _).markText
  · exact hput _

theorem Sound.emit (h : s.Sound t V) (token : Token) : (s.emit token).Sound t V := by
  have hparts (parts : List String) : (parts.foldl State.emitText s).Sound t V := by
    induction parts generalizing s with
    | nil => exact h
    | cons part rest ih => exact ih (h.emitText part)
  unfold State.emit
  split
  · split
    · exact hparts _
    · exact h.emitText _
  · exact h.same rfl
  · exact h.same rfl

/-! Choices, frames and places -/

theorem Sound.offer (h : s.Sound t V) (o : Offer) : (s.offer o).Sound t V := by
  refine ⟨h.callStack.fork.2, h.vars, h.evaluation, fun choice hchoice => ?_, h.diverted⟩
  rcases List.mem_append.mp hchoice with hchoice | hchoice
  · exact h.choices choice hchoice
  · rw [List.mem_singleton.mp hchoice]
    exact h.callStack.fork.1

theorem Sound.resumeCopy (h : s.Sound t V) : s.resumeCopy.Sound t V :=
  h.ofCallStack (CallStack.sound_resume h.callStack.fork.1 _)

theorem Sound.popFrame (h : s.Sound t V) (hpop : s.popFrame = .ok u) : u.Sound t V := by
  obtain ⟨callStack, hstack, hpop⟩ := Except.bind_eq_ok.mp hpop
  cases hpop
  exact (h.ofCallStack (h.callStack.pop hstack)).same rfl

theorem Sound.leaveHostCall (h : s.Sound t V) : s.leaveHostCall.Sound t V := by
  unfold State.leaveHostCall
  split
  · have hnowhere : (s.setCursor none).Sound t V := h.setCursor nofun
    exact hnowhere.same rfl
  · exact h

theorem Sound.jump (h : s.Sound t V) (p : Path) (countTurn : Bool) :
    (s.jump t p countTurn).1.Sound t V := by
  have hclear : Sound t V { s with choices := [] } :=
    ⟨h.callStack, h.vars, h.evaluation, nofun, h.diverted⟩
  unfold State.jump
  dsimp only
  split
  · exact hclear
  · next place warning hplace =>
    have harrived : ∀ c ∈ place.map fun c => if c.index = -1 then { c with index := 0 } else c,
        c.IsPlace t := by
      intro c hc
      obtain ⟨k, hk, rfl⟩ := Option.map_eq_some_iff.mp hc
      rw [hk] at hplace
      have hfound := ContentTree.isPlace_of_cursorAt hplace
      split
      · exact ⟨hfound.container, fun _ => rfl⟩
      · exact hfound
    have hmove := (hclear.warnAll warning.toList).setCursor harrived
    split
    · exact hmove.same rfl
    · exact hmove

theorem Sound.enter (h : s.Sound t V) (id : NodeId) (atStart : Bool) :
    (s.enter t id atStart).Sound t V := by
  unfold State.enter
  split
  · exact h
  · split
    · exact h
    · exact h.same rfl

theorem Sound.enterByJump (h : s.Sound t V) : (s.enterByJump t).Sound t V := by
  obtain ⟨visits, turns, hentered⟩ := s.exists_enterByJump_eq t
  rw [hentered]
  exact h.same rfl

theorem Sound.advance (h : s.Sound t V) : (s.advance t).2.Sound t V := by
  refine h.setCursor fun c hc => ?_
  obtain ⟨k, -, hnext⟩ := Option.bind_eq_some_iff.mp hc
  exact ContentTree.isPlace_of_nextCursor? hnext

theorem Sound.fail (h : s.Sound t V) (e : StoryError) : (s.fail t e).Sound t V :=
  h.forceEnd.same rfl

theorem Sound.checkEnd (h : s.Sound t V) : (s.checkEnd t).Sound t V := by
  have hlast (u : State) (hu : u.Sound t V) : (if u.choices.isEmpty && !u.safeExit && !u.hasError then
      u.fail t (.flow (.deadEnd (deadEnd u.callStack))) else u).Sound t V := by
    split
    · exact hu.fail _
    · exact hu
  unfold State.checkEnd
  split
  · exact h
  · dsimp only
    split
    · exact hlast _ (h.fail _)
    · exact hlast s h

end State

end

end StoryMachine
