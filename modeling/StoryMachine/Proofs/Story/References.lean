import Mathlib.Data.List.Nodup
import Mathlib.Data.List.Perm.Subperm
import StoryMachine.Proofs.Story.Assignments

/-!
# References and assignments

A variable may refer to another one, which may refer to a third one, and so on. References that
end pass no variable twice, and every variable that they pass is referred to by a value that is
stored, so the number of these bounds their length: reading and assigning follow references to
their end. An assignment that declares nothing changes the value of one slot, that of the variable
at the end, and no other. Reading then finds the value there, unless the last reference leaves the
scope open and there is a global variable or a list item of its name: the assignment looks in the
innermost frame, and reading looks there last.

* `Variables.Follows`, `Variables.target_of_follows` : references that end are followed to their end;
* `Slot`, `Variables.slot?` : where values are stored, and where an assignment goes to;
* `Variables.assign_slot`, `Variables.read?_of_assign` : what an assignment changes, and what
  reading finds then;
* `Flow.assignment_hits_one_variable` : the assignment of a story.
-/

namespace StoryMachine

/-- The value is no reference. -/
def Value.IsPlain (value : Value) : Prop :=
  ∀ name scope, value ≠ .reference name scope

theorem Value.IsPlain.inheritOrigins {value : Value} (h : value.IsPlain) (old : Value) :
    (old.inheritOrigins value).IsPlain := by
  intro name scope
  unfold Value.inheritOrigins
  split
  · split
    · nofun
    · exact h name scope
  · exact h name scope

namespace Variables

variable {v v' : Variables} {lists : ListDefinitions} {s s' : CallStack}
  {w x y last last' : String × Int} {path path' : List (String × Int)} {value : Value}

/-! ## References that end -/

/-- References lead from a variable, told by its name and a scope, along a path of others to the
last one, which holds no reference. -/
inductive Follows (v : Variables) (lists : ListDefinitions) (s : CallStack) :
    String × Int → List (String × Int) → String × Int → Prop
  | ends {x : String × Int}
    (h : ∀ y : String × Int, v.raw? lists s x.1 x.2 ≠ some (.reference y.1 y.2)) :
    Follows v lists s x [] x
  | step {x y last : String × Int} {path : List (String × Int)}
    (h : v.raw? lists s x.1 x.2 = some (.reference y.1 y.2)) (hrest : Follows v lists s y path last) :
    Follows v lists s x (y :: path) last

/-- The values that are stored where reading looks for them. -/
def stored (v : Variables) (s : CallStack) : List Value :=
  v.globals.entries.map Prod.snd ++ v.defaults.entries.map Prod.snd ++
    s.current.frames.flatMap fun f => f.temporaries.entries.map Prod.snd

/-- A variable leads to one other at most. -/
theorem eq_of_reference (hx : v.raw? lists s x.1 x.2 = some (.reference y.1 y.2))
    (hx' : v.raw? lists s x.1 x.2 = some (.reference w.1 w.2)) : y = w := by
  obtain ⟨hname, hscope⟩ := Value.reference.inj (Option.some.inj (hx.symm.trans hx'))
  exact Prod.ext hname hscope

namespace Follows

theorem unique (h : v.Follows lists s x path last) (h' : v.Follows lists s x path' last') :
    path = path' ∧ last = last' := by
  induction h generalizing path' with
  | ends h =>
    cases h' with
    | ends => exact ⟨rfl, rfl⟩
    | step hstep => exact absurd hstep (h _)
  | step hstep _ ih =>
    cases h' with
    | ends h => exact absurd hstep (h _)
    | step hstep' hrest' =>
      obtain rfl := eq_of_reference hstep hstep'
      obtain ⟨rfl, rfl⟩ := ih hrest'
      exact ⟨rfl, rfl⟩

/-- At the end there is no reference. -/
theorem raw?_last (h : v.Follows lists s x path last) (y : String × Int) :
    v.raw? lists s last.1 last.2 ≠ some (.reference y.1 y.2) := by
  induction h with
  | ends hends => exact hends y
  | step _ _ ih => exact ih

/-- From a variable on the path fewer references lead to the same end. -/
theorem of_mem (h : v.Follows lists s x path last) (hy : y ∈ path) :
    ∃ rest, v.Follows lists s y rest last ∧ rest.length < path.length := by
  induction h with
  | ends => cases hy
  | step _ hrest ih =>
    rcases List.mem_cons.mp hy with rfl | hy
    · exact ⟨_, hrest, Nat.lt_succ_self _⟩
    · obtain ⟨rest, hy, hlength⟩ := ih hy
      exact ⟨rest, hy, Nat.lt_succ_of_lt hlength⟩

theorem not_mem (h : v.Follows lists s x path last) : x ∉ path := by
  intro hx
  obtain ⟨rest, hrest, hlength⟩ := h.of_mem hx
  rw [(h.unique hrest).1] at hlength
  exact Nat.lt_irrefl _ hlength

/-- References that end pass no variable twice. -/
theorem nodup (h : v.Follows lists s x path last) : path.Nodup := by
  induction h with
  | ends => exact .nil
  | step _ hrest ih => exact List.nodup_cons.mpr ⟨hrest.not_mem, ih⟩

theorem last_mem (h : v.Follows lists s x path last) (hpath : path ≠ []) : last ∈ path := by
  induction h with
  | ends => exact absurd rfl hpath
  | @step x y last path _ hrest ih =>
    by_cases hnil : path = []
    · subst hnil
      cases hrest
      exact List.mem_cons_self
    · exact List.mem_cons_of_mem y (ih hnil)

/-- The references end at the variable itself, or somewhere else. -/
theorem last_eq_iff (h : v.Follows lists s x path last) : last = x ↔ path = [] := by
  constructor
  · rintro rfl
    by_contra hpath
    exact h.not_mem (h.last_mem hpath)
  · rintro rfl
    cases h
    rfl

end Follows

theorem mem_frames_of_scopeFrame? {scope : Int} {f : Frame} (h : s.scopeFrame? scope = some f) :
    f ∈ s.current.frames := by
  unfold CallStack.scopeFrame? at h
  split at h
  · cases h
    simp [Thread.frames, CallStack.top]
  · split at h
    · rw [Thread.frame?_eq_getElem?] at h
      exact List.mem_of_getElem? h
    · cases h

/-- A reference that is found is stored. -/
theorem mem_stored_of_raw? (h : v.raw? lists s x.1 x.2 = some (.reference y.1 y.2)) :
    .reference y.1 y.2 ∈ v.stored s := by
  have hvalue {t : Table Value} {name : String} {value : Value} (h : t.get? name = some value) :
      value ∈ t.entries.map Prod.snd :=
    List.mem_map_of_mem (Entries.mem_of_get? h)
  have htemporary (h : s.temporary? x.1 x.2 = some (.reference y.1 y.2)) :
      .reference y.1 y.2 ∈ v.stored s := by
    obtain ⟨f, hf, hget⟩ := Option.bind_eq_some_iff.mp h
    exact List.mem_append_right _ (List.mem_flatMap.mpr ⟨f, mem_frames_of_scopeFrame? hf, hvalue hget⟩)
  unfold raw? at h
  dsimp only at h
  split at h
  · rcases Option.or_eq_some_iff.mp h with h | ⟨-, h⟩
    · rcases Option.or_eq_some_iff.mp h with h | ⟨-, h⟩
      · refine List.mem_append_left _ (List.mem_append.mpr ?_)
        rcases Option.or_eq_some_iff.mp h with h | ⟨-, h⟩
        · exact .inl (hvalue h)
        · exact .inr (hvalue h)
      · obtain ⟨l, -, hl⟩ := Option.map_eq_some_iff.mp h
        cases hl
    · exact htemporary h
  · exact htemporary h

theorem chainBound_eq (v : Variables) (s : CallStack) :
    v.chainBound s = 2 * (v.stored s).length + 2 := by
  unfold chainBound stored
  rw [List.length_append, List.length_append, List.length_map, List.length_map, List.length_flatMap,
    List.sum_eq_foldr]
  simp only [List.length_map]
  rfl

/-- Every variable that references pass is referred to by another value that is stored. -/
theorem Follows.length_le (h : v.Follows lists s x path last) :
    path.length ≤ (v.stored s).length := by
  have hinjective : Function.Injective fun y : String × Int => Value.reference y.1 y.2 := by
    rintro ⟨a, i⟩ ⟨b, j⟩ hab
    cases hab
    rfl
  have hsubset : path.map (fun y => Value.reference y.1 y.2) ⊆ v.stored s := by
    intro value hvalue
    obtain ⟨y, hy, rfl⟩ := List.mem_map.mp hvalue
    clear hvalue
    induction h with
    | ends => cases hy
    | step hstep _ ih =>
      rcases List.mem_cons.mp hy with rfl | hy
      · exact mem_stored_of_raw? hstep
      · exact ih hy
  have hle := ((List.Nodup.map hinjective h.nodup).subperm hsubset).length_le
  rwa [List.length_map] at hle

theorem follow_of_follows (h : v.Follows lists s x path last) {bound : Nat}
    (hbound : path.length ≤ bound) : v.follow lists s bound x.1 x.2 = last := by
  induction h generalizing bound with
  | @ends x h =>
    cases bound with
    | zero => rfl
    | succ bound =>
      rw [follow]
      split
      · next name scope hraw => exact absurd hraw (h (name, scope))
      · rfl
  | step hstep _ ih =>
    cases bound with
    | zero => cases hbound
    | succ bound =>
      rw [follow, hstep]
      exact ih (Nat.le_of_succ_le_succ hbound)

/-- References that end are followed to their end. -/
theorem target_of_follows {name : String} (h : v.Follows lists s (name, unknownScope) path last) :
    v.target lists s name = last := by
  unfold target
  cases h with
  | ends h =>
    split
    · next name' scope hraw => exact absurd hraw (h (name', scope))
    · rfl
  | step hstep hrest =>
    have hlength := hrest.length_le
    rw [hstep]
    refine follow_of_follows hrest ?_
    rw [chainBound_eq]
    omega

theorem read?_of_follows {name : String} (h : v.Follows lists s (name, unknownScope) path last) :
    v.read? lists s name = v.raw? lists s last.1 last.2 := by
  unfold read?
  rw [target_of_follows h]

end Variables

/-! ## Where values are stored -/

/-- A place where a value is stored: that of a global variable, or that of a temporary variable in
a frame of a thread. Threads are counted from the oldest one on, and frames from the outermost. -/
inductive Slot where
  | global (name : String)
  | temporary (thread frame : Nat) (name : String)
  deriving DecidableEq, Repr

/-- The value that is stored in a slot. -/
def Slot.value? (v : Variables) (s : CallStack) : Slot → Option Value
  | .global name => v.globals.get? name
  | .temporary thread frame name => do
    (← (← s.threads[thread]?).frame? frame).temporaries.get? name

theorem Slot.value?_temporary (v : Variables) (s : CallStack) (thread frame : Nat) (name : String) :
    Slot.value? v s (.temporary thread frame name) =
      s.threads[thread]?.bind fun t => (t.frame? frame).bind fun f => f.temporaries.get? name :=
  rfl

theorem Thread.frame?_modifyFrame (t : Thread) (i j : Nat) (f : Frame → Frame) :
    (t.modifyFrame i f).frame? j = if j = i then (t.frame? j).map f else t.frame? j := by
  unfold modifyFrame
  by_cases htop : i = t.below.length
  · rw [if_pos htop]
    unfold frame?
    by_cases hj : j = t.below.length
    · simp [hj, htop]
    · simp [hj, htop]
  · rw [if_neg htop]
    by_cases hbelow : i < t.below.length
    · have hsame : t.below.length - 1 - i = t.below.length - 1 - j → j < t.below.length → i = j := by
        omega
      rw [if_pos hbelow]
      unfold frame?
      rw [List.length_modify, List.getElem?_modify]
      by_cases hj : j = i
      · simp [hj, htop, hbelow]
      · have hother : j < t.below.length → ¬t.below.length - 1 - i = t.below.length - 1 - j :=
          fun hlt h => hj (hsame h hlt).symm
        rw [if_neg hj]
        split
        · rfl
        · split
          · next hlt => simp [hother hlt]
          · rfl
    · rw [if_neg hbelow]
      split
      · next h => simp [h, frame?, htop, hbelow]
      · rfl

namespace CallStack

variable {s : CallStack} {scope : Int} {i : Nat} {name : String} {value : Value}

/-- The number of the frame that a scope stands for. -/
def frameNumber? (s : CallStack) (scope : Int) : Option Nat :=
  if scope = unknownScope then some s.current.below.length
  else if 1 ≤ scope then some (scope - 1).toNat
  else none

theorem scopeFrame?_eq (s : CallStack) (scope : Int) :
    s.scopeFrame? scope = (s.frameNumber? scope).bind s.current.frame? := by
  unfold scopeFrame? frameNumber?
  split
  · show some s.current.top = s.current.frame? s.current.below.length
    rw [Thread.frame?, if_pos rfl]
  · split <;> rfl

theorem putTemporary_eq (h : s.frameNumber? scope = some i) (name : String) (value : Value) :
    s.putTemporary scope name value =
      { s with current := s.current.modifyFrame i fun f =>
          { f with temporaries := f.temporaries.insert name value } } := by
  unfold frameNumber? at h
  unfold putTemporary modifyScopeFrame
  split at h
  · next hunknown =>
    cases h
    rw [if_pos hunknown, Thread.modifyFrame, if_pos rfl]
    rfl
  · next hknown =>
    split at h
    · next hpos =>
      cases h
      rw [if_neg hknown, if_pos hpos]
    · cases h

theorem threads_length_others (s : CallStack) : s.threads[s.others.length]? = some s.current := by
  simp [threads]

/-- Threads but the current one are not changed by changing the current one. -/
theorem getElem?_threads_of_ne {k : Nat} (hk : k ≠ s.others.length) (t : Thread) :
    ({ s with current := t } : CallStack).threads[k]? = s.threads[k]? := by
  unfold threads
  rw [List.reverse_cons, List.reverse_cons]
  rcases Nat.lt_or_gt_of_ne hk with hlt | hgt
  · rw [List.getElem?_append_left (by simpa using hlt), List.getElem?_append_left (by simpa using hlt)]
  · rw [List.getElem?_eq_none (by simp; omega), List.getElem?_eq_none (by simp; omega)]

/-- Putting a temporary variable into a frame that is there changes its slot, and no other. -/
theorem value?_putTemporary (v : Variables) (h : s.frameNumber? scope = some i)
    (hframe : (s.current.frame? i).isSome = true) (name : String) (value : Value) (slot : Slot) :
    slot.value? v (s.putTemporary scope name value) =
      if slot = .temporary s.others.length i name then some value else slot.value? v s := by
  rw [putTemporary_eq h]
  cases slot with
  | global => rfl
  | temporary k j other =>
    rw [Slot.value?_temporary, Slot.value?_temporary]
    by_cases hk : k = s.others.length
    · subst hk
      obtain ⟨f, hf⟩ := Option.isSome_iff_exists.mp hframe
      rw [threads_length_others, threads_length_others ⟨_, s.others, s.made⟩, Option.bind_some,
        Option.bind_some, Thread.frame?_modifyFrame]
      by_cases hj : j = i
      · subst hj
        rw [if_pos rfl, hf, Option.map_some, Option.bind_some, Option.bind_some]
        by_cases hname : other = name
        · subst hname
          rw [if_pos rfl, SortedMap.get?_insert_self]
        · rw [if_neg (by simp [hname]), SortedMap.get?_insert_of_ne _ _ hname]
      · rw [if_neg hj, if_neg (by simp [hj])]
    · rw [getElem?_threads_of_ne hk, if_neg (by simp [hk])]

theorem frameNumber?_putTemporary (s : CallStack) (scope : Int) (name : String) (value : Value)
    (other : Int) : (s.putTemporary scope name value).frameNumber? other = s.frameNumber? other := by
  have hlength : (s.putTemporary scope name value).current.below.length = s.current.below.length := by
    cases h : s.frameNumber? scope with
    | some i =>
      rw [putTemporary_eq h]
      unfold Thread.modifyFrame
      dsimp only
      split
      · rfl
      · split
        · exact List.length_modify ..
        · rfl
    | none =>
      unfold frameNumber? at h
      unfold putTemporary modifyScopeFrame
      split at h
      · cases h
      · next hunknown =>
        split at h
        · cases h
        · next hneg => rw [if_neg hunknown, if_neg hneg]
  unfold frameNumber?
  rw [hlength]

/-- A temporary variable is looked up in the slot that its scope stands for. -/
theorem temporary?_eq (v : Variables) (s : CallStack) (name : String) (scope : Int) :
    s.temporary? name scope = (s.frameNumber? scope).bind fun i =>
      Slot.value? v s (.temporary s.others.length i name) := by
  unfold temporary?
  rw [scopeFrame?_eq]
  cases s.frameNumber? scope with
  | none => rfl
  | some i =>
    rw [Option.bind_some, Option.bind_some, Slot.value?_temporary, threads_length_others]
    rfl

/-- A temporary variable that is there is set in its slot; one that is not there cannot be set. -/
theorem setTemporary_cases (v : Variables) (s : CallStack) (name : String) (value : Value)
    (scope : Int) :
    (∃ i old, s.frameNumber? scope = some i ∧ (s.current.frame? i).isSome = true ∧
        Slot.value? v s (.temporary s.others.length i name) = some old ∧
        s.setTemporary name value false scope =
          .ok (s.putTemporary scope name (old.inheritOrigins value))) ∨
      ∃ fault, s.setTemporary name value false scope = .error (.address fault) ∧
        ∀ i, s.frameNumber? scope = some i →
          Slot.value? v s (.temporary s.others.length i name) = none := by
  have hslot (i : Nat) : Slot.value? v s (.temporary s.others.length i name) =
      (s.current.frame? i).bind fun f => f.temporaries.get? name := by
    rw [Slot.value?_temporary, threads_length_others]
    rfl
  unfold setTemporary
  rw [scopeFrame?_eq]
  cases hnumber : s.frameNumber? scope with
  | none => exact .inr ⟨_, rfl, nofun⟩
  | some i =>
    rw [Option.bind_some]
    cases hf : s.current.frame? i with
    | none =>
      refine .inr ⟨_, rfl, fun j hj => ?_⟩
      cases hj
      rw [hslot, hf]
      rfl
    | some f =>
      have hvalue : Slot.value? v s (.temporary s.others.length i name) = f.temporaries.get? name := by
        rw [hslot, hf]
        rfl
      dsimp only
      cases hold : f.temporaries.get? name with
      | none =>
        refine .inr ⟨_, rfl, fun j hj => ?_⟩
        cases hj
        exact hvalue.trans hold
      | some old => exact .inl ⟨i, old, rfl, by rw [hf]; rfl, hvalue.trans hold, rfl⟩

end CallStack

/-! ## Assignments -/

/-- The value that takes the place of another one: a list without items takes over the definitions
of the list that it replaces. -/
def Value.replacing (old : Option Value) (new : Value) : Value :=
  match old with
  | some old => old.inheritOrigins new
  | none => new

theorem Value.IsPlain.replacing {value : Value} (h : value.IsPlain) (old : Option Value) :
    (Value.replacing old value).IsPlain := by
  cases old with
  | some old => exact h.inheritOrigins old
  | none => exact h

namespace Variables

variable {v v' : Variables} {lists : ListDefinitions} {s s' : CallStack} {a : Assignment}
  {name : String} {scope : Int} {value new : Value} {x last : String × Int}
  {path : List (String × Int)} {slot : Slot} {i : Nat}

/-- The slot that an assignment goes to which declares nothing: that of the global variable at the
end of the references, or that of the temporary variable there. -/
def slot? (v : Variables) (lists : ListDefinitions) (s : CallStack) (a : Assignment) : Option Slot :=
  if v.goesToGlobal lists s a then some (.global (v.target lists s a.name).1)
  else (s.frameNumber? (v.target lists s a.name).2).map fun i =>
    .temporary s.others.length i (v.target lists s a.name).1

theorem value?_put (v : Variables) (s : CallStack) (name : String) (value : Value) (slot : Slot) :
    slot.value? (v.put name value) s =
      if slot = .global name then some (Value.replacing (v.globals.get? name) value)
      else slot.value? v s := by
  cases slot with
  | temporary => rfl
  | global other =>
    show (v.globals.insert name (Value.replacing (v.globals.get? name) value)).get? other = _
    by_cases h : other = name
    · subst h
      rw [if_pos rfl, SortedMap.get?_insert_self]
    · rw [if_neg (by simp [h]), SortedMap.get?_insert_of_ne _ _ h]
      rfl

/-- An assignment puts its value into its slot, which has to be there if it is that of a temporary
variable, and changes nothing else. -/
theorem assign_slot (ha : a.isDeclaration = false) (v : Variables) (lists : ListDefinitions)
    (s : CallStack) (value : Value) :
    (∃ slot v' s', v.slot? lists s a = some slot ∧ v.assign lists s a value = .ok (v', s') ∧
        v'.defaults = v.defaults ∧ ∀ other : Slot, other.value? v' s' =
          if other = slot then some (.replacing (slot.value? v s) value) else other.value? v s) ∨
      ∃ fault, v.assign lists s a value = .error (.address fault) ∧
        ∀ slot, v.slot? lists s a = some slot →
          (∀ name, slot ≠ .global name) ∧ slot.value? v s = none := by
  rw [assign_of_not_declaration ha]
  unfold slot?
  cases hglobal : v.goesToGlobal lists s a with
  | true => exact .inl ⟨_, _, _, rfl, rfl, rfl, v.value?_put s _ value⟩
  | false =>
    rw [if_neg Bool.false_ne_true, if_neg Bool.false_ne_true]
    rcases s.setTemporary_cases v (v.target lists s a.name).1 value (v.target lists s a.name).2 with
      ⟨i, old, hnumber, hframe, hold, hset⟩ | ⟨fault, hset, hnone⟩
    · rw [hnumber, hset]
      refine .inl ⟨_, _, _, rfl, rfl, rfl, fun other => ?_⟩
      rw [CallStack.value?_putTemporary v hnumber hframe, hold]
      rfl
    · rw [hset]
      refine .inr ⟨fault, rfl, fun slot hslot => ?_⟩
      obtain ⟨i, hi, rfl⟩ := Option.map_eq_some_iff.mp hslot
      exact ⟨nofun, hnone i hi⟩

/-! ## Reading what was assigned -/

/-- A global variable or a list item that reading prefers to a temporary variable. -/
def shadow? (v : Variables) (lists : ListDefinitions) (name : String) (scope : Int) : Option Value :=
  if scope = globalScope ∨ scope = unknownScope then
    (v.get? name).or ((lists.single? name).map .list)
  else none

theorem raw?_eq (v : Variables) (lists : ListDefinitions) (s : CallStack) (name : String)
    (scope : Int) : v.raw? lists s name scope = (v.shadow? lists name scope).or (s.temporary? name scope) :=
  rfl

theorem shadow?_put_self (v : Variables) (lists : ListDefinitions) (name : String) (value : Value)
    (h : scope = globalScope ∨ scope = unknownScope) :
    (v.put name value).shadow? lists name scope =
      some (.replacing (v.globals.get? name) value) := by
  unfold shadow? get?
  rw [if_pos h]
  show ((((v.globals.insert name (Value.replacing (v.globals.get? name) value)).get? name).or _).or _)
    = _
  rw [SortedMap.get?_insert_self]
  rfl

theorem shadow?_put_of_ne (v : Variables) (lists : ListDefinitions) {name other : String}
    (value : Value) (scope : Int) (h : other ≠ name) :
    (v.put name value).shadow? lists other scope = v.shadow? lists other scope := by
  unfold shadow? get?
  show (if _ then ((((v.globals.insert name _).get? other).or _).or _) else none) = _
  rw [SortedMap.get?_insert_of_ne _ _ h]
  rfl

/-- Where a global variable has been put, reading finds it, or what it found before. -/
theorem raw?_put (v : Variables) (lists : ListDefinitions) (s : CallStack) (name : String)
    (value : Value) (x : String × Int) :
    (v.put name value).raw? lists s x.1 x.2 = some (.replacing (v.globals.get? name) value) ∨
      (v.put name value).raw? lists s x.1 x.2 = v.raw? lists s x.1 x.2 := by
  obtain ⟨other, scope⟩ := x
  rw [raw?_eq, raw?_eq]
  by_cases hname : other = name
  · subst hname
    by_cases hscope : scope = globalScope ∨ scope = unknownScope
    · rw [shadow?_put_self v lists other value hscope]
      exact .inl rfl
    · refine .inr ?_
      unfold shadow?
      rw [if_neg hscope, if_neg hscope]
  · rw [shadow?_put_of_ne v lists value scope hname]
    exact .inr rfl

theorem temporary?_putTemporary (h : s.frameNumber? scope = some i)
    (hframe : (s.current.frame? i).isSome = true) (name : String) (value : Value) (other : String)
    (scope' : Int) : (s.putTemporary scope name value).temporary? other scope' =
      if other = name ∧ s.frameNumber? scope' = some i then some value
      else s.temporary? other scope' := by
  have hothers : (s.putTemporary scope name value).others = s.others :=
    (s.threads_putTemporary scope name value).2
  rw [CallStack.temporary?_eq .empty, CallStack.temporary?_eq .empty,
    CallStack.frameNumber?_putTemporary, hothers]
  cases hnumber : s.frameNumber? scope' with
  | none => simp
  | some j =>
    rw [Option.bind_some, Option.bind_some, CallStack.value?_putTemporary _ h hframe]
    by_cases hj : j = i
    · simp [hj, eq_comm]
    · simp [hj]

/-- Where a temporary variable has been put, reading finds it, or what it found before. -/
theorem raw?_putTemporary (v : Variables) (lists : ListDefinitions)
    (h : s.frameNumber? scope = some i) (hframe : (s.current.frame? i).isSome = true) (name : String)
    (value : Value) (x : String × Int) :
    v.raw? lists (s.putTemporary scope name value) x.1 x.2 = some value ∨
      v.raw? lists (s.putTemporary scope name value) x.1 x.2 = v.raw? lists s x.1 x.2 := by
  rw [raw?_eq, raw?_eq, temporary?_putTemporary h hframe]
  split
  · cases v.shadow? lists x.1 x.2 with
    | some => exact .inr rfl
    | none => exact .inl rfl
  · exact .inr rfl

/-- Where values have changed to a new one, references lead to it, or to where they led before. -/
theorem Follows.of_changed (h : v.Follows lists s x path last) (hnew : new.IsPlain)
    (hchanged : ∀ x : String × Int, v'.raw? lists s' x.1 x.2 = some new ∨
      v'.raw? lists s' x.1 x.2 = v.raw? lists s x.1 x.2) :
    ∃ path' last', v'.Follows lists s' x path' last' ∧
      (v'.raw? lists s' last'.1 last'.2 = some new ∨ last' = last) := by
  have hends : ∀ x : String × Int, v'.raw? lists s' x.1 x.2 = some new →
      v'.Follows lists s' x [] x := by
    intro x hx
    refine .ends fun y hy => ?_
    rw [hx] at hy
    exact hnew _ _ (Option.some.inj hy)
  induction h with
  | @ends x h =>
    rcases hchanged x with hx | hx
    · exact ⟨[], x, hends x hx, .inl hx⟩
    · exact ⟨[], x, .ends fun y hy => h y (hx.symm.trans hy), .inr rfl⟩
  | @step x y last path hstep _ ih =>
    rcases hchanged x with hx | hx
    · exact ⟨[], x, hends x hx, .inl hx⟩
    · obtain ⟨path', last', hrest, hraw⟩ := ih
      exact ⟨y :: path', last', .step (hx.trans hstep) hrest, hraw⟩

theorem Follows.read?_of_changed (h : v.Follows lists s (name, unknownScope) path last)
    (hnew : new.IsPlain) (hchanged : ∀ x : String × Int, v'.raw? lists s' x.1 x.2 = some new ∨
      v'.raw? lists s' x.1 x.2 = v.raw? lists s x.1 x.2) :
    v'.read? lists s' name = some new ∨
      v'.read? lists s' name = v'.raw? lists s' last.1 last.2 := by
  obtain ⟨path', last', hfollows, hraw | rfl⟩ := h.of_changed hnew hchanged
  · exact .inl ((read?_of_follows hfollows).trans hraw)
  · exact .inr (read?_of_follows hfollows)

theorem goesToGlobal_of_follows (h : v.Follows lists s (a.name, unknownScope) path last) :
    v.goesToGlobal lists s a =
      if path = [] then v.declares a.name else decide (last.2 = globalScope) := by
  unfold goesToGlobal
  rw [target_of_follows h]
  show (if last = (a.name, unknownScope) then v.declares last.1 else _) = _
  simp only [h.last_eq_iff]
  split
  · next hpath => rw [h.last_eq_iff.mpr hpath]
  · rfl

/-- Reading prefers no global variable and no list item to the temporary variable that an assignment
goes to, unless the last reference leaves the scope open. -/
theorem shadow?_eq_none (hname : lists.single? a.name = none)
    (h : v.Follows lists s (a.name, unknownScope) path last)
    (hglobal : v.goesToGlobal lists s a = false) (hscope : path = [] ∨ last.2 ≠ unknownScope) :
    v.shadow? lists last.1 last.2 = none := by
  have habsent {t : Table Value} (ht : t.contains a.name = false) : t.get? a.name = none := by
    rwa [SortedMap.contains, Option.isSome_eq_false_iff, Option.isNone_iff_eq_none] at ht
  rw [goesToGlobal_of_follows h] at hglobal
  unfold shadow?
  by_cases hpath : path = []
  · rw [if_pos hpath, declares, Bool.or_eq_false_iff] at hglobal
    rw [h.last_eq_iff.mpr hpath, if_pos (.inr rfl), get?, habsent hglobal.1, habsent hglobal.2, hname]
    rfl
  · rw [if_neg hpath, decide_eq_false_iff_not] at hglobal
    rw [if_neg (not_or.mpr ⟨hglobal, hscope.resolve_left hpath⟩)]

/-- The references of a name end at another one of open scope, for which reading finds a global
variable or a list item first. -/
def IsShadowed (v : Variables) (lists : ListDefinitions) (path : List (String × Int))
    (last : String × Int) : Prop :=
  path ≠ [] ∧ last.2 = unknownScope ∧ (v.shadow? lists last.1 last.2).isSome = true

/-- Where a name leads to a global variable, reading finds what is put there. -/
theorem read?_put_of_follows (h : v.Follows lists s (a.name, unknownScope) path last)
    (hglobal : v.goesToGlobal lists s a = true) (hvalue : value.IsPlain) :
    (v.put last.1 value).read? lists s a.name =
      some (.replacing (v.globals.get? last.1) value) := by
  have hscope : last.2 = globalScope ∨ last.2 = unknownScope := by
    rw [goesToGlobal_of_follows h] at hglobal
    by_cases hpath : path = []
    · rw [h.last_eq_iff.mpr hpath]
      exact .inr rfl
    · rw [if_neg hpath] at hglobal
      exact .inl (of_decide_eq_true hglobal)
  have hput : (v.put last.1 value).raw? lists s last.1 last.2 =
      some (.replacing (v.globals.get? last.1) value) := by
    rw [raw?_eq, v.shadow?_put_self lists last.1 value hscope]
    rfl
  rcases h.read?_of_changed (hvalue.replacing _) (v.raw?_put lists s last.1 value) with hread | hread
  · exact hread
  · exact hread.trans hput

/-- Where a name leads to a temporary variable, reading finds what is put there, or still what it
found before. -/
theorem read?_putTemporary_of_follows (hname : lists.single? a.name = none)
    (h : v.Follows lists s (a.name, unknownScope) path last)
    (hglobal : v.goesToGlobal lists s a = false) (hi : s.frameNumber? last.2 = some i)
    (hframe : (s.current.frame? i).isSome = true) (hvalue : value.IsPlain) :
    v.read? lists (s.putTemporary last.2 last.1 value) a.name = some value ∨
      v.IsShadowed lists path last ∧
        v.read? lists (s.putTemporary last.2 last.1 value) a.name = v.read? lists s a.name := by
  rcases h.read?_of_changed hvalue (v.raw?_putTemporary lists hi hframe last.1 value) with
    hread | hread
  · exact .inl hread
  cases hshadow : v.shadow? lists last.1 last.2 with
  | none =>
    refine .inl (hread.trans ?_)
    rw [raw?_eq, hshadow, temporary?_putTemporary hi hframe, if_pos ⟨rfl, hi⟩]
    rfl
  | some found =>
    have hopen : path ≠ [] ∧ last.2 = unknownScope := by
      by_contra hclosed
      have hscope : path = [] ∨ last.2 ≠ unknownScope := by tauto
      rw [shadow?_eq_none hname h hglobal hscope] at hshadow
      cases hshadow
    refine .inr ⟨⟨hopen.1, hopen.2, by rw [hshadow]; rfl⟩, ?_⟩
    rw [hread, read?_of_follows h, raw?_eq, raw?_eq, hshadow]
    rfl

/-- After an assignment reading the name finds the value in the slot that was assigned, or still
what it found before. -/
theorem read?_of_assign (ha : a.isDeclaration = false) (hname : lists.single? a.name = none)
    (hvalue : value.IsPlain) (h : v.Follows lists s (a.name, unknownScope) path last)
    (hassign : v.assign lists s a value = .ok (v', s')) (hslot : v.slot? lists s a = some slot) :
    v'.read? lists s' a.name = some (.replacing (slot.value? v s) value) ∨
      v.IsShadowed lists path last ∧ v'.read? lists s' a.name = v.read? lists s a.name := by
  have htarget := target_of_follows h
  unfold slot? at hslot
  rw [htarget] at hslot
  rw [assign_of_not_declaration ha, htarget] at hassign
  cases hglobal : v.goesToGlobal lists s a with
  | true =>
    rw [if_pos hglobal] at hslot hassign
    cases hslot
    cases hassign
    exact .inl (read?_put_of_follows h hglobal hvalue)
  | false =>
    rw [hglobal, if_neg Bool.false_ne_true] at hslot hassign
    obtain ⟨i, hi, rfl⟩ := Option.map_eq_some_iff.mp hslot
    rcases s.setTemporary_cases v last.1 value last.2 with
      ⟨j, old, hj, hframe, hold, hset⟩ | ⟨fault, hset, -⟩
    · rw [hi] at hj
      cases hj
      rw [hset] at hassign
      cases hassign
      rw [hold]
      exact read?_putTemporary_of_follows hname h hglobal hi hframe (hvalue.inheritOrigins old)
    · rw [hset] at hassign
      cases hassign

end Variables

/-! ## The assignment of a story -/

namespace Flow

/-- An assignment that declares nothing takes its value from the evaluation stack. If it succeeds,
it changes the value of one slot and of no other. Reading the name then finds the value there,
unless the references of the name end at another one of open scope, for which reading finds a global
variable or a list item first. If it fails, the slot was not there and no variable is changed. -/
theorem assignment_hits_one_variable {s : Story} {a : Assignment} {value : Value} {rest : List Token}
    {path : List (String × Int)} {last : String × Int} (ha : a.isDeclaration = false)
    (hname : s.content.lists.single? a.name = none) (hvalue : value.IsPlain)
    (hstack : s.state.evaluation = .value value :: rest)
    (hfollows : s.state.vars.Follows s.content.lists s.state.callStack (a.name, unknownScope) path
      last) :
    (∃ slot vars callStack,
      s.state.vars.slot? s.content.lists s.state.callStack a = some slot ∧
      performAssignment a s =
        .ok () { s with state := { s.state with evaluation := rest, vars, callStack } } ∧
      vars.defaults = s.state.vars.defaults ∧
      (∀ other : Slot, other.value? vars callStack =
        if other = slot then some (.replacing (slot.value? s.state.vars s.state.callStack) value)
        else other.value? s.state.vars s.state.callStack) ∧
      (vars.read? s.content.lists callStack a.name =
          some (.replacing (slot.value? s.state.vars s.state.callStack) value) ∨
        s.state.vars.IsShadowed s.content.lists path last ∧
          vars.read? s.content.lists callStack a.name =
            s.state.vars.read? s.content.lists s.state.callStack a.name)) ∨
    ∃ fault, performAssignment a s =
        .error (.address fault) { s with state := { s.state with evaluation := rest } } ∧
      ∀ slot, s.state.vars.slot? s.content.lists s.state.callStack a = some slot →
        (∀ name, slot ≠ .global name) ∧ slot.value? s.state.vars s.state.callStack = none := by
  let popped : Story := { s with state := { s.state with evaluation := rest } }
  have hpop : pop s = .ok (.value value) popped := pop_run_cons hstack
  rcases s.state.vars.assign_slot ha s.content.lists s.state.callStack value with
    ⟨slot, vars, callStack, hslot, hassign, hdefaults, hothers⟩ | ⟨fault, hassign, habsent⟩
  · refine .inl ⟨slot, vars, callStack, hslot, ?_, hdefaults, hothers,
      Variables.read?_of_assign ha hname hvalue hfollows hassign hslot⟩
    have hassigned : tryState (assignValue s.content.lists a value) popped =
        .ok () { s with state := { s.state with evaluation := rest, vars, callStack } } :=
      tryState_run_ok (assignValue_ok hassign)
    exact (bind_ok hpop).trans hassigned
  · refine .inr ⟨fault, ?_, habsent⟩
    have hfailed : tryState (assignValue s.content.lists a value) popped =
        .error (.address fault) popped :=
      tryState_run_error (assignValue_error hassign)
    exact (bind_ok hpop).trans hfailed

/-- A story in a function that was given a reference `r` to a variable `x`. There is such a global
variable, and one in the function and in its caller. -/
def lending (scope : Int) : Story :=
  let content : Content :=
    ⟨0, formatVersion, .ofBlock (.container none ⟨false, false, false⟩ [.leaf .glue] []), .empty⟩
  let start := Story.unstarted content 0
  let caller := { Frame.new .tunnel none with temporaries := .ofList [("x", .int 1)] }
  let function := { Frame.new .function none with
    temporaries := .ofList [("r", .reference "x" scope), ("x", .int 2)] }
  { start with
    state := { start.state with
      vars := Variables.empty.put "x" (.int 0)
      callStack := ⟨⟨function, [caller], none, 0⟩, [], 0⟩
      evaluation := [.value (.int 5)] } }

/-- Through a reference to its variable the caller gets the value. Through one of open scope the
function gets it, and still reads the global variable. -/
theorem lending_assigns :
    (∃ vars callStack, performAssignment ⟨"r", false, false⟩ (lending 1) = .ok () { lending 1 with
        state := { (lending 1).state with evaluation := [], vars, callStack } } ∧
      Slot.value? vars callStack (.temporary 0 0 "x") = some (.int 5) ∧
      vars.read? .empty callStack "r" = some (.int 5)) ∧
    ∃ vars callStack, performAssignment ⟨"r", false, false⟩ (lending unknownScope) =
        .ok () { lending unknownScope with
          state := { (lending unknownScope).state with evaluation := [], vars, callStack } } ∧
      Slot.value? vars callStack (.temporary 0 1 "x") = some (.int 5) ∧
      vars.read? .empty callStack "r" = some (.int 0) := by
  have hlent : (lending 1).state.vars.Follows .empty (lending 1).state.callStack ("r", unknownScope)
      [("x", 1)] ("x", 1) := .step rfl (.ends nofun)
  have hopen : (lending unknownScope).state.vars.Follows .empty (lending unknownScope).state.callStack
      ("r", unknownScope) [("x", unknownScope)] ("x", unknownScope) := .step rfl (.ends nofun)
  constructor
  · rcases assignment_hits_one_variable (s := lending 1) (a := ⟨"r", false, false⟩) rfl rfl
      (show Value.IsPlain (.int 5) from nofun) rfl hlent with
      ⟨slot, vars, callStack, hslot, hrun, -, hothers, hread⟩ | ⟨fault, hrun, -⟩
    · cases hslot
      have hread := hread.resolve_right fun hshadowed => absurd hshadowed.1.2.1 (by decide)
      exact ⟨vars, callStack, hrun, (hothers _).trans (if_pos rfl), hread⟩
    · cases hrun
  · rcases assignment_hits_one_variable (s := lending unknownScope) (a := ⟨"r", false, false⟩) rfl rfl
      (show Value.IsPlain (.int 5) from nofun) rfl hopen with
      ⟨slot, vars, callStack, hslot, hrun, -, hothers, -⟩ | ⟨fault, hrun, -⟩
    · cases hslot
      refine ⟨vars, callStack, hrun, (hothers _).trans (if_pos rfl), ?_⟩
      cases hrun
      rfl
    · cases hrun

end Flow

end StoryMachine
