import Mathlib
import StoryMachine.Proofs.Story.SavedValues

/-!
# Saved variables

The global variables are saved as far as they differ from their defaults, and read name by name from
the defaults on. So a variable comes back if it has a default, whatever its value is: a value that
is not written is that of the default. A variable without a default, which was declared behind the
global declarations, is written and never read.

* `Variables.savedValue?`, `Variables.restored` : what is written for a value, and what is read;
* `Variables.ofJson_toJson` : the variables that are read;
* `Variables.come_back_iff` : variables come back if they have defaults, and only then;
* `ValueRun.variables_come_back` : this is so in every story.
-/

namespace StoryMachine

open Std

/-! ## Equal values -/

namespace Value

/-- The value is the negative zero. -/
def IsNegativeZero (v : Value) : Prop :=
  v = .float (-0)

/-- Equal values are the same, but for the two zeros. -/
theorem eq_of_beq {d v : Value} (h : (d == v) = true) (hd : ¬d.IsNegativeZero)
    (hv : ¬v.IsNegativeZero) : v = d := by
  have h : same d v = true := h
  unfold same at h
  split at h
  · rw [LawfulBEq.eq_of_beq h]
  · rw [LawfulBEq.eq_of_beq h]
  · obtain ⟨-, -, heq | ⟨-, hzero⟩ | ⟨hzero, -⟩⟩ := Float32.beq_iff_ne_nan_and_eq.mp h
    · rw [heq]
    · exact absurd (congrArg float hzero) hv
    · exact absurd (congrArg float hzero) hd
  · rw [LawfulBEq.eq_of_beq h]
  · next a b _ =>
    obtain ⟨hitems, horigins⟩ := Bool.and_eq_true_iff.mp h
    have hitems : a.items = b.items := SortedMap.ext (LawfulBEq.eq_of_beq hitems)
    have horigins : a.emptyOrigins = b.emptyOrigins := LawfulBEq.eq_of_beq horigins
    obtain ⟨items, origins⟩ := a
    cases hitems
    cases horigins
    rfl
  · rw [LawfulBEq.eq_of_beq h]
  · obtain ⟨hname, hscope⟩ := Bool.and_eq_true_iff.mp h
    rw [LawfulBEq.eq_of_beq hname, LawfulBEq.eq_of_beq hscope]
  · cases h

end Value

/-! ## What is written and read -/

theorem Entries.pairwise_filterMap {κ α β : Type} [Ord κ] {f : κ → α → Option β}
    {es : List (κ × α)} (hs : es.Pairwise KeyLt) :
    (es.filterMap fun e => (f e.1 e.2).map (e.1, ·)).Pairwise KeyLt := by
  refine hs.filterMap _ fun a b hab c hc d hd => ?_
  obtain ⟨_, -, rfl⟩ := Option.map_eq_some_iff.mp hc
  obtain ⟨_, -, rfl⟩ := Option.map_eq_some_iff.mp hd
  exact hab

theorem Entries.get?_filterMap {κ α β : Type} [Ord κ] [LawfulEqOrd κ] [TransOrd κ]
    (f : κ → α → Option β) (k : κ) {es : List (κ × α)} (hs : es.Pairwise KeyLt) :
    get? k (es.filterMap fun e => (f e.1 e.2).map (e.1, ·)) = (get? k es).bind (f k) := by
  refine Option.ext fun b => ?_
  rw [← mem_iff_get? (pairwise_filterMap hs), List.mem_filterMap, Option.bind_eq_some_iff]
  constructor
  · rintro ⟨⟨k', a⟩, hmem, hf⟩
    obtain ⟨_, hf, heq⟩ := Option.map_eq_some_iff.mp hf
    cases heq
    exact ⟨a, (mem_iff_get? hs).mp hmem, hf⟩
  · rintro ⟨a, hget, hf⟩
    exact ⟨(k, a), (mem_iff_get? hs).mpr hget, by rw [hf]; rfl⟩

namespace Variables

variable {v u : Variables}

/-- What is written for the value of a variable: nothing if it is its default. -/
def savedValue? (v : Variables) (name : String) (value : Value) : Option Json :=
  match v.defaults.get? name with
  | some d => if d == value then none else some value.toJson
  | none => some value.toJson

theorem toJson_eq (v : Variables) : v.toJson = .obj (v.globals.entries.filterMap fun e =>
    (v.savedValue? e.1 e.2).map (e.1, ·)) := by
  unfold toJson savedValue?
  refine congrArg Json.obj (List.filterMap_congr fun e _ => ?_)
  cases v.defaults.get? e.1 with
  | none => rfl
  | some d =>
    dsimp only
    split
    · rfl
    · rfl

theorem field?_toJson (v : Variables) (name : String) :
    v.toJson.field? name = (v.globals.get? name).bind (v.savedValue? name) := by
  rw [toJson_eq]
  exact Entries.get?_filterMap _ name v.globals.sorted

/-- The value that a variable is read with, from what was written for it and its default. -/
def restored (v : Variables) (name : String) (d : Value) : Value :=
  match v.globals.get? name with
  | some value => if d == value then d else value.normal
  | none => d

/-- What was written for variables is read over others with the same defaults: every variable that
has a default is there. -/
theorem ofJson_toJson (hdefaults : u.defaults = v.defaults)
    (hpaths : ∀ e ∈ v.globals.entries, e.2.PathReads)
    (hsavable : ∀ e ∈ v.globals.entries, e.2.Savable) :
    u.ofJson v.toJson = .ok { u with globals := v.defaults.map v.restored } := by
  unfold ofJson
  rw [hdefaults, Except.mapM_eq_ok_of_mem (g := fun e => (e.1, v.restored e.1 e.2)) ?_]
  · exact congrArg (fun globals => Except.ok { u with globals, defaults := v.defaults })
      (SortedMap.ofList_entries (v.defaults.map v.restored))
  · rintro ⟨name, d⟩ he
    rw [v.field?_toJson]
    unfold savedValue? restored
    rw [SortedMap.mem_entries_iff.mp he]
    cases hvalue : v.globals.get? name with
    | none => rfl
    | some value =>
      dsimp only [Option.bind_some]
      cases d == value with
      | true => rfl
      | false =>
        rw [if_neg Bool.false_ne_true, if_neg Bool.false_ne_true]
        dsimp only
        have hmem := SortedMap.mem_entries_iff.mpr hvalue
        rw [Value.ofJson_of_savable (hsavable _ hmem) (hpaths _ hmem)]
        rfl

/-- What is written for global variables is read again over others with the same defaults. A variable
comes back with its value if it has a default, whether or not its value is this default. A variable
without a default does not come back, and one that was not there has its default. -/
theorem come_back_iff (hdefaults : u.defaults = v.defaults)
    (hpaths : ∀ e ∈ v.globals.entries, e.2.PathReads) (hsavable : ∀ e ∈ v.globals.entries, e.2.Savable)
    (hzero : ∀ e ∈ v.globals.entries ++ v.defaults.entries, ¬e.2.IsNegativeZero) :
    ∃ loaded, u.ofJson v.toJson = .ok loaded ∧ loaded.defaults = v.defaults ∧
      (∀ name value, v.globals.get? name = some value →
        ((∃ w, loaded.globals.get? name = some w ∧ value.SameAs w) ↔
          v.defaults.contains name = true)) ∧
      ∀ name, v.globals.get? name = none → loaded.globals.get? name = v.defaults.get? name := by
  refine ⟨_, ofJson_toJson hdefaults hpaths hsavable, hdefaults, fun name value hvalue => ?_,
    fun name => ?_⟩
  · rw [SortedMap.get?_map, SortedMap.contains]
    cases hdefault : v.defaults.get? name with
    | none => simp
    | some d =>
      refine iff_of_true ⟨_, rfl, ?_⟩ rfl
      unfold restored
      rw [hvalue]
      dsimp only
      split
      · next hsame =>
        have hmem {t : Table Value} {value : Value} (h : t.get? name = some value) :=
          SortedMap.mem_entries_iff.mpr h
        rw [Value.eq_of_beq hsame (hzero _ (List.mem_append_right _ (hmem hdefault)))
          (hzero _ (List.mem_append_left _ (hmem hvalue)))]
        exact .refl d
      · exact (hsavable _ (SortedMap.mem_entries_iff.mpr hvalue)).sameAs_normal
  · intro hname
    have hrestored : v.restored name = id := funext fun d => by
      rw [restored, hname]
      rfl
    rw [SortedMap.get?_map, hrestored, Option.map_id_fun]
    rfl

end Variables

/-! ## Stories -/

/-- In every story that has been read, what is written for the global variables is read again over
others with the same defaults. A variable comes back with its value if it has a default, whether or
not its value is this default, and does not come back if it was declared behind the global
declarations. -/
theorem ValueRun.variables_come_back {key : Nat} {j : Json} {c : Content} (hj : j.Canonical)
    (hread : Content.ofJson key j = .ok c) {s : Story} (hs : ValueRun c Value.PathReads s)
    {u : Variables} (hdefaults : u.defaults = s.state.vars.defaults)
    (hsavable : ∀ e ∈ s.state.vars.globals.entries, e.2.Savable)
    (hzero : ∀ e ∈ s.state.vars.globals.entries ++ s.state.vars.defaults.entries,
      ¬e.2.IsNegativeZero) :
    ∃ loaded, u.ofJson s.state.vars.toJson = .ok loaded ∧
      loaded.defaults = s.state.vars.defaults ∧
      (∀ name value, s.state.vars.globals.get? name = some value →
        ((∃ w, loaded.globals.get? name = some w ∧ value.SameAs w) ↔
          s.state.vars.defaults.contains name = true)) ∧
      ∀ name, s.state.vars.globals.get? name = none →
        loaded.globals.get? name = s.state.vars.defaults.get? name :=
  Variables.come_back_iff hdefaults
    (hs.sound (Content.carries_pathReads hj hread)).state.vars.globals hsavable hzero

/-- A story that declares a variable, and behind the declarations another one. -/
def lateJson : Json :=
  .obj [("inkVersion", .int 21), ("root", .arr [.str "ev", .int 5, .obj [("VAR=", .str "x")], .int 6,
    .obj [("VAR=", .str "y"), ("re", .bool true)], .str "/ev", .str "^Hi", .str "\n",
    .obj [("global decl", .arr [.str "ev", .int 1, .obj [("VAR=", .str "y")], .str "/ev", .str "end",
      .null])]])]

/-- The content of this story. -/
def late : Content :=
  ⟨0, 21, .ofBlock (.container none ⟨false, false, false⟩
    [.leaf (.command .evalStart), .leaf (.value (.int 5)), .leaf (.assign ⟨"x", true, true⟩),
      .leaf (.value (.int 6)), .leaf (.assign ⟨"y", false, true⟩), .leaf (.command .evalEnd),
      .leaf (.value (.text "Hi")), .leaf (.value (.text "\n"))]
    [("global decl", .container (some "global decl") ⟨false, false, false⟩
      [.leaf (.command .evalStart), .leaf (.value (.int 1)), .leaf (.assign ⟨"y", true, true⟩),
        .leaf (.command .evalEnd), .leaf (.command .finish)] [])]), .empty⟩

/-- The story behind its first line. -/
def lateStory : Story :=
  match Story.ofContent late 0 with
  | .ok s => HostCall.next.after s
  | .error _ => .unstarted late 0

/-- Whether the variables are `x` with 5 and `y` with 6, and only `y` has a default, which is 1. -/
def Variables.areLate (v : Variables) : Bool :=
  match v.globals.entries, v.defaults.entries with
  | [("x", .int 5), ("y", .int 6)], [("y", .int 1)] => true
  | _, _ => false

theorem Variables.entries_of_areLate {v : Variables} (h : v.areLate = true) :
    v.globals.entries = [("x", .int 5), ("y", .int 6)] ∧ v.defaults.entries = [("y", .int 1)] := by
  unfold areLate at h
  split at h
  · next hglobals hdefaults => exact ⟨hglobals, hdefaults⟩
  · cases h

theorem lateStory_areLate : lateStory.state.vars.areLate = true := by
  decide +kernel

theorem late_variable_is_lost : ∃ loaded, ValueRun late Value.PathReads lateStory ∧
    lateStory.state.vars.ofJson lateStory.state.vars.toJson = .ok loaded ∧
    (∃ w, loaded.globals.get? "y" = some w ∧ (Value.int 6).SameAs w) ∧
    ¬∃ w, loaded.globals.get? "x" = some w ∧ (Value.int 5).SameAs w := by
  have hj : lateJson.Canonical := by decide +kernel
  have hread : Content.ofJson 0 lateJson = .ok late := rfl
  have hrun : ValueRun late Value.PathReads lateStory := by
    have hsome : (Story.ofContent late 0).toOption.isSome = true := by decide +kernel
    cases hstart : Story.ofContent late 0 with
    | error e =>
      rw [hstart] at hsome
      cases hsome
    | ok s =>
      rw [lateStory, hstart]
      exact .call (.start hstart) .next trivial
  obtain ⟨hglobals, hdefaults⟩ := Variables.entries_of_areLate lateStory_areLate
  obtain ⟨loaded, hloaded, -, hback, -⟩ := ValueRun.variables_come_back hj hread hrun rfl
    (by simp [hglobals, Value.Savable]) (by simp [hglobals, hdefaults, Value.IsNegativeZero])
  have hx : lateStory.state.vars.globals.get? "x" = some (.int 5) := by
    rw [SortedMap.get?, hglobals]
    rfl
  have hy : lateStory.state.vars.globals.get? "y" = some (.int 6) := by
    rw [SortedMap.get?, hglobals]
    rfl
  have hdeclared (name : String) : lateStory.state.vars.defaults.contains name =
      (Entries.get? name [("y", Value.int 1)]).isSome := by
    rw [SortedMap.contains, SortedMap.get?, hdefaults]
  refine ⟨loaded, hrun, hloaded, (hback "y" _ hy).mpr ?_, fun hw => ?_⟩
  · rw [hdeclared]
    rfl
  · have hlost := (hback "x" _ hx).mp hw
    rw [hdeclared] at hlost
    cases hlost

end StoryMachine
