import StoryMachine.SortedMap

/-!
# Laws of finite maps

A list of entries in key order is told by what it holds at each key, so two maps that read
alike are one map. The map built from a list of entries holds at each key the last entry of
that key; when no key occurs twice its entries are those of the list, rearranged, and a
list in key order is its own map.

* `Entries.ext_get?` : entries in key order that read alike are equal;
* `Entries.get?_insertIfNew`, `Entries.get?_ofList_cons` : reading what was built;
* `Entries.get?_ofList_eq_some` : building from entries that agree keeps all of them;
* `SortedMap.get?_foldl_insert` : what is inserted entry by entry hides what was there;
* `Entries.ofList_of_pairwise` : building from a list in key order changes nothing;
* `Entries.ofList_eq_of_perm` : with distinct keys, the order of building does not matter.
-/

open Std

namespace StoryMachine

universe u v w

namespace Entries

variable {κ : Type u} [Ord κ] {α : Type v} {β : Type w}

theorem pairwise_map {f : κ → α → β} {es : List (κ × α)} (h : es.Pairwise KeyLt) :
    (es.map fun e => (e.1, f e.1 e.2)).Pairwise KeyLt := by
  rw [List.pairwise_map]
  exact h

theorem mem_insertIfNew {k : κ} {v : α} {es : List (κ × α)} {e : κ × α}
    (h : e ∈ insertIfNew k v es) : e = (k, v) ∨ e ∈ es := by
  induction es with
  | nil => simpa [insertIfNew] using h
  | cons d rest ih =>
    rw [insertIfNew] at h
    split at h
    · exact List.mem_cons.mp h
    · exact .inr h
    · rcases List.mem_cons.mp h with rfl | h
      · exact .inr List.mem_cons_self
      · exact (ih h).imp id (List.mem_cons_of_mem d)

theorem mem_of_mem_ofList {es : List (κ × α)} {e : κ × α} (h : e ∈ ofList es) : e ∈ es := by
  induction es with
  | nil => exact h
  | cons d rest ih =>
    rcases mem_insertIfNew h with rfl | h
    · exact List.mem_cons_self
    · exact List.mem_cons_of_mem d (ih h)

theorem get?_eq_none_of_forall_lt {k : κ} {es : List (κ × α)}
    (h : ∀ e ∈ es, compare k e.1 = .lt) : get? k es = none := by
  induction es with
  | nil => rfl
  | cons e rest ih =>
    have he : compare k e.1 ≠ .eq := by rw [h e (by simp)]; decide
    rw [get?, if_neg he]
    exact ih fun d hd => h d (by simp [hd])

section Lawful

variable [LawfulEqOrd κ]

theorem mem_of_get? {k : κ} {v : α} {es : List (κ × α)} (h : get? k es = some v) :
    (k, v) ∈ es := by
  induction es with
  | nil => simp [get?] at h
  | cons e rest ih =>
    rw [get?] at h
    split at h
    · next he =>
      obtain rfl : k = e.1 := compare_eq_iff_eq.mp he
      cases h
      simp
    · exact List.mem_cons_of_mem _ (ih h)

theorem get?_of_mem {k : κ} {v : α} {es : List (κ × α)} (hs : es.Pairwise KeyLt)
    (h : (k, v) ∈ es) : get? k es = some v := by
  induction es with
  | nil => simp at h
  | cons e rest ih =>
    obtain ⟨hlt, hrest⟩ := List.pairwise_cons.mp hs
    rcases List.mem_cons.mp h with rfl | h
    · simp [get?]
    · have hke : compare e.1 k = .lt := hlt _ h
      have hne : compare k e.1 ≠ .eq := by
        intro heq
        rw [compare_eq_iff_eq.mp heq, compare_self] at hke
        cases hke
      rw [get?, if_neg hne]
      exact ih hrest h

theorem mem_iff_get? {k : κ} {v : α} {es : List (κ × α)} (hs : es.Pairwise KeyLt) :
    (k, v) ∈ es ↔ get? k es = some v :=
  ⟨get?_of_mem hs, mem_of_get?⟩

theorem get?_map (f : κ → α → β) (k : κ) (es : List (κ × α)) :
    get? k (es.map fun e => (e.1, f e.1 e.2)) = (get? k es).map (f k) := by
  induction es with
  | nil => rfl
  | cons e rest ih =>
    rw [List.map_cons, get?, get?]
    split
    · next h => rw [Option.map_some, compare_eq_iff_eq.mp h]
    · exact ih

theorem perm_insertIfNew {k : κ} {v : α} {es : List (κ × α)} (h : ∀ e ∈ es, k ≠ e.1) :
    (insertIfNew k v es).Perm ((k, v) :: es) := by
  induction es with
  | nil => simp [insertIfNew]
  | cons e rest ih =>
    rw [insertIfNew]
    cases hk : compare k e.1 with
    | lt => exact .refl _
    | eq => exact absurd (compare_eq_iff_eq.mp hk) (h e (by simp))
    | gt => exact ((ih fun d hd => h d (by simp [hd])).cons e).trans (.swap ..)

/-- With distinct keys, building a map only rearranges the entries. -/
theorem perm_ofList {es : List (κ × α)} (h : es.Pairwise fun a b => a.1 ≠ b.1) :
    (ofList es).Perm es := by
  induction es with
  | nil => exact .nil
  | cons e rest ih =>
    obtain ⟨hne, hrest⟩ := List.pairwise_cons.mp h
    have hperm := ih hrest
    exact (perm_insertIfNew fun d hd => hne d (hperm.mem_iff.mp hd)).trans (hperm.cons e)

end Lawful

section Ordered

variable [TransOrd κ]

theorem pairwise_key_ne {es : List (κ × α)} (hs : es.Pairwise KeyLt) :
    es.Pairwise fun a b => a.1 ≠ b.1 := by
  refine hs.imp fun {a b} h heq => ?_
  have hlt : compare a.1 b.1 = .lt := h
  rw [heq, compare_self] at hlt
  cases hlt

theorem nodup_of_pairwise {es : List (κ × α)} (hs : es.Pairwise KeyLt) : es.Nodup :=
  (pairwise_key_ne hs).imp fun h heq => h (congrArg Prod.fst heq)

theorem eq_of_perm {a b : List (κ × α)} (ha : a.Pairwise KeyLt) (hb : b.Pairwise KeyLt)
    (h : a.Perm b) : a = b := by
  refine List.Perm.eq_of_pairwise (fun x y _ _ hxy hyx => ?_) ha hb h
  exact absurd hyx (OrientedCmp.not_lt_of_lt hxy)

theorem get?_insertIfNew_self (k : κ) (v : α) {es : List (κ × α)} (hs : es.Pairwise KeyLt) :
    get? k (insertIfNew k v es) = some ((get? k es).getD v) := by
  induction es with
  | nil => simp [insertIfNew, get?]
  | cons e rest ih =>
    obtain ⟨hlt, hrest⟩ := List.pairwise_cons.mp hs
    rw [insertIfNew]
    cases hk : compare k e.1 with
    | lt =>
      have hnone : get? k (e :: rest) = none := get?_eq_none_of_forall_lt fun d hd => by
        rcases List.mem_cons.mp hd with rfl | hd
        · exact hk
        · exact TransCmp.lt_trans hk (hlt d hd)
      rw [hnone]
      simp [get?]
    | eq => simp [get?, hk]
    | gt => simp [get?, hk, ih hrest]

variable [LawfulEqOrd κ]

/-- Entries in key order that read alike at every key are equal. -/
theorem ext_get? {a b : List (κ × α)} (ha : a.Pairwise KeyLt) (hb : b.Pairwise KeyLt)
    (h : ∀ k, get? k a = get? k b) : a = b := by
  refine eq_of_perm ha hb ((List.perm_ext_iff_of_nodup (nodup_of_pairwise ha)
    (nodup_of_pairwise hb)).mpr fun ⟨k, v⟩ => ?_)
  rw [mem_iff_get? ha, mem_iff_get? hb, h]

theorem get?_insertIfNew_of_ne {k k' : κ} (v : α) (es : List (κ × α)) (h : k' ≠ k) :
    get? k' (insertIfNew k v es) = get? k' es := by
  rw [← insert_get?_insertIfNew, get?_insert_of_ne _ _ h]

theorem get?_insertIfNew [DecidableEq κ] (k k' : κ) (v : α) {es : List (κ × α)}
    (hs : es.Pairwise KeyLt) :
    get? k' (insertIfNew k v es) = (get? k' es).or (if k' = k then some v else none) := by
  by_cases h : k' = k
  · subst h
    rw [get?_insertIfNew_self _ _ hs, if_pos rfl]
    cases get? k' es <;> rfl
  · rw [get?_insertIfNew_of_ne _ _ h, if_neg h, Option.or_none]

theorem get?_ofList_cons [DecidableEq κ] (k : κ) (e : κ × α) (es : List (κ × α)) :
    get? k (ofList (e :: es)) = (get? k (ofList es)).or (if k = e.1 then some e.2 else none) :=
  get?_insertIfNew e.1 k e.2 (pairwise_ofList es)

theorem get?_ofList_append [DecidableEq κ] (k : κ) (a b : List (κ × α)) :
    get? k (ofList (a ++ b)) = (get? k (ofList b)).or (get? k (ofList a)) := by
  induction a with
  | nil => simp [ofList, get?]
  | cons e rest ih => rw [List.cons_append, get?_ofList_cons, ih, get?_ofList_cons,
      Option.or_assoc]

/-- If keys tell their values, the map built from the entries holds all of them. -/
theorem get?_ofList_eq_some [DecidableEq κ] {f : κ → Option α} {es : List (κ × α)}
    (h : ∀ e ∈ es, f e.1 = some e.2) {k : κ} {v : α} :
    get? k (ofList es) = some v ↔ (k, v) ∈ es := by
  refine ⟨fun hget => mem_of_mem_ofList (mem_of_get? hget), fun hmem => ?_⟩
  induction es with
  | nil => cases hmem
  | cons e rest ih =>
    have hrest : ∀ d ∈ rest, f d.1 = some d.2 := fun d hd => h d (List.mem_cons_of_mem e hd)
    rw [get?_ofList_cons]
    rcases List.mem_cons.mp hmem with rfl | hmem
    · cases hlater : get? k (ofList rest) with
      | none => simp
      | some v' =>
        have hv' := hrest _ (mem_of_mem_ofList (mem_of_get? hlater))
        rw [h (k, v) List.mem_cons_self] at hv'
        exact hv'.symm
    · rw [ih hrest hmem, Option.some_or]

theorem ofList_of_pairwise {es : List (κ × α)} (h : es.Pairwise KeyLt) : ofList es = es :=
  eq_of_perm (pairwise_ofList es) h (perm_ofList (pairwise_key_ne h))

/-- With distinct keys, the order of building a map does not matter. -/
theorem ofList_eq_of_perm {a b : List (κ × α)} (h : a.Perm b)
    (ha : a.Pairwise fun x y => x.1 ≠ y.1) : ofList a = ofList b := by
  have hb : b.Pairwise fun x y => x.1 ≠ y.1 := h.pairwise ha fun hxy => Ne.symm hxy
  exact eq_of_perm (pairwise_ofList a) (pairwise_ofList b)
    (((perm_ofList ha).trans h).trans (perm_ofList hb).symm)

end Ordered

end Entries

namespace SortedMap

variable {κ : Type u} [Ord κ] [LawfulEqOrd κ] {α : Type v} {β : Type w}

theorem get?_map (m : SortedMap κ α) (f : κ → α → β) (k : κ) :
    (m.map f).get? k = (m.get? k).map (f k) :=
  Entries.get?_map f k m.entries

theorem mem_entries_iff {m : SortedMap κ α} {k : κ} {v : α} :
    (k, v) ∈ m.entries ↔ m.get? k = some v :=
  Entries.mem_iff_get? m.sorted

theorem get?_filter_eq_some {m : SortedMap κ α} {p : κ → α → Bool} {k : κ} {v : α} :
    (m.filter p).get? k = some v ↔ m.get? k = some v ∧ p k v = true := by
  rw [← mem_entries_iff, ← mem_entries_iff]
  exact List.mem_filter

theorem contains_iff {m : SortedMap κ α} {k : κ} : m.contains k = true ↔ k ∈ m.keys := by
  rw [contains, Option.isSome_iff_exists, keys, List.mem_map]
  constructor
  · rintro ⟨v, hv⟩
    exact ⟨(k, v), mem_entries_iff.mpr hv, rfl⟩
  · rintro ⟨⟨_, v⟩, hmem, rfl⟩
    exact ⟨v, mem_entries_iff.mp hmem⟩

variable [TransOrd κ]

theorem ext_get? {a b : SortedMap κ α} (h : ∀ k, a.get? k = b.get? k) : a = b :=
  SortedMap.ext (Entries.ext_get? a.sorted b.sorted h)

theorem ofList_entries (m : SortedMap κ α) : ofList m.entries = m :=
  SortedMap.ext (Entries.ofList_of_pairwise m.sorted)

theorem get?_foldl_insert (m : SortedMap κ α) {es : List (κ × α)} (hs : es.Pairwise KeyLt)
    (k : κ) : (es.foldl (fun m e => m.insert e.1 e.2) m).get? k =
      (Entries.get? k es).or (m.get? k) := by
  induction es generalizing m with
  | nil => rfl
  | cons e rest ih =>
    obtain ⟨hlt, hrest⟩ := List.pairwise_cons.mp hs
    rw [List.foldl_cons, ih _ hrest, Entries.get?]
    split
    · next heq =>
      obtain rfl : k = e.1 := compare_eq_iff_eq.mp heq
      rw [Entries.get?_eq_none_of_forall_lt hlt, get?_insert_self]
      rfl
    · next hne =>
      have hk : k ≠ e.1 := fun h => hne (compare_eq_iff_eq.mpr h)
      rw [get?_insert_of_ne m e.2 hk]

omit [LawfulEqOrd κ] in
theorem nodup_keys (m : SortedMap κ α) : m.keys.Nodup :=
  List.pairwise_map.mpr (Entries.pairwise_key_ne m.sorted)

end SortedMap

end StoryMachine
