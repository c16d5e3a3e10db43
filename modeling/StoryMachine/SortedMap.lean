/-!
# Finite maps kept in key order

`SortedMap κ α` lists its entries in strictly increasing key order, so a map has one
representation and equality of maps is equality of their entry lists. Everything the
machine stores by name (variables, counts, list items, named content) is such a map,
and whatever walks one of them meets the entries in key order.

* `insert` replaces the entry of a key or adds one, `insertIfNew` only adds one, `erase`
  drops it, `get?` reads it;
* `ofList` builds a map from its end, so that a list in key order takes linear time;
* `get?_insert_self`, `get?_insert_of_ne` : reading after writing.
-/

open Std

namespace StoryMachine

universe u v w

/-- The order of keys, strict: the first key comes before the second. -/
def KeyLt {κ : Type u} [Ord κ] {α : Type v} (a b : κ × α) : Prop :=
  compare a.1 b.1 = .lt

/-- A finite map whose entries stand in strictly increasing key order. -/
structure SortedMap (κ : Type u) [Ord κ] (α : Type v) where
  entries : List (κ × α)
  sorted : entries.Pairwise KeyLt := by exact List.Pairwise.nil

namespace Entries

variable {κ : Type u} [Ord κ] {α : Type v} {β : Type w}

/-- Put `v` at `k`: the entry of an equal key is replaced, otherwise the new entry goes
in front of the first greater key. -/
def insert (k : κ) (v : α) : List (κ × α) → List (κ × α)
  | [] => [(k, v)]
  | e :: rest =>
    match compare k e.1 with
    | .lt => (k, v) :: e :: rest
    | .eq => (e.1, v) :: rest
    | .gt => e :: insert k v rest

/-- Put `v` at `k`, unless there is an entry for it. -/
def insertIfNew (k : κ) (v : α) : List (κ × α) → List (κ × α)
  | [] => [(k, v)]
  | e :: rest =>
    match compare k e.1 with
    | .lt => (k, v) :: e :: rest
    | .eq => e :: rest
    | .gt => e :: insertIfNew k v rest

/-- The value at `k`, if there is an entry for it. -/
def get? (k : κ) : List (κ × α) → Option α
  | [] => none
  | e :: rest => if compare k e.1 = .eq then some e.2 else get? k rest

/-- Drop every entry of `k`. -/
def erase (k : κ) (es : List (κ × α)) : List (κ × α) :=
  es.filter fun e => compare k e.1 != .eq

theorem key_mem_insert {k : κ} {v : α} {es : List (κ × α)} {e : κ × α}
    (h : e ∈ insert k v es) : e.1 = k ∨ ∃ e' ∈ es, e'.1 = e.1 := by
  induction es with
  | nil => simp [insert] at h; simp [h]
  | cons d rest ih =>
    rw [insert] at h
    split at h
    · rcases List.mem_cons.mp h with rfl | h
      · exact .inl rfl
      · exact .inr ⟨e, h, rfl⟩
    · rcases List.mem_cons.mp h with rfl | h
      · exact .inr ⟨d, by simp, rfl⟩
      · exact .inr ⟨e, by simp [h], rfl⟩
    · rcases List.mem_cons.mp h with rfl | h
      · exact .inr ⟨e, by simp, rfl⟩
      · rcases ih h with h | ⟨e', he', hk⟩
        · exact .inl h
        · exact .inr ⟨e', by simp [he'], hk⟩

theorem pairwise_insert [TransOrd κ] (k : κ) (v : α) {es : List (κ × α)}
    (h : es.Pairwise KeyLt) : (insert k v es).Pairwise KeyLt := by
  induction es with
  | nil => simp [insert]
  | cons e rest ih =>
    have hrest := (List.pairwise_cons.mp h).1
    rw [insert]
    split
    · next hlt =>
      refine List.pairwise_cons.mpr ⟨fun d hd => ?_, h⟩
      rcases List.mem_cons.mp hd with rfl | hd
      · exact hlt
      · exact TransCmp.lt_trans hlt (hrest d hd)
    · exact List.pairwise_cons.mpr ⟨fun d hd => hrest d hd, (List.pairwise_cons.mp h).2⟩
    · next hgt =>
      refine List.pairwise_cons.mpr ⟨fun d hd => ?_, ih (List.pairwise_cons.mp h).2⟩
      have hlt : compare e.1 k = .lt := OrientedCmp.gt_iff_lt.mp hgt
      rcases key_mem_insert hd with hk | ⟨d', hd', hk⟩
      · simpa [KeyLt, hk] using hlt
      · have := hrest d' hd'
        simpa [KeyLt, hk] using this

/-- What `insertIfNew` leaves at a key is what `insert` would have to put there. -/
theorem insert_get?_insertIfNew [TransOrd κ] (k : κ) (v : α) (es : List (κ × α)) :
    insert k ((get? k (insertIfNew k v es)).getD v) es = insertIfNew k v es := by
  induction es with
  | nil => simp [insertIfNew, insert, get?]
  | cons e rest ih =>
    rw [insertIfNew, insert]
    cases h : compare k e.1 with
    | lt => simp [get?]
    | eq => simp [get?, h]
    | gt => simpa [get?, h] using ih

theorem pairwise_insertIfNew [TransOrd κ] (k : κ) (v : α) {es : List (κ × α)}
    (h : es.Pairwise KeyLt) : (insertIfNew k v es).Pairwise KeyLt :=
  insert_get?_insertIfNew k v es ▸ pairwise_insert k _ h

/-- The entries of a list in key order, where a later entry of a key replaces an earlier
one. -/
def ofList (es : List (κ × α)) : List (κ × α) :=
  es.foldr (fun e rest => insertIfNew e.1 e.2 rest) []

theorem pairwise_ofList [TransOrd κ] (es : List (κ × α)) : (ofList es).Pairwise KeyLt := by
  induction es with
  | nil => exact .nil
  | cons e rest ih => exact pairwise_insertIfNew e.1 e.2 ih

theorem get?_insert_self [TransOrd κ] (k : κ) (v : α) (es : List (κ × α)) :
    get? k (insert k v es) = some v := by
  induction es with
  | nil => simp [insert, get?]
  | cons e rest ih =>
    rw [insert]
    split
    · simp [get?]
    · next h => simp [get?, h]
    · next h => simp [get?, h, ih]

theorem get?_insert_of_ne [TransOrd κ] [LawfulEqOrd κ] {k k' : κ} (v : α)
    (es : List (κ × α)) (h : k' ≠ k) : get? k' (insert k v es) = get? k' es := by
  induction es with
  | nil => simp [insert, get?, h]
  | cons e rest ih =>
    rw [insert]
    split
    · simp [get?, h]
    · next he =>
      have : k = e.1 := compare_eq_iff_eq.mp he
      simp [get?, ← this, h]
    · simp [get?, ih]

theorem get?_erase_self (k : κ) (es : List (κ × α)) : get? k (erase k es) = none := by
  unfold erase
  induction es with
  | nil => rfl
  | cons e rest ih =>
    by_cases h : compare k e.1 = .eq
    · simpa [h] using ih
    · simpa [h, get?] using ih

theorem get?_erase_of_ne [TransOrd κ] [LawfulEqOrd κ] {k k' : κ} (es : List (κ × α))
    (h : k' ≠ k) : get? k' (erase k es) = get? k' es := by
  unfold erase
  induction es with
  | nil => rfl
  | cons e rest ih =>
    by_cases he : compare k e.1 = .eq
    · have hk : k = e.1 := compare_eq_iff_eq.mp he
      have hne : compare k' e.1 ≠ .eq := fun h' => h (hk ▸ compare_eq_iff_eq.mp h')
      simpa [he, get?, hne] using ih
    · simp [he, get?, ih]

end Entries

namespace SortedMap

variable {κ : Type u} [Ord κ] {α : Type v} {β : Type w}

@[ext]
theorem ext {a b : SortedMap κ α} (h : a.entries = b.entries) : a = b := by
  cases a; cases b; cases h; rfl

/-- The map without entries. -/
def empty : SortedMap κ α := ⟨[], .nil⟩

instance : Inhabited (SortedMap κ α) := ⟨empty⟩

instance : EmptyCollection (SortedMap κ α) := ⟨empty⟩

instance [BEq κ] [BEq α] : BEq (SortedMap κ α) := ⟨fun a b => a.entries == b.entries⟩

/-- The value at `k`. -/
def get? (m : SortedMap κ α) (k : κ) : Option α :=
  Entries.get? k m.entries

/-- Whether `k` has an entry. -/
def contains (m : SortedMap κ α) (k : κ) : Bool :=
  (m.get? k).isSome

/-- Number of entries. -/
def size (m : SortedMap κ α) : Nat :=
  m.entries.length

/-- Whether there is no entry. -/
def isEmpty (m : SortedMap κ α) : Bool :=
  m.entries.isEmpty

/-- The keys, in order. -/
def keys (m : SortedMap κ α) : List κ :=
  m.entries.map Prod.fst

/-- Put `v` at `k`, replacing what stood there. -/
def insert [TransOrd κ] (m : SortedMap κ α) (k : κ) (v : α) : SortedMap κ α :=
  ⟨Entries.insert k v m.entries, Entries.pairwise_insert k v m.sorted⟩

/-- Drop the entry of `k`. -/
def erase (m : SortedMap κ α) (k : κ) : SortedMap κ α :=
  ⟨Entries.erase k m.entries, m.sorted.sublist List.filter_sublist⟩

/-- Keep the entries that satisfy `p`. -/
def filter (m : SortedMap κ α) (p : κ → α → Bool) : SortedMap κ α :=
  ⟨m.entries.filter fun e => p e.1 e.2, m.sorted.sublist List.filter_sublist⟩

/-- Change every value by a function of its key and itself. -/
def map (m : SortedMap κ α) (f : κ → α → β) : SortedMap κ β :=
  ⟨m.entries.map fun e => (e.1, f e.1 e.2), by
    rw [List.pairwise_map]
    exact m.sorted⟩

/-- The map holding `es`, where a later entry of a key replaces an earlier one. -/
def ofList [TransOrd κ] (es : List (κ × α)) : SortedMap κ α :=
  ⟨Entries.ofList es, Entries.pairwise_ofList es⟩

/-- The map with one entry. -/
def singleton (k : κ) (v : α) : SortedMap κ α :=
  ⟨[(k, v)], by simp⟩

@[simp]
theorem get?_empty (k : κ) : (empty : SortedMap κ α).get? k = none := rfl

@[simp]
theorem get?_insert_self [TransOrd κ] (m : SortedMap κ α) (k : κ) (v : α) :
    (m.insert k v).get? k = some v :=
  Entries.get?_insert_self k v m.entries

theorem get?_insert_of_ne [TransOrd κ] [LawfulEqOrd κ] (m : SortedMap κ α) {k k' : κ} (v : α)
    (h : k' ≠ k) : (m.insert k v).get? k' = m.get? k' :=
  Entries.get?_insert_of_ne v m.entries h

@[simp]
theorem get?_erase_self (m : SortedMap κ α) (k : κ) : (m.erase k).get? k = none :=
  Entries.get?_erase_self k m.entries

theorem get?_erase_of_ne [TransOrd κ] [LawfulEqOrd κ] (m : SortedMap κ α) {k k' : κ}
    (h : k' ≠ k) : (m.erase k).get? k' = m.get? k' :=
  Entries.get?_erase_of_ne m.entries h

end SortedMap

/-- A map from names, in the order of their characters' code points. -/
abbrev Table (α : Type u) := SortedMap String α

end StoryMachine
