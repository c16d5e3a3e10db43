import Mathlib.Logic.Basic
import StoryMachine.ListValue.Basic
import StoryMachine.Proofs.Maps

/-!
# The order of lists

Lists are compared by their ends. Sorted by rank, the first item of a list has the least rank and
the last one the greatest, and all comparisons look at these two ranks only. Lists without items
have rules of their own: such a list is below every list that has an item, and above none, not even
itself (`ListValue.greater_iff`, `ListValue.greaterOrEqual_iff`).

The laws follow from those of the order of ranks, and from the least rank being at most the
greatest. Where both lists have items, the comparison of the ends is one of all pairs of items
(`ListValue.greater_iff_outranks`).

* `ListValue.minRank_spec`, `ListValue.maxRank_spec` : the ranks at the ends;
* `ListValue.less_eq_greater`, `ListValue.lessOrEqual_eq_greaterOrEqual` : the two directions;
* `ListValue.comparisons_are_orders` : the laws of the comparisons.
-/

namespace StoryMachine

namespace ListValue

variable {a b c l : ListValue} {i : Item} {e : Item × Int32} {rank : Int32}

/-! ## The ends of a list -/

theorem mem_ordered : e ∈ l.ordered ↔ e ∈ l.items.entries :=
  List.mem_mergeSort

theorem pairwise_ordered (l : ListValue) : l.ordered.Pairwise fun e e' => e.2 ≤ e'.2 := by
  have hsorted : l.ordered.Pairwise fun e e' => decide (e.2 ≤ e'.2) := by
    refine List.pairwise_mergeSort (fun x y z hxy hyz => ?_) (fun x y => ?_) l.items.entries
    · exact decide_eq_true (Int32.le_trans (of_decide_eq_true hxy) (of_decide_eq_true hyz))
    · simpa using Int32.le_total x.2 y.2
  exact hsorted.imp of_decide_eq_true

theorem ordered_eq_nil_iff : l.ordered = [] ↔ l.isEmpty = true := by
  rw [← List.length_eq_zero_iff, ordered, List.length_mergeSort, List.length_eq_zero_iff, isEmpty,
    SortedMap.isEmpty, List.isEmpty_iff]

theorem min?_eq_none_iff : l.min? = none ↔ l.isEmpty = true :=
  List.head?_eq_none_iff.trans ordered_eq_nil_iff

theorem max?_eq_none_iff : l.max? = none ↔ l.isEmpty = true :=
  List.getLast?_eq_none_iff.trans ordered_eq_nil_iff

/-- The item that comes first has the least rank. -/
theorem rank_le_of_min? (h : l.min? = some e) {e' : Item × Int32} (he' : e' ∈ l.items.entries) :
    e.2 ≤ e'.2 := by
  obtain ⟨rest, hordered⟩ := List.head?_eq_some_iff.mp h
  have hsorted := l.pairwise_ordered
  rw [← mem_ordered] at he'
  rw [hordered] at hsorted he'
  rcases List.mem_cons.mp he' with rfl | he'
  · exact Int32.le_refl _
  · exact List.rel_of_pairwise_cons hsorted he'

/-- The item that comes last has the greatest rank. -/
theorem le_rank_of_max? (h : l.max? = some e) {e' : Item × Int32} (he' : e' ∈ l.items.entries) :
    e'.2 ≤ e.2 := by
  obtain ⟨init, hordered⟩ := List.getLast?_eq_some_iff.mp h
  have hsorted := l.pairwise_ordered
  rw [← mem_ordered] at he'
  rw [hordered] at hsorted he'
  rcases List.mem_append.mp he' with he' | he'
  · exact (List.pairwise_append.mp hsorted).2.2 e' he' e List.mem_cons_self
  · rw [List.mem_singleton.mp he']
    exact Int32.le_refl _

theorem minRank_of_min? (h : l.min? = some e) : l.minRank = e.2 := by
  rw [minRank, h]
  rfl

theorem maxRank_of_max? (h : l.max? = some e) : l.maxRank = e.2 := by
  rw [maxRank, h]
  rfl

/-- The least rank is that of an item, and no item has a lesser one. -/
theorem minRank_spec (h : l.isEmpty = false) :
    (∃ i, l.items.get? i = some l.minRank) ∧
      ∀ i rank, l.items.get? i = some rank → l.minRank ≤ rank := by
  cases hmin : l.min? with
  | none => simp [min?_eq_none_iff.mp hmin] at h
  | some e =>
    rw [minRank_of_min? hmin]
    refine ⟨⟨e.1, ?_⟩, fun i rank hi => rank_le_of_min? hmin (SortedMap.mem_entries_iff.mpr hi)⟩
    exact SortedMap.mem_entries_iff.mp (mem_ordered.mp (List.mem_of_head? hmin))

/-- The greatest rank is that of an item, and no item has a greater one. -/
theorem maxRank_spec (h : l.isEmpty = false) :
    (∃ i, l.items.get? i = some l.maxRank) ∧
      ∀ i rank, l.items.get? i = some rank → rank ≤ l.maxRank := by
  cases hmax : l.max? with
  | none => simp [max?_eq_none_iff.mp hmax] at h
  | some e =>
    rw [maxRank_of_max? hmax]
    refine ⟨⟨e.1, ?_⟩, fun i rank hi => le_rank_of_max? hmax (SortedMap.mem_entries_iff.mpr hi)⟩
    exact SortedMap.mem_entries_iff.mp (mem_ordered.mp (List.mem_of_getLast? hmax))

theorem minRank_le_maxRank (h : l.isEmpty = false) : l.minRank ≤ l.maxRank := by
  obtain ⟨i, hi⟩ := (minRank_spec h).1
  exact (maxRank_spec h).2 i l.minRank hi

/-! ## Comparisons by the ends -/

theorem greater_eq (a b : ListValue) :
    a.greater b = (!a.isEmpty && (b.isEmpty || decide (b.maxRank < a.minRank))) := by
  unfold greater
  cases hmin : a.min? with
  | none => simp [min?_eq_none_iff.mp hmin]
  | some e =>
    have ha : a.isEmpty = false := by simp [← Bool.not_eq_true, ← min?_eq_none_iff, hmin]
    cases hmax : b.max? with
    | none => simp [ha, max?_eq_none_iff.mp hmax]
    | some e' =>
      have hb : b.isEmpty = false := by simp [← Bool.not_eq_true, ← max?_eq_none_iff, hmax]
      simp [ha, hb, minRank_of_min? hmin, maxRank_of_max? hmax]

theorem less_eq_greater (a b : ListValue) : a.less b = b.greater a := by
  unfold less greater
  cases a.max? <;> cases b.min? <;> rfl

theorem lessOrEqual_eq_greaterOrEqual (a b : ListValue) : a.lessOrEqual b = b.greaterOrEqual a := by
  unfold lessOrEqual greaterOrEqual
  rw [Bool.and_comm]

theorem greater_iff : a.greater b ↔
    a.isEmpty = false ∧ (b.isEmpty = false → b.maxRank < a.minRank) := by
  rw [greater_eq]
  cases a.isEmpty <;> cases b.isEmpty <;> simp

theorem greaterOrEqual_iff : a.greaterOrEqual b ↔ a.isEmpty = false ∧
    (b.isEmpty = false → b.minRank ≤ a.minRank ∧ b.maxRank ≤ a.maxRank) := by
  unfold greaterOrEqual
  cases a.isEmpty <;> cases b.isEmpty <;> simp

theorem not_greater_self (a : ListValue) : ¬a.greater a := by
  intro h
  obtain ⟨ha, hlt⟩ := greater_iff.mp h
  exact Int32.lt_irrefl (Int32.lt_of_lt_of_le (hlt ha) (minRank_le_maxRank ha))

theorem greater_trans (hab : a.greater b) (hbc : b.greater c) : a.greater c := by
  obtain ⟨ha, hab⟩ := greater_iff.mp hab
  obtain ⟨hb, hbc⟩ := greater_iff.mp hbc
  refine greater_iff.mpr ⟨ha, fun hc => ?_⟩
  have hmiddle : c.maxRank < b.maxRank := Int32.lt_of_lt_of_le (hbc hc) (minRank_le_maxRank hb)
  exact Int32.lt_trans hmiddle (hab hb)

theorem greaterOrEqual_of_greater (h : a.greater b) : a.greaterOrEqual b := by
  obtain ⟨ha, hab⟩ := greater_iff.mp h
  refine greaterOrEqual_iff.mpr ⟨ha, fun hb => ?_⟩
  have hleast : b.minRank < a.minRank := Int32.lt_of_le_of_lt (minRank_le_maxRank hb) (hab hb)
  have hgreatest : b.maxRank < a.maxRank := Int32.lt_of_lt_of_le (hab hb) (minRank_le_maxRank ha)
  exact ⟨Int32.le_of_lt hleast, Int32.le_of_lt hgreatest⟩

theorem greaterOrEqual_self (ha : a.isEmpty = false) : a.greaterOrEqual a :=
  greaterOrEqual_iff.mpr ⟨ha, fun _ => ⟨Int32.le_refl _, Int32.le_refl _⟩⟩

theorem greaterOrEqual_trans (hab : a.greaterOrEqual b) (hbc : b.greaterOrEqual c) :
    a.greaterOrEqual c := by
  obtain ⟨ha, hab⟩ := greaterOrEqual_iff.mp hab
  obtain ⟨hb, hbc⟩ := greaterOrEqual_iff.mp hbc
  refine greaterOrEqual_iff.mpr ⟨ha, fun hc => ?_⟩
  exact ⟨Int32.le_trans (hbc hc).1 (hab hb).1, Int32.le_trans (hbc hc).2 (hab hb).2⟩

/-- Among lists with items, the ends tell what holds of all pairs of items. -/
theorem greater_iff_outranks (ha : a.isEmpty = false) (hb : b.isEmpty = false) :
    a.greater b ↔ ∀ i j high low, a.items.get? i = some high → b.items.get? j = some low →
      low < high := by
  rw [greater_iff]
  constructor
  · rintro ⟨-, hlt⟩ i j high low hi hj
    have hlow : low < a.minRank := Int32.lt_of_le_of_lt ((maxRank_spec hb).2 j low hj) (hlt hb)
    exact Int32.lt_of_lt_of_le hlow ((minRank_spec ha).2 i high hi)
  · intro h
    obtain ⟨i, hi⟩ := (minRank_spec ha).1
    obtain ⟨j, hj⟩ := (maxRank_spec hb).1
    exact ⟨ha, fun _ => h i j a.minRank b.maxRank hi hj⟩

/-- **Comparisons of lists are orders.** To be less is to be greater the other way round, also where
equality is allowed. For all lists, with items or without, *greater* is irreflexive and transitive
and implies *greater or equal*, which is transitive, and reflexive on lists with items. Of two lists
with items, one is greater just when every item of it outranks every item of the other. -/
theorem comparisons_are_orders (a b c : ListValue) :
    a.less b = b.greater a ∧
    a.lessOrEqual b = b.greaterOrEqual a ∧
    ¬a.greater a ∧
    (a.greater b → b.greater c → a.greater c) ∧
    (a.greater b → a.greaterOrEqual b) ∧
    (a.greaterOrEqual b → b.greaterOrEqual c → a.greaterOrEqual c) ∧
    (a.isEmpty = false → a.greaterOrEqual a) ∧
    (a.isEmpty = false → b.isEmpty = false →
      (a.greater b ↔ ∀ i j high low, a.items.get? i = some high → b.items.get? j = some low →
        low < high)) :=
  ⟨less_eq_greater a b, lessOrEqual_eq_greaterOrEqual a b, not_greater_self a, greater_trans,
    greaterOrEqual_of_greater, greaterOrEqual_trans, greaterOrEqual_self, greater_iff_outranks⟩

/-- The list of one medal. -/
def medal (name : String) (rank : Int32) : ListValue :=
  single ⟨some "medals", name⟩ rank

/-- Gold is above silver, which is above no medal at all. -/
theorem medals_are_ordered :
    (medal "gold" 3).greater (medal "silver" 2) ∧ (medal "silver" 2).greater empty ∧
    (medal "gold" 3).greater empty ∧ (medal "gold" 3).greaterOrEqual (medal "silver" 2) ∧
    (medal "silver" 2).greaterOrEqual empty ∧ (medal "gold" 3).greaterOrEqual empty ∧
    (medal "gold" 3).isEmpty = false ∧ (medal "gold" 3).greaterOrEqual (medal "gold" 3) ∧
    (medal "silver" 2).isEmpty = false ∧
    ∀ i j high low, (medal "gold" 3).items.get? i = some high →
      (medal "silver" 2).items.get? j = some low → low < high := by
  obtain ⟨-, -, -, htrans, himp, htrans', hself, hall⟩ :=
    comparisons_are_orders (medal "gold" 3) (medal "silver" 2) empty
  have hgreater : (medal "gold" 3).greater (medal "silver" 2) := by
    simp [medal, single, greater, min?, max?, ordered, SortedMap.singleton]
  have hsilver : (medal "silver" 2).greater empty := greater_iff.mpr ⟨rfl, nofun⟩
  have hsilver' : (medal "silver" 2).greaterOrEqual empty := by decide
  have hgold : (medal "gold" 3).isEmpty = false := rfl
  exact ⟨hgreater, hsilver, htrans hgreater hsilver, himp hgreater, hsilver',
    htrans' (himp hgreater) hsilver', hgold, hself hgold, rfl, (hall hgold rfl).mp hgreater⟩

end ListValue

end StoryMachine
