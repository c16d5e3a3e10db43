import Mathlib.Data.List.Basic
import Mathlib.Tactic.ByContra
import StoryMachine.Proofs.ListValue.Ranks

/-!
# Definitions that a list belongs to

A list with items belongs to the definitions that its items come from, and to no others. What it
remembers beside them counts only when the last item is gone. So the definitions that a result
belongs to depend on how it came about where it has no items, and on its items alone where it has
some.

To add a list and take it away again leaves the items of the first list that are not in the second.
As long as one is left, the definitions are those of what is left: all of them are definitions of
the first list, but not all of its definitions need stay. When nothing is left, the definitions of
the items that were there are remembered, so that every item of them can be had back
(`ListValue.union_is_taken_back`).

The inverse of a list has the other items of its definitions, and remembers nothing. It belongs to
the definitions that the list leaves out an item of (`ListValue.LeavesOut`), so to invert a list
twice gives its items from those definitions: the list itself, if it leaves out an item of each of
its definitions (`ListValue.inverse_completes`).

* `ListValue.BelongsTo`, `ListValue.belongsTo_iff` : the definitions of a list;
* `ListValue.get?_all`, `ListValue.get?_inverse` : all items of these definitions, and those that
  are not in the list;
* `ListValue.get?_unionWithout`, `ListValue.BelongsTo.unionWithout` : what is left of a union;
* `ListValue.get?_all_inverse`, `ListValue.Drawn.get?_inverse_inverse` : what is left of an inverse.
-/

namespace StoryMachine

/-! ## Names, each once -/

theorem mem_eraseRepsBy_loop {x y : String} {xs acc : List String} :
    x ∈ List.eraseRepsBy.loop (· == ·) y xs acc ↔ x = y ∨ x ∈ xs ∨ x ∈ acc := by
  induction xs generalizing y acc with
  | nil => simp [List.eraseRepsBy.loop, or_comm]
  | cons z rest ih =>
    rw [List.eraseRepsBy.loop]
    split
    · next h =>
      obtain rfl : y = z := eq_of_beq h
      rw [ih, List.mem_cons, or_assoc, or_self_left]
    · rw [ih, List.mem_cons, List.mem_cons, or_assoc, or_left_comm (b := x = y),
        or_left_comm (b := x = y)]

theorem mem_eraseReps {x : String} {xs : List String} : x ∈ xs.eraseReps ↔ x ∈ xs := by
  cases xs with
  | nil => rfl
  | cons y rest =>
    rw [List.mem_cons]
    exact mem_eraseRepsBy_loop.trans (by simp)

namespace ListValue

variable {a b l : ListValue} {ds : ListDefinitions} {defs : List ListDefinition} {i : Item}
  {name : String} {rank : Int32}

/-! ## The definitions of a list -/

/-- The list belongs to the definition of this name. -/
def BelongsTo (l : ListValue) (name : String) : Prop :=
  ∃ names, l.origins = some names ∧ name ∈ names

theorem isEmpty_eq_false_of_has (h : l.has i) : l.isEmpty = false := by
  obtain ⟨rank, hrank⟩ := has_iff_exists_get?.mp h
  rw [isEmpty, SortedMap.isEmpty, List.isEmpty_eq_false_iff]
  exact List.ne_nil_of_mem (SortedMap.mem_entries_iff.mpr hrank)

theorem not_has_of_isEmpty (h : l.isEmpty) (i : Item) : ¬l.has i := fun hi => by
  rw [isEmpty_eq_false_of_has hi] at h
  contradiction

theorem origins_of_isEmpty (h : l.isEmpty) : l.origins = l.emptyOrigins :=
  if_pos h

/-- A list with items belongs to the definitions of its items. -/
theorem belongsTo_iff (h : l.isEmpty = false) :
    l.BelongsTo name ↔ ∃ i, l.has i ∧ i.origin = some name := by
  have horigins : l.origins = some (l.items.keys.filterMap Item.origin).eraseReps :=
    if_neg (Bool.eq_false_iff.mp h)
  simp only [BelongsTo, horigins, Option.some_inj, exists_eq_left', mem_eraseReps,
    List.mem_filterMap, ← SortedMap.contains_iff]
  rfl

theorem belongsTo_of_has (hi : l.has i) (hname : i.origin = some name) : l.BelongsTo name :=
  (belongsTo_iff (isEmpty_eq_false_of_has hi)).mpr ⟨i, hi, hname⟩

theorem mem_definitions {d : ListDefinition} :
    d ∈ l.definitions ds ↔ ∃ name, l.BelongsTo name ∧ ds.find? name = some d := by
  unfold definitions BelongsTo
  rw [List.mem_filterMap]
  cases l.origins with
  | none => simp
  | some names => simp

/-- All items are those of the definitions that the list belongs to. -/
theorem get?_all : (l.all (.ofList defs)).items.get? i = some rank ↔
    (ListDefinitions.ofList defs).rankOf? i = some rank ∧
      ∃ name, i.origin = some name ∧ l.BelongsTo name := by
  have hmem : ∀ e : Item × Int32,
      e ∈ (l.definitions (.ofList defs)).flatMap ListDefinition.entries ↔
        (ListDefinitions.ofList defs).rankOf? e.1 = some e.2 ∧
          ∃ name, e.1.origin = some name ∧ l.BelongsTo name := by
    intro e
    simp only [List.mem_flatMap, mem_definitions]
    constructor
    · rintro ⟨d, ⟨name, hname, hfind⟩, he⟩
      obtain ⟨horigin, hrank⟩ := (ListDefinitions.mem_entries_iff_rankOf? hfind).mp he
      exact ⟨hrank, name, horigin, hname⟩
    · rintro ⟨hrank, name, horigin, hname⟩
      obtain ⟨name', d, horigin', hfind, -⟩ := ListDefinitions.rankOf?_eq_some_iff.mp hrank
      obtain rfl : name = name' := Option.some_inj.mp (horigin.symm.trans horigin')
      exact ⟨d, ⟨name, hname, hfind⟩,
        (ListDefinitions.mem_entries_iff_rankOf? hfind).mpr ⟨horigin, hrank⟩⟩
  exact (Entries.get?_ofList_eq_some fun e he => ((hmem e).mp he).1).trans (hmem (i, rank))

theorem get?_inverse : (l.inverse ds).items.get? i = some rank ↔
    (l.all ds).items.get? i = some rank ∧ ¬l.has i := by
  rw [inverse, SortedMap.get?_filter_eq_some, Bool.not_eq_true', Bool.not_eq_true]

/-! ## Adding a list and taking it away -/

theorem get?_union (a b : ListValue) (i : Item) :
    (a.union b).items.get? i = (b.items.get? i).or (a.items.get? i) :=
  SortedMap.get?_foldl_insert a.items b.items.sorted i

theorem has_union : (a.union b).has i ↔ a.has i ∨ b.has i := by
  simp only [has, SortedMap.contains, get?_union, Option.isSome_or, Bool.or_eq_true, or_comm]

theorem get?_without : (a.without b).items.get? i = some rank ↔
    a.items.get? i = some rank ∧ ¬b.has i := by
  rw [without, SortedMap.get?_filter_eq_some, Bool.not_eq_true', Bool.not_eq_true]

theorem origins_keepOrigins (l : ListValue) : l.keepOrigins.origins = l.origins := by
  unfold keepOrigins origins isEmpty
  split <;> rfl

theorem union_of_isEmpty (a : ListValue) (hb : b.isEmpty) : a.union b = a.keepOrigins := by
  rw [union, List.isEmpty_iff.mp hb]
  rfl

theorem without_of_isEmpty (a : ListValue) (hb : b.isEmpty) : a.without b = a.keepOrigins := by
  have hall : ∀ e ∈ a.items.entries, (!b.has e.1) = true := fun e _ => by
    rw [Bool.not_eq_true', Bool.eq_false_iff]
    exact not_has_of_isEmpty hb e.1
  rw [without, keepOrigins]
  congr 1
  exact SortedMap.ext (List.filter_eq_self.mpr hall)

/-- What is left of the first list when the second one is added and taken away again. -/
def unionWithout (a b : ListValue) : ListValue :=
  (a.union b).without b

theorem get?_unionWithout : (a.unionWithout b).items.get? i = some rank ↔
    a.items.get? i = some rank ∧ ¬b.has i := by
  rw [unionWithout, get?_without, get?_union]
  refine and_congr_left fun hb => ?_
  have hnone : b.items.get? i = none := Option.not_isSome_iff_eq_none.mp hb
  rw [hnone, Option.none_or]

theorem has_unionWithout : (a.unionWithout b).has i ↔ a.has i ∧ ¬b.has i := by
  simp only [has_iff_exists_get? (l := a.unionWithout b), get?_unionWithout, exists_and_right,
    ← has_iff_exists_get?]

theorem origins_unionWithout_of_isEmpty (hb : b.isEmpty) :
    (a.unionWithout b).origins = a.origins := by
  rw [unionWithout, without_of_isEmpty _ hb, union_of_isEmpty a hb, origins_keepOrigins,
    origins_keepOrigins]

/-- When nothing is left, the definitions of the items that were there are remembered. -/
theorem BelongsTo.unionWithout (hname : a.BelongsTo name) (ha : a.isEmpty = false)
    (hempty : (a.unionWithout b).isEmpty) : (a.unionWithout b).BelongsTo name := by
  obtain ⟨i, hi, horigin⟩ := (belongsTo_iff ha).mp hname
  have hunion : (a.union b).BelongsTo name := belongsTo_of_has (has_union.mpr (.inl hi)) horigin
  rw [BelongsTo, origins_of_isEmpty hempty]
  exact hunion

theorem belongsTo_of_unionWithout (hname : (a.unionWithout b).BelongsTo name) :
    a.BelongsTo name ∨ b.BelongsTo name := by
  cases hempty : (a.unionWithout b).isEmpty with
  | false =>
    obtain ⟨i, hi, horigin⟩ := (belongsTo_iff hempty).mp hname
    exact .inl (belongsTo_of_has (has_unionWithout.mp hi).1 horigin)
  | true =>
    rw [BelongsTo, origins_of_isEmpty hempty] at hname
    have hunion : (a.union b).BelongsTo name := hname
    cases hnone : (a.union b).isEmpty with
    | false =>
      obtain ⟨i, hi, horigin⟩ := (belongsTo_iff hnone).mp hunion
      exact (has_union.mp hi).imp (belongsTo_of_has · horigin) (belongsTo_of_has · horigin)
    | true =>
      rw [BelongsTo, origins_of_isEmpty hnone] at hunion
      exact .inl hunion

/-- **What a union leaves.** When a list is added and taken away again, exactly the items stay that
are not in it, with their ranks. If one stays, the result belongs to the definitions of what stays,
which the first list belonged to as well. If none stays of a list with items, the result belongs to
each definition that the list belonged to, so that the items of these definitions are in its *all*
and in its *inverse*. In no case does it belong to a definition that neither list belonged to, and
to add and take away a list without items changes nothing about the definitions. -/
theorem union_is_taken_back (a b : ListValue) :
    (∀ i rank, (a.unionWithout b).items.get? i = some rank ↔
      a.items.get? i = some rank ∧ ¬b.has i) ∧
    ((a.unionWithout b).isEmpty = false → ∀ name,
      ((a.unionWithout b).BelongsTo name ↔ ∃ i, a.has i ∧ ¬b.has i ∧ i.origin = some name) ∧
      ((a.unionWithout b).BelongsTo name → a.BelongsTo name)) ∧
    ((a.unionWithout b).isEmpty → a.isEmpty = false →
      (∀ name, a.BelongsTo name → (a.unionWithout b).BelongsTo name) ∧
      ∀ defs i rank, (a.all (.ofList defs)).items.get? i = some rank →
        ((a.unionWithout b).all (.ofList defs)).items.get? i = some rank ∧
        ((a.unionWithout b).inverse (.ofList defs)).items.get? i = some rank) ∧
    (∀ name, (a.unionWithout b).BelongsTo name → a.BelongsTo name ∨ b.BelongsTo name) ∧
    (b.isEmpty → (a.unionWithout b).origins = a.origins) := by
  refine ⟨fun i rank => get?_unionWithout, fun hleft name => ?_, fun hempty ha => ?_,
    fun name => belongsTo_of_unionWithout, origins_unionWithout_of_isEmpty⟩
  · have hnames : (a.unionWithout b).BelongsTo name ↔
        ∃ i, a.has i ∧ ¬b.has i ∧ i.origin = some name := by
      simp only [belongsTo_iff hleft, has_unionWithout, and_assoc]
    refine ⟨hnames, fun hname => ?_⟩
    obtain ⟨i, hi, -, horigin⟩ := hnames.mp hname
    exact belongsTo_of_has hi horigin
  · have hnames : ∀ name, a.BelongsTo name → (a.unionWithout b).BelongsTo name :=
      fun _ hname => hname.unionWithout ha hempty
    refine ⟨hnames, fun defs i rank hi => ?_⟩
    obtain ⟨hrank, name, horigin, hname⟩ := get?_all.mp hi
    have hall := get?_all.mpr ⟨hrank, name, horigin, hnames name hname⟩
    exact ⟨hall, get?_inverse.mpr ⟨hall, not_has_of_isEmpty hempty i⟩⟩

end ListValue

/-! ### Colours and sizes -/

namespace Wardrobe

def colours : ListDefinition := ⟨"colours", .ofList [("red", 1), ("blue", 2)]⟩

def sizes : ListDefinition := ⟨"sizes", .ofList [("small", 1), ("big", 2)]⟩

def defs : List ListDefinition := [colours, sizes]

def red : Item × Int32 := (colours.item "red", 1)

def blue : Item × Int32 := (colours.item "blue", 2)

def small : Item × Int32 := (sizes.item "small", 1)

def big : Item × Int32 := (sizes.item "big", 2)

/-- The list of some items with their ranks. -/
def worn (es : List (Item × Int32)) : ListValue := ⟨.ofList es, none⟩

/-- The items that both lists have, they have with the same ranks. -/
def Agree (a b : ListValue) : Prop :=
  ∀ i r r', a.items.get? i = some r → b.items.get? i = some r' → r = r'

theorem agree_of_drawn {a b : ListValue} (ha : a.Drawn (.ofList defs))
    (hb : b.Drawn (.ofList defs)) : Agree a b := fun _ _ _ hr hr' =>
  Option.some_inj.mp ((ha.rankOf? hr).symm.trans (hb.rankOf? hr'))

/-- What *red* and *big* leave of *big* belongs to the colours, and so does what *red* leaves of
itself. -/
theorem red_keeps_colours :
    ((worn [red, big]).unionWithout (worn [big])).isEmpty = false ∧
    (∃ i, (worn [red, big]).has i ∧ ¬(worn [big]).has i ∧ i.origin = some "colours") ∧
    ((worn [red, big]).unionWithout (worn [big])).BelongsTo "colours" ∧
    ((worn [red]).unionWithout (worn [red])).isEmpty ∧ (worn [red]).isEmpty = false ∧
    (worn [red]).BelongsTo "colours" ∧
    ((worn [red]).unionWithout (worn [red])).BelongsTo "colours" := by
  have hleft : ((worn [red, big]).unionWithout (worn [big])).isEmpty = false := by decide
  have hempty : ((worn [red]).unionWithout (worn [red])).isEmpty := by decide
  have hred : (worn [red]).isEmpty = false := by decide
  have hstays : ∃ i, (worn [red, big]).has i ∧ ¬(worn [big]).has i ∧ i.origin = some "colours" :=
    ⟨red.1, by decide, by decide, rfl⟩
  have hname : (worn [red]).BelongsTo "colours" := ⟨["colours"], by decide, by decide⟩
  obtain ⟨-, hsome, -⟩ := ListValue.union_is_taken_back (worn [red, big]) (worn [big])
  obtain ⟨-, -, hnone, -⟩ := ListValue.union_is_taken_back (worn [red]) (worn [red])
  exact ⟨hleft, hstays, (hsome hleft "colours").1.mpr hstays, hempty, hred, hname,
    (hnone hempty hred).1 "colours" hname⟩

/-- Origins follow the items. Without *big*, what was *red* and *big* belongs to the colours only.
And what is added and taken away leaves its definitions where no item is left, beside those of *red*
and in place of those that a list without items has remembered. -/
theorem origins_follow_items :
    (Agree (worn [red, big]) (worn [big]) ∧ (worn [red, big]).origins = some ["colours", "sizes"] ∧
      ((worn [red, big]).unionWithout (worn [big])).origins = some ["colours"]) ∧
    (Agree (worn [red]) (worn [red, big]) ∧ (worn [red]).origins = some ["colours"] ∧
      ((worn [red]).unionWithout (worn [red, big])).origins = some ["colours", "sizes"]) ∧
    (Agree (.ofOrigin "colours") (worn [big]) ∧
      (ListValue.ofOrigin "colours").origins = some ["colours"] ∧
      ((ListValue.ofOrigin "colours").unionWithout (worn [big])).origins = some ["sizes"]) :=
  ⟨⟨agree_of_drawn (by decide) (by decide), by decide, by decide⟩,
    ⟨agree_of_drawn (by decide) (by decide), by decide, by decide⟩,
    ⟨agree_of_drawn (by decide) (by decide), by decide, by decide⟩⟩

end Wardrobe

namespace ListValue

variable {l : ListValue} {ds : ListDefinitions} {defs : List ListDefinition} {i : Item}
  {name : String} {rank : Int32}

/-! ## The inverse of a list -/

/-- The list leaves out an item of the definition that `i` comes from. -/
def LeavesOut (l : ListValue) (ds : ListDefinitions) (i : Item) : Prop :=
  ∃ j, j.origin = i.origin ∧ (l.inverse ds).has j

theorem has_inverse_iff : (l.inverse ds).has i ↔ (l.all ds).has i ∧ ¬l.has i := by
  simp only [has_iff_exists_get? (l := l.inverse ds), has_iff_exists_get? (l := l.all ds),
    get?_inverse, exists_and_right]

/-- An inverse remembers nothing beside its items. -/
theorem belongsTo_inverse : (l.inverse ds).BelongsTo name ↔
    ∃ j, (l.inverse ds).has j ∧ j.origin = some name := by
  cases hempty : (l.inverse ds).isEmpty with
  | false => exact belongsTo_iff hempty
  | true =>
    refine iff_of_false ?_ fun ⟨j, hj, _⟩ => not_has_of_isEmpty hempty j hj
    rintro ⟨names, horigins, -⟩
    rw [origins_of_isEmpty hempty] at horigins
    cases horigins

theorem Drawn.get?_all (hl : l.Drawn (.ofList defs)) (h : l.items.get? i = some rank) :
    (l.all (.ofList defs)).items.get? i = some rank := by
  have hrank := hl.rankOf? h
  obtain ⟨name, -, horigin, -, -⟩ := ListDefinitions.rankOf?_eq_some_iff.mp hrank
  refine ListValue.get?_all.mpr ⟨hrank, name, horigin, ?_⟩
  exact belongsTo_of_has (has_iff_exists_get?.mpr ⟨rank, h⟩) horigin

theorem get?_all_inverse :
    ((l.inverse (.ofList defs)).all (.ofList defs)).items.get? i = some rank ↔
      (l.all (.ofList defs)).items.get? i = some rank ∧ l.LeavesOut (.ofList defs) i := by
  simp only [get?_all, belongsTo_inverse]
  constructor
  · rintro ⟨hrank, name, horigin, j, hj, hname⟩
    refine ⟨⟨hrank, name, horigin, ?_⟩, j, hname.trans horigin.symm, hj⟩
    -- the item left out is one of the list's definitions
    obtain ⟨_, hall⟩ := has_iff_exists_get?.mp (has_inverse_iff.mp hj).1
    obtain ⟨-, name', hname', hbelongs⟩ := get?_all.mp hall
    obtain rfl : name = name' := Option.some_inj.mp (hname.symm.trans hname')
    exact hbelongs
  · rintro ⟨⟨hrank, name, horigin, -⟩, j, hsame, hj⟩
    exact ⟨hrank, name, horigin, j, hj, hsame.trans horigin⟩

theorem Drawn.get?_inverse_inverse (hl : l.Drawn (.ofList defs)) :
    ((l.inverse (.ofList defs)).inverse (.ofList defs)).items.get? i = some rank ↔
      l.items.get? i = some rank ∧ l.LeavesOut (.ofList defs) i := by
  rw [get?_inverse, get?_all_inverse, has_inverse_iff]
  constructor
  · rintro ⟨⟨hall, hout⟩, hin⟩
    have hhas : l.has i := by
      by_contra hnot
      exact hin ⟨has_iff_exists_get?.mpr ⟨rank, hall⟩, hnot⟩
    obtain ⟨r, hr⟩ := has_iff_exists_get?.mp hhas
    obtain rfl : r = rank := Option.some_inj.mp ((hl.get?_all hr).symm.trans hall)
    exact ⟨hr, hout⟩
  · rintro ⟨hi, hout⟩
    exact ⟨⟨hl.get?_all hi, hout⟩, fun h => h.2 (has_iff_exists_get?.mpr ⟨rank, hi⟩)⟩

/-- What is not in the list is left out itself, so it is enough to look at the items of the list. -/
theorem LeavesOut.of_forall (hout : ∀ i, l.has i → l.LeavesOut ds i) (hi : (l.all ds).has i) :
    l.LeavesOut ds i := by
  by_cases hl : l.has i
  · exact hout i hl
  · exact ⟨i, rfl, has_inverse_iff.mpr ⟨hi, hl⟩⟩

/-- **The inverse completes a list.** Let the items of a list have the ranks of their definitions.
The list and its inverse share no item, and together they are all items of its definitions. If there
is an item in the inverse, all items of the inverse's definitions are those of the definitions that
the list leaves out an item of, and to invert once more gives the items that the list has of these.
So a list that leaves out an item of each definition it has one of has the same *all* as its
inverse, and has its items again when it is inverted twice. -/
theorem inverse_completes (hl : l.Drawn (.ofList defs)) :
    (∀ i, ¬(l.has i ∧ (l.inverse (.ofList defs)).has i)) ∧
    (∀ i rank, (l.all (.ofList defs)).items.get? i = some rank ↔
      l.items.get? i = some rank ∨ (l.inverse (.ofList defs)).items.get? i = some rank) ∧
    ((l.inverse (.ofList defs)).isEmpty = false → ∀ i rank,
      (((l.inverse (.ofList defs)).all (.ofList defs)).items.get? i = some rank ↔
        (l.all (.ofList defs)).items.get? i = some rank ∧ l.LeavesOut (.ofList defs) i) ∧
      (((l.inverse (.ofList defs)).inverse (.ofList defs)).items.get? i = some rank ↔
        l.items.get? i = some rank ∧ l.LeavesOut (.ofList defs) i)) ∧
    ((∀ i, l.has i → l.LeavesOut (.ofList defs) i) →
      (l.inverse (.ofList defs)).all (.ofList defs) = l.all (.ofList defs) ∧
      ((l.inverse (.ofList defs)).inverse (.ofList defs)).items = l.items) := by
  refine ⟨fun i h => (has_inverse_iff.mp h.2).2 h.1, fun i rank => ?_,
    fun _ i rank => ⟨get?_all_inverse, hl.get?_inverse_inverse⟩, fun hout => ⟨?_, ?_⟩⟩
  · rw [get?_inverse]
    constructor
    · intro hall
      by_cases hi : l.has i
      · obtain ⟨r, hr⟩ := has_iff_exists_get?.mp hi
        obtain rfl : r = rank := Option.some_inj.mp ((hl.get?_all hr).symm.trans hall)
        exact .inl hr
      · exact .inr ⟨hall, hi⟩
    · rintro (hi | ⟨hall, -⟩)
      · exact hl.get?_all hi
      · exact hall
  · have hitems : ((l.inverse (.ofList defs)).all (.ofList defs)).items =
        (l.all (.ofList defs)).items := by
      refine SortedMap.ext_get? fun i => Option.ext fun rank => ?_
      rw [get?_all_inverse]
      exact and_iff_left_of_imp fun hi => .of_forall hout (has_iff_exists_get?.mpr ⟨rank, hi⟩)
    exact congrArg (ListValue.mk · none) hitems
  · refine SortedMap.ext_get? fun i => Option.ext fun rank => ?_
    rw [hl.get?_inverse_inverse]
    exact and_iff_left_of_imp fun hi => hout i (has_iff_exists_get?.mpr ⟨rank, hi⟩)

end ListValue

namespace Wardrobe

/-- A colour and a size leave out the other ones, and come back. -/
theorem red_and_small_come_back :
    (worn [red, small]).Drawn (.ofList defs) ∧
    (∀ i, (worn [red, small]).has i → (worn [red, small]).LeavesOut (.ofList defs) i) ∧
    ((worn [red, small]).inverse (.ofList defs)).all (.ofList defs) =
      (worn [red, small]).all (.ofList defs) ∧
    (((worn [red, small]).inverse (.ofList defs)).inverse (.ofList defs)).items =
      (worn [red, small]).items := by
  have hdrawn : (worn [red, small]).Drawn (.ofList defs) := by decide
  have hout : ∀ i, (worn [red, small]).has i → (worn [red, small]).LeavesOut (.ofList defs) i := by
    have hentries : (worn [red, small]).items.entries = [red, small] := by decide
    intro i hi
    obtain ⟨rank, hrank⟩ := ListValue.has_iff_exists_get?.mp hi
    have hmem : (i, rank) ∈ [red, small] := hentries ▸ SortedMap.mem_entries_iff.mpr hrank
    rcases List.mem_cons.mp hmem with hred | hsmall
    · cases hred
      exact ⟨blue.1, rfl, by decide⟩
    · cases List.mem_singleton.mp hsmall
      exact ⟨big.1, rfl, by decide⟩
  exact ⟨hdrawn, hout, (ListValue.inverse_completes hdrawn).2.2.2 hout⟩

/-- When both colours are worn, the inverse does not know of them any more. -/
theorem exhausted_colours_are_lost :
    ((worn [red, blue, small]).Drawn (.ofList defs) ∧
      (((worn [red, blue, small]).inverse (.ofList defs)).all (.ofList defs)).items.entries =
        [big, small] ∧
      ((worn [red, blue, small]).all (.ofList defs)).items.entries = [blue, red, big, small] ∧
      (((worn [red, blue, small]).inverse (.ofList defs)).inverse (.ofList defs)).items.entries =
        [small]) ∧
    ((worn [red, blue]).Drawn (.ofList defs) ∧
      (((worn [red, blue]).inverse (.ofList defs)).all (.ofList defs)).items.entries = [] ∧
      ((worn [red, blue]).all (.ofList defs)).items.entries = [blue, red] ∧
      (((worn [red, blue]).inverse (.ofList defs)).inverse (.ofList defs)).items.entries = []) := by
  decide

end Wardrobe

end StoryMachine
