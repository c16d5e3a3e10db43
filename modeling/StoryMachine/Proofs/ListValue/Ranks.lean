import Mathlib.Data.List.Nodup
import Mathlib.Logic.Function.Basic
import StoryMachine.Proofs.Maps
import StoryMachine.Value.Operator

/-!
# Shifting ranks

A definition is found under its own name, so an item leads to its definition by its origin, and from
there to its rank: the definitions of a story give every item at most one rank
(`ListDefinitions.rankOf?`). Where no two items of a definition have the same rank, the way back is
open too, and an item is told by its origin and its rank (`ListDefinitions.eq_of_rankOf?`).

A number next to a list changes the ranks of its items, and each item is replaced by the one of its
definition that has the changed rank, if there is one (`ListDefinitions.ShiftsTo`). As the change
goes around the range, it has an inverse on all ranks, so that

* no two items are shifted to one (`ShiftsTo.left_unique`), nor one to two
  (`ShiftsTo.right_unique`);
* a shifted list holds what its items are shifted to (`ListValue.get?_shift`);
* the opposite shift brings back every item that is still there (`ListValue.get?_shift_shift`).

`Operator.shifts_are_reversible` says this of the operators.
-/

namespace StoryMachine

/-! ## Items of a definition -/

namespace ListDefinition

variable {d : ListDefinition} {i j : Item} {rank : Int32}

theorem mem_entries_iff :
    (i, rank) ∈ d.entries ↔ i.origin = some d.name ∧ d.rank? i.name = some rank := by
  unfold entries
  rw [List.mem_map]
  constructor
  · rintro ⟨⟨name, r⟩, hmem, heq⟩
    cases heq
    exact ⟨rfl, SortedMap.mem_entries_iff.mp hmem⟩
  · rintro ⟨horigin, hrank⟩
    obtain ⟨origin, name⟩ := i
    obtain rfl : origin = some d.name := horigin
    exact ⟨(name, rank), SortedMap.mem_entries_iff.mpr hrank, rfl⟩

theorem mem_entries_of_itemOfRank? (h : d.itemOfRank? rank = some i) : (i, rank) ∈ d.entries := by
  obtain ⟨e, he, rfl⟩ := Option.map_eq_some_iff.mp h
  have hrank : e.2 = rank := by simpa using List.find?_some he
  exact List.mem_map.mpr ⟨e, List.mem_of_find?_eq_some he, by rw [hrank]⟩

/-- No two items of the definition have the same rank. -/
def RanksDiffer (d : ListDefinition) : Prop :=
  (d.items.entries.map Prod.snd).Nodup

instance : DecidablePred RanksDiffer := fun d =>
  inferInstanceAs (Decidable (d.items.entries.map Prod.snd).Nodup)

theorem RanksDiffer.eq_of_mem (hd : d.RanksDiffer) (hi : (i, rank) ∈ d.entries)
    (hj : (j, rank) ∈ d.entries) : i = j := by
  obtain ⟨a, ha, heqa⟩ := List.mem_map.mp hi
  obtain ⟨b, hb, heqb⟩ := List.mem_map.mp hj
  obtain ⟨rfl, hranka⟩ := Prod.mk.inj heqa
  obtain ⟨rfl, hrankb⟩ := Prod.mk.inj heqb
  rw [List.inj_on_of_nodup_map hd ha hb (hranka.trans hrankb.symm)]

/-- Where ranks differ, the item found for a rank is the one that has it. -/
theorem RanksDiffer.itemOfRank?_eq_some_iff (hd : d.RanksDiffer) :
    d.itemOfRank? rank = some i ↔ (i, rank) ∈ d.entries := by
  refine ⟨mem_entries_of_itemOfRank?, fun hmem => ?_⟩
  cases hfound : d.itemOfRank? rank with
  | some j => rw [hd.eq_of_mem (mem_entries_of_itemOfRank? hfound) hmem]
  | none =>
    obtain ⟨e, he, heq⟩ := List.mem_map.mp hmem
    have hrank : e.2 = rank := congrArg Prod.snd heq
    have hnone := List.find?_eq_none.mp (Option.map_eq_none_iff.mp hfound) e he
    exact absurd (beq_iff_eq.mpr hrank) hnone

end ListDefinition

/-! ## Items of a story -/

namespace ListDefinitions

variable {ds : ListDefinitions} {defs : List ListDefinition} {d : ListDefinition} {name : String}
  {i j : Item} {rank : Int32}

theorem find?_foldl_add (h : (defs.foldl add ds).find? name = some d) :
    (d ∈ defs ∧ d.name = name) ∨ ds.find? name = some d := by
  induction defs generalizing ds with
  | nil => exact .inr h
  | cons e rest ih =>
    obtain ⟨hmem, hname⟩ | h := ih h
    · exact .inl ⟨List.mem_cons_of_mem e hmem, hname⟩
    · by_cases hname : name = e.name
      · subst hname
        have hself : some e = some d := (ds.lists.get?_insert_self e.name e).symm.trans h
        cases hself
        exact .inl ⟨List.mem_cons_self, rfl⟩
      · exact .inr ((ds.lists.get?_insert_of_ne e hname).symm.trans h)

/-- A definition is found under its own name. -/
theorem find?_ofList (h : (ofList defs).find? name = some d) : d ∈ defs ∧ d.name = name :=
  (find?_foldl_add h).resolve_right nofun

/-- The rank that the definitions give to an item. -/
def rankOf? (ds : ListDefinitions) (i : Item) : Option Int32 := do
  let d ← ds.find? (← i.origin)
  d.rank? i.name

theorem rankOf?_eq_some_iff : ds.rankOf? i = some rank ↔
    ∃ name d, i.origin = some name ∧ ds.find? name = some d ∧ d.rank? i.name = some rank := by
  simp only [rankOf?, Option.bind_eq_bind, Option.bind_eq_some_iff]
  constructor
  · rintro ⟨name, horigin, d, hfind, hrank⟩
    exact ⟨name, d, horigin, hfind, hrank⟩
  · rintro ⟨name, d, horigin, hfind, hrank⟩
    exact ⟨name, horigin, d, hfind, hrank⟩

/-- The items of a definition are those that come from it and have a rank. -/
theorem mem_entries_iff_rankOf? (hfind : (ofList defs).find? name = some d) :
    (i, rank) ∈ d.entries ↔ i.origin = some name ∧ (ofList defs).rankOf? i = some rank := by
  obtain ⟨-, rfl⟩ := find?_ofList hfind
  rw [ListDefinition.mem_entries_iff, rankOf?_eq_some_iff]
  constructor
  · rintro ⟨horigin, hrank⟩
    exact ⟨horigin, d.name, d, horigin, hfind, hrank⟩
  · rintro ⟨horigin, name, d', horigin', hfind', hrank⟩
    obtain rfl : d.name = name := Option.some_inj.mp (horigin.symm.trans horigin')
    obtain rfl : d = d' := Option.some_inj.mp (hfind.symm.trans hfind')
    exact ⟨horigin, hrank⟩

/-- Where ranks differ, an item is told by its origin and its rank. -/
theorem eq_of_rankOf? (hdefs : ∀ d ∈ defs, d.RanksDiffer) (horigin : i.origin = j.origin)
    (hi : (ofList defs).rankOf? i = some rank) (hj : (ofList defs).rankOf? j = some rank) :
    i = j := by
  obtain ⟨name, d, hname, hfind, -⟩ := rankOf?_eq_some_iff.mp hi
  have hi' := (mem_entries_iff_rankOf? hfind).mpr ⟨hname, hi⟩
  have hj' := (mem_entries_iff_rankOf? hfind).mpr ⟨horigin ▸ hname, hj⟩
  exact (hdefs d (find?_ofList hfind).1).eq_of_mem hi' hj'

end ListDefinitions

namespace ListValue

variable {l : ListValue} {ds : ListDefinitions} {i : Item} {rank : Int32}

theorem has_iff_exists_get? : l.has i ↔ ∃ rank, l.items.get? i = some rank := by
  rw [has, SortedMap.contains, Option.isSome_iff_exists]

/-- Every item of the list is one of its definition, and has the rank that it has there. -/
def Drawn (l : ListValue) (ds : ListDefinitions) : Prop :=
  ∀ e ∈ l.items.entries, ds.rankOf? e.1 = some e.2

instance (ds : ListDefinitions) : DecidablePred (Drawn · ds) := fun l =>
  inferInstanceAs (Decidable (∀ e ∈ l.items.entries, ds.rankOf? e.1 = some e.2))

theorem Drawn.rankOf? (hl : l.Drawn ds) (h : l.items.get? i = some rank) :
    ds.rankOf? i = some rank :=
  hl (i, rank) (SortedMap.mem_entries_iff.mpr h)

end ListValue

/-! ## Where items are shifted -/

namespace ListDefinitions

variable {ds : ListDefinitions} {defs : List ListDefinition} {change back : Int32 → Int32}
  {i j k : Item} {rank : Int32}

/-- The item `k` is the one of the definition of `i` that has the rank of `i` as it is changed. -/
def ShiftsTo (ds : ListDefinitions) (change : Int32 → Int32) (i k : Item) : Prop :=
  k.origin = i.origin ∧ ∃ rank, ds.rankOf? i = some rank ∧ ds.rankOf? k = some (change rank)

theorem ShiftsTo.right_unique (hdefs : ∀ d ∈ defs, d.RanksDiffer)
    (hj : (ofList defs).ShiftsTo change i j) (hk : (ofList defs).ShiftsTo change i k) : j = k := by
  obtain ⟨hoj, rank, hi, hj⟩ := hj
  obtain ⟨hok, rank', hi', hk⟩ := hk
  obtain rfl : rank = rank' := Option.some_inj.mp (hi.symm.trans hi')
  exact eq_of_rankOf? hdefs (hoj.trans hok.symm) hj hk

theorem ShiftsTo.left_unique (hdefs : ∀ d ∈ defs, d.RanksDiffer) (hchange : change.Injective)
    (hi : (ofList defs).ShiftsTo change i k) (hj : (ofList defs).ShiftsTo change j k) : i = j := by
  obtain ⟨hoi, rank, hi, hk⟩ := hi
  obtain ⟨hoj, rank', hj, hk'⟩ := hj
  obtain rfl : rank = rank' := hchange (Option.some_inj.mp (hk.symm.trans hk'))
  exact eq_of_rankOf? hdefs (hoi.symm.trans hoj) hi hj

theorem ShiftsTo.symm (hback : back.LeftInverse change) (h : ds.ShiftsTo change i k) :
    ds.ShiftsTo back k i := by
  obtain ⟨horigin, rank, hi, hk⟩ := h
  exact ⟨horigin.symm, change rank, hk, by rw [hback rank, hi]⟩

/-- What an item is shifted to is found in its definition by the changed rank. -/
theorem shiftsTo_iff (hdefs : ∀ d ∈ defs, d.RanksDiffer) {name : String} {d : ListDefinition}
    (hname : i.origin = some name) (hfind : (ofList defs).find? name = some d)
    (hi : (ofList defs).rankOf? i = some rank) :
    (ofList defs).ShiftsTo change i k ↔ d.itemOfRank? (change rank) = some k := by
  have hd := hdefs d (find?_ofList hfind).1
  rw [hd.itemOfRank?_eq_some_iff, mem_entries_iff_rankOf? hfind, ShiftsTo, hname]
  simp only [hi, Option.some_inj, exists_eq_left']

end ListDefinitions

/-! ## Shifted lists -/

namespace ListValue

open ListDefinitions

variable {defs : List ListDefinition} {l : ListValue} {change back : Int32 → Int32} {i k : Item}
  {rank : Int32}

/-- A shifted list holds what its items are shifted to, with the ranks that these have. -/
theorem get?_shift (hdefs : ∀ d ∈ defs, d.RanksDiffer) (hl : l.Drawn (ofList defs)) :
    (l.shift (ofList defs) change).items.get? k = some rank ↔
      (ofList defs).rankOf? k = some rank ∧ ∃ i, l.has i ∧ (ofList defs).ShiftsTo change i k := by
  let moved := l.items.entries.filterMap fun e => do
    let d ← (ofList defs).find? (← e.1.origin)
    let i ← d.itemOfRank? (change e.2)
    return (i, change e.2)
  have hmoved : ∀ {k rank}, (k, rank) ∈ moved ↔ (ofList defs).rankOf? k = some rank ∧
      ∃ i, l.has i ∧ (ofList defs).ShiftsTo change i k := by
    intro k rank
    simp only [moved, List.mem_filterMap, Option.bind_eq_bind, Option.bind_eq_some_iff]
    constructor
    · rintro ⟨⟨i, r⟩, hmem, name, hname, d, hfind, k', hk', heq⟩
      cases heq
      have hi := SortedMap.mem_entries_iff.mp hmem
      have hk := (mem_entries_iff_rankOf? hfind).mp (ListDefinition.mem_entries_of_itemOfRank? hk')
      exact ⟨hk.2, i, has_iff_exists_get?.mpr ⟨r, hi⟩,
        (shiftsTo_iff hdefs hname hfind (hl.rankOf? hi)).mpr hk'⟩
    · rintro ⟨hk, i, hi, hshift⟩
      obtain ⟨r, hr⟩ := has_iff_exists_get?.mp hi
      obtain ⟨name, d, hname, hfind, -⟩ := rankOf?_eq_some_iff.mp (hl.rankOf? hr)
      have hk' := (shiftsTo_iff hdefs hname hfind (hl.rankOf? hr)).mp hshift
      have hrank := (mem_entries_iff_rankOf? hfind).mp
        (ListDefinition.mem_entries_of_itemOfRank? hk')
      obtain rfl : rank = change r := Option.some_inj.mp (hk.symm.trans hrank.2)
      exact ⟨(i, r), SortedMap.mem_entries_iff.mpr hr, name, hname, d, hfind, k, hk', rfl⟩
  have hrank : ∀ e ∈ moved, (ofList defs).rankOf? e.1 = some e.2 := fun e he => (hmoved.mp he).1
  exact (Entries.get?_ofList_eq_some hrank).trans hmoved

theorem drawn_shift (hdefs : ∀ d ∈ defs, d.RanksDiffer) (hl : l.Drawn (ofList defs)) :
    (l.shift (ofList defs) change).Drawn (ofList defs) := fun _ he =>
  ((get?_shift hdefs hl).mp (SortedMap.mem_entries_iff.mp he)).1

/-- The opposite shift brings back the items that were shifted anywhere, and no others. -/
theorem get?_shift_shift (hdefs : ∀ d ∈ defs, d.RanksDiffer) (hl : l.Drawn (ofList defs))
    (hback : back.LeftInverse change) :
    ((l.shift (ofList defs) change).shift (ofList defs) back).items.get? i = some rank ↔
      l.items.get? i = some rank ∧ ∃ k, (ofList defs).ShiftsTo change i k := by
  rw [get?_shift hdefs (drawn_shift hdefs hl)]
  constructor
  · rintro ⟨hrank, k, hk, hki⟩
    obtain ⟨_, hk⟩ := has_iff_exists_get?.mp hk
    obtain ⟨-, j, hj, hjk⟩ := (get?_shift hdefs hl).mp hk
    obtain rfl : i = j := ShiftsTo.right_unique hdefs hki (hjk.symm hback)
    obtain ⟨r, hr⟩ := has_iff_exists_get?.mp hj
    obtain rfl : r = rank := Option.some_inj.mp ((hl.rankOf? hr).symm.trans hrank)
    exact ⟨hr, k, hjk⟩
  · rintro ⟨hi, k, hik⟩
    have hhas : l.has i := has_iff_exists_get?.mpr ⟨rank, hi⟩
    obtain ⟨-, r, -, hk⟩ := id hik
    have hshifted := (get?_shift hdefs hl).mpr ⟨hk, i, hhas, hik⟩
    exact ⟨hl.rankOf? hi, k, has_iff_exists_get?.mpr ⟨_, hshifted⟩, hik.symm hback⟩

end ListValue

namespace Operator

open ListDefinitions ListValue

/-- **Shifts of ranks are reversible.** Let ranks differ inside each definition, and let the items
of a list have the ranks of their definitions. A list plus a number holds exactly what the items of
the list are shifted to; an item is shifted to one item at most, and no two items to the same. Minus
the number again, it holds the items of the list that were shifted to some item, with their ranks:
all items of the list just when none was dropped. -/
theorem shifts_are_reversible {defs : List ListDefinition} (hdefs : ∀ d ∈ defs, d.RanksDiffer)
    {l : ListValue} (hl : l.Drawn (ofList defs)) (n : Int32) :
    ∃ up back : ListValue,
      add.apply (ofList defs) [.list l, .int n] = .ok (.list up) ∧
      subtract.apply (ofList defs) [.list up, .int n] = .ok (.list back) ∧
      (∀ k rank, up.items.get? k = some rank ↔ (ofList defs).rankOf? k = some rank ∧
        ∃ i, l.has i ∧ (ofList defs).ShiftsTo (· + n) i k) ∧
      (∀ i j k, (ofList defs).ShiftsTo (· + n) i j → (ofList defs).ShiftsTo (· + n) i k → j = k) ∧
      (∀ i j k, (ofList defs).ShiftsTo (· + n) i k → (ofList defs).ShiftsTo (· + n) j k → i = j) ∧
      (∀ i rank, back.items.get? i = some rank ↔
        l.items.get? i = some rank ∧ ∃ k, (ofList defs).ShiftsTo (· + n) i k) ∧
      (back.items = l.items ↔ ∀ i, l.has i → ∃ k, (ofList defs).ShiftsTo (· + n) i k) := by
  have hback : Function.LeftInverse (· - n) (· + n) := fun rank => Int32.add_sub_cancel rank n
  let up := l.shift (ofList defs) (· + n)
  let back := up.shift (ofList defs) (· - n)
  have hreturned : ∀ i rank, back.items.get? i = some rank ↔
      l.items.get? i = some rank ∧ ∃ k, (ofList defs).ShiftsTo (· + n) i k :=
    fun i rank => get?_shift_shift hdefs hl hback
  refine ⟨up, back, rfl, rfl, fun k rank => get?_shift hdefs hl,
    fun i j k => ShiftsTo.right_unique hdefs,
    fun i j k => ShiftsTo.left_unique hdefs hback.injective, hreturned, ?_⟩
  constructor
  · intro heq i hi
    obtain ⟨rank, hrank⟩ := has_iff_exists_get?.mp hi
    exact ((hreturned i rank).mp (heq ▸ hrank)).2
  · intro hall
    refine SortedMap.ext_get? fun i => Option.ext fun rank => ?_
    rw [hreturned i rank]
    exact and_iff_left_of_imp fun hi => hall i (has_iff_exists_get?.mpr ⟨rank, hi⟩)

end Operator

/-- Letters, one of them at the end of the range of ranks and one at its beginning. -/
def greek : ListDefinition :=
  ⟨"greek", .ofList [("alpha", 1), ("beta", 2), ("psi", Int32.maxValue), ("omega", Int32.minValue)]⟩

/-- Three of the letters. -/
def letters : ListValue :=
  ⟨.ofList [(greek.item "alpha", 1), (greek.item "beta", 2), (greek.item "psi", Int32.maxValue)],
    none⟩

/-- One further, the letter at the end of the range goes around it, and *beta* is dropped. -/
theorem letters_shift_around : (∀ d ∈ [greek], d.RanksDiffer) ∧ letters.Drawn (.ofList [greek]) ∧
    ∃ up back : ListValue,
      Operator.add.apply (.ofList [greek]) [.list letters, .int 1] = .ok (.list up) ∧
      Operator.subtract.apply (.ofList [greek]) [.list up, .int 1] = .ok (.list back) ∧
      up.items.get? (greek.item "omega") = some Int32.minValue ∧
      back.items.get? (greek.item "psi") = some Int32.maxValue ∧
      back.items ≠ letters.items := by
  have hdefs : ∀ d ∈ [greek], d.RanksDiffer := by decide
  have hl : letters.Drawn (.ofList [greek]) := by decide
  have hpsi : (ListDefinitions.ofList [greek]).ShiftsTo (· + 1) (greek.item "psi")
      (greek.item "omega") := ⟨rfl, Int32.maxValue, by decide, by decide⟩
  obtain ⟨up, back, hup, hdown, hshifted, -, -, hreturned, hall⟩ :=
    Operator.shifts_are_reversible hdefs hl 1
  refine ⟨hdefs, hl, up, back, hup, hdown, ?_, ?_, fun heq => ?_⟩
  · exact (hshifted _ _).mpr ⟨by decide, greek.item "psi", by decide, hpsi⟩
  · exact (hreturned _ _).mpr ⟨by decide, greek.item "omega", hpsi⟩
  · obtain ⟨k, hk⟩ := hall.mp heq (greek.item "beta") (by decide)
    have hfind : (ListDefinitions.ofList [greek]).find? "greek" = some greek := rfl
    have hbeta : (ListDefinitions.ofList [greek]).rankOf? (greek.item "beta") = some 2 := by decide
    have hthree : greek.itemOfRank? 3 = some k :=
      (ListDefinitions.shiftsTo_iff hdefs rfl hfind hbeta).mp hk
    have hnone : greek.itemOfRank? 3 = none := by decide
    rw [hnone] at hthree
    contradiction

end StoryMachine
