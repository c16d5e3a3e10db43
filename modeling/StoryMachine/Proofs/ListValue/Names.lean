import Mathlib.Data.List.TakeWhile
import StoryMachine.Proofs.ListValue.Origins
import StoryMachine.Proofs.PathText

/-!
# Names of items

An item is asked for by its bare name or by its full name. There are two ways to resolve a name.
The definitions of a story keep a table of single items, which is filled definition by definition;
what a later definition writes under a name replaces what was there. A list that an item is added
to looks through its own definitions instead, and takes the item only if it finds one alone.

With distinct definition names, and no point in any name, a name is read alike in every definition
(`ListDefinition.single?`), and the table holds what the last definition with such an item reads
(`ListDefinitions.single?_ofList`). For a full name there is at most one such definition. For a bare
name there may be several, and the two ways part: the table answers with the last of them, and so by
the order of the definitions; the list refuses.

* `ListDefinitions.single?_bare`, `ListDefinitions.single?_full` : what the table holds;
* `ListValue.resolveBare_eq` : what a list finds;
* `ListDefinitions.bare_names_mean_last_items` : both, and that they agree where no two definitions
  share the name.
-/

namespace StoryMachine

namespace Item

theorem parse_bare {s : String} (h : '.' ∉ s.toList) : parse s = ⟨none, s⟩ := by
  have hdrop : s.toList.dropWhile (· ≠ '.') = [] :=
    List.dropWhile_eq_nil_iff.mpr fun c hc => by simpa using fun he : c = '.' => h (he ▸ hc)
  rw [parse, Text.cutAt, hdrop]

/-- A text that reads as a bare name has no point, and is its own name. -/
theorem eq_of_parse_none {s name : String} (h : parse s = ⟨none, name⟩) : s = name := by
  unfold parse at h
  split at h
  · cases h
  · simpa using h

/-- A text that reads as a full name is that name. -/
theorem eq_of_parse_some {s origin name : String} (h : parse s = ⟨some origin, name⟩) :
    s = fullName ⟨some origin, name⟩ := by
  unfold parse Text.cutAt at h
  split at h
  · next before after hcut =>
    split at hcut
    · cases hcut
    · next c rest hdrop =>
      obtain ⟨rfl, rfl⟩ := Prod.mk.inj (Option.some_inj.mp hcut)
      obtain ⟨rfl, rfl⟩ : String.ofList _ = origin ∧ String.ofList _ = name := by simpa using h
      obtain rfl : c = '.' := by
        have hhead := List.head?_dropWhile_not (fun c : Char => decide (c ≠ '.')) s.toList
        rw [hdrop] at hhead
        simpa using hhead
      have hsplit := List.takeWhile_append_dropWhile (p := fun c : Char => decide (c ≠ '.'))
        (l := s.toList)
      rw [hdrop] at hsplit
      rw [← String.toList_inj, fullName]
      simpa using hsplit.symm
  · cases h

end Item

/-! ## One definition -/

namespace ListDefinition

variable {d e : ListDefinition} {name : String} {rank : Int32}

/-- No point stands in the name of the definition or of an item. -/
def Plain (d : ListDefinition) : Prop :=
  '.' ∉ d.name.toList ∧ ∀ n ∈ d.items.keys, '.' ∉ n.toList

instance : DecidablePred Plain := fun d =>
  inferInstanceAs (Decidable ('.' ∉ d.name.toList ∧ ∀ n ∈ d.items.keys, '.' ∉ n.toList))

/-- Whether the definition has an item of the given name. -/
def Has (d : ListDefinition) (name : String) : Prop :=
  (d.rank? name).isSome = true

instance (name : String) : DecidablePred fun d : ListDefinition => d.Has name := fun d =>
  inferInstanceAs (Decidable ((d.rank? name).isSome = true))

/-- The list of the item that a bare or full name means in this definition. -/
def single? (d : ListDefinition) (name : String) : Option ListValue :=
  let i := Item.parse name
  if i.origin.getD d.name = d.name then
    (d.rank? i.name).map (ListValue.single (d.item i.name))
  else none

theorem single?_bare (hname : '.' ∉ name.toList) (d : ListDefinition) :
    d.single? name = (d.rank? name).map (ListValue.single (d.item name)) := by
  simp [single?, Item.parse_bare hname]

theorem Plain.parse_fullName (hd : d.Plain) (name : String) :
    Item.parse (d.item name).fullName = d.item name :=
  Item.parse_fullName (i := d.item name) hd.1

theorem single?_full {origin : String} (h : '.' ∉ origin.toList) (d : ListDefinition)
    (name : String) : d.single? (Item.fullName ⟨some origin, name⟩) =
      if origin = d.name then (d.rank? name).map (ListValue.single (d.item name)) else none := by
  simp only [single?, Item.parse_fullName (i := ⟨some origin, name⟩) h]
  rfl

end ListDefinition

/-! ## The table of single items -/

namespace ListDefinitions

variable {ds : ListDefinitions} {defs other : List ListDefinition} {d : ListDefinition}
  {name : String} {l : ListValue} {rank : Int32}

/-- An item is noted under the names that mean it in its definition. -/
theorem get?_noteItem (hd : d.Plain) (hname : '.' ∉ name.toList) (singles : Table ListValue)
    (rank : Int32) (s : String) :
    (noteItem singles (d.item name, rank)).get? s =
      if (Item.parse s).origin.getD d.name = d.name ∧ (Item.parse s).name = name then
        some (.single (d.item name) rank)
      else singles.get? s := by
  show ((singles.insert name _).insert (d.item name).fullName _).get? s = _
  by_cases hfull : s = (d.item name).fullName
  · subst hfull
    rw [SortedMap.get?_insert_self, hd.parse_fullName, if_pos ⟨rfl, rfl⟩]
  rw [SortedMap.get?_insert_of_ne _ _ hfull]
  by_cases hbare : s = name
  · subst hbare
    rw [SortedMap.get?_insert_self, Item.parse_bare hname, if_pos ⟨rfl, rfl⟩]
  rw [SortedMap.get?_insert_of_ne _ _ hbare, if_neg]
  rintro ⟨horigin, rfl⟩
  cases hparse : Item.parse s with
  | mk origin name =>
    rw [hparse] at horigin hfull hbare
    cases origin with
    | none => exact hbare (Item.eq_of_parse_none hparse)
    | some origin =>
      obtain rfl : origin = d.name := horigin
      exact hfull (Item.eq_of_parse_some hparse)

theorem get?_foldl_noteItem (hd : d.Plain) {es : List (String × Int32)} (hs : es.Pairwise KeyLt)
    (hes : ∀ e ∈ es, '.' ∉ e.1.toList) (singles : Table ListValue) (s : String) :
    ((es.map fun e => (d.item e.1, e.2)).foldl noteItem singles).get? s =
      (if (Item.parse s).origin.getD d.name = d.name then
        (Entries.get? (Item.parse s).name es).map (ListValue.single (d.item (Item.parse s).name))
      else none).or (singles.get? s) := by
  induction es generalizing singles with
  | nil => simp [Entries.get?]
  | cons e rest ih =>
    obtain ⟨hlt, hrest⟩ := List.pairwise_cons.mp hs
    rw [List.map_cons, List.foldl_cons, ih hrest fun e' he' => hes e' (by simp [he']),
      get?_noteItem hd (hes e (by simp))]
    by_cases horigin : (Item.parse s).origin.getD d.name = d.name
    · simp only [horigin, true_and, if_true, Entries.get?, Std.compare_eq_iff_eq]
      by_cases hname : (Item.parse s).name = e.1
      · have hnone : Entries.get? e.1 rest = none := Entries.get?_eq_none_of_forall_lt hlt
        simp [hname, hnone]
      · simp [hname]
    · simp [horigin]

theorem single?_add (hd : d.Plain) (ds : ListDefinitions) (s : String) :
    (ds.add d).single? s = (d.single? s).or (ds.single? s) :=
  get?_foldl_noteItem hd d.items.sorted
    (fun e he => hd.2 e.1 (List.mem_map.mpr ⟨e, he, rfl⟩)) ds.singles s

theorem single?_foldl_add (hplain : ∀ d ∈ defs, d.Plain) (ds : ListDefinitions) (s : String) :
    (defs.foldl add ds).single? s =
      (defs.reverse.findSome? (·.single? s)).or (ds.single? s) := by
  induction defs generalizing ds with
  | nil => rfl
  | cons d rest ih =>
    rw [List.foldl_cons, ih (fun e he => hplain e (by simp [he])),
      single?_add (hplain d (by simp)), List.reverse_cons, List.findSome?_append, Option.or_assoc]
    simp

/-- A name means what it means in the last definition in which it means an item. -/
theorem single?_ofList (hplain : ∀ d ∈ defs, d.Plain) (s : String) :
    (ofList defs).single? s = defs.reverse.findSome? (·.single? s) := by
  rw [ofList, single?_foldl_add hplain]
  exact Option.or_none

theorem single?_eq_none_iff (hplain : ∀ d ∈ defs, d.Plain) (s : String) :
    (ofList defs).single? s = none ↔ ∀ d ∈ defs, d.single? s = none := by
  simp [single?_ofList hplain]

theorem single?_eq_of_last {front back : List ListDefinition} {s : String}
    (hplain : ∀ e ∈ front ++ d :: back, e.Plain) (hback : ∀ e ∈ back, e.single? s = none)
    (hd : d.single? s = some l) : (ofList (front ++ d :: back)).single? s = some l := by
  have hnone : back.reverse.findSome? (·.single? s) = none := by simpa using hback
  simp [single?_ofList hplain, List.findSome?_append, hnone, hd]

/-- A name that means an item in one definition alone means this item, whatever the order. -/
theorem single?_eq_some_iff {s : String} (hplain : ∀ d ∈ defs, d.Plain)
    (hone : ∀ d ∈ defs, ∀ e ∈ defs, (d.single? s).isSome → (e.single? s).isSome → d = e) :
    (ofList defs).single? s = some l ↔ ∃ d ∈ defs, d.single? s = some l := by
  rw [single?_ofList hplain]
  constructor
  · intro h
    obtain ⟨d, hd, hl⟩ := List.exists_of_findSome?_eq_some h
    exact ⟨d, List.mem_reverse.mp hd, hl⟩
  · rintro ⟨d, hd, hl⟩
    cases hfound : defs.reverse.findSome? (·.single? s) with
    | none =>
      rw [List.findSome?_eq_none_iff.mp hfound d (List.mem_reverse.mpr hd)] at hl
      cases hl
    | some l' =>
      obtain ⟨e, he, hl'⟩ := List.exists_of_findSome?_eq_some hfound
      obtain rfl := hone d hd e (List.mem_reverse.mp he) (by simp [hl]) (by simp [hl'])
      exact hl'.symm.trans hl

theorem single?_perm {s : String} (hplain : ∀ d ∈ defs, d.Plain)
    (hone : ∀ d ∈ defs, ∀ e ∈ defs, (d.single? s).isSome → (e.single? s).isSome → d = e)
    (hperm : other.Perm defs) : (ofList other).single? s = (ofList defs).single? s := by
  refine Option.ext fun l => ?_
  rw [single?_eq_some_iff hplain hone, single?_eq_some_iff
    (fun d hd => hplain d (hperm.mem_iff.mp hd)) fun d hd e he =>
      hone d (hperm.mem_iff.mp hd) e (hperm.mem_iff.mp he)]
  simp only [hperm.mem_iff]

end ListDefinitions

/-! ## Adding by a bare name -/

namespace ListValue

variable {ds : ListDefinitions} {l l' : ListValue} {d : ListDefinition} {name : String}

/-- Once an item is found, the next definition that has one of the same name is one too many. -/
theorem resolveBare_some (name : String) (found : Item × Int32) (known : List ListDefinition) :
    resolveBare name (some found) known =
      match known.find? (·.Has name) with
      | some d => .error (.request (.itemAmbiguous name d.name))
      | none => .ok (some found) := by
  induction known with
  | nil => rfl
  | cons d rest ih =>
    rw [resolveBare]
    cases hrank : d.rank? name with
    | some rank => simp [ListDefinition.Has, hrank]
    | none => simp [ListDefinition.Has, hrank, ih]

/-- A bare name means the item of the one definition that has it. -/
theorem resolveBare_eq (name : String) (known : List ListDefinition) :
    resolveBare name none known =
      match known.filter (·.Has name) with
      | [] => .ok none
      | [d] => .ok ((d.rank? name).map (d.item name, ·))
      | _ :: d :: _ => .error (.request (.itemAmbiguous name d.name)) := by
  induction known with
  | nil => rfl
  | cons d rest ih =>
    rw [resolveBare]
    cases hrank : d.rank? name with
    | none => simpa [ListDefinition.Has, hrank] using ih
    | some rank =>
      have hhead : rest.find? (·.Has name) = (rest.filter (·.Has name)).head? :=
        List.head?_filter.symm
      have hhas : d.Has name := by simp [ListDefinition.Has, hrank]
      dsimp only
      rw [if_neg (by simp), resolveBare_some, hhead, List.filter_cons_of_pos (by simpa using hhas)]
      cases rest.filter (·.Has name) with
      | nil => simp [hrank]
      | cons e more => rfl

/-- A list takes an item by its bare name just if one alone of its definitions has it. -/
theorem addItem_bare : l.addItem ⟨none, name⟩ ds = .ok l' ↔
    ∃ d rank, (l.definitions ds).filter (·.Has name) = [d] ∧ d.rank? name = some rank ∧
      l' = l.insert (d.item name) rank := by
  have hresolve : l.resolve ⟨none, name⟩ ds = resolveBare name none (l.definitions ds) := rfl
  unfold addItem
  rw [hresolve, resolveBare_eq]
  constructor
  · intro h
    split at h
    · cases h
    · next d hone =>
      cases hrank : d.rank? name with
      | none =>
        rw [hrank] at h
        cases h
      | some rank =>
        rw [hrank] at h
        cases h
        exact ⟨d, rank, hone, hrank, rfl⟩
    · cases h
  · rintro ⟨d, rank, hone, hrank, rfl⟩
    rw [hone]
    simp only [hrank]
    rfl

end ListValue

/-! ## Names that definitions share -/

namespace ListDefinitions

variable {defs other : List ListDefinition} {d : ListDefinition} {name : String}

/-- At most one definition has an item of this name. -/
def Unshared (name : String) (defs : List ListDefinition) : Prop :=
  ∀ d ∈ defs, ∀ e ∈ defs, d.Has name → e.Has name → d = e

theorem Unshared.single? (h : Unshared name defs) (hname : '.' ∉ name.toList) :
    ∀ d ∈ defs, ∀ e ∈ defs, (d.single? name).isSome → (e.single? name).isSome → d = e := by
  simpa [ListDefinition.single?_bare hname, Unshared, ListDefinition.Has] using h

theorem filter_has_eq_singleton (hnodup : defs.Nodup) :
    defs.filter (·.Has name) = [d] ↔ Unshared name defs ∧ d ∈ defs ∧ d.Has name := by
  constructor
  · intro h
    have hmem : ∀ e, e ∈ defs ∧ e.Has name ↔ e = d := fun e => by
      have he : e ∈ defs.filter (·.Has name) ↔ e ∈ [d] := by rw [h]
      simpa using he
    refine ⟨fun e he e' he' hhas hhas' => ?_, (hmem d).mpr rfl⟩
    exact ((hmem e).mp ⟨he, hhas⟩).trans ((hmem e').mp ⟨he', hhas'⟩).symm
  · rintro ⟨hone, hd, hhas⟩
    refine List.perm_singleton.mp ((List.perm_ext_iff_of_nodup (hnodup.filter _)
      (List.nodup_singleton d)).mpr fun e => ?_)
    rw [List.mem_filter, List.mem_singleton, decide_eq_true_eq]
    exact ⟨fun he => hone e he.1 d hd he.2 hhas, fun he => he ▸ ⟨hd, hhas⟩⟩

/-- With a definition moved to the end, a bare name means the item of this one. -/
theorem single?_bare_moved {front back : List ListDefinition} {rank : Int32}
    (hplain : ∀ e ∈ front ++ d :: back, e.Plain) (hname : '.' ∉ name.toList)
    (hrank : d.rank? name = some rank) :
    (front ++ back ++ [d]).Perm (front ++ d :: back) ∧
      (ofList (front ++ back ++ [d])).single? name = some (.single (d.item name) rank) := by
  have hperm : (front ++ back ++ [d]).Perm (front ++ d :: back) :=
    (List.perm_append_singleton d (front ++ back)).trans List.perm_middle.symm
  refine ⟨hperm, single?_eq_of_last (fun e he => hplain e (hperm.mem_iff.mp he)) (by simp) ?_⟩
  rw [ListDefinition.single?_bare hname, hrank]
  rfl

/-- What a bare name means depends on the order of the definitions just if two of them share it. -/
theorem unshared_iff_order_free (hnames : (defs.map ListDefinition.name).Nodup)
    (hplain : ∀ d ∈ defs, d.Plain) (hname : '.' ∉ name.toList) :
    Unshared name defs ↔
      ∀ other, other.Perm defs → (ofList other).single? name = (ofList defs).single? name := by
  constructor
  · exact fun hone other hperm => single?_perm hplain (hone.single? hname) hperm
  · intro hsame d hd e he hhas hhas'
    obtain ⟨rank, hrank⟩ := Option.isSome_iff_exists.mp hhas
    obtain ⟨rank', hrank'⟩ := Option.isSome_iff_exists.mp hhas'
    obtain ⟨front, back, rfl⟩ := List.append_of_mem hd
    obtain ⟨hperm, hsingle⟩ := single?_bare_moved hplain hname hrank
    obtain ⟨front', back', hsplit⟩ := List.append_of_mem he
    rw [hsplit] at hplain
    obtain ⟨hperm', hsingle'⟩ := single?_bare_moved hplain hname hrank'
    have heq := (hsame _ hperm).trans (hsame _ (hsplit ▸ hperm')).symm
    rw [hsingle, hsingle', Option.some_inj] at heq
    have hitem : d.item name = e.item name := by
      have := congrArg (fun l : ListValue => l.items.keys) heq
      simpa [ListValue.single, SortedMap.singleton, SortedMap.keys] using this
    have hnames' : d.name = e.name := by simpa [ListDefinition.item] using hitem
    exact List.inj_on_of_nodup_map hnames hd he hnames'

/-- A full name means an item in the definition that it names, and in no other. -/
theorem single?_full_unique (hnames : (defs.map ListDefinition.name).Nodup) {origin : String}
    (h : '.' ∉ origin.toList) (name : String) : ∀ d ∈ defs, ∀ e ∈ defs,
      (d.single? (Item.fullName ⟨some origin, name⟩)).isSome →
      (e.single? (Item.fullName ⟨some origin, name⟩)).isSome → d = e := by
  intro d hd e he hsome hsome'
  rw [ListDefinition.single?_full h] at hsome hsome'
  have hd' : origin = d.name := by
    by_contra hne
    simp [hne] at hsome
  have he' : origin = e.name := by
    by_contra hne
    simp [hne] at hsome'
  exact List.inj_on_of_nodup_map hnames hd he (hd'.symm.trans he')

theorem single?_full_iff (hnames : (defs.map ListDefinition.name).Nodup)
    (hplain : ∀ d ∈ defs, d.Plain) {origin : String} (h : '.' ∉ origin.toList) (name : String)
    (l : ListValue) : (ofList defs).single? (Item.fullName ⟨some origin, name⟩) = some l ↔
      ∃ d ∈ defs, d.name = origin ∧ ∃ rank, d.rank? name = some rank ∧
        l = .single (d.item name) rank := by
  rw [single?_eq_some_iff hplain (single?_full_unique hnames h name)]
  refine exists_congr fun d => and_congr_right fun _ => ?_
  rw [ListDefinition.single?_full h]
  by_cases horigin : origin = d.name
  · rw [if_pos horigin, Option.map_eq_some_iff, and_iff_right horigin.symm]
    exact exists_congr fun rank => and_congr_right fun _ => eq_comm
  · simp [horigin, Ne.symm horigin]

/-- **A bare name means the item of the last definition that has one of this name.** It means
nothing where no definition has one, and depends on the order of the definitions just where several
share it. There it parts from a list that knows all definitions, each once: the list takes an item
by its bare name just if no two definitions share the name, and then it is the same item. A full
name means the item of its definition, in whatever order the definitions are. -/
theorem bare_names_mean_last_items (hnames : (defs.map ListDefinition.name).Nodup)
    (hplain : ∀ d ∈ defs, d.Plain) :
    (∀ name : String, '.' ∉ name.toList →
      ((ofList defs).single? name = none ↔ ∀ d ∈ defs, ¬d.Has name) ∧
      (∀ front d back rank, defs = front ++ d :: back → (∀ e ∈ back, ¬e.Has name) →
        d.rank? name = some rank →
        (ofList defs).single? name = some (.single (d.item name) rank)) ∧
      (Unshared name defs ↔
        ∀ other, other.Perm defs → (ofList other).single? name = (ofList defs).single? name) ∧
      ∀ l l' : ListValue, (l.definitions (ofList defs)).Perm defs →
        (l.addItem ⟨none, name⟩ (ofList defs) = .ok l' ↔
          Unshared name defs ∧ ∃ item rank,
            (ofList defs).single? name = some (.single item rank) ∧ l' = l.insert item rank)) ∧
    ∀ origin name : String, '.' ∉ origin.toList →
      (∀ l, (ofList defs).single? (Item.fullName ⟨some origin, name⟩) = some l ↔
        ∃ d ∈ defs, d.name = origin ∧ ∃ rank, d.rank? name = some rank ∧
          l = .single (d.item name) rank) ∧
      ∀ other, other.Perm defs → (ofList other).single? (Item.fullName ⟨some origin, name⟩) =
        (ofList defs).single? (Item.fullName ⟨some origin, name⟩) := by
  have hnodup : defs.Nodup := List.Nodup.of_map _ hnames
  refine ⟨fun name hname => ⟨?_, ?_, unshared_iff_order_free hnames hplain hname, ?_⟩,
    fun origin name horigin => ⟨single?_full_iff hnames hplain horigin name, fun other hperm =>
      single?_perm hplain (single?_full_unique hnames horigin name) hperm⟩⟩
  · rw [single?_eq_none_iff hplain]
    simp [ListDefinition.single?_bare hname, ListDefinition.Has]
  · rintro front d back rank rfl hback hrank
    refine single?_eq_of_last hplain (fun e he => ?_) ?_
    · rw [ListDefinition.single?_bare hname]
      simpa [ListDefinition.Has] using hback e he
    · rw [ListDefinition.single?_bare hname, hrank]
      rfl
  · intro l l' hknown
    have hfilter : ∀ d, (l.definitions (ofList defs)).filter (·.Has name) = [d] ↔
        defs.filter (·.Has name) = [d] := fun d => by
      rw [← List.perm_singleton, ← List.perm_singleton]
      exact ⟨(hknown.filter _).symm.trans, (hknown.filter _).trans⟩
    simp only [ListValue.addItem_bare, hfilter, filter_has_eq_singleton hnodup]
    constructor
    · rintro ⟨d, rank, ⟨hone, hd, -⟩, hrank, rfl⟩
      refine ⟨hone, d.item name, rank, ?_, rfl⟩
      refine (single?_eq_some_iff hplain (hone.single? hname)).mpr ⟨d, hd, ?_⟩
      rw [ListDefinition.single?_bare hname, hrank]
      rfl
    · rintro ⟨hone, item, rank, hsingle, rfl⟩
      obtain ⟨d, hd, hmeans⟩ := (single?_eq_some_iff hplain (hone.single? hname)).mp hsingle
      rw [ListDefinition.single?_bare hname] at hmeans
      obtain ⟨rank', hrank, heq⟩ := Option.map_eq_some_iff.mp hmeans
      have hentries := congrArg (fun l : ListValue => l.items.entries) heq
      obtain ⟨rfl, rfl⟩ : d.item name = item ∧ rank' = rank := by
        simpa [ListValue.single, SortedMap.singleton] using hentries
      exact ⟨d, rank', ⟨hone, hd, by simp [ListDefinition.Has, hrank]⟩, hrank, rfl⟩

end ListDefinitions

namespace Palette

def colours : ListDefinition := ⟨"colours", .ofList [("red", 1), ("blue", 2)]⟩

def moods : ListDefinition := ⟨"moods", .ofList [("calm", 1), ("blue", 3)]⟩

def defs : List ListDefinition := [colours, moods]

/-- A list without items that knows both definitions. -/
def unpainted : ListValue := ⟨.empty, some ["colours", "moods"]⟩

/-- Both definitions have *blue*: by its bare name it is a mood, as these come last, and the list
refuses it. *Red* is a colour for both. -/
theorem blue_means_a_mood : (defs.map ListDefinition.name).Nodup ∧ (∀ d ∈ defs, d.Plain) ∧
    (ListDefinitions.ofList defs).single? "blue" = some (.single (moods.item "blue") 3) ∧
    (ListDefinitions.ofList defs).single? "colours.blue" = some (.single (colours.item "blue") 2) ∧
    (∀ l, unpainted.addItem ⟨none, "blue"⟩ (.ofList defs) ≠ .ok l) ∧
    (ListDefinitions.ofList defs).single? "red" = some (.single (colours.item "red") 1) ∧
    unpainted.addItem ⟨none, "red"⟩ (.ofList defs) =
      .ok (unpainted.insert (colours.item "red") 1) := by
  have hnames : (defs.map ListDefinition.name).Nodup := by decide
  have hplain : ∀ d ∈ defs, d.Plain := by decide
  have hknown : unpainted.definitions (.ofList defs) = defs := rfl
  obtain ⟨hbare, hfull⟩ := ListDefinitions.bare_names_mean_last_items hnames hplain
  obtain ⟨-, hblue, -, hadds⟩ := hbare "blue" (by decide)
  obtain ⟨-, hred, -, hadds'⟩ := hbare "red" (by decide)
  have hsingle := hred [] colours [moods] 1 rfl (by decide) rfl
  have hone : ListDefinitions.Unshared "red" defs := by
    have hmoods : ¬moods.Has "red" := by decide
    simp [ListDefinitions.Unshared, defs, hmoods]
  refine ⟨hnames, hplain, hblue [colours] moods [] 3 rfl (by simp) rfl, ?_, fun l hl => ?_,
    hsingle, ?_⟩
  · exact ((hfull "colours" "blue" (by decide)).1 _).mpr ⟨colours, by simp [defs], rfl, 2, rfl, rfl⟩
  · have hshared := ((hadds unpainted l (hknown ▸ .refl _)).mp hl).1
    have hsame := hshared colours (by simp [defs]) moods (by simp [defs]) (by decide) (by decide)
    exact absurd (congrArg ListDefinition.name hsame) (by decide)
  · exact (hadds' unpainted _ (hknown ▸ .refl _)).mpr ⟨hone, colours.item "red", 1, hsingle, rfl⟩

end Palette

end StoryMachine
