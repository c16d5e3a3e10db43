import StoryMachine.CallStack.Codec
import StoryMachine.Proofs.Story.Destinations
import StoryMachine.Proofs.Story.SoundRuns

/-!
# Saved values

A save keeps a value, provided that the items of its lists name their definitions, that its numbers
are finite and its scopes have 32 bits, and that its target is a path that reads from its text. The
last is so for all values of a story, unless the host brings in others. A list comes back with its
items and their definitions; what a list with items remembers of definitions is not saved.

* `Value.Savable` : the values that a save keeps;
* `Value.SameAs` : what comes back of a value;
* `Value.ofJson_of_savable`, `Value.tableOfJson_of_savable` : values and tables of values come back;
* `Value.PathReads`, `Content.carries_pathReads` : the targets of a story read from their texts.
-/

namespace StoryMachine

namespace ListValue

/-- Lists of the same items that belong to the same definitions. -/
structure SameAs (l k : ListValue) : Prop where
  items : k.items = l.items
  origins : k.origins.getD [] = l.origins.getD []

/-- Every item names its definition, and the point in the full name of the item is the one behind
this name. -/
def Named (l : ListValue) : Prop :=
  ∀ e ∈ l.items.entries, ∃ origin, e.1.origin = some origin ∧ '.' ∉ origin.toList

variable {l : ListValue}

theorem Named.readable (h : l.Named) : l.Readable where
  no_point e he := by
    obtain ⟨origin, horigin, hpoint⟩ := h e he
    rwa [horigin]
  apart name := by
    rintro ⟨hhas, -⟩
    obtain ⟨rank, hmem⟩ := has_iff.mp hhas
    obtain ⟨origin, horigin, -⟩ := h _ hmem
    cases horigin

theorem Named.items_normal (h : l.Named) : l.normal.items = l.items := by
  have hsame : (l.items.entries.map fun e => (e.1.normal, e.2)) = l.items.entries := by
    refine (List.map_congr_left fun e he => ?_).trans (List.map_id' _)
    obtain ⟨origin, horigin, -⟩ := h e he
    obtain ⟨⟨_, name⟩, rank⟩ := e
    obtain rfl : _ = some origin := horigin
    rfl
  unfold normal
  rw [hsame]
  exact SortedMap.ofList_entries l.items

/-- The normal form of a list whose items name their definitions is the same list. -/
theorem Named.sameAs_normal (h : l.Named) : l.SameAs l.normal := by
  refine ⟨h.items_normal, ?_⟩
  unfold origins isEmpty
  rw [h.items_normal]
  split
  · next hempty =>
    unfold normal isEmpty
    rw [hempty]
    rcases l.emptyOrigins with _ | _ | ⟨name, rest⟩ <;> rfl
  · rfl

end ListValue

namespace Value

/-- The value can be told from what is saved: a number is finite and reads from its decimal, every
item of a list names its definition, and a scope is a whole number of 32 bits. -/
def Savable : Value → Prop
  | .float x => toFinite x = x ∧ FloatReads x
  | .list l => l.Named
  | .reference _ scope => wrap32 scope = scope
  | _ => True

/-- A target is a path that reads from its text. -/
def PathReads (v : Value) : Prop :=
  ∀ p, v = .target p → p.Readable

/-- The same value, where lists count for their items and definitions. -/
inductive SameAs : Value → Value → Prop
  | refl (v : Value) : SameAs v v
  | list {l k : ListValue} (h : l.SameAs k) : SameAs (.list l) (.list k)

variable {v : Value}

theorem Savable.readable (h : v.Savable) (hpath : v.PathReads) : v.Readable := by
  cases v with
  | float x =>
    obtain ⟨hfinite, hreads⟩ : toFinite x = x ∧ FloatReads x := h
    show FloatReads (toFinite x)
    rwa [hfinite]
  | list l => exact ListValue.Named.readable h
  | target p => exact hpath p rfl
  | _ => exact h

theorem Savable.sameAs_normal (h : v.Savable) : v.SameAs v.normal := by
  cases v with
  | float x =>
    have hfinite : toFinite x = x := h.1
    rw [normal, hfinite]
    exact .refl _
  | list l => exact .list (ListValue.Named.sameAs_normal h)
  | _ => exact .refl _

theorem ofJson_of_savable (h : v.Savable) (hpath : v.PathReads) :
    ofJson v.toJson = .ok v.normal := by
  unfold ofJson
  rw [ofJson_toJson (h.readable hpath)]
  rfl

/-- A table of values that a save keeps comes back. -/
theorem tableOfJson_of_savable {t : Table Value} (h : ∀ e ∈ t.entries, e.2.Savable)
    (hpaths : ∀ e ∈ t.entries, e.2.PathReads) :
    tableOfJson (t.entries.map fun e => (e.1, e.2.toJson)) = .ok (t.map fun _ v => v.normal) := by
  unfold tableOfJson
  rw [List.mapM_map, Except.mapM_eq_ok_of_mem (g := fun e => (e.1, e.2.normal)) fun e he => by
    dsimp only [Function.comp]
    rw [ofJson_of_savable (h e he) (hpaths e he)]
    rfl]
  exact congrArg Except.ok (SortedMap.ofList_entries (t.map fun _ v => v.normal))

end Value

/-! ## The targets of a story -/

/-- A target that is read is a path that has been read. -/
theorem readsAs_pathReads : ReadsAs Value.PathReads := by
  rintro j v h p rfl
  exact Instruction.readable_of_ofJson h nofun nofun

theorem ContentTree.leaf_of_formed {P : Instruction → Prop} {t : ContentTree} (h : t.root.Formed P)
    {id : NodeId} {i : Instruction} (hleaf : t.leaf? id = some i) : P i := by
  obtain ⟨parent, path, b, hstands⟩ := exists_stands (lt_size_of_leaf? hleaf)
  have hb := hstands.formed h
  rw [leaf?, hstands.node?_eq] at hleaf
  cases b with
  | leaf other =>
    cases hleaf
    exact hb
  | container => cases hleaf

/-- In a story that has been read, targets are paths that have been read. -/
theorem Content.carries_pathReads {key : Nat} {j : Json} {c : Content} (hj : j.Canonical)
    (h : Content.ofJson key j = .ok c) : c.Carries Value.PathReads where
  root := isContainer_rootId_of_ofJson h
  passable v hv := by
    rintro p rfl
    exact hv.elim
  known name scope _ := nofun
  literal {id v} hleaf _ := by
    obtain ⟨⟨root, hroot, htree⟩, -⟩ := parts_of_ofJson h
    obtain ⟨hblock, -⟩ := ContentTree.root_of_ofJson htree
    have hformed := Block.formed_of_ofJson (Json.canonical_of_field? hj hroot) hblock
    obtain ⟨t, hread⟩ := ContentTree.leaf_of_formed hformed hleaf
    exact readsAs_pathReads t v hread

end StoryMachine
