import StoryMachine.Proofs.Content.Roundtrip

/-!
# The normal form of a story

Writing a story and reading it again gives the story in normal form: the same list
definitions, and the same nodes at the same places but for the changes that `Node.normal`
makes. Paths lead to the same places, and writing once more gives the same JSON, so the
form is reached in one step.

* `ListDefinitions.ofJson_toJson` : list definitions come back as they were;
* `Content.ofJson_toJson` : a story comes back in normal form;
* `Content.toJson_normal` : what is written for the normal form is what was written before.
-/

namespace StoryMachine

/-! ## List definitions -/

namespace ListDefinition

theorem int64?_rank (rank : Int32) : (Json.int rank.toInt).int64? = some rank.toInt :=
  if_pos (by have := rank.toInt_lt; omega)

theorem ofJson_toJson (d : ListDefinition) :
    ofJson d.name (Json.ofTable (fun rank => .int rank.toInt) d.items) = .ok d := by
  obtain ⟨name, items⟩ := d
  unfold ofJson Json.ofTable Json.obj?
  dsimp only
  rw [Except.mapM_map_eq_ok fun e : String × Int32 => by rw [int64?_rank]; rfl]
  simp only [Int32.ofInt_toInt, List.map_id']
  show Except.ok (ListDefinition.mk name (SortedMap.ofList items.entries)) = _
  rw [SortedMap.ofList_entries]

theorem name_of_ofJson {name : String} {t : Json} {d : ListDefinition}
    (h : ofJson name t = .ok d) : d.name = name := by
  unfold ofJson at h
  split at h
  · cases h
  · obtain ⟨items, -, h⟩ := Except.bind_eq_ok.mp h
    cases h
    rfl

end ListDefinition

namespace Entries

theorem insert_append {α : Type} {k : String} {v : α} {es : List (String × α)}
    (h : ∀ e ∈ es, compare e.1 k = .lt) : insert k v es = es ++ [(k, v)] := by
  induction es with
  | nil => rfl
  | cons e rest ih =>
    have hgt : compare k e.1 = .gt := Std.OrientedCmp.gt_iff_lt.mpr (h e (by simp))
    rw [insert, hgt, List.cons_append, ih fun d hd => h d (by simp [hd])]

end Entries

namespace ListDefinitions

/-- The definitions with their names. -/
def namedEntries (defs : List ListDefinition) : List (String × ListDefinition) :=
  defs.map fun d => (d.name, d)

theorem lists_foldl_add (ds : ListDefinitions) {defs : List ListDefinition}
    (h : (ds.lists.entries ++ namedEntries defs).Pairwise KeyLt) :
    (defs.foldl add ds).lists.entries = ds.lists.entries ++ namedEntries defs := by
  induction defs generalizing ds with
  | nil => simp [namedEntries]
  | cons d rest ih =>
    have hlt : ∀ e ∈ ds.lists.entries, compare e.1 d.name = .lt := fun e he =>
      (List.pairwise_append.mp h).2.2 e he (d.name, d) (by simp [namedEntries])
    have hadd : (ds.add d).lists.entries = ds.lists.entries ++ [(d.name, d)] :=
      Entries.insert_append hlt
    have hcons : namedEntries (d :: rest) = [(d.name, d)] ++ namedEntries rest := rfl
    rw [hcons, ← List.append_assoc] at h
    rw [List.foldl_cons, ih _ (by rwa [hadd]), hadd, hcons, List.append_assoc]

theorem lists_ofList {defs : List ListDefinition} (h : (namedEntries defs).Pairwise KeyLt) :
    (ofList defs).lists.entries = namedEntries defs :=
  lists_foldl_add empty h

theorem toJson_ofList {defs : List ListDefinition} (h : (namedEntries defs).Pairwise KeyLt) :
    (ofList defs).toJson = .obj (defs.map fun d =>
      (d.name, Json.ofTable (fun rank => .int rank.toInt) d.items)) := by
  rw [toJson, Json.ofTable, lists_ofList h, namedEntries, List.map_map]
  rfl

theorem names_of_mapM {fields : List (String × Json)} {defs : List ListDefinition}
    (h : fields.mapM (fun f => ListDefinition.ofJson f.1 f.2) = .ok defs) :
    (namedEntries defs).map Prod.fst = fields.map Prod.fst := by
  induction fields generalizing defs with
  | nil => cases h; rfl
  | cons f rest ih =>
    rw [List.mapM_cons] at h
    obtain ⟨d, hd, h⟩ := Except.bind_eq_ok.mp h
    obtain ⟨more, hmore, h⟩ := Except.bind_eq_ok.mp h
    cases h
    have hname := ListDefinition.name_of_ofJson hd
    have hrest := ih hmore
    unfold namedEntries at hrest ⊢
    rw [List.map_cons, List.map_cons, List.map_cons, hrest, hname]

/-- Definitions come back as they were. -/
theorem ofJson_toJson {t : Json} {ds : ListDefinitions} (ht : t.Canonical)
    (h : ofJson t = .ok ds) : ofJson ds.toJson = .ok ds := by
  unfold ofJson at h
  cases t with
  | obj fields =>
    obtain ⟨defs, hdefs, h⟩ := Except.bind_eq_ok.mp h
    cases h
    have hkeys : (fields.map Prod.fst).Pairwise fun a b => compare a b = .lt :=
      List.pairwise_map.mpr ht.1
    rw [← names_of_mapM hdefs] at hkeys
    have hs := List.pairwise_map.mp hkeys
    rw [toJson_ofList hs]
    show (_ >>= fun defs => Except.ok (ofList defs)) = _
    rw [Except.mapM_map_eq_ok ListDefinition.ofJson_toJson, List.map_id']
    rfl
  | _ => cases h

theorem ofJson_toJson_empty : ofJson empty.toJson = .ok empty := rfl

end ListDefinitions

/-! ## What is written for the normal form -/

theorem ListValue.normal_items_perm {l : ListValue} (h : l.Apart) :
    l.normal.items.entries.Perm (l.items.entries.map fun e => (e.1.normal, e.2)) :=
  Entries.perm_ofList (pairwise_normal_ne h)

theorem ListValue.isEmpty_normal {l : ListValue} (h : l.Apart) :
    l.normal.isEmpty = l.isEmpty := by
  have hlength := (normal_items_perm h).length_eq
  rw [List.length_map] at hlength
  unfold isEmpty SortedMap.isEmpty
  cases hl : l.items.entries <;> cases hn : l.normal.items.entries <;> simp_all

theorem ListValue.fields_normal {l : ListValue} (h : l.Readable) : l.normal.fields = l.fields := by
  have hperm := (normal_items_perm h.apart).map fun e => (e.1.fullName, Json.int e.2.toInt)
  rw [List.map_map] at hperm
  refine Entries.ofList_eq_of_perm hperm ?_
  exact hperm.symm.pairwise (pairwise_fullName_ne h) fun hab => hab.symm

theorem ListValue.emptyOrigins_normal {l : ListValue} (h : l.Apart) :
    l.normal.normal.emptyOrigins = l.normal.emptyOrigins := by
  show (if l.normal.isEmpty then l.normal.emptyOrigins.filter _ else none) = _
  rw [isEmpty_normal h]
  unfold normal
  cases l.isEmpty <;> rcases l.emptyOrigins with _ | _ | ⟨name, rest⟩ <;> rfl

theorem Value.toJson_normal {v : Value} (h : v.Readable) : v.normal.toJson = v.toJson := by
  cases v with
  | float x => exact floatJson_toFinite x
  | list l =>
    show listJson l.normal = listJson l
    rw [ListValue.listJson_eq, ListValue.listJson_eq, ListValue.fields_normal h,
      ListValue.emptyOrigins_normal h.apart]
  | _ => rfl

theorem Instruction.toJson_normal {i : Instruction} (h : i.Readable) :
    i.normal.toJson = i.toJson := by
  cases i with
  | value v => exact Value.toJson_normal h
  | _ => rfl

namespace Block

theorem word_normal (flags : CountFlags) : flags.normal.word = flags.word := by
  obtain ⟨v, t, s⟩ := flags
  cases v <;> cases t <;> cases s <;> rfl

theorem terminator_normal (name : Option String) (flags : CountFlags)
    (named : List (String × Json)) :
    terminator name flags.normal named = terminator name flags named := by
  have hextras : extras name flags.normal = extras name flags := by
    unfold extras
    rw [word_normal]
  rw [terminator_eq, terminator_eq, hextras]

mutual

theorem toJson_normal (nameWritten : Bool) : ∀ {b : Block}, b.Formed Instruction.Readable →
    b.normal.toJson nameWritten = b.toJson nameWritten
  | .leaf i, h => by
    rw [normal, toJson, toJson]
    exact Instruction.toJson_normal h
  | .container name flags content named, ⟨hcontent, hnamed, _⟩ => by
    rw [normal, toJson, toJson, contentJson_normal hcontent, namedJson_normal hnamed,
      terminator_normal]

theorem contentJson_normal : ∀ {bs : List Block}, FormedList Instruction.Readable bs →
    contentJson (normalList bs) = contentJson bs
  | [], _ => by rw [normalList]
  | b :: rest, ⟨hb, hrest⟩ => by
    rw [normalList, contentJson, contentJson, toJson_normal false hb, contentJson_normal hrest]

theorem namedJson_normal : ∀ {bs : List (String × Block)},
    FormedNamed Instruction.Readable bs → namedJson (normalNamed bs) = namedJson bs
  | [], _ => by rw [normalNamed]
  | (name, b) :: rest, ⟨⟨_, _, _, hb⟩, hrest⟩ => by
    rw [normalNamed, namedJson, namedJson, toJson_normal true hb, namedJson_normal hrest]

end

end Block

/-! ## Stories -/

namespace Content

/-- The content in normal form, as it is read under a key. -/
def normal (c : Content) (key : Nat) : Content :=
  ⟨key, formatVersion, c.tree.normal, c.lists⟩

/-- The content can be told from what is written for it, up to its normal form. -/
structure Readable (c : Content) : Prop where
  tree : c.tree.root.Formed Instruction.Readable
  lists : ListDefinitions.ofJson c.lists.toJson = .ok c.lists
  root : ∃ name flags content named, c.tree.root = .container name flags content named

theorem field?_toJson (c : Content) : c.toJson.field? "inkVersion" = some (.int formatVersion) ∧
    c.toJson.field? "root" = some (c.tree.root.toJson false) ∧
    c.toJson.field? "listDefs" = some c.lists.toJson := by
  unfold toJson
  simp

/-- A story comes back in normal form. -/
theorem ofJson_toJson {c : Content} (h : c.Readable) (key : Nat) :
    ofJson key c.toJson = .ok (c.normal key) := by
  obtain ⟨hversion, hroot, hlists⟩ := c.field?_toJson
  obtain ⟨name, flags, content, named, hc⟩ := h.root
  have harr : (c.tree.root.toJson false).arr?.isNone = false := by
    rw [hc, Block.toJson]
    rfl
  have htree : ContentTree.ofJson (c.tree.root.toJson false) = .ok c.tree.normal := by
    unfold ContentTree.ofJson
    rw [harr, Block.ofJson_toJson h.tree]
    rfl
  have hnumber : (some (Json.int formatVersion)).bind Json.int64? = some formatVersion := rfl
  have hwrap : wrap32 formatVersion = formatVersion := by decide
  have hold : ¬ formatVersion < oldestFormatVersion := by decide
  unfold ofJson
  rw [hversion, hnumber, hroot, hlists]
  dsimp only
  rw [hwrap, if_neg (Int.lt_irrefl _), if_neg hold, h.lists, htree]
  rfl

theorem toJson_normal {c : Content} (h : c.Readable) (key : Nat) :
    (c.normal key).toJson = c.toJson := by
  show Json.object _ = Json.object _
  have hroot : (c.normal key).tree.root.toJson false = c.tree.root.toJson false :=
    Block.toJson_normal false h.tree
  rw [hroot]
  rfl

end Content

/-! ## What was read -/

theorem Json.canonical_of_mem : ∀ {fields : List (String × Json)}, CanonicalFields fields →
    ∀ {name : String} {j : Json}, (name, j) ∈ fields → j.Canonical
  | (_, _) :: _, ⟨hj, hrest⟩, _, _, h => by
    rcases List.mem_cons.mp h with h | h
    · cases h
      exact hj
    · exact canonical_of_mem hrest h

theorem Json.canonical_of_field? {t j : Json} {name : String} (ht : t.Canonical)
    (h : t.field? name = some j) : j.Canonical := by
  cases t with
  | obj fields => exact canonical_of_mem ht.2 (Entries.mem_of_get? h)
  | _ => cases h

namespace ContentTree

theorem root_of_ofJson {t : Json} {tree : ContentTree} (h : ofJson t = .ok tree) :
    Block.ofJson t = .ok tree.root ∧ ∃ items, t = .arr items := by
  unfold ofJson at h
  cases t with
  | arr items =>
    obtain ⟨b, hb, h⟩ := Except.bind_eq_ok.mp h
    cases h
    exact ⟨hb, items, rfl⟩
  | _ => cases h

/-- The instruction of a node is found at its place. -/
theorem leaf?_of_mem {t : ContentTree} {n : Node} (hn : n ∈ t.root.nodes) {i : Instruction}
    (hi : n.kind = .leaf i) : ∃ id, t.leaf? id = some i := by
  obtain ⟨id, hlt, hget⟩ := List.getElem_of_mem hn
  refine ⟨id, ?_⟩
  obtain ⟨parent, path, kind⟩ := n
  cases hi
  have hnode : t.node? id = some ⟨parent, path, .leaf i⟩ := by
    rw [node?, t.nodes_eq, List.getElem?_toArray, List.getElem?_eq_getElem hlt, hget]
  rw [leaf?, hnode]

end ContentTree

namespace Content

theorem parts_of_ofJson {key : Nat} {t : Json} {c : Content} (h : ofJson key t = .ok c) :
    (∃ root, t.field? "root" = some root ∧ ContentTree.ofJson root = .ok c.tree) ∧
      ((∃ defs, t.field? "listDefs" = some defs ∧ ListDefinitions.ofJson defs = .ok c.lists) ∨
        c.lists = .empty) := by
  unfold ofJson at h
  cases hversion : (t.field? "inkVersion").bind Json.int64? with
  | none =>
    rw [hversion] at h
    cases h
  | some n =>
    rw [hversion] at h
    dsimp only at h
    by_cases hnew : formatVersion < wrap32 n
    · rw [if_pos hnew] at h
      cases h
    by_cases hold : wrap32 n < oldestFormatVersion
    · rw [if_neg hnew, if_pos hold] at h
      cases h
    rw [if_neg hnew, if_neg hold] at h
    cases hroot : t.field? "root" with
    | none =>
      rw [hroot] at h
      cases h
    | some root =>
      rw [hroot] at h
      dsimp only at h
      split at h
      · next defs hdefs =>
        obtain ⟨lists, hlists, h⟩ := Except.bind_eq_ok.mp h
        obtain ⟨tree, htree, h⟩ := Except.bind_eq_ok.mp h
        cases h
        exact ⟨⟨root, rfl, htree⟩, .inl ⟨defs, hdefs, hlists⟩⟩
      · obtain ⟨lists, hlists, h⟩ := Except.bind_eq_ok.mp h
        obtain ⟨tree, htree, h⟩ := Except.bind_eq_ok.mp h
        cases hlists
        cases h
        exact ⟨⟨root, rfl, htree⟩, .inr rfl⟩

/-- What was read can be told from what is written for it, if the decimals of its numbers
read as them and the items of its lists are apart. -/
theorem readable_of_ofJson {key : Nat} {t : Json} {c : Content} (ht : t.Canonical)
    (h : ofJson key t = .ok c)
    (hfloat : ∀ id x, c.tree.leaf? id = some (.value (.float x)) →
      Value.FloatReads (Value.toFinite x))
    (hlist : ∀ id l, c.tree.leaf? id = some (.value (.list l)) → l.Apart) : c.Readable := by
  obtain ⟨⟨root, hroot, htree⟩, hlists⟩ := parts_of_ofJson h
  obtain ⟨hblock, items, rfl⟩ := ContentTree.root_of_ofJson htree
  refine ⟨?_, ?_, ?_⟩
  · refine Block.Formed.imp_of_nodes none .root 0 _ (fun n hn i hi ⟨t, hread⟩ => ?_)
      (Block.formed_of_ofJson (Json.canonical_of_field? ht hroot) hblock)
    obtain ⟨id, hleaf⟩ := ContentTree.leaf?_of_mem hn hi
    exact Instruction.readable_of_ofJson hread (fun x hx => hfloat id x (hx ▸ hleaf))
      fun l hl => hlist id l (hl ▸ hleaf)
  · rcases hlists with ⟨defs, hdefs, hlists⟩ | hlists
    · exact ListDefinitions.ofJson_toJson (Json.canonical_of_field? ht hdefs) hlists
    · rw [hlists]
      exact ListDefinitions.ofJson_toJson_empty
  · rw [Block.ofJson] at hblock
    obtain ⟨⟨name, flags⟩, -, hblock⟩ := Except.bind_eq_ok.mp hblock
    obtain ⟨content, -, hblock⟩ := Except.bind_eq_ok.mp hblock
    obtain ⟨named, -, hblock⟩ := Except.bind_eq_ok.mp hblock
    exact ⟨name, flags, content, named, (Except.ok.inj hblock).symm⟩

/-- Writing a story that was read and reading it again gives the same list definitions and,
up to the changes of `Node.normal`, the same nodes at the same places; diverts, choices and
counts lead to the same places, and writing the result gives the same JSON. -/
theorem rewritten_is_normal {key : Nat} {t : Json} {c : Content} (ht : t.Canonical)
    (h : ofJson key t = .ok c)
    (hfloat : ∀ id x, c.tree.leaf? id = some (.value (.float x)) →
      Value.FloatReads (Value.toFinite x))
    (hlist : ∀ id l, c.tree.leaf? id = some (.value (.list l)) → l.Apart) (key' : Nat) :
    ∃ c', ofJson key' c.toJson = .ok c' ∧ c'.lists = c.lists ∧
      c'.tree.nodes = c.tree.nodes.map Node.normal ∧
      (∀ id p, c'.tree.divertCursor? id p = c.tree.divertCursor? id p) ∧
      (∀ id p, c'.tree.targetContainer? id p = c.tree.targetContainer? id p) ∧
      c'.toJson = c.toJson := by
  have hread := readable_of_ofJson ht h hfloat hlist
  refine ⟨c.normal key', ofJson_toJson hread key', rfl, ?_, c.tree.divertCursor?_normal,
    c.tree.targetContainer?_normal, toJson_normal hread key'⟩
  show c.tree.root.normal.nodes.toArray = c.tree.nodes.map Node.normal
  rw [Block.nodes_normal, c.tree.nodes_eq, List.map_toArray]

/-- A number, a list with an item of unknown definition, and a divert back to it, in a
container that counts at the start only. -/
def sampleJson : Json :=
  .obj [("inkVersion", .int 20), ("root", .arr [.float (Float.ofBits 0x3FE0000000000000),
    .obj [("list", .obj [("x", .int 1)])], .obj [("->", .str ".^.1")], .obj [("#f", .int 4)]])]

/-- The content that the sample reads as. -/
def sample : Content :=
  ⟨0, 20, .ofBlock (.container none ⟨false, false, true⟩
    [.leaf (.value (.float (Float32.ofBits 0x3F000000))),
     .leaf (.value (.list ⟨.singleton ⟨none, "x"⟩ 1, none⟩)),
     .leaf (.divert ⟨.jump, .path ⟨[.name "^", .index 1], true⟩, false⟩)] []), .empty⟩

theorem rewritten_sample_is_normal :
    ∃ c', ofJson 1 sample.toJson = .ok c' ∧ c'.lists = sample.lists ∧
      c'.tree.nodes = sample.tree.nodes.map Node.normal ∧
      (∀ id p, c'.tree.divertCursor? id p = sample.tree.divertCursor? id p) ∧
      (∀ id p, c'.tree.targetContainer? id p = sample.tree.targetContainer? id p) ∧
      c'.toJson = sample.toJson := by
  have hread : ofJson 0 sampleJson = .ok sample := rfl
  have hcanonical : sampleJson.Canonical := by decide +kernel
  have hleaf : ∀ id i, sample.tree.leaf? id = some i →
      i = .value (.float (Float32.ofBits 0x3F000000)) ∨
      i = .value (.list ⟨.singleton ⟨none, "x"⟩ 1, none⟩) ∨
      i = .divert ⟨.jump, .path ⟨[.name "^", .index 1], true⟩, false⟩ := by
    intro id i h
    rcases id with _ | _ | _ | _ | id <;> cases h <;> simp
  refine rewritten_is_normal hcanonical hread (fun id x h => ?_) (fun id l h name => ?_) 1
  · rcases hleaf id _ h with h | h | h <;> cases h
    decide +kernel
  · rcases hleaf id _ h with h | h | h <;> cases h
    rintro ⟨-, hmark⟩
    obtain ⟨rank, hmem⟩ := ListValue.has_iff.mp hmark
    simp [SortedMap.singleton] at hmem

end Content

end StoryMachine
