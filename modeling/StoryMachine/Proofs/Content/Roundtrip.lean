import StoryMachine.Proofs.Content.Instructions

/-!
# Writing and reading a story

The fields of a JSON object stand in the order of their names. What is read from such JSON
has the form that writing keeps: the containers that only their names lead to stand in the
order of their names, carry these names, and are not called like the fields for flags and
name. Writing such a block and reading it again gives the normal block, and so it is for
the content of a whole story, whose list definitions come back as they were.

* `Json.Canonical` : the JSON values, fields in order;
* `Block.Formed` : the form of what was read, with a condition on the instructions;
* `Block.ofJson_toJson` : what is written for a block reads as its normal form;
* `Content.ofJson_toJson` : what is written for a story reads as its normal form.
-/

namespace StoryMachine

namespace Json

mutual

/-- The fields of every object in the value stand in the order of their names, each name
once. -/
def Canonical : Json → Prop
  | .arr items => CanonicalItems items
  | .obj fields => fields.Pairwise KeyLt ∧ CanonicalFields fields
  | _ => True

/-- Every item is canonical. -/
def CanonicalItems : List Json → Prop
  | [] => True
  | j :: rest => j.Canonical ∧ CanonicalItems rest

/-- The value of every field is canonical. -/
def CanonicalFields : List (String × Json) → Prop
  | [] => True
  | (_, j) :: rest => j.Canonical ∧ CanonicalFields rest

end

mutual

/-- Whether a value is canonical can be decided. -/
def decideCanonical : ∀ j : Json, Decidable j.Canonical
  | .arr items => decideCanonicalItems items
  | .obj fields =>
    have := decideCanonicalFields fields
    have : DecidableRel (KeyLt : String × Json → String × Json → Prop) := fun a b =>
      inferInstanceAs (Decidable (compare a.1 b.1 = .lt))
    inferInstanceAs (Decidable (fields.Pairwise KeyLt ∧ CanonicalFields fields))
  | .null | .bool _ | .int _ | .float _ | .str _ => .isTrue trivial

/-- Whether all items are canonical can be decided. -/
def decideCanonicalItems : ∀ items : List Json, Decidable (CanonicalItems items)
  | [] => .isTrue trivial
  | j :: rest =>
    have := decideCanonical j
    have := decideCanonicalItems rest
    inferInstanceAs (Decidable (j.Canonical ∧ CanonicalItems rest))

/-- Whether the values of all fields are canonical can be decided. -/
def decideCanonicalFields : ∀ fields : List (String × Json), Decidable (CanonicalFields fields)
  | [] => .isTrue trivial
  | (_, j) :: rest =>
    have := decideCanonical j
    have := decideCanonicalFields rest
    inferInstanceAs (Decidable (j.Canonical ∧ CanonicalFields rest))

end

instance (j : Json) : Decidable j.Canonical :=
  decideCanonical j

end Json

/-! ## The form of what was read -/

namespace Block

/-- The block is a container of the given name. -/
def IsNamed (name : String) : Block → Prop
  | .container n _ _ _ => n = some name
  | .leaf _ => False

mutual

/-- Every instruction of the block satisfies `P`, and every container reached by name only
has its name, which is not that of another field, the names in order. -/
def Formed (P : Instruction → Prop) : Block → Prop
  | .leaf i => P i
  | .container _ _ content named =>
    FormedList P content ∧ FormedNamed P named ∧ named.Pairwise KeyLt

/-- Every block is formed. -/
def FormedList (P : Instruction → Prop) : List Block → Prop
  | [] => True
  | b :: rest => b.Formed P ∧ FormedList P rest

/-- Every named block is formed and has its name. -/
def FormedNamed (P : Instruction → Prop) : List (String × Block) → Prop
  | [] => True
  | (name, b) :: rest =>
    (name ≠ "#f" ∧ name ≠ "#n" ∧ b.IsNamed name ∧ b.Formed P) ∧ FormedNamed P rest

end

variable {P Q : Instruction → Prop}

mutual

/-- The condition on the instructions may be changed as the nodes allow. -/
theorem Formed.imp_of_nodes (parent : Option NodeId) (path : Path) (self : NodeId) :
    ∀ b : Block, (∀ n ∈ nodesAt parent path self b, ∀ i, n.kind = .leaf i → P i → Q i) →
      b.Formed P → b.Formed Q
  | .leaf i, hn, h => hn ⟨parent, path, .leaf i⟩ (by simp [nodesAt]) i rfl h
  | .container _ _ content named, hn, ⟨hcontent, hnamed, hsorted⟩ => by
    rw [nodesAt] at hn
    have hn' := fun n hm => hn n (List.mem_cons_of_mem _ hm)
    exact ⟨FormedList.imp_of_nodes _ _ _ _ content
        (fun n hm => hn' n (List.mem_append_left _ hm)) hcontent,
      FormedNamed.imp_of_nodes _ _ _ named
        (fun n hm => hn' n (List.mem_append_right _ hm)) hnamed, hsorted⟩

theorem FormedList.imp_of_nodes (parent : NodeId) (path : Path) (index : Nat) (start : NodeId) :
    ∀ bs : List Block,
      (∀ n ∈ contentNodes parent path index start bs, ∀ i, n.kind = .leaf i → P i → Q i) →
      FormedList P bs → FormedList Q bs
  | [], _, _ => trivial
  | b :: rest, hn, ⟨hb, hrest⟩ => by
    rw [contentNodes] at hn
    exact ⟨Formed.imp_of_nodes _ _ _ b (fun n hm => hn n (List.mem_append_left _ hm)) hb,
      FormedList.imp_of_nodes _ _ _ _ rest
        (fun n hm => hn n (List.mem_append_right _ hm)) hrest⟩

theorem FormedNamed.imp_of_nodes (parent : NodeId) (path : Path) (start : NodeId) :
    ∀ bs : List (String × Block),
      (∀ n ∈ namedNodes parent path start bs, ∀ i, n.kind = .leaf i → P i → Q i) →
      FormedNamed P bs → FormedNamed Q bs
  | [], _, _ => trivial
  | (_, b) :: rest, hn, ⟨⟨hf, hname, hnamed, hb⟩, hrest⟩ => by
    rw [namedNodes] at hn
    exact ⟨⟨hf, hname, hnamed,
        Formed.imp_of_nodes _ _ _ b (fun n hm => hn n (List.mem_append_left _ hm)) hb⟩,
      FormedNamed.imp_of_nodes _ _ _ rest
        (fun n hm => hn n (List.mem_append_right _ hm)) hrest⟩

end

/-- Some JSON value reads as the instruction. -/
def WasRead (i : Instruction) : Prop :=
  ∃ t, Instruction.ofJson t = .ok i

theorem isNamed_rename {t : List Json} {b : Block} (h : ofJson (.arr t) = .ok b)
    (name : String) : (b.rename name).IsNamed name := by
  rw [ofJson] at h
  obtain ⟨⟨n, flags⟩, -, h⟩ := Except.bind_eq_ok.mp h
  obtain ⟨content, -, h⟩ := Except.bind_eq_ok.mp h
  obtain ⟨named, -, h⟩ := Except.bind_eq_ok.mp h
  cases h
  rfl

theorem formed_rename {b : Block} (h : b.Formed P) (name : String) :
    (b.rename name).Formed P := by
  cases b <;> exact h

theorem keys_sublist_of_fieldsOfJson {fields : List (String × Json)}
    {named : List (String × Block)} (h : fieldsOfJson fields = .ok named) :
    (named.map Prod.fst).Sublist (fields.map Prod.fst) := by
  induction fields generalizing named with
  | nil =>
    rw [fieldsOfJson] at h
    cases h
    exact .slnil
  | cons f rest ih =>
    rw [fieldsOfJson.eq_def] at h
    dsimp only at h
    split at h
    · exact (ih h).cons _
    · split at h
      · obtain ⟨b, -, h⟩ := Except.bind_eq_ok.mp h
        obtain ⟨more, hmore, h⟩ := Except.bind_eq_ok.mp h
        cases h
        exact (ih hmore).cons_cons _
      · cases h

theorem pairwise_of_fieldsOfJson {fields : List (String × Json)}
    {named : List (String × Block)} (h : fieldsOfJson fields = .ok named)
    (hs : fields.Pairwise KeyLt) : named.Pairwise KeyLt := by
  have hkeys : (fields.map Prod.fst).Pairwise fun a b => compare a b = .lt :=
    List.pairwise_map.mpr hs
  have hnamed := List.pairwise_map.mp (hkeys.sublist (keys_sublist_of_fieldsOfJson h))
  exact hnamed

theorem leaf_of_ofJson {t : Json} (ht : ∀ items, t ≠ .arr items) {b : Block}
    (h : ofJson t = .ok b) : ∃ i, Instruction.ofJson t = .ok i ∧ b = .leaf i := by
  rw [ofJson.eq_def] at h
  split at h
  · exact absurd rfl (ht _)
  · obtain ⟨i, hi, h⟩ := Except.bind_eq_ok.mp h
    cases h
    exact ⟨i, hi, rfl⟩

theorem formed_of_leaf {t : Json} (ht : ∀ items, t ≠ .arr items) {b : Block}
    (h : ofJson t = .ok b) : b.Formed WasRead := by
  obtain ⟨i, hi, rfl⟩ := leaf_of_ofJson ht h
  exact ⟨t, hi⟩

theorem formed_of_no_fields {bs : List (String × Block)}
    (h : (.ok [] : Except StoryError (List (String × Block))) = .ok bs) :
    FormedNamed P bs ∧ bs.Pairwise KeyLt := by
  cases h
  exact ⟨trivial, .nil⟩

theorem namedOfJson_cons_cons (t u : Json) (rest : List Json) :
    namedOfJson (t :: u :: rest) = namedOfJson (u :: rest) := by
  rw [namedOfJson]
  nofun

mutual

/-- What was read is formed. -/
theorem formed_of_ofJson : ∀ {t : Json} {b : Block}, t.Canonical → ofJson t = .ok b →
    b.Formed WasRead
  | .arr items, b, ht, h => by
    rw [ofJson] at h
    obtain ⟨⟨name, flags⟩, -, h⟩ := Except.bind_eq_ok.mp h
    obtain ⟨content, hcontent, h⟩ := Except.bind_eq_ok.mp h
    obtain ⟨named, hnamed, h⟩ := Except.bind_eq_ok.mp h
    cases h
    exact ⟨formed_of_contentOfJson ht hcontent, formed_of_namedOfJson ht hnamed⟩
  | .null, _, _, h => formed_of_leaf (by simp) h
  | .bool _, _, _, h => formed_of_leaf (by simp) h
  | .int _, _, _, h => formed_of_leaf (by simp) h
  | .float _, _, _, h => formed_of_leaf (by simp) h
  | .str _, _, _, h => formed_of_leaf (by simp) h
  | .obj _, _, _, h => formed_of_leaf (by simp) h

theorem formed_of_contentOfJson : ∀ {items : List Json} {bs : List Block},
    Json.CanonicalItems items → contentOfJson items = .ok bs → FormedList WasRead bs
  | [], _, _, h => by
    rw [contentOfJson] at h
    cases h
    trivial
  | [_], _, _, h => by
    rw [contentOfJson] at h
    cases h
    trivial
  | t :: next :: rest, bs, ⟨ht, hrest⟩, h => by
    rw [contentOfJson] at h
    obtain ⟨b, hb, h⟩ := Except.bind_eq_ok.mp h
    obtain ⟨more, hmore, h⟩ := Except.bind_eq_ok.mp h
    cases h
    exact ⟨formed_of_ofJson ht hb, formed_of_contentOfJson hrest hmore⟩

theorem formed_of_namedOfJson : ∀ {items : List Json} {bs : List (String × Block)},
    Json.CanonicalItems items → namedOfJson items = .ok bs →
      FormedNamed WasRead bs ∧ bs.Pairwise KeyLt
  | [], _, _, h => by
    rw [namedOfJson] at h
    cases h
    exact ⟨trivial, .nil⟩
  | [.obj fields], bs, ⟨⟨hs, hfields⟩, _⟩, h => by
    rw [namedOfJson] at h
    exact ⟨formed_of_fieldsOfJson hfields h, pairwise_of_fieldsOfJson h hs⟩
  | [.null], _, _, h => formed_of_no_fields h
  | [.bool _], _, _, h => formed_of_no_fields h
  | [.int _], _, _, h => formed_of_no_fields h
  | [.float _], _, _, h => formed_of_no_fields h
  | [.str _], _, _, h => formed_of_no_fields h
  | [.arr _], _, _, h => formed_of_no_fields h
  | _ :: next :: rest, bs, ⟨_, hrest⟩, h => by
    rw [namedOfJson_cons_cons] at h
    exact formed_of_namedOfJson hrest h

theorem formed_of_fieldsOfJson : ∀ {fields : List (String × Json)}
    {bs : List (String × Block)}, Json.CanonicalFields fields → fieldsOfJson fields = .ok bs →
      FormedNamed WasRead bs
  | [], _, _, h => by
    rw [fieldsOfJson] at h
    cases h
    trivial
  | (name, t) :: rest, bs, ⟨ht, hrest⟩, h => by
    rw [fieldsOfJson.eq_def] at h
    dsimp only at h
    split at h
    · exact formed_of_fieldsOfJson hrest h
    · next hname =>
      split at h
      · next items =>
        obtain ⟨b, hb, h⟩ := Except.bind_eq_ok.mp h
        obtain ⟨more, hmore, h⟩ := Except.bind_eq_ok.mp h
        cases h
        rw [not_or] at hname
        exact ⟨⟨hname.1, hname.2, isNamed_rename hb name,
          formed_rename (formed_of_ofJson ht hb) name⟩, formed_of_fieldsOfJson hrest hmore⟩
      · cases h

end

/-! ## Containers -/

theorem int64?_word (flags : CountFlags) : (Json.int flags.word).int64? = some flags.word := by
  obtain ⟨v, t, s⟩ := flags
  cases v <;> cases t <;> cases s <;> rfl

theorem ofWord_word (flags : CountFlags) : CountFlags.ofWord flags.word = flags.normal := by
  obtain ⟨v, t, s⟩ := flags
  cases v <;> cases t <;> cases s <;> rfl

theorem word_nonneg (flags : CountFlags) : 0 ≤ flags.word := by
  obtain ⟨v, t, s⟩ := flags
  cases v <;> cases t <;> cases s <;> decide

/-- The fields for the flags and the name of a container. -/
def extras (name : Option String) (flags : CountFlags) : List (String × Json) :=
  (if 0 < flags.word then [("#f", .int flags.word)] else []) ++
    (match name with
      | some n => [("#n", .str n)]
      | none => [])

theorem terminator_eq (name : Option String) (flags : CountFlags)
    (named : List (String × Json)) : terminator name flags named =
      if named ++ extras name flags = [] then .null
      else .object (named ++ extras name flags) := by
  have hword := word_nonneg flags
  cases named with
  | cons e rest =>
    have hne : (e :: rest) ++ extras name flags ≠ [] := by simp
    rw [if_neg hne]
    exact congrArg Json.object (List.append_assoc _ _ _)
  | nil =>
    unfold terminator extras
    cases name with
    | some n => simp
    | none =>
      by_cases h : flags.word = 0
      · simp [h]
      · have hpos : 0 < flags.word := by omega
        simp [h, hpos]

/-- Neither field of a container is called `name`. -/
def Ordinary (name : String) : Prop :=
  name ≠ "#f" ∧ name ≠ "#n"

theorem get?_ofList_named {named : List (String × Json)} (h : ∀ e ∈ named, Ordinary e.1)
    {field : String} (hf : ¬ Ordinary field) : Entries.get? field (Entries.ofList named) = none := by
  cases hget : Entries.get? field (Entries.ofList named) with
  | none => rfl
  | some v =>
    have := h _ (Entries.mem_of_mem_ofList (Entries.mem_of_get? hget))
    exact absurd this hf

theorem field?_extras {fields : List (String × Json)} (h : ∀ e ∈ fields, Ordinary e.1)
    (name : Option String) (flags : CountFlags) (field : String) (hf : ¬ Ordinary field) :
    (Json.object (fields ++ extras name flags)).field? field =
      (Json.object (extras name flags)).field? field := by
  show Entries.get? field (Entries.ofList (fields ++ extras name flags)) = _
  rw [Entries.get?_ofList_append, get?_ofList_named h hf, Option.or_none]
  rfl

theorem field?_flags_extras (name : Option String) (flags : CountFlags) :
    (Json.object (extras name flags)).field? "#f" =
      if 0 < flags.word then some (.int flags.word) else none := by
  unfold extras
  split <;> cases name <;> simp

theorem field?_name_extras (name : Option String) (flags : CountFlags) :
    (Json.object (extras name flags)).field? "#n" = name.map .str := by
  unfold extras
  split <;> cases name <;> simp

/-- The name and the flags are read from what is written for them. -/
theorem ofTerminator_terminator (items : List Json) (name : Option String) (flags : CountFlags)
    {named : List (String × Json)} (h : ∀ e ∈ named, Ordinary e.1) :
    ofTerminator (items ++ [terminator name flags named]) = .ok (name, flags.normal) := by
  have hflags := field?_extras h name flags "#f" (by simp [Ordinary])
  have hname := field?_extras h name flags "#n" (by simp [Ordinary])
  rw [field?_flags_extras] at hflags
  rw [field?_name_extras] at hname
  have hword := word_nonneg flags
  rw [terminator_eq, ofTerminator, List.getLast?_concat, ← ofWord_word]
  by_cases hnil : named ++ extras name flags = []
  · rw [hnil] at hflags hname
    have hzero : flags.word = 0 := by
      split at hflags
      · cases hflags
      · omega
    have hnone : name = none := by
      cases name with
      | none => rfl
      | some n => cases hname
    rw [if_pos hnil, hzero, hnone]
    rfl
  · rw [if_neg hnil]
    unfold Json.object at hflags hname ⊢
    dsimp only
    rw [hflags, hname]
    by_cases hpos : 0 < flags.word
    · cases name <;> simp [if_pos hpos, int64?_word, Json.str?]
    · have hzero : flags.word = 0 := by omega
      cases name <;> simp [hzero, Json.str?]

/-! ## Blocks -/

theorem namedOfJson_append (items : List Json) (t : Json) :
    namedOfJson (items ++ [t]) = namedOfJson [t] := by
  induction items with
  | nil => rfl
  | cons u rest ih =>
    obtain ⟨v, more, hv⟩ : ∃ v more, rest ++ [t] = v :: more := by
      cases rest <;> simp
    rw [List.cons_append, hv, namedOfJson_cons_cons, ← hv, ih]

theorem contentOfJson_cons {t : Json} {items : List Json} (hne : items ≠ []) :
    contentOfJson (t :: items) = do return (← ofJson t) :: (← contentOfJson items) := by
  obtain ⟨u, rest, rfl⟩ := List.exists_cons_of_ne_nil hne
  rw [contentOfJson]

theorem fieldsOfJson_cons_of_not_ordinary {name : String} (hname : ¬ Ordinary name) (v : Json)
    (fields : List (String × Json)) : fieldsOfJson ((name, v) :: fields) = fieldsOfJson fields := by
  have hor : name = "#f" ∨ name = "#n" := by
    unfold Ordinary at hname
    rcases Decidable.em (name = "#f") with h | h
    · exact .inl h
    · exact .inr (Decidable.byContradiction fun hn => hname ⟨h, hn⟩)
  rw [fieldsOfJson.eq_def]
  exact if_pos hor

theorem fieldsOfJson_insertIfNew {name : String} (hname : ¬ Ordinary name) (v : Json)
    (fields : List (String × Json)) :
    fieldsOfJson (Entries.insertIfNew name v fields) = fieldsOfJson fields := by
  induction fields with
  | nil => exact fieldsOfJson_cons_of_not_ordinary hname v []
  | cons f rest ih =>
    rw [Entries.insertIfNew]
    split
    · exact fieldsOfJson_cons_of_not_ordinary hname v _
    · rfl
    · rw [fieldsOfJson.eq_def, fieldsOfJson.eq_def (f :: rest)]
      simp only [ih]

theorem not_ordinary_of_mem_extras {name : Option String} {flags : CountFlags}
    {e : String × Json} (h : e ∈ extras name flags) : ¬ Ordinary e.1 := by
  unfold extras at h
  rcases List.mem_append.mp h with h | h
  · split at h
    · simp [List.mem_singleton.mp h, Ordinary]
    · cases h
  · split at h
    · simp [List.mem_singleton.mp h, Ordinary]
    · cases h

theorem fieldsOfJson_extras (named : List (String × Json)) (hs : named.Pairwise KeyLt)
    (h : ∀ e ∈ named, Ordinary e.1) (name : Option String) (flags : CountFlags) :
    fieldsOfJson (Entries.ofList (named ++ extras name flags)) = fieldsOfJson named := by
  have hperm : (extras name flags ++ named).Pairwise fun a b => a.1 ≠ b.1 := by
    refine List.pairwise_append.mpr ⟨?_, Entries.pairwise_key_ne hs, fun a ha b hb heq => ?_⟩
    · unfold extras
      split <;> cases name <;> simp
    · exact not_ordinary_of_mem_extras ha (heq ▸ h b hb)
  rw [← Entries.ofList_eq_of_perm List.perm_append_comm hperm]
  have hnamed : Entries.ofList named = named := Entries.ofList_of_pairwise hs
  have hflags : ¬ Ordinary "#f" := by simp [Ordinary]
  have hname : ¬ Ordinary "#n" := by simp [Ordinary]
  have hcons : ∀ (e : String × Json) rest, Entries.ofList (e :: rest) =
      Entries.insertIfNew e.1 e.2 (Entries.ofList rest) := fun _ _ => rfl
  unfold extras
  split <;> cases name <;>
    simp [hcons, fieldsOfJson_insertIfNew hflags, fieldsOfJson_insertIfNew hname, hnamed]

theorem ofJson_of_instruction {t : Json} {i : Instruction} (h : Instruction.ofJson t = .ok i) :
    ofJson t = .ok (.leaf i) := by
  cases t with
  | arr items => cases h
  | _ => rw [ofJson, h]; rfl; nofun

theorem ordinary_of_formedNamed {P : Instruction → Prop} :
    ∀ {named : List (String × Block)}, FormedNamed P named →
      ∀ e ∈ namedJson named, Ordinary e.1
  | [], _, e, he => by simp [namedJson] at he
  | (name, b) :: rest, ⟨⟨hf, hn, _, _⟩, hrest⟩, e, he => by
    rw [namedJson] at he
    rcases List.mem_cons.mp he with rfl | he
    · exact ⟨hf, hn⟩
    · exact ordinary_of_formedNamed hrest e he

theorem namedJson_keys (named : List (String × Block)) :
    (namedJson named).map Prod.fst = named.map Prod.fst := by
  induction named with
  | nil => rw [namedJson]; rfl
  | cons e rest ih => rw [namedJson, List.map_cons, ih]; rfl

theorem pairwise_namedJson {named : List (String × Block)} (h : named.Pairwise KeyLt) :
    (namedJson named).Pairwise KeyLt := by
  have hkeys : (named.map Prod.fst).Pairwise fun a b => compare a b = .lt :=
    List.pairwise_map.mpr h
  rw [← namedJson_keys] at hkeys
  have hnamed := List.pairwise_map.mp hkeys
  exact hnamed

/-- A container is read from what is written for its parts. -/
theorem ofJson_container {P : Instruction → Prop} (name : Option String) (flags : CountFlags)
    {content content' : List Block} {named named' : List (String × Block)}
    (hform : FormedNamed P named) (hs : named.Pairwise KeyLt)
    (hcontent : ∀ t, contentOfJson (contentJson content ++ [t]) = .ok content')
    (hnamed : fieldsOfJson (namedJson named) = .ok named') :
    ofJson (.arr (contentJson content ++ [terminator name flags (namedJson named)])) =
      .ok (.container name flags.normal content' named') := by
  have hord := ordinary_of_formedNamed hform
  have hfields : namedOfJson [terminator name flags (namedJson named)] = .ok named' := by
    rw [← hnamed, ← fieldsOfJson_extras _ (pairwise_namedJson hs) hord name flags,
      terminator_eq]
    split
    · next hnil => rw [hnil]; rfl
    · exact namedOfJson.eq_2 _
  rw [ofJson, ofTerminator_terminator _ name flags hord, hcontent, namedOfJson_append, hfields]
  rfl

mutual

/-- What is written for a block reads as its normal form. -/
theorem ofJson_toJson : ∀ {b : Block}, b.Formed Instruction.Readable →
    ofJson (b.toJson false) = .ok b.normal
  | .leaf i, h => by
    rw [toJson, normal]
    exact ofJson_of_instruction (Instruction.ofJson_toJson h)
  | .container name flags content named, ⟨hcontent, hnamed, hs⟩ => by
    rw [toJson, normal]
    exact ofJson_container name flags hnamed hs (contentOfJson_contentJson hcontent)
      (fieldsOfJson_namedJson hnamed)

theorem contentOfJson_contentJson : ∀ {bs : List Block}, FormedList Instruction.Readable bs →
    ∀ t, contentOfJson (contentJson bs ++ [t]) = .ok (normalList bs)
  | [], _, t => by rw [contentJson, normalList]; rfl
  | b :: rest, ⟨hb, hrest⟩, t => by
    rw [contentJson, normalList, List.cons_append, contentOfJson_cons (by simp),
      ofJson_toJson hb, contentOfJson_contentJson hrest t]
    rfl

theorem fieldsOfJson_namedJson : ∀ {bs : List (String × Block)},
    FormedNamed Instruction.Readable bs → fieldsOfJson (namedJson bs) = .ok (normalNamed bs)
  | [], _ => by rw [namedJson, normalNamed]; rfl
  | (name, .leaf i) :: _, ⟨⟨_, _, h, _⟩, _⟩ => h.elim
  | (name, .container n flags content named) :: rest,
      ⟨⟨hf, hn, hname, hcontent, hnamed, hs⟩, hrest⟩ => by
    have hb := ofJson_container none flags hnamed hs (contentOfJson_contentJson hcontent)
      (fieldsOfJson_namedJson hnamed)
    obtain rfl : n = some name := hname
    rw [namedJson, normalNamed, fieldsOfJson.eq_def]
    simp only [hf, hn, or_self, if_false, toJson, if_true, hb, fieldsOfJson_namedJson hrest]
    rfl

end

end Block

end StoryMachine
