import StoryMachine.Proofs.Content.Normal
import StoryMachine.Proofs.Maps

/-!
# Instructions as JSON

What is written for an instruction reads as its normal form, provided that its parts can be
told from what is written: a path from its text, a scope from 32 bits, a finite number from
its decimal, and the items of a list from their full names. Every instruction that was read
is of this kind, up to the two points that reading does not settle: whether the decimal of
a number reads as it, and whether two items of a list differ only in that one is of unknown
definition and the other of one named by a question mark.

* `Instruction.Readable` : the instructions that can be told from what is written;
* `Instruction.ofJson_toJson` : what is written for one reads as its normal form;
* `Instruction.readable_of_ofJson` : what was read is one.
-/

namespace StoryMachine

/-! ## Objects with named fields -/

namespace Json

@[simp]
theorem field?_object_nil (n : String) : (object []).field? n = none := rfl

@[simp]
theorem field?_object_cons (n name : String) (v : Json) (fields : List (String × Json)) :
    (object ((name, v) :: fields)).field? n =
      ((object fields).field? n).or (if n = name then some v else none) :=
  Entries.get?_ofList_cons n (name, v) fields

end Json

@[simp]
theorem fieldString_str (t : Json) (s : String) : fieldString t (.str s) = .ok s := rfl

@[simp]
theorem fieldNat_nat (t : Json) (n : Nat) : fieldNat t (.nat n) = .ok n := by
  simp [fieldNat, Json.nat, Json.nat?]

theorem fieldInt_int (t : Json) {n : Int} (h : n < 0x8000000000000000) :
    fieldInt t (.int n) = .ok n := by
  rw [fieldInt, Json.int64?, if_pos h]

@[simp]
theorem fieldStrings_strings (t : Json) (ss : List String) :
    fieldStrings t (Json.strings ss) = .ok ss := by
  have hread : (ss.map Json.str).mapM (fieldString t) = .ok (ss.map id) :=
    Except.mapM_map_eq_ok fun s => rfl
  rwa [List.map_id] at hread

theorem Instruction.ofJson_object (fields : List (String × Json)) :
    Instruction.ofJson (Json.object fields) = Instruction.ofObject (Json.object fields) := rfl

/-! ## Numbers -/

namespace Value

theorem ofFloat32_maxFinite : Decimal.ofFloat32 maxFinite = .finite false 16777215 104 := by
  decide +kernel

theorem ofFloat32_neg_maxFinite :
    Decimal.ofFloat32 (-maxFinite) = .finite true 16777215 104 := by
  decide +kernel

theorem ofFloat32_zero : Decimal.ofFloat32 0 = .finite false 0 (-149) := by
  decide +kernel

/-- What stands for a number is finite. -/
theorem toFinite_finite (x : Float32) :
    ∃ negative m q, Decimal.ofFloat32 (toFinite x) = .finite negative m q := by
  unfold toFinite
  split
  · exact ⟨_, _, _, ofFloat32_zero⟩
  · split
    · exact ⟨_, _, _, ofFloat32_neg_maxFinite⟩
    · exact ⟨_, _, _, ofFloat32_maxFinite⟩
  · next h => exact ⟨_, _, _, h⟩

theorem toFinite_of_finite {x : Float32} {negative : Bool} {m : Nat} {q : Int}
    (h : Decimal.ofFloat32 x = .finite negative m q) : toFinite x = x := by
  rw [toFinite, h]

theorem toFinite_toFinite (x : Float32) : toFinite (toFinite x) = toFinite x := by
  obtain ⟨_, _, _, h⟩ := toFinite_finite x
  exact toFinite_of_finite h

theorem floatJson_toFinite (x : Float32) : floatJson (toFinite x) = floatJson x := by
  rw [floatJson, floatJson, toFinite_toFinite]

/-- The decimal written for the number reads as it. -/
def FloatReads (x : Float32) : Prop :=
  Instruction.ofJson (floatJson x) = .ok (.value (.float x))

/-- Whether what is read is the number. -/
def isFloat (x : Float32) : Except StoryError Instruction → Bool
  | .ok (.value (.float y)) => y = x
  | _ => false

theorem isFloat_iff {x : Float32} {i : Except StoryError Instruction} :
    isFloat x i ↔ i = .ok (.value (.float x)) := by
  constructor
  · intro h
    unfold isFloat at h
    split at h
    · rw [of_decide_eq_true h]
    · cases h
  · rintro rfl
    simp [isFloat]

instance (x : Float32) : Decidable (FloatReads x) :=
  decidable_of_iff _ isFloat_iff

end Value

theorem ofNumber_toInt (n : Int32) : Instruction.ofJson (.int n.toInt) = .ok (.value (.int n)) := by
  have hlow := n.le_toInt
  have hhigh := n.toInt_lt
  rw [Instruction.ofJson, Instruction.ofNumber, if_neg (by omega), if_pos (by omega),
    Int32.ofInt_toInt]

theorem wrap32_wrap32 (n : Int) : wrap32 (wrap32 n) = wrap32 n :=
  Int.bmod_bmod

theorem wrap32_lt (n : Int) : wrap32 n < 0x8000000000000000 := by
  have := Int.bmod_lt (x := n) (m := 0x100000000) (by decide)
  unfold wrap32
  omega

/-! ## Lists -/

namespace ListValue

/-- No item of unknown definition shares its name with one of a definition named by a
question mark. -/
def Apart (l : ListValue) : Prop :=
  ∀ name, ¬ (l.has ⟨none, name⟩ ∧ l.has ⟨some "?", name⟩)

/-- The items of the list can be told from their full names. -/
structure Readable (l : ListValue) : Prop where
  no_point : ∀ e ∈ l.items.entries, '.' ∉ (e.1.origin.getD "?").toList
  apart : l.Apart

theorem has_iff {l : ListValue} {i : Item} : l.has i ↔ ∃ rank, (i, rank) ∈ l.items.entries := by
  rw [has, SortedMap.contains, Option.isSome_iff_exists]
  simp only [SortedMap.mem_entries_iff]

/-- Items that are apart have different normal forms. -/
theorem normal_injOn {l : ListValue} (h : l.Apart) {a b : Item} (ha : l.has a) (hb : l.has b)
    (heq : a.normal = b.normal) : a = b := by
  obtain ⟨oa, na⟩ := a
  obtain ⟨ob, nb⟩ := b
  obtain ⟨ho, rfl⟩ : oa.getD "?" = ob.getD "?" ∧ na = nb := by
    simpa [Item.normal] using heq
  cases oa with
  | none => cases ob with
    | none => rfl
    | some o =>
      obtain rfl : "?" = o := ho
      exact absurd ⟨ha, hb⟩ (h na)
  | some o => cases ob with
    | none =>
      obtain rfl : o = "?" := ho
      exact absurd ⟨hb, ha⟩ (h na)
    | some o' => rw [show o = o' from ho]

theorem pairwise_normal_ne {l : ListValue} (h : l.Apart) :
    (l.items.entries.map fun e => (e.1.normal, e.2)).Pairwise fun a b => a.1 ≠ b.1 := by
  rw [List.pairwise_map]
  refine (Entries.pairwise_key_ne l.items.sorted).imp_of_mem fun {a b} ha hb hab heq => ?_
  exact hab (normal_injOn h (has_iff.mpr ⟨a.2, ha⟩) (has_iff.mpr ⟨b.2, hb⟩) heq)

theorem fullName_injOn {l : ListValue} (h : l.Readable) {a b : Item × Int32}
    (ha : a ∈ l.items.entries) (hb : b ∈ l.items.entries)
    (heq : a.1.fullName = b.1.fullName) : a.1 = b.1 := by
  refine normal_injOn h.apart (has_iff.mpr ⟨a.2, ha⟩) (has_iff.mpr ⟨b.2, hb⟩) ?_
  rw [← Item.parse_fullName (h.no_point a ha), ← Item.parse_fullName (h.no_point b hb), heq]

theorem pairwise_fullName_ne {l : ListValue} (h : l.Readable) :
    (l.items.entries.map fun e => (e.1.fullName, Json.int e.2.toInt)).Pairwise
      fun a b => a.1 ≠ b.1 := by
  rw [List.pairwise_map]
  refine (Entries.pairwise_key_ne l.items.sorted).imp_of_mem fun {a b} ha hb hab heq => ?_
  exact hab (fullName_injOn h ha hb heq)

end ListValue

/-- The item and the rank that a field of a list reads as. -/
def listField (f : String × Json) : Item × Int32 :=
  (Item.parse f.1, Int32.ofInt (f.2.int64?.getD 0))

theorem listItems_eq_ok (t : Json) {fields : List (String × Json)}
    (h : ∀ f ∈ fields, ∃ rank : Int32, f.2 = .int rank.toInt) :
    Instruction.listItems t fields = .ok (fields.map listField) := by
  induction fields with
  | nil => rfl
  | cons f rest ih =>
    obtain ⟨name, j⟩ := f
    obtain ⟨rank, rfl⟩ : ∃ rank : Int32, j = .int rank.toInt := h (name, j) (by simp)
    have hlt : rank.toInt < 0x8000000000000000 := by have := rank.toInt_lt; omega
    rw [Instruction.listItems, fieldInt_int t hlt, ih fun f hf => h f (by simp [hf])]
    simp only [List.map_cons, listField, Json.int64?, if_pos hlt]
    rfl

namespace ListValue

/-- The fields that the items of a list are written as. -/
def fields (l : ListValue) : List (String × Json) :=
  Entries.ofList (l.items.entries.map fun e => (e.1.fullName, .int e.2.toInt))

theorem perm_fields {l : ListValue} (h : l.Readable) :
    l.fields.Perm (l.items.entries.map fun e => (e.1.fullName, .int e.2.toInt)) :=
  Entries.perm_ofList (pairwise_fullName_ne h)

theorem map_listField_fields {l : ListValue} (h : l.Readable) :
    (l.fields.map listField).Perm (l.items.entries.map fun e => (e.1.normal, e.2)) := by
  refine ((perm_fields h).map listField).trans (.of_eq ?_)
  rw [List.map_map]
  refine List.map_congr_left fun e he => ?_
  have hlt : e.2.toInt < 0x8000000000000000 := by have := e.2.toInt_lt; omega
  simp only [Function.comp, listField, Json.int64?, if_pos hlt, Option.getD_some,
    Item.parse_fullName (h.no_point e he), Int32.ofInt_toInt]

theorem ofList_fields {l : ListValue} (h : l.Readable) :
    SortedMap.ofList (l.fields.map listField) = l.normal.items := by
  refine SortedMap.ext (Entries.ofList_eq_of_perm (map_listField_fields h) ?_)
  exact (map_listField_fields h).symm.pairwise (pairwise_normal_ne h.apart) fun hab => hab.symm

theorem listItems_fields (t : Json) {l : ListValue} (h : l.Readable) :
    Instruction.listItems t l.fields = .ok (l.fields.map listField) := by
  refine listItems_eq_ok t fun f hf => ?_
  obtain ⟨e, -, rfl⟩ := List.mem_map.mp ((perm_fields h).mem_iff.mp hf)
  exact ⟨e.2, rfl⟩

theorem listJson_eq (l : ListValue) : Value.listJson l = .object (("list", .obj l.fields) ::
    match l.normal.emptyOrigins with
    | some names => [("origins", Json.strings names)]
    | none => []) := by
  unfold Value.listJson normal
  cases l.isEmpty <;> rcases l.emptyOrigins with _ | _ | ⟨name, rest⟩ <;> rfl

/-- What is written for a list reads as its normal form. -/
theorem ofJson_listJson {l : ListValue} (h : l.Readable) :
    Instruction.ofJson (Value.listJson l) = .ok (.value (.list l.normal)) := by
  have hnormal : l.normal = ⟨.ofList (l.fields.map listField), l.normal.emptyOrigins⟩ := by
    rw [ofList_fields h]
  rw [listJson_eq, Instruction.ofJson_object, hnormal]
  cases l.normal.emptyOrigins with
  | none =>
    simp [Instruction.ofObject, Instruction.divertFields, Instruction.ofList, Json.obj?,
      listItems_fields _ h]
  | some names =>
    simp [Instruction.ofObject, Instruction.divertFields, Instruction.ofList, Json.obj?,
      listItems_fields _ h]

end ListValue

/-! ## Values -/

namespace Value

/-- The value can be told from what is written for it, up to its normal form. -/
def Readable : Value → Prop
  | .float x => FloatReads (toFinite x)
  | .list l => l.Readable
  | .target p => p.Readable
  | .reference _ scope => wrap32 scope = scope
  | _ => True

theorem ofString_text (s : String) :
    Instruction.ofString (if s = "\n" then s else "^" ++ s) = .ok (.value (.text s)) := by
  split
  · next h => rw [h]; rfl
  · have : ("^" ++ s).toList = '^' :: s.toList := by simp
    simp [Instruction.ofString, this]

/-- What is written for a value reads as its normal form. -/
theorem ofJson_toJson {v : Value} (h : v.Readable) :
    Instruction.ofJson v.toJson = .ok (.value v.normal) := by
  cases v with
  | bool b => rfl
  | int n => exact ofNumber_toInt n
  | float x => rw [toJson, ← floatJson_toFinite]; exact h
  | text s => exact ofString_text s
  | list l => exact ListValue.ofJson_listJson h
  | target p =>
    have hp : Path.parse p.render = p := h
    rw [toJson, Instruction.ofJson_object]
    simp [Instruction.ofObject, hp, normal]
  | reference name scope =>
    have hscope : wrap32 scope = scope := h
    have hint := fieldInt_int (Json.object [("^var", .str name), ("ci", .int scope)])
      (hscope ▸ wrap32_lt scope)
    rw [toJson, Instruction.ofJson_object]
    simp [Instruction.ofObject, Instruction.ofReference, hint, hscope, normal]

end Value

/-! ## Instructions -/

theorem ChoicePoint.ofFlags_flags (c : ChoicePoint) : ofFlags c.flags c.path = c := by
  obtain ⟨a, b, c, d, e, path⟩ := c
  cases a <;> cases b <;> cases c <;> cases d <;> cases e <;> rfl

theorem ChoicePoint.flags_lt (c : ChoicePoint) : c.flags < 0x8000000000000000 := by
  have hword : ∀ (b : Bool) (n : Int), 0 ≤ n → flagWord b n ≤ n := fun b n hn => by
    cases b <;> simp [flagWord, hn]
  have h1 := hword c.hasCondition 1 (by decide)
  have h2 := hword c.hasStartText 2 (by decide)
  have h4 := hword c.hasChoiceOnlyText 4 (by decide)
  have h8 := hword c.isInvisible 8 (by decide)
  have h16 := hword c.onceOnly 16 (by decide)
  unfold flags
  omega

theorem Command.ofString_word (c : Command) :
    Instruction.ofString c.word = .ok (.command c) := by
  cases c <;> rfl

theorem Operator.ofJson_toJson (o : Operator) :
    Instruction.ofJson o.toJson = .ok (.operator o) := by
  cases o <;> rfl

namespace Instruction

/-- The instruction can be told from what is written for it, up to its normal form. -/
def Readable : Instruction → Prop
  | .value v => v.Readable
  | .divert d => ∀ p, d.destination = .path p → p.Readable
  | .choicePoint c => c.path.Readable
  | .readCount p => p.Readable
  | _ => True

theorem ofJson_divert {d : Divert} (h : (Instruction.divert d).Readable) :
    ofJson d.toJson = .ok (.divert d) := by
  obtain ⟨kind, destination, conditional⟩ := d
  have hp : ∀ p, destination = .path p → Path.parse p.render = p := h
  rw [Divert.toJson, ofJson_object]
  -- a number of arguments is only written if there are any
  rcases destination with p | name
  · rcases kind with _ | _ | _ | _ | n <;> cases conditional <;>
      simp [ofObject, ofDivert, divertFields, Divert.field, Divert.variableName?,
        Divert.arguments, hp p rfl]
  · rcases kind with _ | _ | _ | _ | n <;> cases conditional <;>
      simp [ofObject, ofDivert, divertFields, Divert.field, Divert.variableName?,
        Divert.arguments]

theorem ofJson_assign (a : Assignment) : ofJson a.toJson = .ok (.assign a) := by
  obtain ⟨name, isDeclaration, isGlobal⟩ := a
  rw [Assignment.toJson, ofJson_object]
  cases isDeclaration <;> cases isGlobal <;>
    simp [ofObject, divertFields, ofAssignment]

/-- What is written for an instruction reads as its normal form. -/
theorem ofJson_toJson {i : Instruction} (h : i.Readable) : ofJson i.toJson = .ok i.normal := by
  cases i with
  | value v => exact Value.ofJson_toJson h
  | command c => exact c.ofString_word
  | divert d => exact ofJson_divert h
  | choicePoint c =>
    have hp : Path.parse c.path.render = c.path := h
    have hflags := fieldInt_int
      (Json.object [("*", .str c.path.render), ("flg", .int c.flags)]) c.flags_lt
    rw [toJson, ofJson_object]
    simp [ofObject, divertFields, ofChoicePoint, hflags, hp, c.ofFlags_flags, normal]
  | operator o => exact o.ofJson_toJson
  | readVariable name =>
    rw [toJson, ofJson_object]
    simp [ofObject, divertFields, normal]
  | readCount p =>
    have hp : Path.parse p.render = p := h
    rw [toJson, ofJson_object]
    simp [ofObject, divertFields, hp, normal]
  | assign a => exact ofJson_assign a
  | tag text =>
    rw [toJson, ofJson_object]
    simp [ofObject, divertFields, normal]
  | glue => rfl
  | void => rfl

/-! ## What reading gives -/

theorem items_of_listItems {t : Json} {fields : List (String × Json)}
    {items : List (Item × Int32)} (h : listItems t fields = .ok items) :
    ∀ e ∈ items, ∃ name, e.1 = Item.parse name := by
  induction fields generalizing items with
  | nil => cases h; simp
  | cons f rest ih =>
    obtain ⟨rank, -, h⟩ := Except.bind_eq_ok.mp h
    obtain ⟨more, hmore, h⟩ := Except.bind_eq_ok.mp h
    cases h
    intro e he
    rcases List.mem_cons.mp he with rfl | he
    · exact ⟨f.1, rfl⟩
    · exact ih hmore e he

theorem list_of_ofList {t items : Json} {i : Instruction} (h : ofList t items = .ok i) :
    ∃ l : ListValue, i = .value (.list l) ∧
      ∀ e ∈ l.items.entries, '.' ∉ (e.1.origin.getD "?").toList := by
  have hread : ∀ {fields origins}, (listItems t fields >>= fun read =>
      (.ok (.value (.list ⟨.ofList read, origins⟩)) : Except StoryError Instruction)) = .ok i →
      ∃ l : ListValue, i = .value (.list l) ∧
        ∀ e ∈ l.items.entries, '.' ∉ (e.1.origin.getD "?").toList := by
    intro fields origins h
    obtain ⟨read, hread, h⟩ := Except.bind_eq_ok.mp h
    cases h
    refine ⟨_, rfl, fun e he => ?_⟩
    obtain ⟨name, hname⟩ := items_of_listItems hread e (Entries.mem_of_mem_ofList he)
    exact hname ▸ Item.no_point_origin_parse name
  unfold ofList at h
  split at h
  · cases h
  · split at h
    · obtain ⟨origins, -, h⟩ := Except.bind_eq_ok.mp h
      exact hread h
    · exact hread h

theorem readable_of_ofDivert {t target : Json} {kind : DivertKind} {i : Instruction}
    (h : ofDivert t target kind = .ok i) : i.Readable := by
  obtain ⟨s, -, h⟩ := Except.bind_eq_ok.mp h
  have hmake : ∀ kind conditional, (pure (divert ⟨kind,
      if (t.field? "var").isSome then .variable s else .path (Path.parse s), conditional⟩) :
      Except StoryError Instruction) = .ok i → i.Readable := by
    intro kind conditional h
    cases h
    intro p hp
    dsimp only at hp
    split at hp
    · cases hp
    · cases hp
      exact Path.readable_parse s
  dsimp only at h
  split at h <;> obtain ⟨kind, -, h⟩ := Except.bind_eq_ok.mp h <;> exact hmake _ _ h

theorem readable_of_ofReference {t name : Json} {i : Instruction}
    (h : ofReference t name = .ok i) : i.Readable := by
  obtain ⟨s, -, h⟩ := Except.bind_eq_ok.mp h
  dsimp only at h
  split at h <;> obtain ⟨scope, hscope, h⟩ := Except.bind_eq_ok.mp h
  · next n _ =>
    rw [← bind_pure_comp] at hscope
    obtain ⟨m, -, hm⟩ := Except.bind_eq_ok.mp hscope
    cases hm
    cases h
    exact wrap32_wrap32 m
  · cases hscope
    cases h
    rfl

theorem readable_of_ofChoicePoint {t path : Json} {i : Instruction}
    (h : ofChoicePoint t path = .ok i) : i.Readable := by
  obtain ⟨s, -, h⟩ := Except.bind_eq_ok.mp h
  dsimp only at h
  split at h <;> obtain ⟨flags, -, h⟩ := Except.bind_eq_ok.mp h <;> cases h <;>
    exact Path.readable_parse s

theorem readable_of_ofAssignment {t name : Json} {isGlobal : Bool} {i : Instruction}
    (h : ofAssignment t name isGlobal = .ok i) : i.Readable := by
  obtain ⟨s, -, h⟩ := Except.bind_eq_ok.mp h
  cases h
  trivial

theorem readable_of_ofObject {t : Json} {i : Instruction} (h : ofObject t = .ok i)
    (hlist : ∀ l, i = .value (.list l) → l.Apart) : i.Readable := by
  have hfield : ∀ {field} {f : String → Instruction}, (fieldString t field >>= fun s =>
      (pure (f s) : Except StoryError Instruction)) = .ok i → ∃ s, i = f s := by
    intro field f h
    obtain ⟨s, -, h⟩ := Except.bind_eq_ok.mp h
    cases h
    exact ⟨s, rfl⟩
  unfold ofObject at h
  split at h
  · obtain ⟨s, rfl⟩ := hfield h
    exact Path.readable_parse s
  split at h
  · exact readable_of_ofReference h
  split at h
  · exact readable_of_ofDivert h
  split at h
  · exact readable_of_ofChoicePoint h
  split at h
  · obtain ⟨s, rfl⟩ := hfield h
    trivial
  split at h
  · obtain ⟨s, rfl⟩ := hfield h
    exact Path.readable_parse s
  split at h
  · exact readable_of_ofAssignment h
  split at h
  · exact readable_of_ofAssignment h
  split at h
  · obtain ⟨s, rfl⟩ := hfield h
    trivial
  split at h
  · obtain ⟨l, rfl, hitems⟩ := list_of_ofList h
    exact ⟨hitems, hlist l rfl⟩
  · cases h

theorem readable_of_ofNumber {t : Json} {i : Instruction} (h : ofNumber t = .ok i)
    (hfloat : ∀ x, i = .value (.float x) → Value.FloatReads (Value.toFinite x)) :
    i.Readable := by
  unfold ofNumber at h
  split at h
  · split at h
    · cases h
      exact hfloat _ rfl
    · split at h <;> cases h
      trivial
  · cases h
    exact hfloat _ rfl
  · cases h

theorem readable_of_ofString {s : String} {i : Instruction} (h : ofString s = .ok i) :
    i.Readable := by
  unfold ofString at h
  repeat' split at h
  all_goals cases h
  all_goals trivial

/-- What was read can be told from what is written for it, if the decimal of a number reads
as it and the items of a list are apart. -/
theorem readable_of_ofJson {t : Json} {i : Instruction} (h : ofJson t = .ok i)
    (hfloat : ∀ x, i = .value (.float x) → Value.FloatReads (Value.toFinite x))
    (hlist : ∀ l, i = .value (.list l) → l.Apart) : i.Readable := by
  unfold ofJson at h
  split at h
  · cases h
  · cases h
  · cases h
    trivial
  · exact readable_of_ofNumber h hfloat
  · exact readable_of_ofNumber h hfloat
  · exact readable_of_ofString h
  · exact readable_of_ofObject h hlist

end Instruction

end StoryMachine
