import Mathlib.Data.List.Forall2
import StoryMachine.Proofs.Json.Sequences
import StoryMachine.Proofs.Maps

/-!
# Reading back what was written

A value that has been written as text is read back in its own shape: truth values, strings,
arrays and objects as they were, numbers as numbers. A whole number that 64 bits do not hold may
come back as floating point, and nothing is said about the value of floating-point numbers. The
text may also be refused, such as where values are nested too deeply.

A value comes back as it was if the texts of its floating-point numbers read as them, its whole
numbers fit 64 bits, its fields stand in order, and its arrays and objects are not nested too deeply.
Its text is not refused.

* `Json.Rereads` : what a value may be read back as;
* `Json.Exact` : the values that come back as they were; `Json.isExact` : a check for those without
  floating-point numbers;
* `Json.readsBack_render` : every value is read back, by induction on it;
* `Json.rereads_of_read?` : the text of a value, if it is read, is read back in its own shape;
* `Json.read?_render` : the text of an exact value is read as this value;
* `Json.Rereads.field?` : the fields of an object are read back, those that it has.
-/

namespace StoryMachine.Json

open Decimal

/-! ## What comes back -/

mutual

/-- What a value may be read back as. -/
def Rereads : Json → Json → Prop
  | .null, j => j = .null
  | .bool b, j => j = .bool b
  | .int n, j => j = .int n ∨ ∃ x, j = .float x
  | .float _, j => j = .null ∨ j.IsNumber
  | .str s, j => j = .str s
  | .arr items, j => ∃ items', j = .arr items' ∧ RereadsItems items items'
  | .obj fields, j => ∃ fields', j = .object fields' ∧ RereadsFields fields fields'

/-- What items may be read back as, one by one. -/
def RereadsItems : List Json → List Json → Prop
  | [], js => js = []
  | item :: rest, js => ∃ j js', js = j :: js' ∧ item.Rereads j ∧ RereadsItems rest js'

/-- What fields may be read back as, one by one, with their names. -/
def RereadsFields : List (String × Json) → List (String × Json) → Prop
  | [], fs => fs = []
  | (name, value) :: rest, fs =>
    ∃ j fs', fs = (name, j) :: fs' ∧ value.Rereads j ∧ RereadsFields rest fs'

end

instance : DecidableRel (@KeyLt String _ Json) := fun a b =>
  inferInstanceAs (Decidable (compare a.1 b.1 = .lt))

mutual

/-- Whether a value comes back as it was, with `depth` levels of nesting left. -/
def isExact (depth : Nat) : Json → Bool
  | .null | .bool _ | .str _ => true
  | .int n => -0x8000000000000000 ≤ n && n ≤ max64
  | .float _ => false
  | .arr items => 0 < depth && areExact (depth - 1) items
  | .obj fields => 0 < depth && decide (fields.Pairwise KeyLt) && fieldsAreExact (depth - 1) fields

/-- Whether items come back as they were. -/
def areExact (depth : Nat) : List Json → Bool
  | [] => true
  | item :: rest => isExact depth item && areExact depth rest

/-- Whether fields come back as they were. -/
def fieldsAreExact (depth : Nat) : List (String × Json) → Bool
  | [] => true
  | (_, value) :: rest => isExact depth value && fieldsAreExact depth rest

end

/-- The text of the number reads as it, wherever a number may stop. -/
def FloatExact (x : Float) : Prop :=
  ∀ {rest}, Stops rest → readNumber? ((floatText x).toList ++ rest) = some (.float x, rest)

mutual

/-- The value comes back as it was, with `depth` levels of nesting left. -/
def Exact (depth : Nat) : Json → Prop
  | .null | .bool _ | .str _ => True
  | .int n => -0x8000000000000000 ≤ n ∧ n ≤ max64
  | .float x => FloatExact x
  | .arr items => 0 < depth ∧ ItemsExact (depth - 1) items
  | .obj fields => 0 < depth ∧ fields.Pairwise KeyLt ∧ FieldsExact (depth - 1) fields

/-- The items come back as they were. -/
def ItemsExact (depth : Nat) : List Json → Prop
  | [] => True
  | item :: rest => Exact depth item ∧ ItemsExact depth rest

/-- The fields come back as they were. -/
def FieldsExact (depth : Nat) : List (String × Json) → Prop
  | [] => True
  | (_, value) :: rest => Exact depth value ∧ FieldsExact depth rest

end

mutual

theorem exact_of_isExact {depth : Nat} : ∀ {j : Json}, isExact depth j = true → j.Exact depth
  | .null, _ | .bool _, _ | .str _, _ => trivial
  | .int _, h => by
    rw [isExact, Bool.and_eq_true, decide_eq_true_iff, decide_eq_true_iff] at h
    exact h
  | .float _, h => by cases h
  | .arr items, h => by
    rw [isExact, Bool.and_eq_true, decide_eq_true_iff] at h
    exact ⟨h.1, itemsExact_of_areExact h.2⟩
  | .obj fields, h => by
    rw [isExact, Bool.and_eq_true, Bool.and_eq_true, decide_eq_true_iff, decide_eq_true_iff] at h
    exact ⟨h.1.1, h.1.2, fieldsExact_of_fieldsAreExact h.2⟩

theorem itemsExact_of_areExact {depth : Nat} :
    ∀ {items : List Json}, areExact depth items = true → ItemsExact depth items
  | [], _ => trivial
  | _ :: _, h => by
    rw [areExact, Bool.and_eq_true] at h
    exact ⟨exact_of_isExact h.1, itemsExact_of_areExact h.2⟩

theorem fieldsExact_of_fieldsAreExact {depth : Nat} :
    ∀ {fields : List (String × Json)}, fieldsAreExact depth fields = true → FieldsExact depth fields
  | [], _ => trivial
  | _ :: _, h => by
    rw [fieldsAreExact, Bool.and_eq_true] at h
    exact ⟨exact_of_isExact h.1, fieldsExact_of_fieldsAreExact h.2⟩

end

/-- What comes back from the text of a value: what it may be read back as, and the value itself
if it is exact. -/
def ComesBack (depth : Nat) (j j' : Json) : Prop :=
  j.Rereads j' ∧ (j.Exact depth → j' = j)

/-! ## Values without parts -/

theorem readValue?_of_isNumberChar (depth : Nat) {c : Char} (h : IsNumberChar c) (cs : List Char) :
    readValue? depth (c :: cs) = readNumber? (c :: cs) := by
  obtain ⟨-, -, -, -, hquote, hitems, hfields, hnull, htrue, hfalse⟩ := not_mark_of_isNumberChar h
  rw [readValue?]
  · exact fun rest heq => hnull (List.cons.inj heq).1
  · exact fun rest heq => htrue (List.cons.inj heq).1
  · exact fun rest heq => hfalse (List.cons.inj heq).1
  · exact fun rest heq => hquote (List.cons.inj heq).1
  · exact fun _ rest _ heq => hitems (List.cons.inj heq).1
  · exact fun _ rest _ heq => hfields (List.cons.inj heq).1

theorem readWord?_append (word : String) (value : Json) (rest : List Char) :
    readWord? word value (word.toList ++ rest) = some (value, rest) := by
  unfold readWord?
  rw [if_pos (List.isPrefixOf_iff_prefix.mpr (List.prefix_append _ _)), ← String.length_toList,
    List.drop_left]

theorem readsBack_word (depth : Nat) {j : Json} {word : String} (hhead : Marked word.toList)
    (h : ∀ cs, readValue? depth (word.toList ++ cs) = readWord? word j (word.toList ++ cs)) :
    ReadsBack True (readValue? depth) word.toList (· = j) := by
  refine ⟨hhead, fun _ => ?_⟩
  rw [h, readWord?_append]
  exact .inl ⟨rfl, rfl⟩

theorem readsBack_null (depth : Nat) :
    ReadsBack True (readValue? depth) "null".toList (· = .null) :=
  readsBack_word depth ⟨'n', _, rfl, rfl, by decide, by decide⟩ fun cs => by
    show readValue? depth ('n' :: _) = _
    rw [readValue?]
    rfl

theorem readsBack_bool (depth : Nat) (b : Bool) :
    ReadsBack True (readValue? depth) (render (.bool b)).toList (· = .bool b) := by
  cases b with
  | true =>
    exact readsBack_word depth ⟨'t', _, rfl, rfl, by decide, by decide⟩ fun cs => by
      show readValue? depth ('t' :: _) = _
      rw [readValue?]
      rfl
  | false =>
    exact readsBack_word depth ⟨'f', _, rfl, rfl, by decide, by decide⟩ fun cs => by
      show readValue? depth ('f' :: _) = _
      rw [readValue?]
      rfl

theorem readsBack_quote (depth : Nat) (s : String) :
    ReadsBack True (readValue? depth) (quote s).toList (· = .str s) := by
  refine ⟨⟨'"', _, toList_quote s, rfl, by decide, by decide⟩, fun _ => ?_⟩
  rw [toList_quote, List.cons_append, List.append_assoc, List.singleton_append, readValue?,
    readString?_quote]
  exact .inl ⟨rfl, rfl⟩

/-- A value whose text has characters of numbers alone is read as a number. -/
theorem readsBack_number (depth : Nat) {text : List Char} (htext : NumberText text)
    (hne : text ≠ []) {sure : Prop} {R : Json → Prop}
    (hread : ∀ {rest}, Stops rest → Outcome sure R rest (readNumber? (text ++ rest))) :
    ReadsBack sure (readValue? depth) text R := by
  obtain ⟨c, cs, rfl⟩ := List.exists_cons_of_ne_nil hne
  have hc : IsNumberChar c := htext c List.mem_cons_self
  obtain ⟨hseparator, -, hitems, hfields, -⟩ := not_mark_of_isNumberChar hc
  refine ⟨⟨c, cs, rfl, hseparator, hitems, hfields⟩, fun hrest => ?_⟩
  rw [List.cons_append, readValue?_of_isNumberChar depth hc]
  exact hread hrest

theorem readsBack_int (depth : Nat) (n : Int) :
    ReadsBack (Exact depth (.int n)) (readValue? depth) (ofInt n).toList
      (ComesBack depth (.int n)) := by
  refine readsBack_number depth (numberText_ofInt n).1 (numberText_ofInt n).2
    fun {rest} hrest => ?_
  have hexact : Exact depth (.int n) →
      readNumber? ((ofInt n).toList ++ rest) = some (.int n, rest) :=
    fun ⟨hlow, hhigh⟩ => readNumber?_ofInt_of_fits hlow hhigh hrest
  cases hread : readNumber? ((ofInt n).toList ++ rest) with
  | none =>
    intro hfits
    rw [hexact hfits] at hread
    cases hread
  | some p =>
    obtain ⟨hbehind, hj⟩ := readNumber?_ofInt hrest hread
    refine .inl ⟨hbehind, hj, fun hfits => ?_⟩
    rw [hexact hfits] at hread
    cases hread
    rfl

theorem readsBack_float (depth : Nat) (x : Float) :
    ReadsBack (Exact depth (.float x)) (readValue? depth) (floatText x).toList
      (ComesBack depth (.float x)) := by
  rcases floatText_chars x with hnull | ⟨htext, hne⟩
  · have hreads : Exact depth (.float x) → False := fun h => by
      have hnone := h (show Stops [] from trivial)
      rw [hnull] at hnone
      cases hnone
    rw [hnull]
    exact (readsBack_null depth).imp (fun h => (hreads h).elim) fun _ hj =>
      ⟨.inl hj, fun h => (hreads h).elim⟩
  · refine readsBack_number depth htext hne fun {rest} hrest => ?_
    cases hread : readNumber? ((floatText x).toList ++ rest) with
    | none =>
      intro h
      rw [h hrest] at hread
      cases hread
    | some p =>
      obtain ⟨hj, part, hpart, hchars⟩ := readNumber?_chars hread
      have hback : Exact depth (.float x) → p = (.float x, rest) := fun h => by
        rw [h hrest] at hread
        exact (Option.some.inj hread).symm
      refine (stops_or_unfinished htext hchars hrest hpart).imp
        (fun hbehind => ⟨hbehind, .inr hj, fun h => congrArg Prod.fst (hback h)⟩)
        fun hunfinished => ⟨fun h => ?_, hunfinished⟩
      obtain ⟨c, cs, hbehind, hc⟩ := hunfinished
      rw [show rest = c :: cs from (congrArg Prod.snd (hback h)).symm.trans hbehind] at hrest
      exact not_isNumberChar hrest hc

/-! ## Values made of others -/

theorem readField?_quote (item : List Char → Option (Json × List Char)) (name : String)
    {text : List Char} (h : Marked text) (rest : List Char) :
    readField? item ((quote name).toList ++ ':' :: text ++ rest) =
      (item (text ++ rest)).map fun r => ((name, r.1), r.2) := by
  rw [toList_quote, List.cons_append, List.cons_append, List.append_assoc, List.append_assoc,
    List.singleton_append]
  show (readString? [] (name.toList.flatMap escape ++ '"' :: (':' :: text ++ rest)) >>=
    fun r => _) = _
  rw [readString?_quote, Option.bind_eq_bind, Option.bind_some]
  dsimp only
  rw [List.cons_append, skip_cons (by rfl)]
  show item (skip (text ++ rest)) >>= _ = _
  rw [h.skip, Option.map_eq_bind]
  rfl

theorem readsBack_field {depth : Nat} (name : String) {text : List Char} {sure : Prop}
    {R : Json → Prop} (h : ReadsBack sure (readValue? depth) text R) :
    ReadsBack sure (readField? (readValue? depth)) ((quote name).toList ++ ':' :: text)
      fun field => ∃ j, field = (name, j) ∧ R j := by
  refine ⟨⟨'"', _, by rw [toList_quote]; rfl, rfl, by decide, by decide⟩, fun hrest => ?_⟩
  rw [readField?_quote _ name h.head]
  exact (h.read hrest).map (name, ·) fun j hj => ⟨j, rfl, hj⟩

/-- Nothing is read where values are nested too deeply. -/
theorem readsBack_none {depth : Nat} {opening : Char}
    (hopening : isSeparator opening = false ∧ opening ≠ ']' ∧ opening ≠ '}') {text : List Char}
    (h : ∀ cs, readValue? depth (opening :: cs) = none) (R : Json → Prop) :
    ReadsBack False (readValue? depth) (opening :: text) R := by
  refine ⟨⟨opening, _, rfl, hopening⟩, fun _ => ?_⟩
  rw [List.cons_append, h]
  exact id

mutual

/-- The text of a value is read back. -/
theorem readsBack_render (j : Json) (depth : Nat) :
    ReadsBack (j.Exact depth) (readValue? depth) j.render.toList (ComesBack depth j) :=
  match j with
  | .null => (readsBack_null depth).imp (fun _ => trivial) fun _ hj => ⟨hj, fun _ => hj⟩
  | .bool b => (readsBack_bool depth b).imp (fun _ => trivial) fun _ hj => ⟨hj, fun _ => hj⟩
  | .int n => readsBack_int depth n
  | .float x => readsBack_float depth x
  | .str s => (readsBack_quote depth s).imp (fun _ => trivial) fun _ hj => ⟨hj, fun _ => hj⟩
  | .arr items => by
    have htext : (render (.arr items)).toList =
        '[' :: ((renderItems items).toList ++ [']']) := by simp [render]
    have hopening : isSeparator '[' = false ∧ '[' ≠ ']' ∧ '[' ≠ '}' := ⟨rfl, by decide, by decide⟩
    rw [htext]
    cases depth with
    | zero =>
      exact (readsBack_none hopening (fun _ => rfl) _).imp (fun h => absurd h.1 (by decide)) fun _ hj => hj
    | succ depth =>
      have hexact : Exact (depth + 1) (.arr items) → ItemsExact depth items := And.right
      refine ((listReadsBack_renderItems items depth).enclosed (.inl rfl) hopening .arr
        fun cs => by rw [readValue?]).imp hexact fun j ⟨js, hj, hjs, hsame⟩ => ⟨⟨js, hj, hjs⟩, ?_⟩
      exact fun h => by rw [hj, hsame (hexact h)]
  | .obj fields => by
    have htext : (render (.obj fields)).toList =
        '{' :: ((renderFields fields).toList ++ ['}']) := by simp [render]
    have hopening : isSeparator '{' = false ∧ '{' ≠ ']' ∧ '{' ≠ '}' := ⟨rfl, by decide, by decide⟩
    rw [htext]
    cases depth with
    | zero =>
      exact (readsBack_none hopening (fun _ => rfl) _).imp (fun h => absurd h.1 (by decide)) fun _ hj => hj
    | succ depth =>
      have hexact : Exact (depth + 1) (.obj fields) →
          fields.Pairwise KeyLt ∧ FieldsExact depth fields := And.right
      refine ((listReadsBack_renderFields fields depth).enclosed (.inr rfl) hopening
        .object fun cs => by rw [readValue?]).imp (fun h => (hexact h).2)
        fun j ⟨fs, hj, hfs, hsame⟩ => ⟨⟨fs, hj, hfs⟩, fun h => ?_⟩
      obtain ⟨hsorted, hfields⟩ := hexact h
      rw [hj, hsame hfields, object, Entries.ofList_of_pairwise hsorted]

/-- The text of items is read back. -/
theorem listReadsBack_renderItems (items : List Json) (depth : Nat) :
    ListReadsBack (ItemsExact depth items) ']' (readValue? depth) (renderItems items).toList
      fun js => RereadsItems items js ∧ (ItemsExact depth items → js = items) :=
  match items with
  | [] => .inl ⟨rfl, rfl, fun _ => rfl⟩
  | [item] => .inr <| by
    have hexact : ItemsExact depth [item] → Exact depth item := And.left
    unfold renderItems
    refine ((readsBack_render item depth).single (.inl rfl)).imp hexact
      fun js ⟨j, hjs, hj, hsame⟩ => ⟨⟨j, [], hjs, hj, rfl⟩, fun h => ?_⟩
    rw [hjs, hsame (hexact h)]
  | item :: next :: rest => .inr <| by
    have hexact : ItemsExact depth (item :: next :: rest) →
        Exact depth item ∧ ItemsExact depth (next :: rest) := id
    rcases listReadsBack_renderItems (next :: rest) depth with ⟨-, ⟨_, _, hnil, -⟩, -⟩ | hmore
    · cases hnil
    · have htext : (renderItems (item :: next :: rest)).toList =
          item.render.toList ++ ',' :: (renderItems (next :: rest)).toList := by simp [renderItems]
      rw [htext]
      refine ((readsBack_render item depth).cons (.inl rfl) hmore).imp hexact
        fun js ⟨j, js', hjs, ⟨hj, hsame⟩, hrest, hsames⟩ => ⟨⟨j, js', hjs, hj, hrest⟩, fun h => ?_⟩
      rw [hjs, hsame (hexact h).1, hsames (hexact h).2]

/-- The text of fields is read back. -/
theorem listReadsBack_renderFields (fields : List (String × Json)) (depth : Nat) :
    ListReadsBack (FieldsExact depth fields) '}' (readField? (readValue? depth))
      (renderFields fields).toList
      fun fs => RereadsFields fields fs ∧ (FieldsExact depth fields → fs = fields) :=
  match fields with
  | [] => .inl ⟨rfl, rfl, fun _ => rfl⟩
  | [(name, value)] => .inr <| by
    have hexact : FieldsExact depth [(name, value)] → Exact depth value := And.left
    have htext : (renderFields [(name, value)]).toList =
        (quote name).toList ++ ':' :: value.render.toList := by simp [renderFields]
    rw [htext]
    refine ((readsBack_field name (readsBack_render value depth)).single (.inr rfl)).imp hexact
      fun fs ⟨f, hfs, j, hf, hj, hsame⟩ => ⟨⟨j, [], hf ▸ hfs, hj, rfl⟩, fun h => ?_⟩
    rw [hfs, hf, hsame (hexact h)]
  | (name, value) :: next :: rest => .inr <| by
    have hexact : FieldsExact depth ((name, value) :: next :: rest) →
        Exact depth value ∧ FieldsExact depth (next :: rest) := id
    rcases listReadsBack_renderFields (next :: rest) depth with ⟨-, ⟨_, _, hnil, -⟩, -⟩ | hmore
    · cases hnil
    · have htext : (renderFields ((name, value) :: next :: rest)).toList =
          (quote name).toList ++ ':' :: value.render.toList ++
            ',' :: (renderFields (next :: rest)).toList := by simp [renderFields]
      rw [htext]
      refine ((readsBack_field name (readsBack_render value depth)).cons (.inr rfl) hmore).imp
        hexact fun fs ⟨f, fs', hfs, ⟨j, hf, hj, hsame⟩, hrest, hsames⟩ =>
          ⟨⟨j, fs', hf ▸ hfs, hj, hrest⟩, fun h => ?_⟩
      rw [hfs, hf, hsame (hexact h).1, hsames (hexact h).2]

end

/-! ## Whole texts -/

/-- A whole text is read if it is sure to be, and no number in it is left unfinished. -/
theorem ReadsBack.whole {sure : Prop} {s : String} {R : Json → Prop}
    (h : ReadsBack sure (readValue? maxNesting) s.toList R) :
    (∃ j, R j ∧ read? s = some j) ∨ ¬ sure ∧ read? s = none := by
  have hskip := h.head.skip []
  have hread := h.read (show Stops [] from trivial)
  rw [List.append_nil] at hskip hread
  unfold read?
  rw [hskip]
  generalize readValue? maxNesting s.toList = read at hread
  cases read with
  | none => exact .inr ⟨hread, rfl⟩
  | some p =>
    obtain ⟨j, rest⟩ := p
    rcases hread with ⟨rfl, hj⟩ | ⟨hsure, c, cs, rfl, hc⟩
    · exact .inl ⟨j, hj, rfl⟩
    · refine .inr ⟨hsure, ?_⟩
      show (if (skip (c :: cs)).isEmpty then some j else none) = none
      rw [skip_cons (not_mark_of_isNumberChar hc).1]
      rfl

/-- The text of a value, if it is read, is read back in its own shape. -/
theorem rereads_of_read? {j j' : Json} (h : read? j.render = some j') : j.Rereads j' := by
  rcases (readsBack_render j maxNesting).whole with ⟨j'', ⟨hj, -⟩, hread⟩ | ⟨-, hread⟩
  · rw [h] at hread
    cases hread
    exact hj
  · rw [h] at hread
    cases hread

/-- A value that comes back as it was is read from its text. -/
theorem read?_render {j : Json} (h : j.Exact maxNesting) : read? j.render = some j := by
  rcases (readsBack_render j maxNesting).whole with ⟨j', ⟨-, hsame⟩, hread⟩ | ⟨hsure, -⟩
  · rw [hread, hsame h]
  · exact absurd h hsure

/-! ## Fields -/

theorem RereadsFields.get? {fields fields' : List (String × Json)}
    (h : RereadsFields fields fields') (name : String) :
    Option.Rel Rereads (Entries.get? name fields) (Entries.get? name fields') := by
  induction fields generalizing fields' with
  | nil =>
    cases h
    exact .none
  | cons field rest ih =>
    obtain ⟨j, rest', rfl, hj, hrest⟩ := h
    unfold Entries.get?
    dsimp only
    split
    · exact .some hj
    · exact ih hrest

theorem RereadsFields.map_fst {fields fields' : List (String × Json)}
    (h : RereadsFields fields fields') : fields'.map Prod.fst = fields.map Prod.fst := by
  induction fields generalizing fields' with
  | nil =>
    cases h
    rfl
  | cons field rest ih =>
    obtain ⟨j, rest', rfl, -, hrest⟩ := h
    exact congrArg (field.1 :: ·) (ih hrest)

/-- The fields of an object come back in their order. -/
theorem Rereads.obj {fields : List (String × Json)} {j : Json} (h : (Json.obj fields).Rereads j)
    (hsorted : fields.Pairwise KeyLt) : ∃ fields', j = .obj fields' ∧ RereadsFields fields fields' := by
  obtain ⟨fields', rfl, hfields⟩ := h
  have hkeys : (fields'.map Prod.fst).Pairwise fun a b => compare a b = .lt := by
    rw [hfields.map_fst, List.pairwise_map]
    exact hsorted
  rw [List.pairwise_map] at hkeys
  exact ⟨fields', congrArg Json.obj (Entries.ofList_of_pairwise hkeys), hfields⟩

/-- The fields of an object are read back, those that it has and no others. -/
theorem Rereads.field? {fields : List (String × Json)} {j : Json}
    (h : (object fields).Rereads j) (name : String) :
    Option.Rel Rereads ((object fields).field? name) (j.field? name) := by
  obtain ⟨fields', rfl, hfields⟩ := h.obj (Entries.pairwise_ofList fields)
  exact hfields.get? name

theorem Rereads.field?_some {fields : List (String × Json)} {j value : Json} {name : String}
    (h : (object fields).Rereads j) (hvalue : (object fields).field? name = some value) :
    ∃ value', j.field? name = some value' ∧ value.Rereads value' := by
  have hfield := h.field? name
  rw [hvalue] at hfield
  generalize j.field? name = found at hfield
  cases hfield with
  | some hvalue' => exact ⟨_, rfl, hvalue'⟩

/-- A value that is written as a natural number is read back as this one, where it is read. -/
theorem Rereads.nat? {n m : Nat} {j : Json} (h : (Json.nat n).Rereads j) (hread : j.nat? = some m) :
    m = n := by
  rcases h with rfl | ⟨x, rfl⟩
  · unfold Json.nat? at hread
    dsimp only at hread
    rw [if_pos (Int.natCast_nonneg n)] at hread
    exact (Option.some.inj hread).symm
  · cases hread

theorem RereadsItems.forall₂ {α : Type} {write : α → Json} {xs : List α} {items : List Json}
    (h : RereadsItems (xs.map write) items) :
    List.Forall₂ (fun x item => (write x).Rereads item) xs items := by
  induction xs generalizing items with
  | nil =>
    cases h
    exact .nil
  | cons x xs ih =>
    obtain ⟨item, rest, rfl, hitem, hrest⟩ := h
    exact .cons hitem (ih hrest)

theorem RereadsFields.forall₂ {α : Type} {write : α → Json} {es : List (String × α)}
    {fields : List (String × Json)} (h : RereadsFields (es.map fun e => (e.1, write e.2)) fields) :
    List.Forall₂ (fun e field => field.1 = e.1 ∧ (write e.2).Rereads field.2) es fields := by
  induction es generalizing fields with
  | nil =>
    cases h
    exact .nil
  | cons e es ih =>
    obtain ⟨j, rest, rfl, hj, hrest⟩ := h
    exact .cons ⟨rfl, hj⟩ (ih hrest)

/-- A table is read back, entry by entry. -/
theorem Rereads.table {α : Type} {write : α → Json} {m : Table α} {j : Json}
    (h : (ofTable write m).Rereads j) : ∃ fields, j = .obj fields ∧
      List.Forall₂ (fun e field => field.1 = e.1 ∧ (write e.2).Rereads field.2) m.entries fields := by
  obtain ⟨fields, rfl, hfields⟩ := Rereads.obj h
    (Entries.pairwise_map (f := fun _ v => write v) m.sorted)
  exact ⟨fields, rfl, hfields.forall₂⟩

/-- An array is read back, item by item. -/
theorem Rereads.arr? {α : Type} {write : α → Json} {xs : List α} {j : Json}
    (h : (array write xs).Rereads j) : ∃ items, j.arr? = some items ∧
      List.Forall₂ (fun x item => (write x).Rereads item) xs items := by
  obtain ⟨items, rfl, hitems⟩ := h
  exact ⟨items, rfl, hitems.forall₂⟩

end StoryMachine.Json
