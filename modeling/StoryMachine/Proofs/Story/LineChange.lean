import StoryMachine.Story.Line

/-!
# Text behind a line end

The text of a line is cleaned line by line, so cleaning goes apart at a line end, and
nothing is left of blanks behind it. The machine compares a text that ends in a line end
with the text that it has become, on the bytes of the two: only a line end is encoded by
the byte of a line end, and only blanks by those of blanks.

* `Text.cleanFrom_lineEnd` : cleaning goes apart at a line end;
* `LineChange.between_eq` : the comparison, on lists of bytes;
* `LineChange.between_removed`, `LineChange.blank_of_unchanged` : what the comparison tells
  of the texts.
-/

namespace StoryMachine

namespace Text

/-! ## Cleaning -/

theorem not_isBlank_lineEnd : isBlank '\n' = false := by decide

theorem cleanFrom_lineEnd (atStart gap : Bool) (front behind : List Char) :
    cleanFrom atStart gap (front ++ '\n' :: behind) =
      cleanFrom atStart gap front ++ '\n' :: cleanFrom true false behind := by
  induction front generalizing atStart gap with
  | nil => simp [cleanFrom, not_isBlank_lineEnd]
  | cons c rest ih =>
    rw [List.cons_append, cleanFrom, cleanFrom]
    split
    · exact ih _ _
    · split
      · rw [ih, List.cons_append]
      · split
        · rw [ih, List.cons_append, List.cons_append]
        · rw [ih, List.cons_append]

/-- Cleaning adds no line end. -/
theorem lineEnd_not_mem_cleanFrom (atStart gap : Bool) {cs : List Char} (h : '\n' ∉ cs) :
    '\n' ∉ cleanFrom atStart gap cs := by
  induction cs generalizing atStart gap with
  | nil => exact h
  | cons c rest ih =>
    have hc : '\n' ≠ c := fun heq => h (heq ▸ List.mem_cons_self)
    have hrest : '\n' ∉ rest := fun hmem => h (List.mem_cons_of_mem c hmem)
    rw [cleanFrom]
    split
    · exact ih _ _ hrest
    · split
      · next hend => exact absurd hend.symm hc
      · split
        · have hspace : '\n' ≠ ' ' := by decide
          simp [hspace, hc, ih _ _ hrest]
        · simp [hc, ih _ _ hrest]

theorem cleanFrom_blanks (gap : Bool) {cs : List Char} (h : ∀ c ∈ cs, isBlank c = true) :
    cleanFrom true gap cs = [] := by
  induction cs generalizing gap with
  | nil => rfl
  | cons c rest ih =>
    rw [cleanFrom, if_pos (h c (by simp)), ih _ fun d hd => h d (by simp [hd])]

/-- A cleaned text does not begin with a blank; if there is nothing in it there were only
blanks. -/
theorem blanks_of_cleanFrom (gap : Bool) {cs : List Char}
    (h : ∀ c ∈ cleanFrom true gap cs, isBlank c = true) : ∀ c ∈ cs, isBlank c = true := by
  induction cs generalizing gap with
  | nil => exact h
  | cons c rest ih =>
    rw [cleanFrom] at h
    split at h
    · next hblank =>
      intro d hd
      rcases List.mem_cons.mp hd with rfl | hd
      · exact hblank
      · exact ih _ h d hd
    · next hblank =>
      have hfirst : ∀ tail : List Char, (∀ d ∈ c :: tail, isBlank d = true) → False :=
        fun tail htail => hblank (htail c (by simp))
      split at h
      · next hend => exact (hfirst _ (hend ▸ h)).elim
      · simp only [Bool.not_true, Bool.and_false, Bool.false_eq_true, if_false] at h
        exact (hfirst _ h).elim

/-! ## Bytes -/

/-- The bytes that encode a text. -/
def bytes (cs : List Char) : List UInt8 :=
  cs.flatMap String.utf8EncodeChar

theorem bytes_append (cs ds : List Char) : bytes (cs ++ ds) = bytes cs ++ bytes ds :=
  List.flatMap_append

theorem toList_data_toUTF8 (s : String) : s.toUTF8.data.toList = bytes s.toList := by
  rw [String.toUTF8_eq_toByteArray, ← String.utf8Encode_toList, List.utf8Encode,
    List.data_toByteArray]
  rfl

theorem utf8ByteSize_eq (s : String) : s.utf8ByteSize = (bytes s.toList).length := by
  rw [← toList_data_toUTF8]
  rfl

/-- A byte below 128 encodes one character, and nothing else does so. -/
theorem toNat_of_mem_encode {c : Char} {b : UInt8} (hb : b.toNat < 128)
    (h : b ∈ String.utf8EncodeChar c) : c.toNat = b.toNat := by
  have hval : c.toNat = c.val.toNat := rfl
  have hhigh : ∀ n : Nat, 128 ≤ n % 256 → b ≠ UInt8.ofNat n := by
    intro n hn heq
    rw [heq, UInt8.toNat_ofNat'] at hb
    omega
  unfold String.utf8EncodeChar at h
  dsimp only at h
  split at h
  · rw [List.mem_singleton] at h
    rw [h, UInt8.toNat_ofNat', hval]
    omega
  · split at h
    · simp only [List.mem_cons, List.not_mem_nil, or_false] at h
      rcases h with h | h
      · exact absurd h (hhigh _ (by omega))
      · exact absurd h (hhigh _ (by omega))
    · split at h
      · simp only [List.mem_cons, List.not_mem_nil, or_false] at h
        rcases h with h | h | h
        · exact absurd h (hhigh _ (by omega))
        · exact absurd h (hhigh _ (by omega))
        · exact absurd h (hhigh _ (by omega))
      · simp only [List.mem_cons, List.not_mem_nil, or_false] at h
        rcases h with h | h | h | h
        · exact absurd h (hhigh _ (by omega))
        · exact absurd h (hhigh _ (by omega))
        · exact absurd h (hhigh _ (by omega))
        · exact absurd h (hhigh _ (by omega))

theorem lineEnd_of_mem_bytes {cs : List Char} (h : '\n'.toUInt8 ∈ bytes cs) : '\n' ∈ cs := by
  obtain ⟨c, hc, hb⟩ := List.mem_flatMap.mp h
  have hnat : c.toNat = ('\n').toNat := toNat_of_mem_encode (by decide) hb
  rwa [← Char.toNat_inj.mp hnat]

theorem isBlank_of_bytes {cs : List Char}
    (h : ∀ b ∈ bytes cs, (b == ' '.toUInt8 || b == '\t'.toUInt8) = true) :
    ∀ c ∈ cs, isBlank c = true := by
  intro c hc
  obtain ⟨b, hb⟩ := List.exists_mem_of_ne_nil _ (String.utf8EncodeChar_ne_nil (c := c))
  have hmem : b ∈ bytes cs := List.mem_flatMap.mpr ⟨c, hc, hb⟩
  have hblank := h b hmem
  rw [Bool.or_eq_true, beq_iff_eq, beq_iff_eq] at hblank
  rcases hblank with rfl | rfl
  · have hnat : c.toNat = (' ').toNat := toNat_of_mem_encode (by decide) hb
    rw [Char.toNat_inj.mp hnat]
    rfl
  · have hnat : c.toNat = ('\t').toNat := toNat_of_mem_encode (by decide) hb
    rw [Char.toNat_inj.mp hnat]
    rfl

end Text

namespace LineChange

open Text (bytes)

/-- The comparison of two texts, on the lists of their bytes. -/
theorem between_eq (old new : String) (oldTags newTags : Nat) :
    between old new oldTags newTags =
      if old.isEmpty ∨ (bytes new.toList)[(bytes old.toList).length - 1]? ≠ some '\n'.toUInt8 then
        .removed
      else if oldTags < newTags then .extended
      else if ((bytes new.toList).drop (bytes old.toList).length).all fun b =>
          b == ' '.toUInt8 || b == '\t'.toUInt8 then .unchanged
      else .extended := by
  have hget : ∀ (a : ByteArray) (i : Nat), a[i]? = a.data.toList[i]? := by
    intro a i
    rw [getElem?_def, getElem?_def]
    rfl
  have hextract : ∀ a : ByteArray, ∀ n, (a.extract n a.size).data.toList = a.data.toList.drop n := by
    intro a n
    rw [ByteArray.data_extract, Array.toList_extract]
    exact List.take_of_length_le (Nat.le_of_eq List.length_drop)
  unfold between
  dsimp only
  rw [hget, hextract, Text.toList_data_toUTF8, Text.utf8ByteSize_eq]
  simp only [bne_iff_ne, Bool.or_eq_true, ne_eq]

/-- There is no line end left. -/
theorem between_removed (old : String) {new : String} (h : '\n' ∉ new.toList)
    (oldTags newTags : Nat) : between old new oldTags newTags = .removed := by
  rw [between_eq, if_pos]
  refine .inr fun hlast => h (Text.lineEnd_of_mem_bytes ?_)
  exact List.mem_of_getElem? hlast

/-- The text compared with had no line end at its end. -/
theorem between_removed_of_append {old : String} (h : '\n' ∉ old.toList) {new : String}
    (hfront : old.toList <+: new.toList) (oldTags newTags : Nat) :
    between old new oldTags newTags = .removed := by
  obtain ⟨rest, hnew⟩ := hfront
  rw [between_eq, if_pos]
  by_cases hempty : old.isEmpty = true
  · exact .inl hempty
  · refine .inr fun hlast => h (Text.lineEnd_of_mem_bytes ?_)
    have hne : bytes old.toList ≠ [] := by
      intro hnil
      have hsize : old.utf8ByteSize = 0 := by rw [Text.utf8ByteSize_eq, hnil]; rfl
      exact hempty (by rw [String.utf8ByteSize_eq_zero_iff.mp hsize]; rfl)
    have hlt : (bytes old.toList).length - 1 < (bytes old.toList).length := by
      have := List.length_pos_iff.mpr hne
      omega
    rw [← hnew, Text.bytes_append, List.getElem?_append_left hlt] at hlast
    exact List.mem_of_getElem? hlast

/-- A text that ended in a line end and has got more behind it. -/
theorem between_append {front rest : List Char} {old new : String}
    (hold : old.toList = front ++ ['\n']) (hnew : new.toList = old.toList ++ rest)
    (oldTags newTags : Nat) :
    between old new oldTags newTags = .extended ∨
      between old new oldTags newTags = .unchanged ∧ ∀ c ∈ rest, Text.isBlank c = true := by
  have hbytes : bytes old.toList = bytes front ++ ['\n'.toUInt8] := by
    rw [hold, Text.bytes_append]
    rfl
  have hnotEmpty : ¬ old.isEmpty = true := by
    rw [String.isEmpty_iff]
    rintro rfl
    cases front <;> cases hold
  have hlast : (bytes new.toList)[(bytes old.toList).length - 1]? = some '\n'.toUInt8 := by
    rw [hnew, Text.bytes_append, hbytes, List.length_append, List.length_singleton,
      Nat.add_sub_cancel, List.append_assoc, List.getElem?_append_right (Nat.le_refl _),
      Nat.sub_self]
    rfl
  have hdrop : (bytes new.toList).drop (bytes old.toList).length = bytes rest := by
    rw [hnew, Text.bytes_append, List.drop_left]
  rw [between_eq, if_neg (not_or.mpr ⟨hnotEmpty, fun hne => hne hlast⟩), hdrop]
  split
  · exact .inl rfl
  · split
    · next hblank =>
      exact .inr ⟨rfl, Text.isBlank_of_bytes (List.all_eq_true.mp hblank)⟩
    · exact .inl rfl

end LineChange

end StoryMachine
