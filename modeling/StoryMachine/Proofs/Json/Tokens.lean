import Mathlib.Data.List.TakeWhile
import StoryMachine.Json.Printer
import StoryMachine.Json.Reader
import StoryMachine.Proofs.PathText

/-!
# Strings and numbers as text

A string is read back from its text as it was. The text of a whole number is read back as it, or
as floating point where 64 bits do not hold it, and the text of a floating-point number has
characters of numbers alone.

* `Json.readString?_quote` : strings;
* `Json.readNumber?_chars` : what is read as a number takes up characters of numbers;
* `Json.readNumber?_ofInt` : whole numbers, and `Json.readNumber?_ofInt_of_fits` those of 64 bits;
* `Json.floatText_chars` : floating-point numbers.
-/

namespace StoryMachine.Json

open Decimal

/-! ## Strings -/

theorem readString?_unicode (done : List Char) {c : Char} (hc : c.toNat < 0x20) (rest : List Char) :
    readString? done ('\\' :: 'u' :: '0' :: '0' :: Text.hexDigit (c.toNat / 16) ::
      Text.hexDigit (c.toNat % 16) :: rest) = readString? (c :: done) rest := by
  have hunit : hexUnit? '0' '0' (Text.hexDigit (c.toNat / 16)) (Text.hexDigit (c.toNat % 16)) =
      some c.toNat := by
    unfold hexUnit?
    rw [Text.hexDigit?_hexDigit (by omega), Text.hexDigit?_hexDigit (by omega)]
    show some (0 * 0x1000 + 0 * 0x100 + c.toNat / 16 * 0x10 + c.toNat % 16) = some c.toNat
    congr 1
    omega
  have htrail : isTrailUnit c.toNat = false := by
    simp only [isTrailUnit, Bool.and_eq_false_iff, decide_eq_false_iff_not]
    omega
  have hlead : isLeadUnit c.toNat = false := by
    simp only [isLeadUnit, Bool.and_eq_false_iff, decide_eq_false_iff_not]
    omega
  rw [readString?]
  rw [hunit]
  dsimp only
  rw [htrail, hlead, if_neg Bool.false_ne_true, if_neg Bool.false_ne_true, Char.ofNat_toNat]

/-- A character stands in a string as itself, with a backslash in front of a letter for it, or
by its number. -/
theorem escape_cases (c : Char) :
    escape c = [c] ∧ c ≠ '"' ∧ c ≠ '\\' ∧ ¬ c.toNat < 0x20 ∨
      (∃ e, escape c = ['\\', e] ∧ e ≠ 'u' ∧ escaped? e = some c) ∨
      escape c = ['\\', 'u', '0', '0', Text.hexDigit (c.toNat / 16),
        Text.hexDigit (c.toNat % 16)] ∧ c.toNat < 0x20 := by
  unfold escape
  by_cases hquote : c = '"'
  · exact .inr (.inl ⟨'"', if_pos hquote, by decide, by rw [hquote]; rfl⟩)
  rw [if_neg hquote]
  by_cases hslash : c = '\\'
  · exact .inr (.inl ⟨'\\', if_pos hslash, by decide, by rw [hslash]; rfl⟩)
  rw [if_neg hslash]
  by_cases h : c = '\x08'
  · exact .inr (.inl ⟨'b', if_pos h, by decide, by rw [h]; rfl⟩)
  rw [if_neg h]
  by_cases h : c = '\x0c'
  · exact .inr (.inl ⟨'f', if_pos h, by decide, by rw [h]; rfl⟩)
  rw [if_neg h]
  by_cases h : c = '\n'
  · exact .inr (.inl ⟨'n', if_pos h, by decide, by rw [h]; rfl⟩)
  rw [if_neg h]
  by_cases h : c = '\r'
  · exact .inr (.inl ⟨'r', if_pos h, by decide, by rw [h]; rfl⟩)
  rw [if_neg h]
  by_cases h : c = '\t'
  · exact .inr (.inl ⟨'t', if_pos h, by decide, by rw [h]; rfl⟩)
  rw [if_neg h]
  by_cases h : c.toNat < 0x20
  · exact .inr (.inr ⟨if_pos h, h⟩)
  · exact .inl ⟨if_neg h, hquote, hslash, h⟩

theorem readString?_escape (done : List Char) (c : Char) (rest : List Char) :
    readString? done (escape c ++ rest) = readString? (c :: done) rest := by
  rcases escape_cases c with ⟨h, hquote, hslash, hcontrol⟩ | ⟨e, h, hletter, hescaped⟩ | ⟨h, hcontrol⟩
  · rw [h, List.singleton_append, readString?]
    · rw [if_neg]
      simp [hcontrol, hslash]
    · exact hquote
    · exact fun _ _ _ _ _ heq => absurd heq hslash
    · exact fun _ _ heq => absurd heq hslash
  · rw [h]
    show readString? done ('\\' :: e :: rest) = _
    rw [readString?]
    · rw [hescaped]
    · intro a b c d tail heq
      exact absurd heq hletter
  · rw [h]
    exact readString?_unicode done hcontrol rest

theorem readString?_flatMap_escape (done cs : List Char) (rest : List Char) :
    readString? done (cs.flatMap escape ++ '"' :: rest) =
      some (String.ofList (done.reverse ++ cs), rest) := by
  induction cs generalizing done with
  | nil => simp [readString?]
  | cons c cs ih =>
    rw [List.flatMap_cons, List.append_assoc, readString?_escape, ih]
    simp

theorem toList_quote (s : String) : (quote s).toList = '"' :: (s.toList.flatMap escape ++ ['"']) := by
  simp [quote]

/-- A string is read back as it was. -/
theorem readString?_quote (s : String) (rest : List Char) :
    readString? [] (s.toList.flatMap escape ++ '"' :: rest) = some (s, rest) := by
  rw [readString?_flatMap_escape]
  simp

/-! ## Numbers -/

/-- A number. -/
def IsNumber : Json → Prop
  | .int _ | .float _ => True
  | _ => False

/-- A character that a number may be written with. -/
def IsNumberChar (c : Char) : Prop :=
  (digit? c).isSome = true ∨ c = '.' ∨ c = 'e' ∨ c = 'E' ∨ c = '+' ∨ c = '-'

instance : DecidablePred IsNumberChar := fun c =>
  inferInstanceAs (Decidable ((digit? c).isSome = true ∨ _ ∨ _ ∨ _ ∨ _ ∨ _))

/-- A part in front of the text is made of characters of numbers. -/
def NumberPart (cs rest : List Char) : Prop :=
  ∃ part, cs = part ++ rest ∧ ∀ c ∈ part, IsNumberChar c

theorem NumberPart.refl (cs : List Char) : NumberPart cs cs :=
  ⟨[], rfl, fun _ h => nomatch h⟩

theorem NumberPart.trans {cs mid rest : List Char} (h : NumberPart cs mid)
    (h' : NumberPart mid rest) : NumberPart cs rest := by
  obtain ⟨part, rfl, hpart⟩ := h
  obtain ⟨part', rfl, hpart'⟩ := h'
  refine ⟨part ++ part', (List.append_assoc _ _ _).symm, fun c hc => ?_⟩
  rcases List.mem_append.mp hc with h | h
  · exact hpart c h
  · exact hpart' c h

theorem NumberPart.cons {c : Char} {cs rest : List Char} (hc : IsNumberChar c)
    (h : NumberPart cs rest) : NumberPart (c :: cs) rest := by
  obtain ⟨part, rfl, hpart⟩ := h
  exact ⟨c :: part, rfl, fun d hd => (List.mem_cons.mp hd).elim (fun h => h ▸ hc) (hpart d)⟩

theorem numberPart_takeDigits (cs : List Char) : NumberPart cs (takeDigits cs).2 :=
  ⟨_, List.takeWhile_append_dropWhile.symm, fun _ hc =>
    .inl (List.mem_takeWhile_imp (p := fun c => (digit? c).isSome) hc)⟩

theorem numberPart_readFraction? {cs rest : List Char} {fraction : Option (List Nat)}
    (h : readFraction? cs = some (fraction, rest)) : NumberPart cs rest := by
  unfold readFraction? at h
  split at h
  · next more =>
    dsimp only at h
    split at h
    · cases h
    · cases h
      exact .cons (.inr (.inl rfl)) (numberPart_takeDigits more)
  · cases h
    exact .refl _

theorem numberPart_readPower? {cs rest : List Char} {power : Option Int}
    (h : readPower? cs = some (power, rest)) : NumberPart cs rest := by
  unfold readPower? at h
  split at h
  · cases h
    exact .refl _
  · next c more =>
    split at h
    · next hletter =>
      have hc : IsNumberChar c := by
        rcases hletter with rfl | rfl
        · exact .inr (.inr (.inl rfl))
        · exact .inr (.inr (.inr (.inl rfl)))
      split at h
      next negative behind hsign =>
      have hbehind : NumberPart more behind := by
        split at hsign
        · cases hsign
          exact .cons (.inr (.inr (.inr (.inr (.inr rfl))))) (.refl _)
        · cases hsign
          exact .cons (.inr (.inr (.inr (.inr (.inl rfl))))) (.refl _)
        · cases hsign
          exact .refl _
      dsimp only at h
      split at h
      · cases h
      · cases h
        exact .cons hc (hbehind.trans (numberPart_takeDigits behind))
    · cases h
      exact .refl _

theorem isNumber_wholeNumber? {negative : Bool} {s : Significand} {j : Json}
    (h : wholeNumber? negative s = some j) : j.IsNumber := by
  unfold wholeNumber? at h
  simp only [Option.bind_eq_bind] at h
  split at h
  · cases h
    trivial
  · split at h
    · cases h
      trivial
    · obtain ⟨x, -, hx⟩ := Option.bind_eq_some_iff.mp h
      cases hx
      trivial

/-- What is read as a number is one, and takes up characters of numbers alone. -/
theorem readUnsigned?_chars {negative : Bool} {cs rest : List Char} {j : Json}
    (h : readUnsigned? negative cs = some (j, rest)) : j.IsNumber ∧ NumberPart cs rest := by
  unfold readUnsigned? at h
  dsimp only at h
  split at h
  · cases h
  · obtain ⟨⟨fraction, behind⟩, hfraction, h⟩ := Option.bind_eq_some_iff.mp h
    obtain ⟨⟨power, last⟩, hpower, h⟩ := Option.bind_eq_some_iff.mp h
    have hpart : NumberPart cs last := (numberPart_takeDigits cs).trans
      ((numberPart_readFraction? hfraction).trans (numberPart_readPower? hpower))
    dsimp only at h
    split at h
    · obtain ⟨j', hj, h⟩ := Option.bind_eq_some_iff.mp h
      cases h
      exact ⟨isNumber_wholeNumber? hj, hpart⟩
    · obtain ⟨x, -, h⟩ := Option.bind_eq_some_iff.mp h
      cases h
      exact ⟨trivial, hpart⟩

theorem readNumber?_chars {cs rest : List Char} {j : Json}
    (h : readNumber? cs = some (j, rest)) : j.IsNumber ∧ NumberPart cs rest := by
  unfold readNumber? at h
  split at h
  · obtain ⟨hj, hpart⟩ := readUnsigned?_chars h
    exact ⟨hj, .cons (.inr (.inr (.inr (.inr (.inr rfl))))) hpart⟩
  · exact readUnsigned?_chars h

/-! ## Whole numbers -/

/-- Where the exponent is as before, no digit has been left out. -/
theorem value_takeWhole (s : Significand) (ds : List Nat)
    (h : (s.takeWhole ds).exponent = s.exponent) :
    (s.takeWhole ds).value = ds.foldl (fun n d => 10 * n + d) s.value := by
  induction ds generalizing s with
  | nil => rfl
  | cons d ds ih =>
    unfold Significand.takeWhole at h ⊢
    split at h
    · next hfits =>
      rw [if_pos hfits]
      exact ih _ h
    · exfalso
      have h : s.exponent + ((ds.length + 1 : Nat) : Int) = s.exponent := h
      omega

theorem wholeNumber?_digits {negative : Bool} {n : Nat} {j : Json}
    (h : wholeNumber? negative (Significand.takeWhole ⟨0, 0⟩ (digits n)) = some j) :
    j = .int (if negative then -(n : Int) else n) ∨ ∃ x, j = .float x := by
  have hvalue := value_takeWhole ⟨0, 0⟩ (digits n)
  unfold wholeNumber? at h
  simp only [Option.bind_eq_bind] at h
  split at h
  · next hwhole =>
    cases h
    rw [hvalue hwhole.1, if_neg hwhole.2]
    exact .inl (congrArg (fun m : Nat => Json.int m) (ofDigits_digits n))
  · next hnot =>
    split at h
    · next hwhole =>
      cases h
      have hnegative : negative = true := by
        cases negative with
        | true => rfl
        | false => exact absurd ⟨hwhole.1, Bool.false_ne_true⟩ hnot
      rw [hvalue hwhole.1, if_pos hnegative]
      exact .inl (congrArg (fun m : Nat => Json.int (-(m : Int))) (ofDigits_digits n))
    · obtain ⟨x, -, hx⟩ := Option.bind_eq_some_iff.mp h
      cases hx
      exact .inr ⟨_, rfl⟩

/-- Behind a value comes a comma or the end of a list, or nothing. -/
def Stops : List Char → Prop
  | [] => True
  | c :: _ => c = ',' ∨ c = ']' ∨ c = '}'

/-- What stops a number is none of its characters, and no separator. -/
theorem not_isNumberChar {c : Char} (h : c = ',' ∨ c = ']' ∨ c = '}') : ¬ IsNumberChar c := by
  rcases h with rfl | rfl | rfl
  all_goals decide

theorem toList_ofNat_ne_nil (n : Nat) : (ofNat n).toList ≠ [] := by
  rw [toList_ofNat]
  simpa using digits_ne_nil n

theorem takeDigits_ofNat (n : Nat) {rest : List Char} (h : Stops rest) :
    takeDigits ((ofNat n).toList ++ rest) = (digits n, rest) := by
  have hdigits : ∀ c ∈ (ofNat n).toList, (digit? c).isSome = true := by
    intro c hc
    rw [toList_ofNat] at hc
    obtain ⟨d, hd, rfl⟩ := List.mem_map.mp hc
    rw [digit?_digitChar (digits_lt n d hd)]
    rfl
  have hvalues : (ofNat n).toList.filterMap digit? = digits n := by
    rw [toList_ofNat, List.filterMap_map]
    have hall : ∀ ds : List Nat, (∀ d ∈ ds, d < 10) → ds.filterMap (digit? ∘ digitChar) = ds := by
      intro ds hds
      induction ds with
      | nil => rfl
      | cons d ds ih =>
        have hd : (digit? ∘ digitChar) d = some d := digit?_digitChar (hds d List.mem_cons_self)
        rw [List.filterMap_cons_some hd, ih fun e he => hds e (List.mem_cons_of_mem d he)]
    exact hall _ (digits_lt n)
  have hstop : rest.takeWhile (fun c => (digit? c).isSome) = [] ∧
      rest.dropWhile (fun c => (digit? c).isSome) = rest := by
    cases rest with
    | nil => exact ⟨rfl, rfl⟩
    | cons c rest =>
      have hc : ¬ (digit? c).isSome = true := fun hd => not_isNumberChar h (.inl hd)
      exact ⟨List.takeWhile_cons_of_neg hc, List.dropWhile_cons_of_neg hc⟩
  unfold takeDigits
  rw [List.takeWhile_append_of_pos hdigits, List.dropWhile_append_of_pos hdigits, hstop.1, hstop.2,
    List.append_nil, hvalues]

theorem head?_digits {n : Nat} (h : 10 ≤ n) : (digits n).head? ≠ some 0 := by
  induction n using digits.induct with
  | case1 n hlt => omega
  | case2 n _ ih =>
    have hhead : (digits n).head? = (digits (n / 10)).head? := by
      rw [digits, if_neg (Nat.not_lt.mpr h), List.head?_append, Option.or_of_isSome]
      exact List.isSome_head?.mpr (digits_ne_nil _)
    rw [hhead]
    by_cases hlt : n / 10 < 10
    · rw [digits, if_pos hlt, List.head?_cons]
      intro heq
      have hzero := Option.some.inj heq
      omega
    · exact ih (Nat.not_lt.mp hlt)

/-- The digits of a whole number are read as a whole. -/
theorem readUnsigned?_digits {rest : List Char} (hrest : Stops rest) (negative : Bool) (n : Nat) :
    readUnsigned? negative ((ofNat n).toList ++ rest) =
      (wholeNumber? negative (Significand.takeWhole ⟨0, 0⟩ (digits n))).map (·, rest) := by
  have hfraction : readFraction? rest = some (none, rest) := by
    cases rest with
    | nil => rfl
    | cons c rest =>
      unfold readFraction?
      split
      · next heq =>
        cases heq
        rcases hrest with h | h | h <;> cases h
      · rfl
  have hpower : readPower? rest = some (none, rest) := by
    cases rest with
    | nil => rfl
    | cons c rest =>
      unfold readPower?
      dsimp only
      rw [if_neg]
      rintro (rfl | rfl)
      · rcases hrest with h | h | h <;> cases h
      · rcases hrest with h | h | h <;> cases h
  have hlead : ((digits n).isEmpty || (digits n).head? == some 0 && (digits n).length != 1) =
      false := by
    rw [List.isEmpty_eq_false_iff.mpr (digits_ne_nil n), Bool.false_or, Bool.and_eq_false_iff]
    by_cases hlt : n < 10
    · right
      rw [digits, if_pos hlt]
      rfl
    · left
      exact beq_eq_false_iff_ne.mpr (head?_digits (Nat.not_lt.mp hlt))
  unfold readUnsigned?
  rw [takeDigits_ofNat n hrest]
  dsimp only
  rw [hlead, if_neg Bool.false_ne_true, hfraction]
  show (readPower? rest >>= fun _ => _) = _
  rw [hpower]
  show (wholeNumber? negative _ >>= fun j => some (j, rest)) = _
  rw [Option.map_eq_bind]
  rfl

theorem readNumber?_ofInt_eq {rest : List Char} (hrest : Stops rest) (n : Int) :
    readNumber? ((ofInt n).toList ++ rest) =
      (wholeNumber? (decide (n < 0)) (Significand.takeWhole ⟨0, 0⟩ (digits n.natAbs))).map
        (·, rest) := by
  rw [← readUnsigned?_digits hrest]
  unfold ofInt
  split
  · next hnegative =>
    have htext : ("-" ++ ofNat n.natAbs).toList = '-' :: (ofNat n.natAbs).toList := by simp
    rw [htext, decide_eq_true hnegative]
    rfl
  · next hpositive =>
    rw [decide_eq_false hpositive]
    unfold readNumber?
    split
    · next more heq =>
      obtain ⟨c, cs, hcs⟩ := List.exists_cons_of_ne_nil (toList_ofNat_ne_nil n.natAbs)
      rw [hcs] at heq
      cases heq
      have hmem : '-' ∈ (ofNat n.natAbs).toList := hcs ▸ List.mem_cons_self
      exact absurd rfl (mem_ofNat_ne hmem).2.2
    · rfl

/-- A whole number, if it is read, is read back as it, or as floating point. -/
theorem readNumber?_ofInt {n : Int} {rest rest' : List Char} {j : Json} (hrest : Stops rest)
    (h : readNumber? ((ofInt n).toList ++ rest) = some (j, rest')) :
    rest' = rest ∧ (j = .int n ∨ ∃ x, j = .float x) := by
  rw [readNumber?_ofInt_eq hrest] at h
  obtain ⟨j', hj, heq⟩ := Option.map_eq_some_iff.mp h
  cases heq
  refine ⟨rfl, (wholeNumber?_digits hj).imp_left fun hint => hint.trans (congrArg Json.int ?_)⟩
  by_cases hnegative : n < 0
  · rw [decide_eq_true hnegative, if_pos rfl]
    omega
  · rw [decide_eq_false hnegative, if_neg Bool.false_ne_true]
    omega

theorem le_foldl_digits (ds : List Nat) (n : Nat) : n ≤ ds.foldl (fun n d => 10 * n + d) n := by
  induction ds generalizing n with
  | nil => exact Nat.le_refl n
  | cons d ds ih =>
    have h := ih (10 * n + d)
    rw [List.foldl_cons]
    omega

/-- Digits of a number that 64 bits hold are all taken. -/
theorem takeWhole_of_le (s : Significand) (ds : List Nat)
    (h : ds.foldl (fun n d => 10 * n + d) s.value ≤ max64) :
    s.takeWhole ds = ⟨ds.foldl (fun n d => 10 * n + d) s.value, s.exponent⟩ := by
  induction ds generalizing s with
  | nil => rfl
  | cons d ds ih =>
    rw [List.foldl_cons] at h ⊢
    unfold Significand.takeWhole
    rw [if_pos ((le_foldl_digits ds _).trans h)]
    exact ih ⟨10 * s.value + d, s.exponent⟩ h

/-- A whole number that fits 64 bits is read back as it was. -/
theorem readNumber?_ofInt_of_fits {n : Int} (hlow : -0x8000000000000000 ≤ n) (hhigh : n ≤ max64)
    {rest : List Char} (hrest : Stops rest) :
    readNumber? ((ofInt n).toList ++ rest) = some (.int n, rest) := by
  have hvalue : (digits n.natAbs).foldl (fun n d => 10 * n + d) 0 = n.natAbs :=
    ofDigits_digits n.natAbs
  have hfits : n.natAbs ≤ max64 := by
    unfold max64 at hhigh ⊢
    omega
  have htake : Significand.takeWhole ⟨0, 0⟩ (digits n.natAbs) = ⟨n.natAbs, 0⟩ := by
    rw [takeWhole_of_le _ _ (by rw [hvalue]; exact hfits), hvalue]
  rw [readNumber?_ofInt_eq hrest, htake]
  unfold wholeNumber?
  by_cases hnegative : n < 0
  · rw [decide_eq_true hnegative, if_neg (fun h => h.2 rfl),
      if_pos ⟨rfl, by show n.natAbs ≠ 0; omega, by show n.natAbs ≤ 0x8000000000000000; omega⟩]
    show some (Json.int (-(n.natAbs : Int)), rest) = _
    rw [show -(n.natAbs : Int) = n by omega]
  · rw [decide_eq_false hnegative, if_pos ⟨rfl, Bool.false_ne_true⟩]
    show some (Json.int (n.natAbs : Int), rest) = _
    rw [show (n.natAbs : Int) = n by omega]

/-! ## Floating-point numbers -/

theorem isNumberChar_of_mem_ofNat {n : Nat} {c : Char} (h : c ∈ (ofNat n).toList) :
    IsNumberChar c := by
  rw [toList_ofNat] at h
  obtain ⟨d, hd, rfl⟩ := List.mem_map.mp h
  refine .inl ?_
  rw [digit?_digitChar (digits_lt n d hd)]
  rfl

/-- The text is made of characters of numbers. -/
def NumberText (cs : List Char) : Prop :=
  ∀ c ∈ cs, IsNumberChar c

instance : DecidablePred NumberText := fun cs => List.decidableBAll IsNumberChar cs

namespace NumberText

theorem append {as bs : List Char} (ha : NumberText as) (hb : NumberText bs) :
    NumberText (as ++ bs) := fun c hc => (List.mem_append.mp hc).elim (ha c) (hb c)

theorem cons {c : Char} {cs : List Char} (hc : IsNumberChar c) (h : NumberText cs) :
    NumberText (c :: cs) := fun d hd => (List.mem_cons.mp hd).elim (fun heq => heq ▸ hc) (h d)

theorem of_sublist {as bs : List Char} (h : NumberText bs) (hs : as.Sublist bs) : NumberText as :=
  fun c hc => h c (hs.subset hc)

theorem digitChars (d : Numeral) : NumberText d.digitChars := fun c hc =>
  isNumberChar_of_mem_ofNat (n := d.coefficient) (by rwa [toList_ofNat])

theorem zeros (n : Nat) : NumberText (List.replicate n '0') := fun c hc => by
  rw [List.eq_of_mem_replicate hc]
  exact .inl rfl

theorem positional (d : Numeral) : NumberText d.positional.toList := by
  unfold Numeral.positional
  dsimp only
  split
  · rw [String.toList_ofList]
    exact (digitChars d).append (zeros _)
  · split
    · rw [String.toList_ofList]
      exact ((digitChars d).of_sublist (List.take_sublist _ _)).append
        (.cons (.inr (.inl rfl)) ((digitChars d).of_sublist (List.drop_sublist _ _)))
    · rw [String.toList_ofList]
      exact .cons (.inl rfl) (.cons (.inr (.inl rfl)) ((zeros _).append (digitChars d)))

theorem scientific (d : Numeral) : NumberText d.scientific.toList := by
  have hlead : NumberText (d.digitChars.take 1) := (digitChars d).of_sublist (List.take_sublist _ _)
  unfold Numeral.scientific
  dsimp only
  rw [String.toList_append, String.toList_append, String.toList_ofList]
  refine ((?_ : NumberText _).append ?_).append fun c hc => isNumberChar_of_mem_ofNat hc
  · split
    · exact hlead
    · exact hlead.append (.cons (.inr (.inl rfl))
        ((digitChars d).of_sublist (List.drop_sublist _ _)))
  · split
    · exact .cons (.inr (.inr (.inl rfl))) (.cons (by decide) fun _ h => nomatch h)
    · exact .cons (.inr (.inr (.inl rfl))) (.cons (by decide) fun _ h => nomatch h)

end NumberText

theorem numberText_ofInt (n : Int) : NumberText (ofInt n).toList ∧ (ofInt n).toList ≠ [] := by
  have hdigits : NumberText (ofNat n.natAbs).toList := fun _ hc => isNumberChar_of_mem_ofNat hc
  unfold ofInt
  split
  · rw [String.toList_append]
    exact ⟨.append (by decide) hdigits,
      List.append_ne_nil_of_right_ne_nil _ (toList_ofNat_ne_nil _)⟩
  · exact ⟨hdigits, toList_ofNat_ne_nil _⟩

/-- The text of a positive decimal has characters of numbers alone. -/
theorem decimalText_chars (d : Numeral) :
    NumberText (decimalText d).toList ∧ (decimalText d).toList ≠ [] := by
  unfold decimalText
  dsimp only
  split
  · split
    · rw [String.toList_append]
      exact ⟨(NumberText.positional d).append (by decide), by simp⟩
    · next hexponent =>
      refine ⟨.positional d, ?_⟩
      unfold Numeral.positional
      dsimp only
      rw [if_neg hexponent]
      split
      · simp
      · simp
  · refine ⟨.scientific d, ?_⟩
    unfold Numeral.scientific
    dsimp only
    rw [String.toList_append]
    exact List.append_ne_nil_of_right_ne_nil _ (toList_ofNat_ne_nil _)

/-- The text of a floating-point number has characters of numbers alone, if it is one. -/
theorem floatText_chars (x : Float) : floatText x = "null" ∨
    NumberText (floatText x).toList ∧ (floatText x).toList ≠ [] := by
  unfold floatText
  split
  · next negative m q _ =>
    have hsign : NumberText (if negative then "-" else "").toList := by
      cases negative
      · exact fun _ h => nomatch h
      · decide
    have hrest : NumberText
          (if m = 0 then "0.0" else decimalText (shortest binary64 .even m q)).toList ∧
        (if m = 0 then "0.0" else decimalText (shortest binary64 .even m q)).toList ≠ [] := by
      split
      · exact ⟨by decide, by decide⟩
      · exact decimalText_chars _
    rw [String.toList_append]
    exact .inr ⟨hsign.append hrest.1, List.append_ne_nil_of_right_ne_nil _ hrest.2⟩
  · exact .inl rfl

end StoryMachine.Json
