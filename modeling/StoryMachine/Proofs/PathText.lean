import StoryMachine.ListValue.Item
import StoryMachine.Path

/-!
# The text of paths and items

A path is written with points between its steps, and a step that reads as a number is an
index. The text of a path therefore reads as that path when every step reads as itself and
holds no point, and no empty step stands where it would be taken for the point of a
relative path. Reading only gives such paths.

The full name of an item reads as the item again, but for an item of unknown definition:
its question mark reads as the name of a definition.

* `Decimal.natural?_ofNat` : the digits of a number read as it;
* `Text.splitOn_intercalate`, `Text.intercalate_splitOn` : pieces and separators;
* `Path.parse_render`, `Path.readable_parse` : paths that their text reads as;
* `Item.parse_fullName_parse` : items that were read.
-/

namespace StoryMachine

/-! ## Whole numbers -/

namespace Decimal

theorem digit?_digitChar {d : Nat} (h : d < 10) : digit? (digitChar d) = some d := by
  have : ∀ d : Fin 10, digit? (digitChar d) = some d.val := by decide
  exact this ⟨d, h⟩

theorem digitChar_ne {d : Nat} (h : d < 10) :
    digitChar d ≠ '.' ∧ digitChar d ≠ '+' ∧ digitChar d ≠ '-' := by
  have : ∀ d : Fin 10, digitChar d ≠ '.' ∧ digitChar d ≠ '+' ∧ digitChar d ≠ '-' := by decide
  exact this ⟨d, h⟩

theorem digits_lt (n : Nat) : ∀ d ∈ digits n, d < 10 := by
  induction n using digits.induct with
  | case1 n h => rw [digits, if_pos h]; simpa using h
  | case2 n h ih =>
    rw [digits, if_neg h]
    intro d hd
    rcases List.mem_append.mp hd with hd | hd
    · exact ih d hd
    · rw [List.mem_singleton.mp hd]
      exact Nat.mod_lt _ (by decide)

theorem digits_ne_nil (n : Nat) : digits n ≠ [] := by
  rw [digits]
  split <;> simp

theorem ofDigits_append (ds : List Nat) (d : Nat) :
    ofDigits (ds ++ [d]) = 10 * ofDigits ds + d := by
  simp [ofDigits]

theorem ofDigits_digits (n : Nat) : ofDigits (digits n) = n := by
  induction n using digits.induct with
  | case1 n h => rw [digits, if_pos h]; simp [ofDigits]
  | case2 n h ih =>
    rw [digits, if_neg h, ofDigits_append, ih]
    omega

theorem mapM_digit?_map {ds : List Nat} (h : ∀ d ∈ ds, d < 10) :
    (ds.map digitChar).mapM digit? = some ds := by
  induction ds with
  | nil => rfl
  | cons d rest ih =>
    rw [List.map_cons, List.mapM_cons, digit?_digitChar (h d (by simp)),
      ih fun e he => h e (by simp [he])]
    rfl

theorem toList_ofNat (n : Nat) : (ofNat n).toList = (digits n).map digitChar :=
  String.toList_ofList

theorem natural?_ofNat (n : Nat) : natural? (ofNat n).toList = some n := by
  have hne : ((digits n).map digitChar).isEmpty = false := by
    simpa using digits_ne_nil n
  rw [toList_ofNat, natural?, hne, mapM_digit?_map (digits_lt n)]
  simp [ofDigits_digits]

theorem mem_ofNat_ne {n : Nat} {c : Char} (h : c ∈ (ofNat n).toList) :
    c ≠ '.' ∧ c ≠ '+' ∧ c ≠ '-' := by
  rw [toList_ofNat] at h
  obtain ⟨d, hd, rfl⟩ := List.mem_map.mp h
  exact digitChar_ne (digits_lt n d hd)

theorem unsigned?_ofNat {most n : Nat} (h : n ≤ most) :
    unsigned? most (ofNat n).toList = some n := by
  have hplus : ∀ rest, (ofNat n).toList ≠ '+' :: rest := fun rest heq =>
    (mem_ofNat_ne (c := '+') (heq ▸ List.mem_cons_self)).2.1 rfl
  unfold unsigned?
  split
  · next rest heq => exact absurd heq (hplus rest)
  · rw [natural?_ofNat]
    simp [h]

theorem le_of_unsigned? {most n : Nat} {cs : List Char} (h : unsigned? most cs = some n) :
    n ≤ most := by
  have hbound : ∀ o : Option Nat,
      (o.bind fun n => if n ≤ most then some n else none) = some n → n ≤ most := by
    intro o ho
    obtain ⟨m, -, hm⟩ := Option.bind_eq_some_iff.mp ho
    split at hm
    · next hle => cases hm; exact hle
    · cases hm
  unfold unsigned? at h
  split at h <;> exact hbound _ h

end Decimal

/-! ## Pieces between separators -/

namespace Text

variable {sep : Char}

theorem splitOn_go_append {piece cs : List Char} (h : sep ∉ cs) (rest : List Char) :
    splitOn.go sep piece (cs ++ rest) = splitOn.go sep (cs.reverse ++ piece) rest := by
  induction cs generalizing piece with
  | nil => rfl
  | cons c cs ih =>
    have hc : c ≠ sep := fun heq => h (heq ▸ List.mem_cons_self)
    rw [List.cons_append, splitOn.go, if_neg hc, ih fun hm => h (List.mem_cons_of_mem _ hm)]
    simp

theorem splitOn_of_not_mem {cs : List Char} (h : sep ∉ cs) : splitOn sep cs = [cs] := by
  have : splitOn.go sep [] (cs ++ []) = _ := splitOn_go_append h []
  simpa [splitOn, splitOn.go] using this

theorem splitOn_append_cons {cs : List Char} (h : sep ∉ cs) (rest : List Char) :
    splitOn sep (cs ++ sep :: rest) = cs :: splitOn sep rest := by
  rw [splitOn, splitOn_go_append h, splitOn.go, if_pos rfl]
  simp [splitOn]

theorem splitOn_intercalate {pieces : List (List Char)} (hne : pieces ≠ [])
    (h : ∀ p ∈ pieces, sep ∉ p) : splitOn sep ([sep].intercalate pieces) = pieces := by
  induction pieces with
  | nil => exact absurd rfl hne
  | cons p rest ih =>
    have hp : sep ∉ p := h p (by simp)
    cases rest with
    | nil => simpa using splitOn_of_not_mem hp
    | cons q rest =>
      rw [List.intercalate_cons_cons, List.append_assoc, List.singleton_append,
        splitOn_append_cons hp, ih (by simp) fun r hr => h r (by simp [hr])]

theorem not_mem_of_mem_splitOn_go {piece cs p : List Char} (hpiece : sep ∉ piece)
    (h : p ∈ splitOn.go sep piece cs) : sep ∉ p := by
  induction cs generalizing piece with
  | nil =>
    rw [splitOn.go, List.mem_singleton] at h
    simpa [h] using hpiece
  | cons c rest ih =>
    rw [splitOn.go] at h
    split at h
    · rcases List.mem_cons.mp h with rfl | h
      · simpa using hpiece
      · exact ih (by simp) h
    · next hc => exact ih (by simp [hpiece, Ne.symm hc]) h

theorem not_mem_of_mem_splitOn {cs p : List Char} (h : p ∈ splitOn sep cs) : sep ∉ p :=
  not_mem_of_mem_splitOn_go (by simp) h

theorem splitOn_go_ne_nil (sep : Char) (piece cs : List Char) : splitOn.go sep piece cs ≠ [] := by
  induction cs generalizing piece with
  | nil => simp [splitOn.go]
  | cons c rest ih =>
    rw [splitOn.go]
    split
    · simp
    · exact ih _

theorem splitOn_ne_nil (sep : Char) (cs : List Char) : splitOn sep cs ≠ [] :=
  splitOn_go_ne_nil sep [] cs

theorem intercalate_splitOn_go (piece cs : List Char) :
    [sep].intercalate (splitOn.go sep piece cs) = piece.reverse ++ cs := by
  induction cs generalizing piece with
  | nil => simp [splitOn.go]
  | cons c rest ih =>
    rw [splitOn.go]
    split
    · next h =>
      obtain ⟨q, more, hq⟩ := List.exists_cons_of_ne_nil (splitOn_go_ne_nil sep [] rest)
      have := ih []
      rw [hq] at this ⊢
      rw [List.intercalate_cons_cons, this, h]
      simp
    · rw [ih]
      simp

theorem intercalate_splitOn (sep : Char) (cs : List Char) : [sep].intercalate (splitOn sep cs) = cs :=
  intercalate_splitOn_go [] cs

end Text

/-! ## Steps and paths -/

/-- The text of the step reads as it and fits between two points. -/
structure Step.Readable (s : Step) : Prop where
  parse_render : Step.parse s.render.toList = s
  no_point : '.' ∉ s.render.toList

namespace Step

theorem readable_index {i : Nat} (h : i ≤ Decimal.max64) : (Step.index i).Readable where
  parse_render := by
    rw [render, parse, Decimal.unsigned?_ofNat h]
  no_point hm := (Decimal.mem_ofNat_ne hm).1 rfl

theorem readable_name {n : String} (hn : Decimal.unsigned? Decimal.max64 n.toList = none)
    (hp : '.' ∉ n.toList) : (Step.name n).Readable where
  parse_render := by
    rw [render, parse, hn, String.ofList_toList]
  no_point := hp

theorem index_le_of_parse {cs : List Char} {i : Nat} (h : parse cs = .index i) :
    i ≤ Decimal.max64 := by
  unfold parse at h
  split at h
  · next j hj =>
    cases h
    exact Decimal.le_of_unsigned? hj
  · cases h

theorem readable_parse {cs : List Char} (h : '.' ∉ cs) : (parse cs).Readable := by
  cases hs : parse cs with
  | index i => exact readable_index (index_le_of_parse hs)
  | name n =>
    unfold parse at hs
    split at hs
    · cases hs
    · next hnone =>
      cases hs
      exact readable_name (by rwa [String.toList_ofList]) (by rwa [String.toList_ofList])

theorem render_eq_empty {s : Step} (h : s.render = "") : s = .name "" := by
  cases s with
  | index i =>
    have := congrArg String.toList h
    rw [render, Decimal.toList_ofNat] at this
    exact absurd (List.map_eq_nil_iff.mp this) (Decimal.digits_ne_nil i)
  | name n => rw [← h, render]

theorem parse_eq_name_empty {cs : List Char} (h : parse cs = .name "") : cs = [] := by
  unfold parse at h
  split at h
  · cases h
  · simpa using h

end Step

namespace Path

/-- The text of the path reads as it. -/
def Readable (p : Path) : Prop :=
  parse p.render = p

theorem toList_render (p : Path) :
    p.render.toList = (if p.relative then ['.'] else []) ++
      ['.'].intercalate (p.steps.map fun s => s.render.toList) := by
  rw [render, String.toList_append, String.toList_intercalate, List.map_map]
  cases p.relative <;> rfl

theorem map_parse_splitOn {steps : List Step} (hne : steps ≠ [])
    (h : ∀ s ∈ steps, s.Readable) :
    (Text.splitOn '.' (['.'].intercalate (steps.map fun s => s.render.toList))).map
      Step.parse = steps := by
  rw [Text.splitOn_intercalate (by simpa using hne)]
  · rw [List.map_map]
    exact (List.map_congr_left fun s hs => (h s hs).parse_render).trans (List.map_id' _)
  · intro p hp
    obtain ⟨s, hs, rfl⟩ := List.mem_map.mp hp
    exact (h s hs).no_point

/-- An absolute path reads as itself unless it starts with an empty step, which reads as
the point of a relative one. -/
theorem parse_render_absolute {steps : List Step} (h : ∀ s ∈ steps, s.Readable)
    (hhead : steps.head? ≠ some (.name "")) : Readable ⟨steps, false⟩ := by
  cases steps with
  | nil => rfl
  | cons s rest =>
    have hs : s.render ≠ "" := fun he => hhead (by rw [Step.render_eq_empty he]; rfl)
    obtain ⟨c, cs, hcs⟩ := List.exists_cons_of_ne_nil
      (mt (fun he => String.toList_inj.mp (he.trans String.toList_empty.symm)) hs)
    have hc : c ≠ '.' := fun he =>
      (h s (by simp)).no_point (by rw [hcs, he]; simp)
    have hsplit := map_parse_splitOn (by simp) h
    have htext := toList_render ⟨s :: rest, false⟩
    rw [Readable, parse, htext]
    obtain ⟨more, hmore⟩ : ∃ more, ['.'].intercalate
        ((s :: rest).map fun s => s.render.toList) = c :: more := by
      cases rest <;> simp [hcs, List.intercalate_cons_cons]
    simp only [Bool.false_eq_true, ↓reduceIte, List.nil_append]
    rw [hmore] at hsplit ⊢
    split
    · next he => cases he
    · next he => cases he; exact absurd rfl hc
    · next he => rw [hsplit]

theorem parse_render_relative {steps : List Step} (hne : steps ≠ [])
    (h : ∀ s ∈ steps, s.Readable) : Readable ⟨steps, true⟩ := by
  rw [Readable, parse, toList_render]
  simp only [↓reduceIte, List.singleton_append]
  rw [map_parse_splitOn hne h]

theorem readable_parse (s : String) : (parse s).Readable := by
  have hall : ∀ cs, ∀ s ∈ (Text.splitOn '.' cs).map Step.parse, s.Readable := by
    intro cs s hs
    obtain ⟨piece, hpiece, rfl⟩ := List.mem_map.mp hs
    exact Step.readable_parse (Text.not_mem_of_mem_splitOn hpiece)
  have hne : ∀ cs, (Text.splitOn '.' cs).map Step.parse ≠ [] := fun cs => by
    simpa using Text.splitOn_ne_nil '.' cs
  unfold parse
  split
  · rfl
  · exact parse_render_relative (hne _) (hall _)
  · next cs hnil hpoint =>
    refine parse_render_absolute (hall _) fun hhead => ?_
    obtain ⟨piece, rest, hsplit⟩ :=
      List.exists_cons_of_ne_nil (Text.splitOn_ne_nil '.' s.toList)
    rw [hsplit, List.map_cons, List.head?_cons, Option.some_inj] at hhead
    have hjoin := Text.intercalate_splitOn '.' s.toList
    rw [hsplit, Step.parse_eq_name_empty hhead] at hjoin
    cases rest with
    | nil => exact hnil hjoin.symm
    | cons q rest =>
      rw [List.intercalate_cons_cons] at hjoin
      exact hpoint _ hjoin.symm

end Path

/-! ## Items -/

namespace Item

/-- An item as its full name reads: an unknown definition is one named by a question
mark. -/
def normal (i : Item) : Item :=
  ⟨some (i.origin.getD "?"), i.name⟩

theorem parse_point {origin : List Char} (h : '.' ∉ origin) (name : List Char) :
    parse (String.ofList (origin ++ '.' :: name)) =
      ⟨some (String.ofList origin), String.ofList name⟩ := by
  have hdrop : (origin ++ '.' :: name).dropWhile (· ≠ '.') = '.' :: name := by
    rw [List.dropWhile_append_of_pos fun c hc => by
      simpa using fun he : c = '.' => h (he ▸ hc)]
    simp
  have htake : (origin ++ '.' :: name).takeWhile (· ≠ '.') = origin := by
    rw [List.takeWhile_append_of_pos fun c hc => by
      simpa using fun he : c = '.' => h (he ▸ hc)]
    simp
  rw [parse, Text.cutAt, String.toList_ofList, hdrop, htake]

theorem parse_fullName {i : Item} (h : '.' ∉ (i.origin.getD "?").toList) :
    parse i.fullName = i.normal := by
  have : i.fullName = String.ofList ((i.origin.getD "?").toList ++ '.' :: i.name.toList) := by
    rw [← String.toList_inj]
    simp [fullName]
  rw [this, parse_point h]
  simp [normal]

theorem no_point_origin_parse (s : String) : '.' ∉ ((parse s).origin.getD "?").toList := by
  unfold parse Text.cutAt
  split
  · next origin name h =>
    split at h
    · cases h
    · cases h
      have hall := List.all_takeWhile (p := fun c => decide (c ≠ '.')) (l := s.toList)
      rw [Option.getD_some, String.toList_ofList]
      intro hm
      simpa using List.all_eq_true.mp hall _ hm
  · show '.' ∉ "?".toList
    decide

theorem parse_fullName_parse (s : String) : parse (parse s).fullName = (parse s).normal :=
  parse_fullName (no_point_origin_parse s)

end Item

end StoryMachine
