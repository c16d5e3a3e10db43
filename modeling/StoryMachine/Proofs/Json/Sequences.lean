import StoryMachine.Proofs.Json.Tokens

/-!
# Texts of values one after another

What a reader makes of the text of a value, when other values may follow: it takes up the text
and leaves the rest, or it refuses, or it leaves a number before its end. The last two do not
happen to a text that is sure to be read.

* `Json.Outcome` : what comes of reading a text;
* `Json.ReadsBack`, `Json.ItemsReadBack` : texts of one value, and of values between commas;
* `Json.ReadsBack.single`, `Json.ReadsBack.cons` : the second from the first, value by value;
* `Json.ListReadsBack.enclosed` : a value that is written as a list of others.
-/

namespace StoryMachine.Json

/-! ## Marks -/

/-- The text starts with a mark that neither is skipped nor ends a list. -/
def Marked (text : List Char) : Prop :=
  ∃ c cs, text = c :: cs ∧ isSeparator c = false ∧ c ≠ ']' ∧ c ≠ '}'

theorem skip_cons {c : Char} (h : isSeparator c = false) (cs : List Char) :
    skip (c :: cs) = c :: cs :=
  List.dropWhile_cons_of_neg (Bool.eq_false_iff.mp h)

theorem Marked.skip {text : List Char} (h : Marked text) (rest : List Char) :
    skip (text ++ rest) = text ++ rest := by
  obtain ⟨c, cs, rfl, hc, -⟩ := h
  exact skip_cons hc _

theorem Marked.length_pos {text : List Char} (h : Marked text) : 0 < text.length := by
  obtain ⟨c, cs, rfl, -⟩ := h
  exact Nat.succ_pos _

theorem Marked.append {text : List Char} (h : Marked text) (rest : List Char) :
    Marked (text ++ rest) := by
  obtain ⟨c, cs, rfl, hc⟩ := h
  exact ⟨c, _, rfl, hc⟩

/-- The text goes on with a character of a number. -/
def Unfinished (cs : List Char) : Prop :=
  ∃ c rest, cs = c :: rest ∧ IsNumberChar c

theorem not_mark_of_isNumberChar {c : Char} (h : IsNumberChar c) :
    isSeparator c = false ∧ c ≠ ',' ∧ c ≠ ']' ∧ c ≠ '}' ∧ c ≠ '"' ∧ c ≠ '[' ∧ c ≠ '{' ∧
      c ≠ 'n' ∧ c ≠ 't' ∧ c ≠ 'f' := by
  have hne : ∀ d : Char, ¬ IsNumberChar d → c ≠ d := fun d hd heq => hd (heq ▸ h)
  have hseparator : isSeparator c = false := by
    refine Bool.eq_false_iff.mpr fun hc => ?_
    simp only [isSeparator, Bool.or_eq_true, beq_iff_eq] at hc
    rcases hc with ((hc | hc) | hc) | hc
    all_goals exact hne _ (by decide) hc
  refine ⟨hseparator, ?_, ?_, ?_, ?_, ?_, ?_, ?_, ?_, ?_⟩
  all_goals exact hne _ (by decide)

/-- Behind the text of a number, either all of it has been read, or some of it is left. -/
theorem stops_or_unfinished {text part rest rest' : List Char} (htext : NumberText text)
    (hpart : NumberText part) (hrest : Stops rest) (h : text ++ rest = part ++ rest') :
    rest' = rest ∨ Unfinished rest' := by
  rcases List.append_eq_append_iff.mp h with ⟨more, rfl, hmore⟩ | ⟨more, rfl, hmore⟩
  · cases more with
    | nil => exact .inl hmore.symm
    | cons c more =>
      rw [hmore] at hrest
      exact absurd (hpart c (by simp)) (not_isNumberChar hrest)
  · cases more with
    | nil => exact .inl hmore
    | cons c more => exact .inr ⟨c, _, hmore, htext c (by simp)⟩

/-! ## What comes of reading -/

/-- What comes of reading a text that ends before `rest`: a value as `R` says, up to the end of
the text. Unless the text is `sure` to be read, it may be refused, or a number left unfinished. -/
def Outcome {α : Type} (sure : Prop) (R : α → Prop) (rest : List Char) :
    Option (α × List Char) → Prop
  | none => ¬ sure
  | some (x, rest') => rest' = rest ∧ R x ∨ ¬ sure ∧ Unfinished rest'

section Outcome

variable {α β : Type} {sure : Prop} {R : α → Prop} {rest : List Char}
  {r : Option (α × List Char)}

theorem Outcome.imp {sure' : Prop} {S : α → Prop} (h : Outcome sure R rest r)
    (hsure : sure' → sure) (himp : ∀ x, R x → S x) : Outcome sure' S rest r := by
  cases r with
  | none => exact mt hsure h
  | some p => exact h.imp (And.imp_right (himp _)) (And.imp_left (mt hsure))

theorem Outcome.map {S : β → Prop} (h : Outcome sure R rest r) (f : α → β)
    (himp : ∀ x, R x → S (f x)) :
    Outcome sure S rest (r.map fun p => (f p.1, p.2)) := by
  cases r with
  | none => exact h
  | some p => exact h.imp_left (And.imp_right (himp _))

end Outcome

/-- The text is that of something which `item` reads back as `R` says. -/
structure ReadsBack {α : Type} (sure : Prop) (item : List Char → Option (α × List Char))
    (text : List Char) (R : α → Prop) : Prop where
  head : Marked text
  read {rest : List Char} (hrest : Stops rest) : Outcome sure R rest (item (text ++ rest))

/-- The text is that of items which `item` reads back as `R` says. Every item takes up a
character, so that as many steps as there are characters are enough. -/
structure ItemsReadBack {α : Type} (sure : Prop) (close : Char)
    (item : List Char → Option (α × List Char)) (text : List Char) (R : List α → Prop) : Prop where
  head : Marked text
  read (done : List α) (fuel : Nat) (rest : List Char) :
    Outcome (sure ∧ text.length ≤ fuel) (fun xs => ∃ ys, xs = done.reverse ++ ys ∧ R ys) rest
      (readItems? close item done fuel (text ++ close :: rest))

/-! ## Lists of values -/

section Items

variable {α : Type} {sure : Prop} {item : List Char → Option (α × List Char)} {text : List Char}
  {R : α → Prop} {close : Char}

theorem ReadsBack.imp {sure' : Prop} {S : α → Prop} (h : ReadsBack sure item text R)
    (hsure : sure' → sure) (himp : ∀ x, R x → S x) : ReadsBack sure' item text S :=
  ⟨h.head, fun hrest => (h.read hrest).imp hsure himp⟩

theorem ItemsReadBack.imp {sure' : Prop} {R S : List α → Prop}
    (h : ItemsReadBack sure close item text R) (hsure : sure' → sure) (himp : ∀ xs, R xs → S xs) :
    ItemsReadBack sure' close item text S :=
  ⟨h.head, fun done fuel rest => (h.read done fuel rest).imp (And.imp_left hsure)
    fun _ ⟨ys, hxs, hys⟩ => ⟨ys, hxs, himp ys hys⟩⟩

/-- The first item is read as a whole, as a comma or the end comes next. -/
theorem ReadsBack.first (h : ReadsBack sure item text R) (hclose : close = ']' ∨ close = '}')
    {mark : Char} (hmark : mark = ',' ∨ mark = close) (done : List α) (fuel : Nat)
    (rest : List Char) :
    (∃ x, R x ∧ readItems? close item done (fuel + 1) (text ++ mark :: rest) =
      if mark = close then some ((x :: done).reverse, rest)
      else readItems? close item (x :: done) fuel rest) ∨
    ¬ sure ∧ readItems? close item done (fuel + 1) (text ++ mark :: rest) = none := by
  have hstops : mark = ',' ∨ mark = ']' ∨ mark = '}' := by
    rcases hmark with rfl | rfl
    · exact .inl rfl
    · exact .inr hclose
  have hcomma : close ≠ ',' := by rcases hclose with rfl | rfl <;> decide
  have hread := h.read (show Stops (mark :: rest) from hstops)
  rw [readItems?, h.head.skip]
  generalize item (text ++ mark :: rest) = read at hread
  cases read with
  | none => exact .inr ⟨hread, rfl⟩
  | some p =>
    obtain ⟨x, behind⟩ := p
    rcases hread with ⟨rfl, hx⟩ | ⟨hsure, c, more, rfl, hc⟩
    · refine .inl ⟨x, hx, ?_⟩
      dsimp only
      rw [skip_cons (by rcases hstops with rfl | rfl | rfl <;> rfl)]
      split
      · next heq =>
        cases heq
        exact (if_neg hcomma.symm).symm
      · next hnot heq =>
        cases heq
        rcases hmark with rfl | rfl
        · exact (hnot rfl).elim
        · rw [if_pos rfl, if_pos rfl]
      · next heq => cases heq
    -- A number whose end is left is followed by neither a comma nor the end of the list.
    · refine .inr ⟨hsure, ?_⟩
      obtain ⟨hseparator, hne, hitems, hfields, -⟩ := not_mark_of_isNumberChar hc
      dsimp only
      rw [skip_cons hseparator]
      split
      · next heq => exact absurd (List.cons.inj heq).1 hne
      · next heq =>
        cases heq
        rcases hclose with rfl | rfl
        · exact if_neg hitems
        · exact if_neg hfields
      · rfl

/-- Items are not read with no steps left, and are not sure to be. -/
theorem outcome_no_fuel (hhead : Marked text) {done : List α} {S : List α → Prop}
    {cs rest : List Char} :
    Outcome (sure ∧ text.length ≤ 0) S rest (readItems? close item done 0 cs) :=
  fun h => Nat.not_lt.mpr h.2 hhead.length_pos

theorem ReadsBack.single (h : ReadsBack sure item text R) (hclose : close = ']' ∨ close = '}') :
    ItemsReadBack sure close item text fun ys => ∃ y, ys = [y] ∧ R y := by
  refine ⟨h.head, fun done fuel rest => ?_⟩
  cases fuel with
  | zero => exact outcome_no_fuel h.head
  | succ fuel =>
    rcases h.first hclose (.inr rfl) done fuel rest with ⟨x, hx, heq⟩ | ⟨hsure, heq⟩
    · rw [heq, if_pos rfl]
      exact .inl ⟨rfl, [x], List.reverse_cons, x, rfl, hx⟩
    · rw [heq]
      exact fun hboth => hsure hboth.1

theorem ReadsBack.cons (h : ReadsBack sure item text R) (hclose : close = ']' ∨ close = '}')
    {sure' : Prop} {more : List Char} {S : List α → Prop}
    (hmore : ItemsReadBack sure' close item more S) :
    ItemsReadBack (sure ∧ sure') close item (text ++ ',' :: more)
      fun ys => ∃ y zs, ys = y :: zs ∧ R y ∧ S zs := by
  refine ⟨h.head.append _, fun done fuel rest => ?_⟩
  cases fuel with
  | zero => exact outcome_no_fuel (h.head.append _)
  | succ fuel =>
    rw [List.append_assoc, List.cons_append]
    rcases h.first hclose (.inl rfl) done fuel (more ++ close :: rest) with
      ⟨x, hx, heq⟩ | ⟨hsure, heq⟩
    · have hcomma : ',' ≠ close := by rcases hclose with rfl | rfl <;> decide
      rw [heq, if_neg hcomma]
      refine (hmore.read (x :: done) fuel rest).imp (fun ⟨⟨_, hsure⟩, hfuel⟩ => ⟨hsure, ?_⟩)
        fun xs ⟨ys, hxs, hys⟩ => ⟨x :: ys, ?_, x, ys, rfl, hx, hys⟩
      · rw [List.length_append, List.length_cons] at hfuel
        omega
      · rw [hxs, List.reverse_cons, List.append_assoc, List.singleton_append]
    · rw [heq]
      exact fun hboth => hsure hboth.1.1

/-- Items up to the closing character are read as a whole. -/
theorem ItemsReadBack.sequence {S : List α → Prop} (h : ItemsReadBack sure close item text S)
    (hclose : close = ']' ∨ close = '}') (rest : List Char) :
    Outcome sure S rest (readSequence? close item (text ++ close :: rest)) := by
  have hread := h.read []
  obtain ⟨c, cs, rfl, hseparator, hitems, hfields⟩ := h.head
  have hc : c ≠ close := by rcases hclose with rfl | rfl <;> assumption
  unfold readSequence?
  rw [List.cons_append, skip_cons hseparator]
  dsimp only
  rw [if_neg hc, ← List.cons_append]
  refine (hread _ rest).imp (fun hsure => ⟨hsure, ?_⟩) fun xs ⟨ys, hxs, hys⟩ => hxs ▸ hys
  rw [List.length_append, List.length_cons]
  omega

/-- The text holds no items, or items that are read back. -/
def ListReadsBack {α : Type} (sure : Prop) (close : Char)
    (item : List Char → Option (α × List Char)) (text : List Char) (R : List α → Prop) : Prop :=
  text = [] ∧ R [] ∨ ItemsReadBack sure close item text R

/-- A value that is written as a list of others is read back if they are. -/
theorem ListReadsBack.enclosed {opening : Char} {S : List α → Prop}
    (h : ListReadsBack sure close item text S) (hclose : close = ']' ∨ close = '}')
    (hopening : isSeparator opening = false ∧ opening ≠ ']' ∧ opening ≠ '}') (value : List α → Json)
    {depth : Nat} (hread : ∀ cs, readValue? depth (opening :: cs) =
      (readSequence? close item cs).map fun r => (value r.1, r.2)) :
    ReadsBack sure (readValue? depth) (opening :: (text ++ [close]))
      fun j => ∃ xs, j = value xs ∧ S xs := by
  refine ⟨⟨opening, _, rfl, hopening⟩, fun {rest} _ => ?_⟩
  rw [List.cons_append, List.append_assoc, List.singleton_append, hread]
  refine Outcome.map (R := S) ?_ value fun xs hxs => ⟨xs, rfl, hxs⟩
  rcases h with ⟨rfl, hempty⟩ | h
  · have hskip : skip (close :: rest) = close :: rest :=
      skip_cons (by rcases hclose with rfl | rfl <;> rfl) _
    rw [List.nil_append, readSequence?, hskip]
    dsimp only
    rw [if_pos rfl]
    exact .inl ⟨rfl, hempty⟩
  · exact h.sequence hclose rest

end Items

end StoryMachine.Json
