import StoryMachine.Proofs.Glue

/-!
# Borders in the output

Commands stand as borders in the output. Glue that takes line ends back, text that uses glue up, and a
function whose text is trimmed stop at the last command; what stands in front of it stays as it is. Of
what stands behind it they take texts and glue only: legacy tags stay, until the string or the tag ends
in which they have been put out.

* `Output.dropGlue_append`, `Output.dropLineEnds_append`, `Output.dropSpacing_append` : a command is a
  border;
* `Token.isMark` : the tokens that stay between borders;
* `Output.Behind` : what stands behind a command;
* `Output.Behind.emit`, `Output.Behind.trimFrom` : it may change while the command stands.
-/

namespace StoryMachine

/-- Whether a token is a legacy tag or a command. -/
def Token.isMark : Token → Bool
  | .tag _ | .command _ => true
  | _ => false

/-- Whether a token stands when the text of a function is trimmed. -/
def Token.stands : Token → Bool
  | .command _ => true
  | .value (.text s) => isVisible s
  | _ => false

namespace Output

variable {c : Command} {front back : List Token}

/-! ## Commands are borders -/

theorem dropGlue_append (c : Command) (front back : List Token) :
    dropGlue (front ++ .command c :: back) = dropGlue front ++ .command c :: back := by
  fun_induction dropGlue front with
  | case1 => rfl
  | case2 d rest => rfl
  | case3 rest ih => exact ih
  | case4 t rest hcommand hglue ih =>
    rw [List.cons_append, dropGlue.eq_4 _ _ hcommand hglue, ih]
    rfl

theorem endsLine_append (c : Command) (front back : List Token) :
    endsLine (front ++ .command c :: back) = endsLine front := by
  fun_induction endsLine front with
  | case1 => rfl
  | case2 d rest => rfl
  | case3 s rest ih => rw [List.cons_append, endsLine, ih]
  | case4 t rest hcommand htext ih => rw [List.cons_append, endsLine.eq_4 _ _ hcommand htext, ih]

theorem dropLineEnds_append (c : Command) (front back : List Token) :
    dropLineEnds (front ++ .command c :: back) = dropLineEnds front ++ .command c :: back := by
  fun_induction dropLineEnds front with
  | case1 => rfl
  | case2 d rest => rfl
  | case3 s rest hvisible => rw [List.cons_append, dropLineEnds, if_pos hvisible]
  | case4 s rest hvisible hline ih =>
    rw [List.cons_append, dropLineEnds, if_neg hvisible, endsLine_append, if_pos hline, ih]
  | case5 s rest hvisible hline =>
    rw [List.cons_append, dropLineEnds, if_neg hvisible, endsLine_append, if_neg hline]
  | case6 t rest hcommand htext ih =>
    rw [List.cons_append, dropLineEnds.eq_4 _ _ hcommand htext, ih]
    rfl

/-- Trimming stops where its count ends, or at a token that stands. -/
theorem dropSpacing_append {count : Nat} {front back : List Token} (h : count ≤ front.length ∨
    front.any Token.stands = true ∨ back.head?.any Token.stands = true) :
    dropSpacing count (front ++ back) = dropSpacing count front ++ back := by
  fun_induction dropSpacing count front with
  | case1 ts => rw [dropSpacing]
  | case2 count hcount =>
    rcases h with h | h | h
    · exact (hcount (Nat.le_zero.mp h)).elim
    · cases h
    · obtain ⟨succ, rfl⟩ := Nat.exists_eq_succ_of_ne_zero fun h => hcount h
      cases back with
      | nil => rfl
      | cons t back =>
        cases t with
        | command => rfl
        | value v =>
          cases v with
          | text s => exact (dropSpacing.eq_4 _ _ _).trans (if_pos h)
          | _ => cases h
        | _ => cases h
  | case3 count c rest hcount => exact dropSpacing.eq_3 _ _ _ hcount
  | case4 count s rest hvisible =>
    rw [List.cons_append, dropSpacing.eq_4, if_pos hvisible]
  | case5 count s rest hvisible ih =>
    rw [List.cons_append, dropSpacing.eq_4, if_neg hvisible]
    refine ih (h.imp Nat.le_of_succ_le_succ (Or.imp_left fun hany => ?_))
    have hs : Token.stands (.value (.text s)) = false := Bool.eq_false_iff.mpr hvisible
    rwa [List.any_cons, hs, Bool.false_or] at hany
  | case6 count t rest hcommand htext ih =>
    rw [List.cons_append, dropSpacing.eq_5 _ _ _ hcommand htext]
    refine congrArg (t :: ·) (ih (h.imp Nat.le_of_succ_le_succ (Or.imp_left fun hany => ?_)))
    have ht : t.stands = false := by
      cases t with
      | command c => exact (hcommand c rfl).elim
      | value v => cases v with
        | text s => exact (htext s rfl).elim
        | _ => rfl
      | _ => rfl
    rwa [List.any_cons, ht, Bool.false_or] at hany

/-- All of the tokens are trimmed, by whatever count. -/
theorem dropSpacing_of_length_le {count count' : Nat} {ts : List Token} (h : ts.length ≤ count)
    (h' : ts.length ≤ count') : dropSpacing count ts = dropSpacing count' ts := by
  induction ts generalizing count count' with
  | nil => cases count <;> cases count' <;> rfl
  | cons t rest ih =>
    obtain ⟨count, rfl⟩ := Nat.exists_eq_add_one_of_ne_zero (Nat.ne_of_gt (Nat.zero_lt_of_lt h))
    obtain ⟨count', rfl⟩ := Nat.exists_eq_add_one_of_ne_zero (Nat.ne_of_gt (Nat.zero_lt_of_lt h'))
    have hrest := ih (Nat.le_of_succ_le_succ h) (Nat.le_of_succ_le_succ h')
    by_cases hcommand : ∃ c, t = .command c
    · obtain ⟨c, rfl⟩ := hcommand
      rfl
    · by_cases htext : ∃ s, t = .value (.text s)
      · obtain ⟨s, rfl⟩ := htext
        rw [dropSpacing.eq_4, dropSpacing.eq_4, hrest]
      · have hcommand : ∀ c, t = .command c → False := fun c hc => hcommand ⟨c, hc⟩
        have htext : ∀ s, t = .value (.text s) → False := fun s hs => htext ⟨s, hs⟩
        rw [dropSpacing.eq_5 _ _ _ hcommand htext, dropSpacing.eq_5 _ _ _ hcommand htext, hrest]

/-! ## What stays -/

/-- Legacy tags and commands stay. -/
theorem filter_isMark_dropGlue (ts : List Token) :
    (dropGlue ts).filter Token.isMark = ts.filter Token.isMark := by
  fun_induction dropGlue ts with
  | case1 => rfl
  | case2 => rfl
  | case3 rest ih => exact ih
  | case4 t rest _ _ ih => rw [List.filter_cons, List.filter_cons, ih]

theorem Trimmed.filter_isMark {ts us : List Token} (h : Trimmed ts us) :
    us.filter Token.isMark = ts.filter Token.isMark := by
  induction h with
  | refl => rfl
  | text s _ ih => exact ih
  | keep _ _ _ ih => rw [List.filter_cons, List.filter_cons, ih]

/-- What stands behind a command: in front of it stands `back`, and behind it the tokens have the
legacy tags and commands `marks`, newest first. -/
def Behind (c : Command) (back marks newest : List Token) : Prop :=
  ∃ front, newest = front ++ .command c :: back ∧ front.filter Token.isMark = marks

namespace Behind

variable {marks newest : List Token}

theorem start (c : Command) (back : List Token) : Behind c back [] (.command c :: back) :=
  ⟨[], rfl, rfl⟩

theorem cons (h : Behind c back marks newest) (t : Token) :
    Behind c back ([t].filter Token.isMark ++ marks) (t :: newest) := by
  obtain ⟨front, rfl, rfl⟩ := h
  exact ⟨t :: front, rfl, List.filter_append [t] front⟩

theorem dropSpacing (h : Behind c back marks newest) (count : Nat) :
    Behind c back marks (dropSpacing count newest) := by
  obtain ⟨front, rfl, rfl⟩ := h
  exact ⟨Output.dropSpacing count front, dropSpacing_append (.inr (.inr rfl)),
    (trimmed_dropSpacing count front).filter_isMark⟩

theorem pushGlue {o : Output} (h : Behind c back marks o.newest) :
    Behind c back marks o.pushGlue.newest := by
  obtain ⟨front, hnewest, rfl⟩ := h
  refine ⟨.glue :: dropLineEnds front, ?_, (trimmed_dropLineEnds front).filter_isMark⟩
  rw [Output.pushGlue, hnewest, dropLineEnds_append]
  rfl

theorem pushText {o : Output} (h : Behind c back marks o.newest) (functionStart : Option Nat)
    (s : String) : Behind c back marks (o.pushText functionStart s).1.newest := by
  have hadd : ∀ {u : Output}, Behind c back marks u.newest →
      Behind c back marks (u.add (.text s)).newest := fun h => h.cons (.text s)
  have hglue : Behind c back marks (dropGlue o.newest) := by
    obtain ⟨front, hnewest, rfl⟩ := h
    rw [hnewest, dropGlue_append]
    exact ⟨_, rfl, filter_isMark_dropGlue front⟩
  unfold Output.pushText
  dsimp only
  split
  · split
    · exact h
    · split
      · refine hadd ?_
        split
        · exact hglue
        · exact h
      · exact hadd h
  · split
    · exact h
    · exact hadd h

/-- What is put out keeps what stands behind a command, and may add a legacy tag. -/
theorem emit {s : State} (h : Behind c back marks s.output.newest) {t : Token}
    (ht : ∀ d, t ≠ .command d) :
    Behind c back ([t].filter Token.isMark ++ marks) (s.emit t).output.newest := by
  by_cases htext : ∃ text, t = .text text
  · obtain ⟨text, rfl⟩ := htext
    rw [State.emit_text]
    show Behind c back marks _
    generalize Text.parts text = parts
    induction parts generalizing s with
    | nil => exact h
    | cons part rest ih =>
      refine ih ?_
      rw [State.output_emitText]
      exact h.pushText _ _
  · unfold State.emit
    split
    · exact (htext ⟨_, rfl⟩).elim
    · exact h.pushGlue
    · exact h.cons t

end Behind

/-! ## Ends of strings and tags -/

theorem tag_of_mem_filterMap {ts : List Token} {t : Token} (h : t ∈ ts.filterMap Flow.tagToken?) :
    ∃ text, t = .tag text := by
  obtain ⟨u, -, hu⟩ := List.mem_filterMap.mp h
  unfold Flow.tagToken? at hu
  split at hu
  · exact ⟨_, (Option.some.inj hu).symm⟩
  · cases hu

theorem splitAtCommand_cons {t : Token} (h : t.isCommand c = false) (ts : List Token) :
    splitAtCommand c (t :: ts) = (t :: (splitAtCommand c ts).1, (splitAtCommand c ts).2) := by
  rw [splitAtCommand, h, if_neg Bool.false_ne_true]

theorem splitAtCommand_append (c : Command) (front back : List Token) :
    splitAtCommand c (front ++ back) =
      if front.any (Token.isCommand c) then
        ((splitAtCommand c front).1, (splitAtCommand c front).2 ++ back)
      else (front ++ (splitAtCommand c back).1, (splitAtCommand c back).2) := by
  induction front with
  | nil => rfl
  | cons t rest ih =>
    rw [List.cons_append, List.any_cons]
    cases ht : t.isCommand c with
    | true => rw [splitAtCommand, splitAtCommand, Bool.true_or, if_pos rfl, if_pos ht, if_pos ht]
    | false =>
      rw [splitAtCommand_cons ht, splitAtCommand_cons ht, ih, Bool.false_or]
      split
      · rfl
      · rfl

/-- Ends look at commands only. -/
theorem splitAtCommand_filter_isMark (c : Command) (ts : List Token) :
    splitAtCommand c (ts.filter Token.isMark) =
      ((splitAtCommand c ts).1.filter Token.isMark, (splitAtCommand c ts).2.filter Token.isMark) := by
  induction ts with
  | nil => rfl
  | cons t rest ih =>
    cases ht : t.isCommand c with
    | true =>
      have hmark : t.isMark = true := by
        cases t with
        | command d => rfl
        | _ => cases ht
      rw [List.filter_cons_of_pos hmark, splitAtCommand, splitAtCommand, if_pos ht, if_pos ht]
      rfl
    | false =>
      rw [splitAtCommand_cons ht]
      cases hmark : t.isMark with
      | true =>
        rw [List.filter_cons_of_pos hmark, splitAtCommand_cons ht, ih, List.filter_cons_of_pos hmark]
      | false =>
        rw [List.filter_cons_of_neg (by rw [hmark]; exact Bool.false_ne_true), ih,
          List.filter_cons_of_neg (by rw [hmark]; exact Bool.false_ne_true)]

end Output

end StoryMachine
