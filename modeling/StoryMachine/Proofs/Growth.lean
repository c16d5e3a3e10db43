import Mathlib.Data.List.Basic
import StoryMachine.Proofs.Borders

/-!
# Output that grows

While a function runs, the output grows behind what stood there when it was called. A string that
begins in the function takes what is put out behind its beginning when it ends, and if the function has
been called in a string, so does a tag. What stands in front of the oldest of those still open is
settled: it is taken back only by trimming, and this stops at tokens that stand.

* `Output.takes` : commands that take what is put out behind them;
* `Output.Grown` : what has been put out behind an output, the loose part and the settled part of it;
* `Output.Grown.trim` and its like : it is kept by all that is done to the output.
-/

namespace StoryMachine

/-- The command that a token is. -/
def Token.command? : Token → Option Command
  | .command c => some c
  | _ => none

namespace Output

/-- Whether a token takes what is put out behind it: the beginning of a string, and in a string the
beginning of a tag. -/
def takes (o : Output) (t : Token) : Bool :=
  t.isCommand .beginString || o.inString && t.isCommand .beginTag

/-- Behind an output tokens have been put out, newest first: the loose ones, down to the oldest token
that takes what is behind it, and the settled ones, of which none does. The strings and tags `brackets`
are open, innermost first; those that have not begun in loose tokens are tags, and in a string there are
none. There is no glue. -/
structure Grown (o : Output) (loose settled : List Token) (brackets : List Command)
    (newest : List Token) : Prop where
  eq : newest = loose ++ (settled ++ o.newest)
  glue : .glue ∉ newest
  oldest : ∀ t, loose.getLast? = some t → o.takes t = true
  settled : ∀ t ∈ settled, o.takes t = false
  brackets : ∃ tags, brackets = loose.filterMap Token.command? ++ tags ∧
    (∀ c ∈ tags, c = .beginTag) ∧ (o.inString = true → tags = [])

theorem command?_eq_none {t : Token} (h : ∀ c, t ≠ .command c) : t.command? = none := by
  cases t with
  | command c => exact (h c rfl).elim
  | _ => rfl

variable {o : Output}

theorem not_takes {t : Token} (h : ∀ c, t ≠ .command c) : o.takes t = false := by
  cases t with
  | command c => exact (h c rfl).elim
  | _ => exact Bool.and_false _

theorem begins_of_takes {t : Token} (h : o.takes t = true) :
    t = .command .beginString ∨ o.inString = true ∧ t = .command .beginTag := by
  by_cases hcommand : ∃ c, t = .command c
  · obtain ⟨c, rfl⟩ := hcommand
    rw [takes, Bool.or_eq_true, Bool.and_eq_true, Token.isCommand, Token.isCommand, beq_iff_eq,
      beq_iff_eq] at h
    exact h.imp (congrArg _) (And.imp_right (congrArg _))
  · rw [not_takes fun c hc => hcommand ⟨c, hc⟩] at h
    cases h

theorem any_stands_dropSpacing (count : Nat) (ts : List Token) :
    (dropSpacing count ts).any Token.stands = ts.any Token.stands := by
  fun_induction dropSpacing count ts with
  | case1 => rfl
  | case2 => rfl
  | case3 => rfl
  | case4 => rfl
  | case5 count s rest hvisible ih =>
    have hs : Token.stands (.value (.text s)) = false := Bool.eq_false_iff.mpr hvisible
    rw [ih, List.any_cons, hs, Bool.false_or]
  | case6 count t rest _ _ ih => rw [List.any_cons, List.any_cons, ih]

theorem Trimmed.sublist {ts us : List Token} (h : Trimmed ts us) : us.Sublist ts := by
  induction h with
  | refl => exact List.Sublist.refl _
  | text s _ ih => exact ih.cons _
  | keep _ _ _ ih => exact ih.cons_cons _

theorem Trimmed.filterMap_command? {ts us : List Token} (h : Trimmed ts us) :
    us.filterMap Token.command? = ts.filterMap Token.command? := by
  induction h with
  | refl => rfl
  | text s _ ih => exact ih
  | @keep t _ _ _ _ _ ih => rw [List.filterMap_cons, List.filterMap_cons, ih]

/-- The newest command in tokens. -/
theorem exists_of_filterMap_command? {ts : List Token} {c : Command} {cs : List Command}
    (h : ts.filterMap Token.command? = c :: cs) :
    ∃ behind rest, ts = behind ++ .command c :: rest ∧ (∀ d, .command d ∉ behind) ∧
      rest.filterMap Token.command? = cs := by
  induction ts with
  | nil => cases h
  | cons t ts ih =>
    cases t with
    | command d =>
      obtain ⟨rfl, rfl⟩ := List.cons.inj h
      exact ⟨[], ts, rfl, fun _ => List.not_mem_nil, rfl⟩
    | _ =>
      obtain ⟨behind, rest, rfl, hbehind, hrest⟩ := ih h
      exact ⟨_ :: behind, rest, rfl, fun d hd =>
        hbehind d ((List.mem_cons.mp hd).resolve_left nofun), hrest⟩

/-- The end of the string or the tag that has begun last. -/
theorem splitAtCommand_of_forall_ne_command {behind : List Token} (h : ∀ d, .command d ∉ behind)
    (c : Command) (rest : List Token) :
    splitAtCommand c (behind ++ .command c :: rest) = (behind, rest) := by
  have hnone : behind.any (Token.isCommand c) = false := List.any_eq_false.mpr fun t ht hc => by
    cases t with
    | command d => exact h d ht
    | _ => cases hc
  have hfound : splitAtCommand c (.command c :: rest) = ([], rest) := if_pos (beq_self_eq_true c)
  rw [splitAtCommand_append, hnone, if_neg Bool.false_ne_true, hfound, List.append_nil]

namespace Grown

variable {loose settled newest : List Token} {brackets : List Command}

/-- Nothing has been put out yet. -/
theorem start (h : .glue ∉ o.newest) : o.Grown [] [] [] o.newest :=
  ⟨rfl, h, nofun, List.forall_mem_nil _, [], rfl, List.forall_mem_nil _, fun _ => rfl⟩

/-- The oldest of the loose tokens takes what is behind it. -/
theorem exists_takes (h : o.Grown loose settled brackets newest) (hloose : loose ≠ []) :
    ∃ t ∈ loose, o.takes t = true :=
  ⟨_, List.getLast_mem hloose, h.oldest _ (List.getLast?_eq_some_getLast hloose)⟩

theorem loose_eq_nil (h : o.Grown loose settled brackets newest)
    (hnone : loose.filterMap Token.command? = []) : loose = [] := by
  cases loose with
  | nil => rfl
  | cons u us =>
    obtain ⟨t, ht, htakes⟩ := h.exists_takes (List.cons_ne_nil u us)
    have hcommand : ∀ c, t ≠ .command c := fun c hc => by
      have hmem := List.mem_filterMap.mpr ⟨t, ht, (congrArg Token.command? hc :)⟩
      rw [hnone] at hmem
      cases hmem
    rw [not_takes hcommand] at htakes
    cases htakes

/-- What is put out joins the loose tokens, if there are some. -/
theorem add (h : o.Grown loose settled brackets newest) {t : Token} (hglue : t ≠ .glue)
    (hcommand : ∀ c, t ≠ .command c) :
    ∃ loose' settled', o.Grown loose' settled' brackets (t :: newest) ∧
      (loose = [] → loose' = [] ∧ settled' = t :: settled) ∧
      (settled.any Token.stands = true → settled'.any Token.stands = true) := by
  have hnone : .glue ∉ t :: newest := fun hmem =>
    h.glue ((List.mem_cons.mp hmem).resolve_left (Ne.symm hglue))
  cases loose with
  | nil =>
    refine ⟨[], t :: settled, ⟨congrArg (t :: ·) h.eq, hnone, nofun, ?_, h.brackets⟩,
      fun _ => ⟨rfl, rfl⟩, fun hany => ?_⟩
    · exact List.forall_mem_cons.mpr ⟨not_takes hcommand, h.settled⟩
    · rw [List.any_cons, hany, Bool.or_true]
  | cons u us =>
    refine ⟨t :: u :: us, settled, ⟨congrArg (t :: ·) h.eq, hnone, fun v hv => ?_, h.settled, ?_⟩,
      nofun, id⟩
    · exact h.oldest v (List.getLast?_cons_cons.symm.trans hv)
    · rw [List.filterMap_cons, command?_eq_none hcommand]
      exact h.brackets

/-- A string begins, or in a string a tag. -/
theorem begin (h : o.Grown loose settled brackets newest) {c : Command}
    (hc : o.takes (.command c) = true) :
    o.Grown (.command c :: loose) settled (c :: brackets) (.command c :: newest) := by
  obtain ⟨tags, hbrackets, htags, hstring⟩ := h.brackets
  refine ⟨congrArg (.command c :: ·) h.eq, fun hmem => ?_, fun t ht => ?_, h.settled,
    tags, congrArg (c :: ·) hbrackets, htags, hstring⟩
  · exact h.glue (glue_mem_command_cons.mp hmem)
  · cases loose with
    | nil =>
      cases ht
      exact hc
    | cons u us => exact h.oldest t (List.getLast?_cons_cons.symm.trans ht)

/-- A tag begins. -/
theorem beginTag (h : o.Grown loose settled brackets newest) :
    ∃ loose' settled', o.Grown loose' settled' (.beginTag :: brackets) (.command .beginTag :: newest) ∧
      (settled.any Token.stands = true → settled'.any Token.stands = true) := by
  cases hstring : o.inString with
  | true =>
    refine ⟨_, settled, h.begin ?_, id⟩
    rw [takes, hstring]
    rfl
  | false =>
    obtain ⟨tags, hbrackets, htags, -⟩ := h.brackets
    have hglue : .glue ∉ Token.command .beginTag :: newest := fun hmem =>
      h.glue (glue_mem_command_cons.mp hmem)
    have htakes : o.takes (.command .beginTag) = false := by
      rw [takes, hstring]
      rfl
    cases loose with
    | nil =>
      refine ⟨[], .command .beginTag :: settled, ⟨congrArg (.command .beginTag :: ·) h.eq, hglue, nofun,
        List.forall_mem_cons.mpr ⟨htakes, h.settled⟩, .beginTag :: tags,
        congrArg (.beginTag :: ·) hbrackets, List.forall_mem_cons.mpr ⟨rfl, htags⟩,
        fun hin => ?_⟩, fun _ => rfl⟩
      rw [hstring] at hin
      cases hin
    | cons u us =>
      refine ⟨.command .beginTag :: u :: us, settled, ⟨congrArg (.command .beginTag :: ·) h.eq, hglue,
        fun t ht => h.oldest t (List.getLast?_cons_cons.symm.trans ht), h.settled, tags,
        congrArg (.beginTag :: ·) hbrackets, htags, fun hin => ?_⟩, id⟩
      rw [hstring] at hin
      cases hin

/-- A tag ends outside strings. -/
theorem endTag (h : o.Grown loose settled (.beginTag :: brackets) newest)
    (houtside : inString ⟨newest⟩ = false) :
    ∃ loose' settled', o.Grown loose' settled' brackets (.command .endTag :: newest) ∧
      (settled.any Token.stands = true → settled'.any Token.stands = true) := by
  rw [inString, h.eq, List.any_append, List.any_append, Bool.or_eq_false_iff,
    Bool.or_eq_false_iff] at houtside
  obtain ⟨hloose, -, hstring⟩ := houtside
  obtain rfl : loose = [] := by
    cases loose with
    | nil => rfl
    | cons u us =>
      obtain ⟨t, ht, htakes⟩ := h.exists_takes (List.cons_ne_nil u us)
      rcases begins_of_takes htakes with rfl | ⟨hin, -⟩
      · exact (List.any_eq_false.mp hloose _ ht rfl).elim
      · cases hstring.symm.trans hin
  obtain ⟨tags, hbrackets, htags, -⟩ := h.brackets
  obtain rfl : tags = .beginTag :: brackets := hbrackets.symm
  refine ⟨[], .command .endTag :: settled, ⟨congrArg (.command .endTag :: ·) h.eq,
    fun hmem => h.glue (glue_mem_command_cons.mp hmem), (fun t ht => by cases ht),
    List.forall_mem_cons.mpr ⟨Bool.and_false _, h.settled⟩, brackets, rfl,
    (List.forall_mem_cons.mp htags).2, fun hin => ?_⟩, fun _ => rfl⟩
  cases hstring.symm.trans hin

/-- The innermost string that is open has begun in loose tokens. -/
theorem exists_string (h : o.Grown loose settled (.beginString :: brackets) newest) :
    ∃ inner, loose.filterMap Token.command? = .beginString :: inner := by
  obtain ⟨tags, hbrackets, htags, -⟩ := h.brackets
  cases hloose : loose.filterMap Token.command? with
  | nil =>
    rw [hloose, List.nil_append] at hbrackets
    cases htags .beginString (hbrackets ▸ List.mem_cons_self)
  | cons c inner =>
    rw [hloose, List.cons_append] at hbrackets
    exact ⟨inner, by rw [(List.cons.inj hbrackets).1]⟩

/-- In a string, so has a tag that is innermost. -/
theorem exists_tag (h : o.Grown loose settled (.beginTag :: brackets) newest)
    (hstring : inString ⟨newest⟩ = true) :
    ∃ inner, loose.filterMap Token.command? = .beginTag :: inner := by
  obtain ⟨tags, hbrackets, -, hnone⟩ := h.brackets
  cases hloose : loose.filterMap Token.command? with
  | nil =>
    have hnil := h.loose_eq_nil hloose
    have hsettled : settled.any (Token.isCommand .beginString) = false :=
      List.any_eq_false.mpr fun t ht hbegin => by
        have htakes := h.settled t ht
        rw [takes, hbegin] at htakes
        cases htakes
    rw [inString, h.eq, hnil, List.nil_append, List.any_append, hsettled, Bool.false_or] at hstring
    rw [hloose, hnone hstring] at hbrackets
    cases hbrackets
  | cons c inner =>
    rw [hloose, List.cons_append] at hbrackets
    exact ⟨inner, by rw [(List.cons.inj hbrackets).1]⟩

/-- A string ends, or a tag that is taken off the output. Legacy tags may stay. -/
theorem close (h : o.Grown loose settled brackets newest) {c : Command} {inner : List Command}
    (hloose : loose.filterMap Token.command? = c :: inner) {kept : List Token}
    (hkept : ∀ t ∈ kept, ∃ text, t = .tag text) :
    ∃ loose' settled',
      o.Grown loose' settled' brackets.tail (kept ++ (splitAtCommand c newest).2) ∧
        (settled.any Token.stands = true → settled'.any Token.stands = true) := by
  obtain ⟨tags, hbrackets, htags, hstring⟩ := h.brackets
  obtain ⟨behind, rest, rfl, hbehind, hrest⟩ := exists_of_filterMap_command? hloose
  have hsplit : (splitAtCommand c newest).2 = rest ++ (settled ++ o.newest) := by
    rw [h.eq, List.append_assoc, List.cons_append, splitAtCommand_of_forall_ne_command hbehind]
  have htail : brackets.tail = rest.filterMap Token.command? ++ tags := by
    rw [hbrackets, hloose, hrest]
    rfl
  have hcommand : ∀ t ∈ kept, ∀ d, t ≠ .command d := fun t ht d hd => by
    obtain ⟨text, rfl⟩ := hkept t ht
    cases hd
  have hnone : kept.filterMap Token.command? = [] := List.filterMap_eq_nil_iff.mpr fun t ht =>
    command?_eq_none (hcommand t ht)
  have hglue : .glue ∉ kept ++ (rest ++ (settled ++ o.newest)) := fun hmem => by
    rcases List.mem_append.mp hmem with hmem | hmem
    · obtain ⟨text, htext⟩ := hkept _ hmem
      cases htext
    · refine h.glue (h.eq ▸ ?_)
      rw [List.append_assoc, List.cons_append]
      exact List.mem_append_right _ (List.mem_cons_of_mem _ hmem)
  rw [hsplit]
  cases rest with
  | nil =>
    refine ⟨[], kept ++ settled, ⟨(List.append_assoc kept settled o.newest).symm, hglue, nofun,
      fun t ht => ?_, tags, htail, htags, hstring⟩, fun hany => ?_⟩
    · exact (List.mem_append.mp ht).elim (fun ht => not_takes (hcommand t ht)) (h.settled t)
    · rw [List.any_append, hany, Bool.or_true]
  | cons u us =>
    refine ⟨kept ++ u :: us, settled, ⟨(List.append_assoc _ _ _).symm, hglue, fun t ht => ?_, h.settled,
      tags, ?_, htags, hstring⟩, id⟩
    · rw [List.getLast?_append_of_ne_nil _ (List.cons_ne_nil u us)] at ht
      refine h.oldest t ?_
      rwa [List.getLast?_append_of_ne_nil _ (List.cons_ne_nil _ _), List.getLast?_cons_cons]
    · rw [List.filterMap_append, hnone, htail]
      rfl

/-- The text of a function is trimmed that began behind the output. -/
theorem trim (h : o.Grown loose settled brackets newest) {count : Nat}
    (hcount : count ≤ newest.length - o.newest.length ∨
      (loose ++ settled).any Token.stands = true) :
    ∃ loose' settled', o.Grown loose' settled' brackets (dropSpacing count newest) ∧
      (settled.any Token.stands = true → settled'.any Token.stands = true) := by
  have hglue : .glue ∉ dropSpacing count newest := fun hmem =>
    h.glue ((trimmed_dropSpacing count newest).sublist.subset hmem)
  cases loose with
  | nil =>
    have hdrop : dropSpacing count newest = dropSpacing count settled ++ o.newest := by
      rw [h.eq]
      refine dropSpacing_append (hcount.imp (fun hle => ?_) .inl)
      rw [h.eq, List.nil_append, List.length_append, Nat.add_sub_cancel] at hle
      exact hle
    refine ⟨[], dropSpacing count settled, ⟨hdrop, hglue, nofun, fun t ht => ?_, h.brackets⟩,
      fun hany => (any_stands_dropSpacing count settled).trans hany⟩
    exact h.settled t ((trimmed_dropSpacing count settled).sublist.subset ht)
  | cons u us =>
    obtain ⟨ts, t, hlast⟩ : ∃ ts t, u :: us = ts ++ [t] :=
      ⟨_, _, (List.dropLast_concat_getLast (List.cons_ne_nil u us)).symm⟩
    rw [hlast] at h
    obtain ⟨c, rfl⟩ : ∃ c, t = .command c :=
      (begins_of_takes (h.oldest t List.getLast?_concat)).elim (fun h => ⟨_, h⟩) fun h => ⟨_, h.2⟩
    have hloose : dropSpacing count (ts ++ [.command c]) = dropSpacing count ts ++ [.command c] :=
      dropSpacing_append (.inr (.inr rfl))
    have hdrop : dropSpacing count newest =
        dropSpacing count ts ++ [.command c] ++ (settled ++ o.newest) := by
      rw [h.eq, ← hloose]
      refine dropSpacing_append (.inr (.inl ?_))
      exact List.any_eq_true.mpr ⟨_, List.mem_append_right ts List.mem_cons_self, rfl⟩
    refine ⟨_, settled, ⟨hdrop, hglue, fun v hv => h.oldest v ?_, h.settled, ?_⟩, id⟩
    · rwa [List.getLast?_concat] at hv ⊢
    · rw [← hloose, (trimmed_dropSpacing count _).filterMap_command?]
      exact h.brackets

/-- What stood in front is still there. -/
theorem length_le (h : o.Grown loose settled brackets newest) : o.length ≤ newest.length := by
  rw [h.eq, List.length_append, List.length_append]
  exact Nat.le_add_left_of_le (Nat.le_add_left _ _)

/-- The tokens that have been put out, in order. -/
theorem drop_eq (h : o.Grown loose settled brackets newest) :
    (tokens ⟨newest⟩).drop o.length = settled.reverse ++ loose.reverse := by
  have hlength : o.length = o.newest.reverse.length := List.length_reverse.symm
  rw [tokens, h.eq, List.reverse_append, List.reverse_append, List.append_assoc, hlength,
    List.drop_left]

/-- The settled ones stand in front of the first that takes what is behind it. -/
theorem takeWhile_eq (h : o.Grown loose settled brackets newest) :
    ((tokens ⟨newest⟩).drop o.length).takeWhile (fun t => !o.takes t) = settled.reverse := by
  have hsettled : ∀ t ∈ settled.reverse, (!o.takes t) = true := fun t ht => by
    rw [h.settled t (List.mem_reverse.mp ht)]
    rfl
  rw [h.drop_eq, List.takeWhile_append_of_pos hsettled]
  cases hloose : loose.reverse with
  | nil => rw [List.takeWhile_nil, List.append_nil]
  | cons t rest =>
    have hlast : loose.getLast? = some t := by
      rw [← List.head?_reverse, hloose]
      rfl
    rw [List.takeWhile_cons, h.oldest t hlast, if_neg (by exact Bool.false_ne_true),
      List.append_nil]

end Grown

end Output

end StoryMachine
