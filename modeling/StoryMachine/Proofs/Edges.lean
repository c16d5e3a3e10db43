import Mathlib.Data.List.Count
import Mathlib.Data.List.DropRight
import Mathlib.Data.String.Basic
import StoryMachine.Text.Lines

/-!
# The edges of a text

A text is split at the line ends of its two edges, the runs of spacing in front of its first word
and behind its last one. A text of spacing alone is both runs at once.

Of a run with line ends in it everything from the first to the last becomes one line end, and
what is in front of the first and behind the last stays. That is all that splitting changes.

The split can also be told by bytes: the line ends of the leading run are looked for from the front,
those of the trailing run from the back, and the parts are cut out between the first and the last
that were found. On a text without words the two searches meet the same line ends, in opposite
orders. Every cut stands in front of a line end or behind one, or at an end of the text, so no
character is cut in two.

* `Text.CollapsesTo` : a run and what becomes of it;
* `Text.EdgesCollapseTo` : a text and what becomes of it;
* `Text.slices?` : the split by bytes;
* `Text.outer_lines_collapse` : what the parts of a split are.
-/

namespace StoryMachine.Text

/-! ## Runs -/

/-- The spacing in front of the first word. -/
def leadingRun (cs : List Char) : List Char :=
  cs.takeWhile isSpacing

/-- The spacing behind the last word. -/
def trailingRun (cs : List Char) : List Char :=
  (cs.reverse.takeWhile isSpacing).reverse

/-- The line ends of a run become one, with all that is between them. -/
inductive CollapsesTo : List Char → List Char → Prop
  | none {run : List Char} : '\n' ∉ run → CollapsesTo run run
  | one {before behind : List Char} : '\n' ∉ before → '\n' ∉ behind →
      CollapsesTo (before ++ '\n' :: behind) (before ++ '\n' :: behind)
  | span {before between behind : List Char} : '\n' ∉ before → '\n' ∉ behind →
      CollapsesTo (before ++ '\n' :: (between ++ '\n' :: behind)) (before ++ '\n' :: behind)

/-- A text that begins and ends with the given runs, and has words between them. -/
structure Edged (lead core trail : List Char) : Prop where
  lead : ∀ c ∈ lead, isSpacing c = true
  trail : ∀ c ∈ trail, isSpacing c = true
  first : ∃ c rest, core = c :: rest ∧ isSpacing c = false
  last : ∃ rest c, core = rest ++ [c] ∧ isSpacing c = false

/-- Both runs of a text collapse. Of a text of spacing alone, what is behind its first line end
goes. -/
inductive EdgesCollapseTo : List Char → List Char → Prop
  | spacing {before behind : List Char} : (∀ c ∈ before ++ behind, isSpacing c = true) →
      '\n' ∉ before → EdgesCollapseTo (before ++ '\n' :: behind) (before ++ ['\n'])
  | words {lead lead' core trail trail' : List Char} : Edged lead core trail →
      CollapsesTo lead lead' → CollapsesTo trail trail' →
      EdgesCollapseTo (lead ++ core ++ trail) (lead' ++ core ++ trail')

/-- A line end, or a text without line ends at its edges. -/
def IsPiece (part : List Char) : Prop :=
  part ≠ [] ∧ (part = ['\n'] ∨ '\n' ∉ leadingRun part ∧ '\n' ∉ trailingRun part)

theorem isSpacing_lineEnd : isSpacing '\n' = true := by decide

theorem takeWhile_append_cons {before rest : List Char} {c : Char}
    (h : ∀ b ∈ before, isSpacing b = true) (hc : isSpacing c = false) :
    (before ++ c :: rest).takeWhile isSpacing = before := by
  rw [List.takeWhile_append_of_pos h, List.takeWhile_cons_of_neg (by simp [hc]), List.append_nil]

theorem dropWhile_append_cons {before rest : List Char} {c : Char}
    (h : ∀ b ∈ before, isSpacing b = true) (hc : isSpacing c = false) :
    (before ++ c :: rest).dropWhile isSpacing = c :: rest := by
  rw [List.dropWhile_append_of_pos h, List.dropWhile_cons_of_neg (by simp [hc])]

theorem leadingRun_spacing {cs : List Char} (h : ∀ c ∈ cs, isSpacing c = true) :
    leadingRun cs = cs :=
  List.takeWhile_eq_self_iff.mpr h

theorem trailingRun_spacing {cs : List Char} (h : ∀ c ∈ cs, isSpacing c = true) :
    trailingRun cs = cs := by
  have hreverse : ∀ c ∈ cs.reverse, isSpacing c = true := fun c hc => h c (List.mem_reverse.mp hc)
  rw [trailingRun, ← leadingRun, leadingRun_spacing hreverse, List.reverse_reverse]

namespace Edged

variable {lead core trail : List Char}

theorem core_ne_nil (h : Edged lead core trail) : core ≠ [] := by
  obtain ⟨c, rest, rfl, -⟩ := h.first
  exact List.cons_ne_nil _ _

theorem leadingRun_eq (h : Edged lead core trail) : leadingRun (lead ++ core ++ trail) = lead := by
  obtain ⟨c, rest, rfl, hc⟩ := h.first
  rw [leadingRun, List.append_assoc, List.cons_append, takeWhile_append_cons h.lead hc]

theorem mem_reverse_trail (h : Edged lead core trail) :
    ∀ c ∈ trail.reverse, isSpacing c = true :=
  fun c hc => h.trail c (List.mem_reverse.mp hc)

theorem trailingRun_eq (h : Edged lead core trail) :
    trailingRun (lead ++ core ++ trail) = trail := by
  obtain ⟨rest, c, rfl, hc⟩ := h.last
  have hreverse : (lead ++ (rest ++ [c]) ++ trail).reverse =
      trail.reverse ++ c :: (rest.reverse ++ lead.reverse) := by simp
  rw [trailingRun, hreverse, takeWhile_append_cons h.mem_reverse_trail hc, List.reverse_reverse]

/-- What is left of the text once the leading run is gone, from its end. -/
theorem reverse_dropWhile (h : Edged lead core trail) :
    ((lead ++ core ++ trail).dropWhile isSpacing).reverse = trail.reverse ++ core.reverse := by
  obtain ⟨c, rest, rfl, hc⟩ := h.first
  rw [List.append_assoc, List.cons_append, dropWhile_append_cons h.lead hc]
  simp

theorem takeWhile_reverse (h : Edged lead core trail) :
    (trail.reverse ++ core.reverse).takeWhile isSpacing = trail.reverse := by
  obtain ⟨rest, c, rfl, hc⟩ := h.last
  rw [List.reverse_append, List.reverse_singleton, List.singleton_append,
    takeWhile_append_cons h.mem_reverse_trail hc]

theorem dropWhile_reverse (h : Edged lead core trail) :
    (trail.reverse ++ core.reverse).dropWhile isSpacing = core.reverse := by
  obtain ⟨rest, c, rfl, hc⟩ := h.last
  rw [List.reverse_append, List.reverse_singleton, List.singleton_append,
    dropWhile_append_cons h.mem_reverse_trail hc]

end Edged

theorem spacing_or_exists_word (cs : List Char) :
    (∀ c ∈ cs, isSpacing c = true) ∨
      ∃ before c rest, cs = before ++ c :: rest ∧ (∀ b ∈ before, isSpacing b = true) ∧
        isSpacing c = false := by
  induction cs with
  | nil => simp
  | cons b rest ih =>
    cases hb : isSpacing b with
    | false => exact .inr ⟨[], b, rest, rfl, by simp, hb⟩
    | true =>
      rcases ih with hall | ⟨before, c, behind, rfl, hbefore, hc⟩
      · exact .inl (by simpa [hb] using hall)
      · exact .inr ⟨b :: before, c, behind, rfl, by simpa [hb] using hbefore, hc⟩

/-- A text is of spacing alone, or it has words between its two runs. -/
theorem spacing_or_edged (cs : List Char) :
    (∀ c ∈ cs, isSpacing c = true) ∨
      ∃ lead core trail, cs = lead ++ core ++ trail ∧ Edged lead core trail := by
  rcases spacing_or_exists_word cs with hall | ⟨lead, c, rest, rfl, hlead, hc⟩
  · exact .inl hall
  rcases spacing_or_exists_word (c :: rest).reverse with hall | ⟨behind, d, front, heq, hbehind, hd⟩
  · have hspacing := hall c (by simp)
    simp [hc] at hspacing
  · have hcore : c :: rest = (front.reverse ++ [d]) ++ behind.reverse := by
      simpa using congrArg List.reverse heq
    refine .inr ⟨lead, front.reverse ++ [d], behind.reverse, ?_, hlead, by simpa using hbehind, ?_,
      ⟨front.reverse, d, rfl, hd⟩⟩
    · rw [hcore, List.append_assoc lead]
    · -- The first character of the words is also the last one if there are no others.
      cases hfront : front.reverse with
      | nil => exact ⟨d, [], rfl, hd⟩
      | cons c' more =>
        rw [hfront] at hcore
        obtain rfl : c = c' := (List.cons.inj hcore).1
        exact ⟨c, more ++ [d], rfl, hc⟩

/-! ## Line ends in a run -/

theorem not_mem_beforeLineEnd (run : List Char) : '\n' ∉ beforeLineEnd run := by
  intro h
  simpa using List.all_eq_true.mp List.all_takeWhile _ h

theorem not_mem_afterLineEnds (run : List Char) : '\n' ∉ afterLineEnds run := by
  rw [afterLineEnds, List.mem_reverse]
  exact not_mem_beforeLineEnd run.reverse

theorem beforeLineEnd_append {before : List Char} (h : '\n' ∉ before) (behind : List Char) :
    beforeLineEnd (before ++ '\n' :: behind) = before := by
  rw [beforeLineEnd, List.takeWhile_append_of_pos, List.takeWhile_cons_of_neg (by simp),
    List.append_nil]
  exact fun c hc => by simpa using fun heq : c = '\n' => h (heq ▸ hc)

theorem afterLineEnds_append {behind : List Char} (h : '\n' ∉ behind) (before : List Char) :
    afterLineEnds (before ++ '\n' :: behind) = behind := by
  have hreverse : (before ++ '\n' :: behind).reverse =
      behind.reverse ++ '\n' :: before.reverse := by simp
  rw [afterLineEnds, hreverse, ← beforeLineEnd, beforeLineEnd_append (by simpa using h),
    List.reverse_reverse]

theorem beforeLineEnd_of_not_mem {run : List Char} (h : '\n' ∉ run) : beforeLineEnd run = run := by
  rw [beforeLineEnd, List.takeWhile_eq_self_iff]
  exact fun c hc => by simpa using fun heq : c = '\n' => h (heq ▸ hc)

theorem afterLineEnds_of_not_mem {run : List Char} (h : '\n' ∉ run) : afterLineEnds run = run := by
  rw [afterLineEnds, ← beforeLineEnd, beforeLineEnd_of_not_mem (by simpa using h),
    List.reverse_reverse]

theorem exists_first_lineEnd {run : List Char} (h : '\n' ∈ run) :
    ∃ behind, run = beforeLineEnd run ++ '\n' :: behind := by
  obtain ⟨before, behind, rfl, hbefore⟩ := List.eq_append_cons_of_mem h
  exact ⟨behind, by rw [beforeLineEnd_append hbefore]⟩

theorem exists_last_lineEnd {run : List Char} (h : '\n' ∈ run) :
    ∃ before, run = before ++ '\n' :: afterLineEnds run := by
  obtain ⟨behind, hbehind⟩ := exists_first_lineEnd (List.mem_reverse.mpr h)
  refine ⟨behind.reverse, ?_⟩
  simpa [afterLineEnds, beforeLineEnd] using congrArg List.reverse hbehind

/-- What a run with a line end becomes. -/
theorem collapsesTo_of_mem {run : List Char} (h : '\n' ∈ run) :
    CollapsesTo run (beforeLineEnd run ++ '\n' :: afterLineEnds run) := by
  have hbefore := not_mem_beforeLineEnd run
  have hbehind := not_mem_afterLineEnds run
  obtain ⟨rest, hrest⟩ := exists_first_lineEnd h
  generalize beforeLineEnd run = before at *
  subst hrest
  by_cases hmem : '\n' ∈ rest
  · obtain ⟨between, hbetween⟩ := exists_last_lineEnd hmem
    have hafter : afterLineEnds (before ++ '\n' :: rest) = afterLineEnds rest := by
      conv_lhs => rw [hbetween, ← List.cons_append, ← List.append_assoc]
      exact afterLineEnds_append (not_mem_afterLineEnds rest) _
    rw [hafter] at hbehind ⊢
    rw [hbetween, afterLineEnds_append (not_mem_afterLineEnds rest)]
    exact .span hbefore hbehind
  · rw [afterLineEnds_append hmem]
    exact .one hbefore hmem

/-! ## The parts of a split -/

section Parts

variable {lead core trail : List Char}

theorem outerParts_spacing {cs : List Char} (h : ∀ c ∈ cs, isSpacing c = true) :
    outerParts cs =
      if '\n' ∈ cs then some (nonEmptyPart (beforeLineEnd cs) ++ [['\n']]) else none := by
  have htake : cs.takeWhile isSpacing = cs := leadingRun_spacing h
  have hdrop : cs.dropWhile isSpacing = [] := List.dropWhile_eq_nil_iff.mpr h
  by_cases hline : '\n' ∈ cs <;> simp [outerParts, htake, hdrop, leadingParts, trailingParts, hline]

theorem outerParts_edged (h : Edged lead core trail) :
    outerParts (lead ++ core ++ trail) =
      if '\n' ∈ lead ∨ '\n' ∈ trail then
        some (leadingParts lead ++ [afterLineEnds lead ++ core ++ beforeLineEnd trail] ++
          trailingParts trail)
      else none := by
  have htake : (lead ++ core ++ trail).takeWhile isSpacing = lead := h.leadingRun_eq
  have hne := h.core_ne_nil
  unfold outerParts
  simp only [htake, h.reverse_dropWhile, h.takeWhile_reverse, h.dropWhile_reverse,
    List.reverse_reverse]
  simp [hne]

theorem outerParts_eq_none_iff (cs : List Char) :
    outerParts cs = none ↔ '\n' ∉ leadingRun cs ∧ '\n' ∉ trailingRun cs := by
  rcases spacing_or_edged cs with h | ⟨lead, core, trail, rfl, h⟩
  · simp [outerParts_spacing h, leadingRun_spacing h, trailingRun_spacing h]
  · rw [outerParts_edged h, h.leadingRun_eq, h.trailingRun_eq]
    simp

/-- The parts of a text that is split. -/
theorem outerParts_cases {cs : List Char} {parts : List (List Char)}
    (h : outerParts cs = some parts) :
    ((∀ c ∈ cs, isSpacing c = true) ∧ '\n' ∈ cs ∧
        parts = nonEmptyPart (beforeLineEnd cs) ++ [['\n']]) ∨
      ∃ lead core trail, Edged lead core trail ∧ cs = lead ++ core ++ trail ∧
        parts = leadingParts lead ++ [afterLineEnds lead ++ core ++ beforeLineEnd trail] ++
          trailingParts trail := by
  rcases spacing_or_edged cs with hall | ⟨lead, core, trail, rfl, hedged⟩
  · rw [outerParts_spacing hall, Option.ite_none_right_eq_some, Option.some_inj] at h
    exact .inl ⟨hall, h.1, h.2.symm⟩
  · rw [outerParts_edged hedged, Option.ite_none_right_eq_some, Option.some_inj] at h
    exact .inr ⟨lead, core, trail, hedged, rfl, h.2.symm⟩

theorem isPiece_lineEnd : IsPiece ['\n'] :=
  ⟨List.cons_ne_nil _ _, .inl rfl⟩

theorem isPiece_of_not_mem {part : List Char} (hne : part ≠ []) (h : '\n' ∉ part) :
    IsPiece part := by
  refine ⟨hne, .inr ⟨fun hmem => h ((List.takeWhile_prefix _).subset hmem), fun hmem => ?_⟩⟩
  exact h (List.mem_reverse.mp ((List.takeWhile_prefix _).subset (List.mem_reverse.mp hmem)))

theorem isPiece_of_mem_nonEmptyPart {run part : List Char} (h : '\n' ∉ run)
    (hpart : part ∈ nonEmptyPart run) : IsPiece part := by
  unfold nonEmptyPart at hpart
  split at hpart
  · cases hpart
  · next hne =>
    obtain rfl := List.mem_singleton.mp hpart
    exact isPiece_of_not_mem (by simpa using hne) h

theorem isPiece_of_mem_leadingParts {part : List Char} (h : part ∈ leadingParts lead) :
    IsPiece part := by
  unfold leadingParts at h
  split at h
  · rcases List.mem_append.mp h with hbefore | hline
    · exact isPiece_of_mem_nonEmptyPart (not_mem_beforeLineEnd lead) hbefore
    · exact List.mem_singleton.mp hline ▸ isPiece_lineEnd
  · cases h

theorem isPiece_of_mem_trailingParts {part : List Char} (h : part ∈ trailingParts trail) :
    IsPiece part := by
  unfold trailingParts at h
  split at h
  · rcases List.mem_cons.mp h with rfl | hbehind
    · exact isPiece_lineEnd
    · exact isPiece_of_mem_nonEmptyPart (not_mem_afterLineEnds trail) hbehind
  · cases h

/-- The words of a text are again between two runs, without line ends, when they are cut out. -/
theorem Edged.inner (h : Edged lead core trail) :
    Edged (afterLineEnds lead) core (beforeLineEnd trail) where
  lead c hc := h.lead c (List.mem_reverse.mp
    ((List.takeWhile_prefix _).subset (List.mem_reverse.mp hc)))
  trail c hc := h.trail c ((List.takeWhile_prefix _).subset hc)
  first := h.first
  last := h.last

theorem Edged.isPiece (h : Edged lead core trail) :
    IsPiece (afterLineEnds lead ++ core ++ beforeLineEnd trail) := by
  refine ⟨by simp [h.core_ne_nil], .inr ?_⟩
  rw [h.inner.leadingRun_eq, h.inner.trailingRun_eq]
  exact ⟨not_mem_afterLineEnds lead, not_mem_beforeLineEnd trail⟩

theorem Edged.inner_ne_lineEnd (h : Edged lead core trail) :
    afterLineEnds lead ++ core ++ beforeLineEnd trail ≠ ['\n'] := by
  intro heq
  obtain ⟨c, rest, rfl, hc⟩ := h.first
  have hmem : c ∈ ['\n'] := by
    rw [← heq]
    simp
  rw [List.mem_singleton.mp hmem, isSpacing_lineEnd] at hc
  cases hc

theorem count_nonEmptyPart {run : List Char} (h : '\n' ∉ run) :
    (nonEmptyPart run).count ['\n'] = 0 := by
  refine List.count_eq_zero.mpr fun hmem => ?_
  unfold nonEmptyPart at hmem
  split at hmem
  · cases hmem
  · rw [← List.mem_singleton.mp hmem] at h
    simp at h

theorem count_leadingParts_le (lead : List Char) : (leadingParts lead).count ['\n'] ≤ 1 := by
  unfold leadingParts
  split <;> simp [count_nonEmptyPart (not_mem_beforeLineEnd lead)]

theorem count_trailingParts_le (trail : List Char) : (trailingParts trail).count ['\n'] ≤ 1 := by
  unfold trailingParts
  split <;> simp [count_nonEmptyPart (not_mem_afterLineEnds trail)]

theorem flatten_nonEmptyPart (run : List Char) : (nonEmptyPart run).flatten = run := by
  cases run <;> simp [nonEmptyPart]

theorem collapsesTo_leading (lead : List Char) :
    CollapsesTo lead ((leadingParts lead).flatten ++ afterLineEnds lead) := by
  unfold leadingParts
  by_cases h : '\n' ∈ lead
  · simpa [h, flatten_nonEmptyPart] using collapsesTo_of_mem h
  · simpa [h, afterLineEnds_of_not_mem h] using CollapsesTo.none h

theorem collapsesTo_trailing (trail : List Char) :
    CollapsesTo trail (beforeLineEnd trail ++ (trailingParts trail).flatten) := by
  unfold trailingParts
  by_cases h : '\n' ∈ trail
  · simpa [h, flatten_nonEmptyPart] using collapsesTo_of_mem h
  · simpa [h, beforeLineEnd_of_not_mem h] using CollapsesTo.none h

theorem isPiece_of_mem_outerParts {cs part : List Char} {parts : List (List Char)}
    (h : outerParts cs = some parts) (hpart : part ∈ parts) : IsPiece part := by
  rcases outerParts_cases h with ⟨-, -, rfl⟩ | ⟨lead, core, trail, hedged, -, rfl⟩
  · rcases List.mem_append.mp hpart with hbefore | hline
    · exact isPiece_of_mem_nonEmptyPart (not_mem_beforeLineEnd cs) hbefore
    · exact List.mem_singleton.mp hline ▸ isPiece_lineEnd
  · simp only [List.mem_append, List.mem_singleton] at hpart
    rcases hpart with (hlead | rfl) | htrail
    · exact isPiece_of_mem_leadingParts hlead
    · exact hedged.isPiece
    · exact isPiece_of_mem_trailingParts htrail

theorem count_outerParts_le {cs : List Char} {parts : List (List Char)}
    (h : outerParts cs = some parts) : parts.count ['\n'] ≤ 2 := by
  rcases outerParts_cases h with ⟨-, -, rfl⟩ | ⟨lead, core, trail, hedged, -, rfl⟩
  · simp [count_nonEmptyPart (not_mem_beforeLineEnd cs)]
  · have hlead := count_leadingParts_le lead
    have htrail := count_trailingParts_le trail
    have hinner := hedged.inner_ne_lineEnd
    simp only [List.count_append, List.count_singleton, beq_iff_eq, hinner, if_false]
    omega

theorem edgesCollapseTo_flatten {cs : List Char} {parts : List (List Char)}
    (h : outerParts cs = some parts) : EdgesCollapseTo cs parts.flatten := by
  rcases outerParts_cases h with ⟨hall, hline, rfl⟩ | ⟨lead, core, trail, hedged, rfl, rfl⟩
  · have hbefore := not_mem_beforeLineEnd cs
    obtain ⟨behind, hbehind⟩ := exists_first_lineEnd hline
    generalize beforeLineEnd cs = before at *
    subst hbehind
    rw [List.flatten_append, flatten_nonEmptyPart]
    exact .spacing (fun c hc => hall c (by simp at hc ⊢; tauto)) hbefore
  · simpa using EdgesCollapseTo.words hedged (collapsesTo_leading lead) (collapsesTo_trailing trail)

end Parts

/-! ## The split by bytes -/

section Bytes

open String

/-- The characters of a text, each with the byte it begins at. -/
def placed (start : Nat) : List Char → List (Nat × Char)
  | [] => []
  | c :: rest => (start, c) :: placed (start + c.utf8Size) rest

/-- The bytes at which there are line ends. -/
def lineEndsAt (cs : List (Nat × Char)) : List Nat :=
  (cs.filter fun c => c.2 = '\n').map Prod.fst

/-- The bytes at which there are line ends in the run of spacing that comes first. -/
def edgeLineEnds (cs : List (Nat × Char)) : List Nat :=
  lineEndsAt (cs.takeWhile fun c => isSpacing c.2)

/-- The text from one byte up to another. There is none if one of them is inside a character or
behind the end, or if they are the wrong way round. -/
def slice? (s : String) (start stop : Nat) : Option String :=
  if Pos.Raw.isValid s ⟨start⟩ && Pos.Raw.isValid s ⟨stop⟩ && decide (start ≤ stop) then
    some (Pos.Raw.extract s ⟨start⟩ ⟨stop⟩)
  else none

/-- A slice as the only part, or no part if it is not asked for. -/
def sliceIf? (wanted : Bool) (s : String) (start stop : Nat) : Option (List String) :=
  if wanted then (slice? s start stop).map ([·]) else some []

/-- What is in front of the first line end of the leading run, and a line end. -/
def headSlices? (s : String) (head : List Nat) : Option (List String) :=
  match head.head? with
  | none => some []
  | some first => (sliceIf? (0 < first) s 0 first).map (· ++ ["\n"])

/-- What is between the last line end of the leading run and the first one of the trailing run. -/
def innerSlices? (s : String) (head tail : List Nat) : Option (List String) :=
  let start := head.getLast?.elim 0 (· + 1)
  let stop := tail.getLast?.getD s.utf8ByteSize
  sliceIf? (start < stop) s start stop

/-- A line end, and what is behind the last one of the trailing run, unless the line ends of the
trailing run are those of the leading run. -/
def tailSlices? (s : String) (head tail : List Nat) : Option (List String) :=
  match tail.head?, tail.getLast? with
  | some last, some first =>
    if head.getLast?.all (· < first) then
      (sliceIf? (last + 1 < s.utf8ByteSize) s (last + 1) s.utf8ByteSize).map ("\n" :: ·)
    else some []
  | _, _ => some []

/-- The split by bytes: the line ends of the leading run are read from the front, those of the
trailing run from the back. It fails if it has to cut where there is nothing to cut. -/
def slices? (s : String) : Option (Option (List String)) :=
  let head := edgeLineEnds (placed 0 s.toList)
  let tail := edgeLineEnds (placed 0 s.toList).reverse
  if head.isEmpty && tail.isEmpty then
    some none
  else do
    let front ← headSlices? s head
    let inner ← innerSlices? s head tail
    let behind ← tailSlices? s head tail
    return some (front ++ inner ++ behind)

variable {run before behind lead core trail : List Char} {start i : Nat}

theorem placed_append (start : Nat) (as bs : List Char) :
    placed start (as ++ bs) = placed start as ++ placed (start + utf8Len as) bs := by
  induction as generalizing start with
  | nil => simp [placed]
  | cons a rest ih => simp [placed, ih, Nat.add_assoc, Nat.add_comm]

theorem mem_placed {c : Nat × Char} (h : c ∈ placed start run) :
    c.2 ∈ run ∧ start ≤ c.1 ∧ c.1 < start + utf8Len run := by
  induction run generalizing start with
  | nil => cases h
  | cons a rest ih =>
    have ha := a.utf8Size_pos
    rw [utf8Len_cons]
    rcases List.mem_cons.mp h with rfl | hrest
    · exact ⟨List.mem_cons_self, Nat.le_refl _, by omega⟩
    · obtain ⟨hmem, hle, hlt⟩ := ih hrest
      exact ⟨List.mem_cons_of_mem _ hmem, by omega, by omega⟩

theorem lineEndsAt_append (as bs : List (Nat × Char)) :
    lineEndsAt (as ++ bs) = lineEndsAt as ++ lineEndsAt bs := by
  simp [lineEndsAt]

theorem lineEndsAt_reverse (cs : List (Nat × Char)) :
    lineEndsAt cs.reverse = (lineEndsAt cs).reverse := by
  simp [lineEndsAt]

theorem mem_lineEndsAt_placed (h : i ∈ lineEndsAt (placed start run)) :
    start ≤ i ∧ i < start + utf8Len run := by
  obtain ⟨c, hc, rfl⟩ := List.mem_map.mp h
  exact (mem_placed (List.mem_filter.mp hc).1).2

theorem lineEndsAt_of_not_mem (h : '\n' ∉ run) (start : Nat) :
    lineEndsAt (placed start run) = [] := by
  rw [lineEndsAt, List.map_eq_nil_iff, List.filter_eq_nil_iff]
  intro c hc hline
  have hmem := (mem_placed hc).1
  rw [of_decide_eq_true hline] at hmem
  exact h hmem

theorem lineEndsAt_lineEnd (start : Nat) (behind : List Char) :
    lineEndsAt (placed start ('\n' :: behind)) =
      start :: lineEndsAt (placed (start + 1) behind) :=
  rfl

theorem head?_lineEndsAt (h : '\n' ∈ run) (start : Nat) :
    (lineEndsAt (placed start run)).head? = some (start + utf8Len (beforeLineEnd run)) := by
  obtain ⟨behind, hbehind⟩ := exists_first_lineEnd h
  conv_lhs =>
    rw [hbehind, placed_append, lineEndsAt_append,
      lineEndsAt_of_not_mem (not_mem_beforeLineEnd run)]
  rfl

theorem lineEndsAt_ne_nil (h : '\n' ∈ run) (start : Nat) : lineEndsAt (placed start run) ≠ [] :=
  List.ne_nil_of_mem (List.mem_of_mem_head? (head?_lineEndsAt h start))

theorem le_of_mem_lineEndsAt (h : '\n' ∈ run) (hi : i ∈ lineEndsAt (placed start run)) :
    start + utf8Len (beforeLineEnd run) ≤ i := by
  obtain ⟨behind, hbehind⟩ := exists_first_lineEnd h
  rw [hbehind, placed_append, lineEndsAt_append, lineEndsAt_of_not_mem (not_mem_beforeLineEnd run),
    List.nil_append] at hi
  exact (mem_lineEndsAt_placed hi).1

theorem getLast?_lineEndsAt (hrun : run = before ++ '\n' :: behind) (h : '\n' ∉ behind)
    (start : Nat) :
    (lineEndsAt (placed start run)).getLast? = some (start + utf8Len before) := by
  rw [hrun, placed_append, lineEndsAt_append, lineEndsAt_lineEnd, lineEndsAt_of_not_mem h,
    List.getLast?_concat]

/-! ### Where the cuts are -/

theorem edgeLineEnds_append {front : List (Nat × Char)} (rest : List (Nat × Char))
    (hfront : ∀ c ∈ front, isSpacing c.2 = true)
    (hrest : rest = [] ∨ ∃ c more, rest = c :: more ∧ isSpacing c.2 = false) :
    edgeLineEnds (front ++ rest) = lineEndsAt front := by
  unfold edgeLineEnds
  rw [List.takeWhile_append_of_pos hfront]
  rcases hrest with rfl | ⟨c, more, rfl, hc⟩
  · simp
  · rw [List.takeWhile_cons_of_neg (by simp [hc]), List.append_nil]

theorem isSpacing_of_mem_placed (h : ∀ c ∈ run, isSpacing c = true) (start : Nat) :
    ∀ c ∈ placed start run, isSpacing c.2 = true :=
  fun _ hc => h _ (mem_placed hc).1

theorem edgeLineEnds_spacing (h : ∀ c ∈ run, isSpacing c = true) :
    edgeLineEnds (placed 0 run) = lineEndsAt (placed 0 run) := by
  simpa using edgeLineEnds_append [] (isSpacing_of_mem_placed h 0) (.inl rfl)

theorem edgeLineEnds_reverse_spacing (h : ∀ c ∈ run, isSpacing c = true) :
    edgeLineEnds (placed 0 run).reverse = (lineEndsAt (placed 0 run)).reverse := by
  have hall : ∀ c ∈ (placed 0 run).reverse, isSpacing c.2 = true := fun c hc =>
    isSpacing_of_mem_placed h 0 c (List.mem_reverse.mp hc)
  rw [← lineEndsAt_reverse]
  simpa using edgeLineEnds_append [] hall (.inl rfl)

theorem Edged.edgeLineEnds_eq (h : Edged lead core trail) :
    edgeLineEnds (placed 0 (lead ++ core ++ trail)) = lineEndsAt (placed 0 lead) := by
  obtain ⟨c, rest, rfl, hc⟩ := h.first
  rw [List.append_assoc, placed_append]
  exact edgeLineEnds_append _ (isSpacing_of_mem_placed h.lead 0) (.inr ⟨_, _, rfl, hc⟩)

theorem Edged.edgeLineEnds_reverse (h : Edged lead core trail) :
    edgeLineEnds (placed 0 (lead ++ core ++ trail)).reverse =
      (lineEndsAt (placed (utf8Len (lead ++ core)) trail)).reverse := by
  have hall : ∀ c ∈ (placed (utf8Len (lead ++ core)) trail).reverse, isSpacing c.2 = true :=
    fun c hc => isSpacing_of_mem_placed h.trail _ c (List.mem_reverse.mp hc)
  rw [placed_append, List.reverse_append, Nat.zero_add, ← lineEndsAt_reverse]
  obtain ⟨rest, c, rfl, hc⟩ := h.last
  refine edgeLineEnds_append _ hall
    (.inr ⟨(utf8Len (lead ++ rest), c), (placed 0 (lead ++ rest)).reverse, ?_, hc⟩)
  rw [← List.append_assoc, placed_append _ (lead ++ rest), List.reverse_append, Nat.zero_add]
  rfl

/-! ### Cutting -/

theorem isValid_ofList (as bs : List Char) :
    Pos.Raw.isValid (ofList (as ++ bs)) ⟨utf8Len as⟩ = true := by
  rw [Pos.Raw.isValid_eq_true_iff, Pos.Raw.isValid_iff_exists_append]
  exact ⟨ofList as, ofList bs, by rw [ofList_append], by
    rw [rawEndPos, utf8ByteSize_ofList]⟩

theorem slice?_ofList (as bs cs : List Char) :
    slice? (ofList (as ++ bs ++ cs)) (utf8Len as) (utf8Len as + utf8Len bs) = some (ofList bs) := by
  have hstart := isValid_ofList as (bs ++ cs)
  have hstop := isValid_ofList (as ++ bs) cs
  rw [← List.append_assoc] at hstart
  rw [utf8Len_append] at hstop
  rw [slice?, hstart, hstop, extract_of_valid]
  simp

theorem sliceIf?_ofList (wanted : Bool) (as bs cs : List Char) (h : wanted = true ↔ bs ≠ []) :
    sliceIf? wanted (ofList (as ++ bs ++ cs)) (utf8Len as) (utf8Len as + utf8Len bs) =
      some ((nonEmptyPart bs).map ofList) := by
  rw [sliceIf?, slice?_ofList]
  cases bs with
  | nil =>
    have hnot : ¬ wanted = true := fun hw => h.mp hw rfl
    simp [hnot, nonEmptyPart]
  | cons c rest =>
    have hwanted : wanted = true := h.mpr (List.cons_ne_nil _ _)
    simp [hwanted, nonEmptyPart]

theorem utf8Len_pos_iff {cs : List Char} : 0 < utf8Len cs ↔ cs ≠ [] := by
  rw [Nat.pos_iff_ne_zero, Ne, utf8Len_eq_zero]

theorem headSlices?_eq (lead rest : List Char) :
    headSlices? (ofList (lead ++ rest)) (lineEndsAt (placed 0 lead)) =
      some ((leadingParts lead).map ofList) := by
  by_cases h : '\n' ∈ lead
  · obtain ⟨behind, hbehind⟩ := exists_first_lineEnd h
    have hslice := sliceIf?_ofList (decide (0 < utf8Len (beforeLineEnd lead))) []
      (beforeLineEnd lead) ('\n' :: behind ++ rest) (by rw [decide_eq_true_iff, utf8Len_pos_iff])
    rw [List.nil_append, ← List.append_assoc, ← hbehind, utf8Len_nil, Nat.zero_add] at hslice
    rw [headSlices?, head?_lineEndsAt h, Nat.zero_add]
    simp [hslice, leadingParts, h, -ofList_append]
  · simp [headSlices?, lineEndsAt_of_not_mem h, leadingParts, h]

theorem utf8Len_concat_lineEnd (cs : List Char) : utf8Len (cs ++ ['\n']) = utf8Len cs + 1 := by
  rw [utf8Len_append]
  rfl

theorem tailSlices?_eq (head : List Nat) (front trail : List Char)
    (h : ∀ i ∈ head, i < utf8Len front) :
    tailSlices? (ofList (front ++ trail)) head
        (lineEndsAt (placed (utf8Len front) trail)).reverse =
      some ((trailingParts trail).map ofList) := by
  by_cases hline : '\n' ∈ trail
  · obtain ⟨before, hbefore⟩ := exists_last_lineEnd hline
    have hhead : head.getLast?.all
        (· < utf8Len front + utf8Len (beforeLineEnd trail)) = true := by
      cases hlast : head.getLast? with
      | none => rfl
      | some i => exact decide_eq_true ((h i (List.mem_of_getLast? hlast)).trans_le (by omega))
    have hcut : utf8Len front + utf8Len before + 1 = utf8Len (front ++ before ++ ['\n']) := by
      rw [utf8Len_concat_lineEnd, utf8Len_append]
    have htext : front ++ trail = front ++ before ++ ['\n'] ++ afterLineEnds trail ++ [] := by
      conv_lhs => rw [hbefore]
      simp
    have hsize : (ofList (front ++ trail)).utf8ByteSize =
        utf8Len (front ++ before ++ ['\n']) + utf8Len (afterLineEnds trail) := by
      rw [utf8ByteSize_ofList, htext, List.append_nil, utf8Len_append]
    have hslice := sliceIf?_ofList
      (decide (utf8Len (front ++ before ++ ['\n']) <
        utf8Len (front ++ before ++ ['\n']) + utf8Len (afterLineEnds trail)))
      (front ++ before ++ ['\n']) (afterLineEnds trail) []
      (by rw [decide_eq_true_iff, ← utf8Len_pos_iff]; omega)
    rw [← htext] at hslice
    unfold tailSlices?
    rw [List.head?_reverse, List.getLast?_reverse,
      getLast?_lineEndsAt hbefore (not_mem_afterLineEnds trail), head?_lineEndsAt hline]
    dsimp only
    rw [hhead, if_pos rfl, hcut, hsize, hslice]
    simp [trailingParts, hline]
  · simp [tailSlices?, lineEndsAt_of_not_mem hline, trailingParts, hline]

/-- The cut behind the last line end of a leading run. -/
theorem exists_start (lead : List Char) :
    ∃ front, lead = front ++ afterLineEnds lead ∧
      (lineEndsAt (placed 0 lead)).getLast?.elim 0 (· + 1) = utf8Len front := by
  by_cases h : '\n' ∈ lead
  · obtain ⟨before, hbefore⟩ := exists_last_lineEnd h
    refine ⟨before ++ ['\n'], by simpa using hbefore, ?_⟩
    rw [getLast?_lineEndsAt hbefore (not_mem_afterLineEnds lead), utf8Len_concat_lineEnd,
      Nat.zero_add]
    rfl
  · exact ⟨[], by simp [afterLineEnds_of_not_mem h], by simp [lineEndsAt_of_not_mem h]⟩

/-- The cut in front of the first line end of a trailing run. -/
theorem exists_stop (front trail : List Char) :
    ∃ behind, trail = beforeLineEnd trail ++ behind ∧
      (lineEndsAt (placed (utf8Len front) trail)).reverse.getLast?.getD
          (ofList (front ++ trail)).utf8ByteSize =
        utf8Len front + utf8Len (beforeLineEnd trail) := by
  by_cases h : '\n' ∈ trail
  · obtain ⟨behind, hbehind⟩ := exists_first_lineEnd h
    refine ⟨_, hbehind, ?_⟩
    rw [List.getLast?_reverse, head?_lineEndsAt h]
    rfl
  · refine ⟨[], by simp [beforeLineEnd_of_not_mem h], ?_⟩
    rw [lineEndsAt_of_not_mem h, beforeLineEnd_of_not_mem h, utf8ByteSize_ofList, utf8Len_append]
    rfl

theorem Edged.innerSlices?_eq (h : Edged lead core trail) :
    innerSlices? (ofList (lead ++ core ++ trail)) (lineEndsAt (placed 0 lead))
        (lineEndsAt (placed (utf8Len (lead ++ core)) trail)).reverse =
      some [ofList (afterLineEnds lead ++ core ++ beforeLineEnd trail)] := by
  obtain ⟨front, hfront, hstart⟩ := exists_start lead
  obtain ⟨behind, hbehind, hstop⟩ := exists_stop (lead ++ core) trail
  have hne := h.isPiece.1
  have hcut : utf8Len (lead ++ core) + utf8Len (beforeLineEnd trail) =
      utf8Len front + utf8Len (afterLineEnds lead ++ core ++ beforeLineEnd trail) := by
    conv_lhs => rw [hfront]
    simp only [utf8Len_append]
    omega
  have htext : lead ++ core ++ trail =
      front ++ (afterLineEnds lead ++ core ++ beforeLineEnd trail) ++ behind := by
    conv_lhs => rw [hfront, hbehind]
    simp
  unfold innerSlices?
  dsimp only
  rw [hstart, hstop, hcut, htext, sliceIf?_ofList]
  · rw [nonEmptyPart, List.isEmpty_eq_false_iff.mpr hne]
    rfl
  · rw [decide_eq_true_iff, ← utf8Len_pos_iff]
    omega

/-- On a text without words the two searches meet the same line ends, so nothing is between them
and nothing is left for the trailing run. -/
theorem spacingSlices?_eq {cs : List Char} (h : '\n' ∈ cs) :
    innerSlices? (ofList cs) (lineEndsAt (placed 0 cs)) (lineEndsAt (placed 0 cs)).reverse =
        some [] ∧
      tailSlices? (ofList cs) (lineEndsAt (placed 0 cs)) (lineEndsAt (placed 0 cs)).reverse =
        some [] := by
  obtain ⟨before, hbefore⟩ := exists_last_lineEnd h
  have hfirst := head?_lineEndsAt h 0
  have hlast := getLast?_lineEndsAt hbefore (not_mem_afterLineEnds cs) 0
  have hle := le_of_mem_lineEndsAt h (List.mem_of_getLast? hlast)
  constructor
  · simp [innerSlices?, List.getLast?_reverse, hfirst, hlast, sliceIf?]
    omega
  · simp [tailSlices?, List.getLast?_reverse, List.head?_reverse, hfirst, hlast]
    omega

/-- The split by bytes never fails, and it is the split. -/
theorem slices?_eq (s : String) : slices? s = some (outerLines s) := by
  obtain ⟨cs, rfl⟩ : ∃ cs, s = ofList cs := ⟨s.toList, ofList_toList.symm⟩
  unfold slices? outerLines
  rw [toList_ofList]
  dsimp only
  rcases spacing_or_edged cs with h | ⟨lead, core, trail, rfl, h⟩
  · rw [edgeLineEnds_spacing h, edgeLineEnds_reverse_spacing h, outerParts_spacing h]
    by_cases hline : '\n' ∈ cs
    · have hne := lineEndsAt_ne_nil hline 0
      have hhead := headSlices?_eq cs []
      rw [List.append_nil] at hhead
      obtain ⟨hinner, htail⟩ := spacingSlices?_eq hline
      simp [hline, hne, hhead, hinner, htail, leadingParts]
    · simp [lineEndsAt_of_not_mem hline, hline]
  · rw [h.edgeLineEnds_eq, h.edgeLineEnds_reverse, outerParts_edged h]
    have hhead := headSlices?_eq lead (core ++ trail)
    have htail := tailSlices?_eq (lineEndsAt (placed 0 lead)) (lead ++ core) trail
      fun i hi => by
        have hlt := (mem_lineEndsAt_placed hi).2
        rw [utf8Len_append]
        omega
    rw [← List.append_assoc] at hhead
    rw [hhead, h.innerSlices?_eq, htail]
    by_cases hline : '\n' ∈ lead ∨ '\n' ∈ trail
    · have hne : lineEndsAt (placed 0 lead) ≠ [] ∨
          lineEndsAt (placed (utf8Len (lead ++ core)) trail) ≠ [] :=
        hline.imp (lineEndsAt_ne_nil · 0) (lineEndsAt_ne_nil · _)
      have hsome : ((lineEndsAt (placed 0 lead)).isEmpty &&
          (lineEndsAt (placed (utf8Len (lead ++ core)) trail)).reverse.isEmpty) = false := by
        simpa [← not_and_or] using hne
      rw [hsome, if_neg Bool.false_ne_true, if_pos hline]
      simp
    · obtain ⟨hlead, htrail⟩ := not_or.mp hline
      simp [lineEndsAt_of_not_mem hlead, lineEndsAt_of_not_mem htrail, hlead, htrail]

end Bytes

/-! ## The split -/

/-- A text is split if and only if one of its runs has a line end. Its parts are the slices that
the split by bytes cuts out, all of them between characters. Each is a line end or has none at its
edges, at most two are line ends, and put together they are the text with both runs collapsed. -/
theorem outer_lines_collapse (s : String) :
    slices? s = some (outerLines s) ∧
      (outerLines s = none ↔ '\n' ∉ leadingRun s.toList ∧ '\n' ∉ trailingRun s.toList) ∧
      ∀ parts, outerLines s = some parts →
        (∀ part ∈ parts, IsPiece part.toList) ∧ parts.count "\n" ≤ 2 ∧
          EdgesCollapseTo s.toList (String.join parts).toList := by
  refine ⟨slices?_eq s, ?_, fun parts h => ?_⟩
  · rw [outerLines, Option.map_eq_none_iff, outerParts_eq_none_iff]
  · obtain ⟨lists, hlists, rfl⟩ := Option.map_eq_some_iff.mp h
    refine ⟨fun part hpart => ?_, ?_, ?_⟩
    · obtain ⟨cs, hcs, rfl⟩ := List.mem_map.mp hpart
      rw [String.toList_ofList]
      exact isPiece_of_mem_outerParts hlists hcs
    · have hcount : (lists.map String.ofList).count "\n" = lists.count ['\n'] :=
        List.count_map_of_injective lists String.ofList (fun _ _ => String.ofList_injective) ['\n']
      rw [hcount]
      exact count_outerParts_le hlists
    · have hjoin : (String.join (lists.map String.ofList)).toList = lists.flatten := by
        simp [List.flatMap_map]
      rw [hjoin]
      exact edgesCollapseTo_flatten hlists

/-- A text with a line end, a blank and another line end in front of its words, and a line end with
a tab behind it. -/
theorem hello_is_cut_out :
    outerLines "\n \nhéllo \n\t" = some ["\n", "héllo ", "\n", "\t"] ∧
      (∀ part ∈ ["\n", "héllo ", "\n", "\t"], IsPiece part.toList) ∧
      EdgesCollapseTo "\n \nhéllo \n\t".toList "\nhéllo \n\t".toList := by
  have hparts : outerLines "\n \nhéllo \n\t" = some ["\n", "héllo ", "\n", "\t"] := by
    decide +kernel
  obtain ⟨-, -, hsplit⟩ := outer_lines_collapse "\n \nhéllo \n\t"
  obtain ⟨hpieces, -, hcollapse⟩ := hsplit _ hparts
  exact ⟨hparts, hpieces, hcollapse⟩

end StoryMachine.Text
