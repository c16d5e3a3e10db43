import Mathlib.Data.List.DropRight
import StoryMachine.Proofs.PathText
import StoryMachine.Proofs.Story.LineChange

/-!
# What cleaning does to a text

Cleaning reads a text once, and knows of what it has read only whether the line has begun and
whether blanks have come since. What it makes of the text is told line by line: the blanks at both
ends of a line go, and what is left of it has one space for every run of blanks. So a clean text
stays as it is, and nothing but blanks is touched. Behind a line end, and blanks that come behind it,
cleaning begins anew.

* `Text.squeeze`, `Text.tidyLine` : what a line becomes;
* `Text.cleanFrom_line` : reading a line once does this;
* `Text.clean_is_linewise` : what cleaning does to a text.
-/

namespace StoryMachine.Text

/-! ## A line -/

/-- The text with one space for every run of blanks: of a run only the last blank counts. -/
def squeeze : List Char → List Char
  | [] => []
  | c :: rest =>
    if isBlank c then if rest.head?.any isBlank then squeeze rest else ' ' :: squeeze rest
    else c :: squeeze rest

/-- A line without the blanks at its ends, with one space for every run of blanks in it. -/
def tidyLine (line : List Char) : List Char :=
  squeeze (trimWhere isBlank line)

theorem isBlank_space : isBlank ' ' = true := by decide

theorem squeeze_char {c : Char} (h : isBlank c = false) (rest : List Char) :
    squeeze (c :: rest) = c :: squeeze rest := by
  simp [squeeze, h]

/-- It does not matter which blank stands for the last one of a run. -/
theorem squeeze_blank {b : Char} (h : isBlank b = true) (rest : List Char) :
    squeeze (b :: rest) = squeeze (' ' :: rest) := by
  simp [squeeze, h, isBlank_space]

theorem squeeze_blank_blank {b : Char} (h : isBlank b = true) (rest : List Char) :
    squeeze (' ' :: b :: rest) = squeeze (' ' :: rest) := by
  rw [← squeeze_blank h rest, squeeze]
  simp [isBlank_space, h]

theorem squeeze_space_char {c : Char} (h : isBlank c = false) (rest : List Char) :
    squeeze (' ' :: c :: rest) = ' ' :: c :: squeeze rest := by
  rw [squeeze]
  simp [isBlank_space, h, squeeze_char h]

theorem rdropWhile_cons (p : Char → Bool) (c : Char) (rest : List Char) :
    (c :: rest).rdropWhile p =
      if rest.rdropWhile p = [] then if p c then [] else [c] else c :: rest.rdropWhile p := by
  unfold List.rdropWhile
  rw [List.reverse_cons, List.dropWhile_append]
  by_cases hrest : rest.reverse.dropWhile p = []
  · by_cases hc : p c = true <;> simp [hrest, hc]
  · simp [hrest]

theorem rdropWhile_char {c : Char} (h : isBlank c = false) (rest : List Char) :
    (c :: rest).rdropWhile isBlank = c :: rest.rdropWhile isBlank := by
  rw [rdropWhile_cons, h]
  split
  · next hrest => simp [hrest]
  · rfl

/-- Blanks in front of the rest of a line count for one space, and for none if nothing follows. -/
theorem squeeze_rdropWhile_blank {b : Char} (h : isBlank b = true) (rest : List Char) :
    squeeze ((b :: rest).rdropWhile isBlank) = squeeze ((' ' :: rest).rdropWhile isBlank) := by
  rw [rdropWhile_cons, rdropWhile_cons, h, isBlank_space]
  split
  · rfl
  · exact squeeze_blank h _

theorem squeeze_rdropWhile_blank_blank {b : Char} (h : isBlank b = true) (rest : List Char) :
    squeeze ((' ' :: b :: rest).rdropWhile isBlank) =
      squeeze ((' ' :: rest).rdropWhile isBlank) := by
  rw [rdropWhile_cons, rdropWhile_cons isBlank b, rdropWhile_cons isBlank ' ' rest, h, isBlank_space]
  by_cases hrest : rest.rdropWhile isBlank = []
  · simp [hrest]
  · simp only [hrest, if_false, reduceCtorEq]
    exact squeeze_blank_blank h _

/-! ## Reading a line once -/

/-- Within a line, blanks that have come are one space in front of what is still to be read. -/
theorem cleanFrom_within {line : List Char} (h : '\n' ∉ line) (gap : Bool) :
    cleanFrom false gap line =
      squeeze ((if gap then ' ' :: line else line).rdropWhile isBlank) := by
  induction line generalizing gap with
  | nil => cases gap <;> rfl
  | cons c rest ih =>
    have hc : c ≠ '\n' := fun heq => h (heq ▸ List.mem_cons_self)
    have hrest : '\n' ∉ rest := fun hmem => h (List.mem_cons_of_mem c hmem)
    cases hblank : isBlank c with
    | true =>
      rw [cleanFrom, if_pos hblank, ih hrest true, if_pos rfl]
      cases gap with
      | true => rw [if_pos rfl, squeeze_rdropWhile_blank_blank hblank]
      | false => rw [if_neg Bool.false_ne_true, squeeze_rdropWhile_blank hblank]
    | false =>
      have hread : cleanFrom false false rest = squeeze (rest.rdropWhile isBlank) := ih hrest false
      cases gap with
      | true =>
        simp only [cleanFrom, hblank, hc, hread, if_true, if_false, Bool.not_false, Bool.and_self,
          Bool.false_eq_true]
        rw [rdropWhile_cons, rdropWhile_char hblank, if_neg (List.cons_ne_nil _ _),
          squeeze_space_char hblank]
      | false =>
        simp only [cleanFrom, hblank, hc, hread, if_false, Bool.false_and, Bool.false_eq_true]
        rw [rdropWhile_char hblank, squeeze_char hblank]

/-- Reading a line once tidies it. -/
theorem cleanFrom_line {line : List Char} (h : '\n' ∉ line) (gap : Bool) :
    cleanFrom true gap line = tidyLine line := by
  unfold tidyLine trimWhere
  induction line generalizing gap with
  | nil => rfl
  | cons c rest ih =>
    have hc : c ≠ '\n' := fun heq => h (heq ▸ List.mem_cons_self)
    have hrest : '\n' ∉ rest := fun hmem => h (List.mem_cons_of_mem c hmem)
    cases hblank : isBlank c with
    | true => rw [cleanFrom, if_pos hblank, ih hrest, List.dropWhile_cons_of_pos hblank]
    | false =>
      have hread : cleanFrom false false rest = squeeze (rest.rdropWhile isBlank) :=
        cleanFrom_within hrest false
      rw [List.dropWhile_cons_of_neg (Bool.eq_false_iff.mp hblank)]
      simp only [cleanFrom, hblank, hc, hread, if_false, Bool.not_true, Bool.and_false,
        Bool.false_eq_true]
      exact (squeeze_char hblank _).symm.trans
        (congrArg squeeze (rdropWhile_char hblank rest).symm)

/-! ## A text -/

/-- Lines are tidied one by one. -/
theorem cleanFrom_lines {lines : List (List Char)} (h : ∀ line ∈ lines, '\n' ∉ line) :
    cleanFrom true false (['\n'].intercalate lines) = ['\n'].intercalate (lines.map tidyLine) := by
  induction lines with
  | nil => rfl
  | cons line rest ih =>
    have hline : '\n' ∉ line := h line List.mem_cons_self
    cases rest with
    | nil => simpa using cleanFrom_line hline false
    | cons next rest =>
      have hrest := ih fun l hl => h l (List.mem_cons_of_mem line hl)
      rw [List.intercalate_cons_cons, List.append_assoc, List.singleton_append, cleanFrom_lineEnd,
        hrest, cleanFrom_line hline, List.map_cons, List.map_cons, List.map_cons,
        List.intercalate_cons_cons, List.append_assoc, List.singleton_append]

/-- What has been cleaned stays as it is. -/
theorem cleanFrom_cleanFrom (atStart gap : Bool) (cs : List Char) :
    cleanFrom atStart false (cleanFrom atStart gap cs) = cleanFrom atStart gap cs := by
  induction cs generalizing atStart gap with
  | nil => rfl
  | cons c rest ih =>
    rw [cleanFrom]
    split
    · exact ih atStart true
    · next hblank =>
      split
      · rw [cleanFrom, if_neg (by decide), if_pos rfl, ih]
      · next hc =>
        split
        · next hgap =>
          obtain ⟨-, hstart⟩ := Bool.and_eq_true_iff.mp hgap
          rw [Bool.not_eq_true'] at hstart
          subst hstart
          rw [cleanFrom, if_pos isBlank_space, cleanFrom, if_neg hblank, if_neg hc,
            if_pos (show (true && !false) = true from rfl), ih]
        · rw [cleanFrom, if_neg hblank, if_neg hc, if_neg (by simp), ih]

/-- Only blanks are dropped, or added. -/
theorem filter_cleanFrom (atStart gap : Bool) (cs : List Char) :
    (cleanFrom atStart gap cs).filter (fun c => !isBlank c) = cs.filter fun c => !isBlank c := by
  induction cs generalizing atStart gap with
  | nil => rfl
  | cons c rest ih =>
    rw [cleanFrom]
    split
    · next hblank => simp [hblank, ih]
    · next hblank =>
      split
      · next hc => simp [hc, List.filter_cons, ih]
      · split
        · simp [List.filter_cons, isBlank_space, ih]
        · simp [List.filter_cons, ih]

/-- Blanks in front of a line are not told from none. -/
theorem cleanFrom_blanks_append (gap : Bool) {blanks : List Char}
    (h : ∀ c ∈ blanks, isBlank c = true) (behind : List Char) :
    cleanFrom true gap (blanks ++ behind) = cleanFrom true false behind := by
  induction blanks generalizing gap with
  | nil =>
    cases behind with
    | nil => rfl
    | cons c rest =>
      simp only [List.nil_append, cleanFrom, Bool.not_true, Bool.and_false, Bool.false_eq_true,
        if_false]
  | cons c rest ih =>
    rw [List.cons_append, cleanFrom, if_pos (h c List.mem_cons_self),
      ih _ fun d hd => h d (List.mem_cons_of_mem c hd)]

theorem toList_clean (s : String) : (clean s).toList = cleanFrom true false s.toList :=
  String.toList_ofList

/-- Behind a line end, and blanks that come behind it, cleaning begins anew. -/
theorem clean_append {front blanks : String} (h : allBlank blanks = true) (behind : String) :
    clean (front ++ "\n" ++ blanks ++ behind) = clean (front ++ "\n" ++ blanks) ++ clean behind := by
  have hblanks : ∀ c ∈ blanks.toList, isBlank c = true := List.all_eq_true.mp h
  have hline : "\n".toList = ['\n'] := rfl
  apply String.toList_inj.mp
  simp only [toList_clean, String.toList_append, hline, List.append_assoc, cleanFrom_lineEnd,
    List.cons_append, List.nil_append]
  rw [cleanFrom_blanks_append false hblanks, cleanFrom_blanks false hblanks, List.nil_append]

/-- Cleaning a text tidies every line of it. What has been cleaned stays as it is, every character
that is no blank is kept in its place, and behind a text that ends in a line end, and blanks that come
behind it, cleaning begins anew. -/
theorem clean_is_linewise (s : String) :
    (clean s).toList = ['\n'].intercalate ((splitOn '\n' s.toList).map tidyLine) ∧
      clean (clean s) = clean s ∧
      (clean s).toList.filter (fun c => !isBlank c) = s.toList.filter (fun c => !isBlank c) ∧
      ∀ front blanks : String, s = front ++ "\n" ++ blanks → allBlank blanks = true →
        ∀ behind : String, clean (s ++ behind) = clean s ++ clean behind := by
  refine ⟨?_, ?_, ?_, ?_⟩
  · have hlines := cleanFrom_lines fun line (hline : line ∈ splitOn '\n' s.toList) =>
      not_mem_of_mem_splitOn hline
    rwa [intercalate_splitOn, ← toList_clean] at hlines
  · apply String.toList_inj.mp
    rw [toList_clean, toList_clean, cleanFrom_cleanFrom]
  · rw [toList_clean, filter_cleanFrom]
  · rintro front blanks rfl hblanks behind
    exact clean_append hblanks behind

/-- Two lines, the second one begun with a tab, and what is put out behind them. -/
theorem hall_is_tidied :
    ("  The\t \thall. \n \t" = "  The\t \thall. " ++ "\n" ++ " \t" ∧ allBlank " \t" = true) ∧
      clean ("  The\t \thall. \n \t" ++ " A  door.") =
        clean "  The\t \thall. \n \t" ++ clean " A  door." ∧
      clean "  The\t \thall. \n \t" ++ clean " A  door." = "The hall.\nA door." :=
  ⟨⟨by decide, by decide⟩,
    (clean_is_linewise "  The\t \thall. \n \t").2.2.2 "  The\t \thall. " " \t" (by decide) (by decide)
      " A  door.", by decide⟩

end StoryMachine.Text
