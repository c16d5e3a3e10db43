import StoryMachine.Proofs.Story.Destinations
import StoryMachine.Proofs.Story.FunctionText
import StoryMachine.Proofs.Story.LeadingTags
import StoryMachine.Proofs.Story.OpenLines
import StoryMachine.Proofs.Story.ReadCounts
import StoryMachine.Proofs.Story.Sound
import StoryMachine.Proofs.Story.Walk

/-!
# Lines that begin with tags

A host may read the tags at a path before it jumps there. Behind the jump the first line carries
them out: the jump goes down to where the tags are read, every token of a tag is put out as it
stands and moves the story by one element, and so does the text behind the tags. From there the
line may do anything, and be taken back to a line end. The tags stay at the front of the output all
the way, so they are the first ones that the line shows.

The shape of the line is put in two predicates. As long as the story is in the lead, what it puts out
and where it goes is known; behind the text only the front of the output is.

* `ContentTree.descend_entry` : a jump goes down through the container that its path leads to;
* `Story.InLead`, `Story.InLead.goesOn?_ofTag` : a step within the tags;
* `Story.ledBy_lineStep` : a step behind them;
* `Story.InLead.closed` : a whole line;
* `Flow.leading_tags_are_shown` : the tags that are read, and those that are shown.
-/

namespace StoryMachine

/-! ## Where a line begins -/

namespace ContentTree

variable {t : ContentTree} {id : NodeId}

theorem firstFlow_of_isBare (h : t.isBare id = true) (depth : Nat) :
    Story.firstFlow t depth id = id := by
  cases depth with
  | zero => rfl
  | succ depth =>
    rw [Story.firstFlow, List.isEmpty_iff.mp h]
    rfl

/-- The way down leads to the start of the first content that is not in a container of its own. -/
theorem descend_firstFlow (depth : Nat) (hid : t.isContainer id = true)
    (hfull : t.isBare (Story.firstFlow t depth id) = false) :
    (Cursor.start id).descend t depth = .start (Story.firstFlow t depth id) := by
  induction depth generalizing id with
  | zero => rfl
  | succ depth ih =>
    cases hcontent : t.content id with
    | nil =>
      have hbare : t.isBare id = true := List.isEmpty_iff.mpr hcontent
      rw [firstFlow_of_isBare hbare, hbare] at hfull
      cases hfull
    | cons first rest =>
      have hnode : (Cursor.start id).node? t = some first := by
        rw [node?_start hid, hcontent, List.headD_cons]
      have hflow : Story.firstFlow t (depth + 1) id =
          if t.isContainer first then Story.firstFlow t depth first else id := by
        rw [Story.firstFlow, hcontent]
        rfl
      rw [hflow] at hfull ⊢
      cases hfirst : t.isContainer first with
      | true =>
        rw [hfirst, if_pos rfl] at hfull
        rw [if_pos rfl]
        have hbare : t.isBare first = false := by
          by_contra hbare
          rw [Bool.not_eq_false] at hbare
          rw [firstFlow_of_isBare hbare, hbare] at hfull
          cases hfull
        rw [(descend_of_content depth hnode hbare).1]
        exact ih hfirst hfull
      | false =>
        rw [if_neg Bool.false_ne_true, Cursor.descend, hnode, Option.filter_some, hfirst]
        rfl

/-- From the place that a path gives, the way down leads through the start of the container that the
path leads to. -/
theorem descend_entry {p : Path} {knot : NodeId} {place : Cursor} {warning : Option String}
    (hindexed : t.root.Indexed) (hknot : (t.find p).exactContainer? t = some knot)
    (hfull : t.isBare knot = false) (hplace : t.cursorAt p = .ok (some place, warning)) :
    place.entry.descend t t.size = (Cursor.start knot).descend t t.size := by
  have hsteps : p.steps ≠ [] := by
    intro hnil
    rw [cursorAt, Path.last?, hnil] at hplace
    cases hplace
  have hleads : t.Leads rootId p.steps knot :=
    leads_of_follow (exactContainer?_eq_some hknot).1
  obtain ⟨steps, index, hsplits⟩ := Path.exists_splits hsteps
  have hgives :
      (((t.follow false rootId steps).container? t).map fun c => ⟨c, index⟩) = some place := by
    rw [cursorAt_of_splits hsplits] at hplace
    split at hplace
    · cases hplace
    · exact congrArg Prod.fst (Except.ok.inj hplace)
  cases hsplits with
  | element front relative i =>
    obtain ⟨parent, hfront, hchild⟩ := hleads.of_concat
    have hparent := isContainer_of_child? hchild
    obtain ⟨k, hk⟩ := Option.isSome_iff_exists.mp hparent
    have hget : (t.content parent)[i]? = some knot := by rwa [content, hk, ← child?_index hk]
    obtain ⟨hi, -⟩ := List.getElem?_eq_some_iff.mp hget
    have hwrap : wrap32 i = i := (isPlace_of_lt_length hi).2 hindexed
    rw [follow_of_leads hfront, Found.container?, if_pos hparent, hwrap] at hgives
    obtain rfl := Option.some.inj hgives
    have hentry : Cursor.entry ⟨parent, (i : Int)⟩ = ⟨parent, i⟩ := if_neg (by dsimp only; omega)
    obtain ⟨hlt, hsize, -⟩ := child_of_mem_content (List.mem_of_getElem? hget)
    obtain ⟨depth, hdepth⟩ := Nat.exists_eq_succ_of_ne_zero (Nat.ne_zero_of_lt hsize)
    have hless : t.size ≤ knot + depth := by
      have hpos : 0 < knot := Nat.zero_lt_of_lt hlt
      omega
    rw [hentry, ← (Cursor.descend_start hless (Nat.le_add_left t.size knot)).1, hdepth]
    exact (descend_of_content depth (node?_of_getElem? hget) hfull).1
  | whole front relative name =>
    rw [follow_of_leads hleads, Found.container?, if_pos (isContainer_of_isBare hfull)] at hgives
    obtain rfl := Option.some.inj hgives
    rfl

end ContentTree

/-! ## Tokens that tags are made of -/

/-- A token that tags are made of: a command at a border of one, a text that has no line end at its
edges, or a legacy tag. -/
inductive Token.OfTag : Token → Prop
  | beginTag : OfTag (.command .beginTag)
  | endTag : OfTag (.command .endTag)
  | text {text : String} (h : Text.outerLines text = none) : OfTag (.text text)
  | tag (text : String) : OfTag (.tag text)

namespace LeadingTag

/-- No text of the tag has a line end at its edges. -/
def Whole : LeadingTag → Prop
  | dynamic texts => ∀ text ∈ texts, Text.outerLines text = none
  | legacy _ => True

theorem Whole.ofTag {tag : LeadingTag} (h : tag.Whole) : ∀ t ∈ tag.tokens, t.OfTag := by
  cases tag with
  | dynamic texts =>
    refine List.forall_mem_cons.mpr ⟨.beginTag, List.forall_mem_append.mpr ⟨fun t ht => ?_, ?_⟩⟩
    · obtain ⟨text, htext, rfl⟩ := List.mem_map.mp ht
      exact .text (h text htext)
    · exact List.forall_mem_singleton.mpr .endTag
  | legacy text => exact List.forall_mem_singleton.mpr (.tag text)

end LeadingTag

namespace Output

variable {ts : List Token}

theorem not_hasBegun_of_ofTag (h : ∀ t ∈ ts, t.OfTag) : hasBegun ts = false :=
  List.any_eq_false.mpr fun t ht hbegin => by
    cases h t ht with
    | beginTag | endTag | text | tag => cases hbegin

theorem glue_not_mem_of_ofTag (h : ∀ t ∈ ts, t.OfTag) : .glue ∉ ts := fun hmem => nomatch h _ hmem

theorem not_isLineEnd_of_outerLines {text : String} (h : Text.outerLines text = none) :
    isLineEnd text = false := by
  rw [isLineEnd, beq_eq_false_iff_ne]
  rintro rfl
  cases h

/-- Tags have no line end. -/
theorem not_endsLine_of_ofTag (h : ∀ t ∈ ts, t.OfTag) : endsLine ts = false := by
  induction ts with
  | nil => rfl
  | cons t rest ih =>
    obtain ⟨ht, hrest⟩ := List.forall_mem_cons.mp h
    cases ht with
    | beginTag | endTag => rfl
    | text hwhole =>
      rw [Token.text, endsLine, not_isLineEnd_of_outerLines hwhole, ih hrest, Bool.and_false,
        Bool.or_false]
    | tag => exact ih hrest

end Output

namespace State

open Output

variable {s : State} {t : Token} {text : String}

/-- Outside functions a token changes the output only. -/
theorem exists_emit_eq (h : s.functionStart = none) (t : Token) :
    ∃ output, s.emit t = { s with output } := by
  have htexts : ∀ (texts : List String) {u : State}, u.functionStart = none →
      ∃ output, texts.foldl emitText u = { u with output } := by
    intro texts
    induction texts with
    | nil => exact fun {u} _ => ⟨u.output, rfl⟩
    | cons text rest ih =>
      intro u hu
      obtain ⟨output, hrest⟩ := ih (functionStart_emitText hu text)
      rw [emitText_of_none hu text] at hrest
      exact ⟨output, by rw [List.foldl_cons, emitText_of_none hu text, hrest]⟩
  unfold emit
  split
  · split
    · exact htexts _ h
    · exact htexts [_] h
  · exact ⟨_, rfl⟩
  · exact ⟨_, rfl⟩

/-- A token of a tag is put out behind those of tags as it is. -/
theorem output_emit_ofTag (hfunction : s.functionStart = none) (hs : ∀ t ∈ s.output.newest, t.OfTag)
    (ht : t.OfTag) : (s.emit t).output = s.output.add t := by
  cases ht with
  | beginTag | endTag | tag => rfl
  | @text text hwhole =>
    obtain ⟨hglue, -⟩ := trimming_of_no_glue (glue_not_mem_of_ofTag hs) none
    have hfunctionStart := trimming_none s.output.newest
    rw [emit_text, Text.parts, hwhole, Option.getD_none, List.foldl_cons, List.foldl_nil,
      output_emitText, hfunction, pushText, hglue, hfunctionStart, not_isLineEnd_of_outerLines hwhole]
    rfl

/-- A text is put out behind tokens without glue in parts, or not at all. -/
theorem output_emit_text_of_no_glue (hfunction : s.functionStart = none)
    (hglue : .glue ∉ s.output.newest) (text : String) :
    ∃ texts : List String, (s.emit (.text text)).output.newest =
      texts.map Token.text ++ s.output.newest := by
  rw [emit_text]
  generalize Text.parts text = parts
  induction parts generalizing s with
  | nil => exact ⟨[], rfl⟩
  | cons part rest ih =>
    have hpart : (s.emitText part).output.newest = s.output.newest ∨
        (s.emitText part).output.newest = Token.text part :: s.output.newest := by
      rcases emitText_cases hglue part with heq | heq | ⟨-, hmark, -⟩
      · exact .inl (by rw [heq])
      · exact .inr (by rw [heq]; rfl)
      · rw [hfunction] at hmark
        cases hmark
    have hrest : .glue ∉ (s.emitText part).output.newest := by
      rcases hpart with heq | heq
      · rwa [heq]
      · rw [heq]
        exact fun hmem => hglue ((List.mem_cons.mp hmem).resolve_left nofun)
    obtain ⟨texts, htexts⟩ := ih (functionStart_emitText hfunction part) hrest
    rcases hpart with heq | heq
    · exact ⟨texts, htexts.trans (by rw [heq])⟩
    · refine ⟨texts ++ [part], htexts.trans ?_⟩
      rw [heq, List.map_append, List.append_assoc]
      rfl

end State

/-! ## Carrying tags out -/

/-- A token that a line may begin with: one that tags are made of, or a text. -/
def Token.Leading (t : Token) : Prop :=
  t.OfTag ∨ ∃ text, t = .text text

theorem Token.Leading.ne_startThread {t : Token} (ht : t.Leading) :
    t.instruction ≠ .command .startThread := by
  rcases ht with ht | ⟨text, rfl⟩
  · cases ht <;> nofun
  · nofun

/-- Behind an element of a container that has been carried out. -/
def State.behind (s : State) (c : Cursor) : State :=
  (s.setPrevious (some c)).setCursor (some ⟨c.container, c.index + 1⟩)

namespace Flow

variable {w u : Story} {id : NodeId}

/-- A token that is not carried out is put where content goes. -/
theorem executeAt_content {t : Token} (hrun : execute id t.instruction w = .ok false w)
    (hcursor : w.state.cursor.isSome = true) : executeAt id t.instruction w = putContent t w := by
  unfold executeAt
  rw [bind_ok hrun, bind_ok (state_ok w), ← Option.not_isSome, hcursor]
  cases t <;> rfl

/-- Outside expressions content is put out. -/
theorem putContent_outside {t : Token} (hexpression : w.state.inExpression = false)
    (ht : ∀ name scope, t ≠ .value (.reference name scope)) :
    putContent t w = .ok () { w with state := w.state.emit t } := by
  unfold putContent
  rw [bind_ok (state_ok w), hexpression]
  cases t with
  | value v =>
    cases v with
    | reference name scope => exact absurd rfl (ht name scope)
    | _ => rfl
  | _ => rfl

/-- Outside expressions and strings a token that a line may begin with is put out. -/
theorem executeLeaf_leading {t : Token} (ht : t.Leading) (hcursor : w.state.cursor.isSome = true)
    (hexpression : w.state.inExpression = false) (hstring : w.state.output.inString = false) :
    executeLeaf (some (id, t.instruction)) w = .ok () { w with state := w.state.emit t } := by
  have hput {t : Token} (hrun : execute id t.instruction w = .ok false w)
      (ht : ∀ name scope, t ≠ .value (.reference name scope)) :
      executeAt id t.instruction w = .ok () { w with state := w.state.emit t } :=
    (executeAt_content hrun hcursor).trans (putContent_outside hexpression ht)
  show executeAt id t.instruction w = _
  rcases ht with ht | ⟨text, rfl⟩
  · cases ht with
    | beginTag => exact congrFun (executeLeaf_command id .beginTag) w
    | endTag =>
      refine (congrFun (executeLeaf_command id .endTag) w).trans ?_
      show endTag w = _
      unfold endTag
      rw [bind_ok (state_ok w), hstring]
      rfl
    | text | tag => exact hput rfl fun _ _ h => nomatch h
  · exact hput rfl fun _ _ h => nomatch h

/-- Behind a leaf that diverts nowhere the line goes on with the next element of its container. -/
theorem leaveLeaf_element {leaf : Option (NodeId × Instruction)} {c : Cursor}
    (hcursor : w.state.cursor = some c) (hdiverted : w.state.diverted = none)
    (hnext : State.nextCursor? w.tree c = some ⟨c.container, c.index + 1⟩)
    (hleaf : ∀ id, leaf ≠ some (id, .command .startThread)) :
    leaveLeaf leaf w = .ok () { w with state := w.state.behind c } := by
  have hstay : followDivert { w with state := w.state.setPrevious (some c) } =
      .ok false { w with state := w.state.setPrevious (some c) } := by
    unfold followDivert
    rw [bind_ok (state_ok _), show (w.state.setPrevious (some c)).diverted = none from hdiverted]
    rfl
  have hadvance : (w.state.setPrevious (some c)).advance w.tree = (true, w.state.behind c) := by
    rw [State.advance, show (w.state.setPrevious (some c)).cursor = some c from hcursor,
      Option.bind_some, hnext]
    rfl
  have hmove : moveHere w = .ok true { w with state := w.state.behind c } := by
    unfold moveHere
    rw [bind_ok (modifyState_ok _ w), hcursor, bind_ok hstay, if_neg Bool.false_ne_true,
      bind_ok (tree_ok _)]
    show EStateM.Result.ok ((w.state.setPrevious (some c)).advance w.tree).1
      { w with state := ((w.state.setPrevious (some c)).advance w.tree).2 } = _
    rw [hadvance]
  have hcontent : nextContent w = .ok () { w with state := w.state.behind c } := by
    unfold nextContent
    rw [bind_ok hmove]
    rfl
  unfold leaveLeaf
  rw [bind_ok (state_ok w), hcursor, if_neg (by simp), bind_ok hcontent]
  split
  · exact absurd rfl (hleaf _)
  · rfl

end Flow

namespace ContentTree

variable {t : ContentTree} {id : NodeId} {front rest : List Token} {token : Token}

theorem BeginsWith.exists_getElem? (h : t.BeginsWith id (front ++ token :: rest)) :
    ∃ child, (t.content id)[front.length]? = some child ∧ t.token? child = some token := by
  obtain ⟨more, hmore⟩ := h
  have hget : ((t.content id).map t.token?)[front.length]? = some (some token) := by
    simp [← hmore]
  rw [List.getElem?_map] at hget
  exact Option.map_eq_some_iff.mp hget

/-- At an element that is a leaf the way down ends. -/
theorem descend_of_token? {i : Nat} {child : NodeId} (hget : (t.content id)[i]? = some child)
    (htoken : t.token? child = some token) (depth : Nat) :
    Cursor.descend t depth ⟨id, i⟩ = ⟨id, i⟩ := by
  cases depth with
  | zero => rfl
  | succ depth =>
    rw [Cursor.descend, node?_of_getElem? hget, Option.filter_some,
      isContainer_of_leaf? (leaf?_of_token? htoken)]
    rfl

end ContentTree

namespace Story

/-- A line goes on where no state is kept, nothing waits and nothing is diverted, and where there is
neither an error nor an expression or a function in progress. -/
structure Calm (s : Story) : Prop where
  lineState : s.lineState = none
  pending : s.pending = none
  diverted : s.state.diverted = none
  hasError : s.state.hasError = false
  inExpression : s.state.inExpression = false
  kind : s.state.callStack.top.kind ≠ .function

/-- A line has put out tokens of tags, the first elements of a container, and is about to carry out
the element behind them. -/
structure InLead (s : Story) (flow : NodeId) (front : List Token) : Prop where
  place : s.nextPlace? = some ⟨flow, front.length⟩
  output : s.state.output.newest = front.reverse
  ofTag : ∀ t ∈ front, t.OfTag
  calm : s.Calm

namespace InLead

variable {s : Story} {flow : NodeId} {front rest : List Token} {t next : Token} {first : String}

theorem newest_ofTag (h : s.InLead flow front) : ∀ t ∈ s.state.output.newest, t.OfTag := fun t ht =>
  h.ofTag t (List.mem_reverse.mp (h.output ▸ ht))

/-- The next element is put out, and unless a string begins the line goes on behind it. -/
theorem exists_goesOn? (h : s.InLead flow front)
    (hbegins : s.tree.BeginsWith flow (front ++ t :: next :: rest)) (ht : t.Leading) :
    ∃ (w : State) (u : Story), w.output = s.state.output ∧ w.functionStart = none ∧
      u.state.output = (w.emit t).output ∧ u.state.cursor = some ⟨flow, front.length + 1⟩ ∧
      u.tree = s.tree ∧ u.Calm ∧
      (u.state.output.inString = false → s.goesOn? = some u.keepLineState) := by
  obtain ⟨id, hget, htoken⟩ := hbegins.exists_getElem?
  have hlength : front.length + 1 < (s.tree.content flow).length := by
    have hbehind : s.tree.BeginsWith flow ((front ++ [t]) ++ next :: rest) := by
      rwa [List.append_assoc]
    obtain ⟨child, hchild, -⟩ := hbehind.exists_getElem?
    have hlt := (List.getElem?_eq_some_iff.mp hchild).1
    rwa [List.length_append, List.length_singleton] at hlt
  have hnextLeaf : s.nextLeaf? = some (id, t.instruction) := by
    rw [nextLeaf?, h.place, Option.bind_some, ContentTree.node?_of_getElem? hget, Option.bind_some,
      ContentTree.leaf?_of_token? htoken]
    rfl
  obtain ⟨c, hcursor, hdescend⟩ := Option.map_eq_some_iff.mp h.place
  obtain ⟨visits, turns, hreach⟩ := Flow.exists_reachLeaf_eq hcursor
  rw [hdescend, hnextLeaf] at hreach
  let w : State := ({ s.state with visits, turns } : State).setCursor (some ⟨flow, front.length⟩)
  have hfunction : w.functionStart = none := if_neg h.calm.kind
  obtain ⟨output, hemit⟩ := State.exists_emit_eq hfunction t
  let u : Story := { s with
    state := State.behind { s.state with visits, turns, output } ⟨flow, front.length⟩ }
  have hexecute : Flow.executeLeaf (some (id, t.instruction)) { s with state := w } =
      .ok () { s with state := { w with output } } := by
    rw [← hemit]
    exact Flow.executeLeaf_leading ht rfl h.calm.inExpression
      (Output.not_hasBegun_of_ofTag h.newest_ofTag)
  have hleave : Flow.leaveLeaf (some (id, t.instruction)) { s with state := { w with output } } =
      .ok () u := by
    refine Flow.leaveLeaf_element (c := ⟨flow, front.length⟩) rfl h.calm.diverted ?_
      fun other hother => ?_
    · rw [ContentTree.nextCursor?_eq]
      exact if_pos ⟨Int.natCast_nonneg (front.length + 1), Int.ofNat_lt.mpr hlength⟩
    · exact ht.ne_startThread (congrArg Prod.snd (Option.some.inj hother))
  have hstep : Flow.step s = .ok () u := by
    unfold Flow.step
    rw [Flow.bind_ok (Flow.state_ok s), hcursor]
    dsimp only
    rw [Flow.bind_ok hreach, Flow.bind_ok hexecute, hleave]
  have hcontinue : u.state.canContinue = true :=
    State.canContinue_iff.mpr ⟨rfl, h.calm.hasError⟩
  have hplain : Flow.plainStep s = .ok () u := by
    unfold Flow.plainStep
    rw [Flow.bind_ok hstep, Flow.bind_ok (Flow.get_ok u), hcontinue, Bool.not_true, Bool.and_false]
    rfl
  refine ⟨w, u, rfl, hfunction, (congrArg State.output hemit).symm, rfl, rfl, { h.calm with },
    fun hstring => ?_⟩
  obtain ⟨kept, hkept⟩ := u.keepLineState_eq
  have hline : Flow.lineStep s = .ok false u.keepLineState := by
    unfold Flow.lineStep
    rw [Flow.bind_ok hplain, Flow.bind_ok (Flow.get_ok u), hstring,
      show u.pending = none from h.calm.pending]
    show EStateM.Result.ok u.watchLine.1 u.watchLine.2 = _
    rw [watchLine, show u.lineState = none from h.calm.lineState]
  exact goesOn?_eq hline (hkept ▸ h.calm.pending) (hkept ▸ hcontinue)

/-- A token of a tag is put out, and the line is about to carry out the element behind it. -/
theorem goesOn?_ofTag (h : s.InLead flow front)
    (hbegins : s.tree.BeginsWith flow (front ++ t :: rest)) (ht : t.OfTag) (hrest : rest ≠ []) :
    ∃ u, s.goesOn? = some u ∧ u.tree = s.tree ∧ u.InLead flow (front ++ [t]) := by
  obtain ⟨next, rest, rfl⟩ := List.exists_cons_of_ne_nil hrest
  obtain ⟨w, u, houtput, hfunction, hemit, hcursor, htree, hcalm, hgoes⟩ :=
    h.exists_goesOn? hbegins (.inl ht)
  have hall : ∀ t' ∈ front ++ [t], t'.OfTag :=
    List.forall_mem_append.mpr ⟨h.ofTag, List.forall_mem_singleton.mpr ht⟩
  have hnewest : u.state.output.newest = (front ++ [t]).reverse := by
    rw [hemit, State.output_emit_ofTag hfunction (houtput ▸ h.newest_ofTag) ht, houtput,
      List.reverse_append]
    exact congrArg (t :: ·) h.output
  have hofTag : ∀ t' ∈ u.state.output.newest, t'.OfTag := fun t' ht' =>
    hall t' (List.mem_reverse.mp (hnewest ▸ ht'))
  have hkept : u.keepLineState = u := by
    unfold keepLineState
    rw [Output.endsInLineEnd, Output.not_endsLine_of_ofTag hofTag, if_neg Bool.false_ne_true]
  have hgo := hgoes (Output.not_hasBegun_of_ofTag hofTag)
  rw [hkept] at hgo
  refine ⟨u, hgo, htree, ?_, hnewest, hall, hcalm⟩
  have hbehind : u.tree.BeginsWith flow ((front ++ [t]) ++ next :: rest) := by
    rwa [htree, List.append_assoc]
  obtain ⟨child, hget, htoken⟩ := hbehind.exists_getElem?
  have hplace := ContentTree.descend_of_token? hget htoken u.tree.size
  rw [List.length_append, List.length_singleton] at hplace ⊢
  rw [nextPlace?, hcursor, Option.map_some]
  exact congrArg some hplace

/-- The first text is put out, and the line goes on behind it. -/
theorem goesOn?_text (h : s.InLead flow front)
    (hbegins : s.tree.BeginsWith flow (front ++ .text first :: next :: rest)) :
    ∃ u, s.goesOn? = some u ∧ u.state.cursor = some ⟨flow, front.length + 1⟩ ∧
      u.Keeps fun _ state => ∃ texts : List String,
        state.output.newest = texts.map Token.text ++ front.reverse := by
  obtain ⟨w, u, houtput, hfunction, hemit, hcursor, -, hcalm, hgoes⟩ :=
    h.exists_goesOn? hbegins (.inr ⟨first, rfl⟩)
  have hofTag : ∀ t ∈ w.output.newest, t.OfTag := houtput ▸ h.newest_ofTag
  obtain ⟨texts, htexts⟩ :=
    State.output_emit_text_of_no_glue hfunction (Output.glue_not_mem_of_ofTag hofTag) first
  rw [← hemit] at htexts
  have hgo := hgoes <| by
    rw [Output.inString, htexts]
    exact (Output.hasBegun_texts texts _).trans (Output.not_hasBegun_of_ofTag hofTag)
  rw [houtput, h.output] at htexts
  have hkeeps := (Story.Keeps.of_none (G := fun _ state => ∃ texts : List String,
    state.output.newest = texts.map Token.text ++ front.reverse) ⟨texts, htexts⟩
    hcalm.lineState).keepLineState
  obtain ⟨kept, hkept⟩ := u.keepLineState_eq
  exact ⟨_, hgo, by rwa [hkept], hkeeps⟩

end InLead

end Story

/-! ## What is behind the tags -/

/-- Whether the instruction ends a string. -/
def Instruction.endsString : Instruction → Bool
  | .command .endString => true
  | _ => false

/-- The output begins with tokens. -/
def State.LedBy (lead : List Token) (_ : Content) (s : State) : Prop :=
  lead.reverse <:+ s.output.newest

namespace Story

/-- A string that the next step ends has begun. -/
def EndsBegunString (s : Story) : Prop :=
  s.nextLeaf?.any (fun leaf => leaf.2.endsString) = true → s.state.output.inString = true

instance : DecidablePred EndsBegunString := fun s =>
  inferInstanceAs (Decidable (s.nextLeaf?.any (fun leaf => leaf.2.endsString) = true →
    s.state.output.inString = true))

variable {s v : Story} {flow : NodeId} {front lead rest : List Token} {next : Token} {first : String}

/-- A step of a line leaves tokens at the front of the output that stay there. -/
theorem ledBy_lineStep (h : s.Keeps (State.LedBy lead)) (hfirm : Output.Firm lead.reverse)
    (hends : s.EndsBegunString) : (Flow.lineStep.after s).Keeps (State.LedBy lead) := by
  refine h.lineStep (fun hkept => hkept) ?_
  have hdevelops : s.state.Develops (fun x => x.output.inString = true) s.stepped.state :=
    Flow.develops_plainStep s fun id u hleaf houtput => by
      rw [houtput]
      refine hends ?_
      rw [hleaf]
      rfl
  exact hdevelops.stays hfirm h.state

theorem ledBy_passes {nodes : Nat} (hv : s.Passes nodes v) (h : s.Keeps (State.LedBy lead))
    (hfirm : Output.Firm lead.reverse) (hends : ∀ x, s.Passes nodes x → x.EndsBegunString) :
    v.Keeps (State.LedBy lead) := by
  induction hv with
  | here => exact h
  | @step nodes s u v hgo _ ih =>
    refine ih ?_ fun x hx => hends x (.step hgo hx)
    rw [← Flow.after_of_ok (Flow.lineStep_of_goesOn? hgo).1]
    exact ledBy_lineStep h hfirm (hends s (.here nodes s))

/-- The story has put out tags and the first text behind them, and is about to carry out the element
behind the text. -/
structure BehindText (s : Story) (flow : NodeId) (lead : List Token) : Prop where
  cursor : s.state.cursor = some ⟨flow, lead.length + 1⟩
  output : ∃ texts : List String, s.state.output.newest = texts.map Token.text ++ lead.reverse

/-- As long as a line is in the tags in front of a text, it goes on. Behind the text the tags stay at
the front of the output. -/
theorem InLead.passes {nodes : Nat} (hv : s.Passes nodes v) (h : s.InLead flow front)
    (hrest : ∀ t ∈ rest, t.OfTag) (hlead : front ++ rest = lead)
    (hbegins : s.tree.BeginsWith flow (lead ++ [.text first, next]))
    (hfirm : Output.Firm lead.reverse) (hends : ∀ x, s.Passes nodes x → x.EndsBegunString) :
    v.goesOn?.isSome = true ∨
      v.Keeps (State.LedBy lead) ∧ ∃ x, s.Passes nodes x ∧ x.BehindText flow lead := by
  induction hv generalizing front rest with
  | here =>
    subst hlead
    rw [List.append_assoc] at hbegins
    cases rest with
    | nil =>
      obtain ⟨u, hgo, -⟩ := h.goesOn?_text hbegins
      exact .inl (hgo ▸ rfl)
    | cons t rest =>
      obtain ⟨u, hgo, -⟩ := h.goesOn?_ofTag hbegins (hrest t List.mem_cons_self) (by simp)
      exact .inl (hgo ▸ rfl)
  | @step nodes s u v hgo hpasses ih =>
    have hbehind : ∀ x, u.Passes nodes x → x.EndsBegunString := fun x hx => hends x (.step hgo hx)
    subst hlead
    rw [List.append_assoc] at hbegins
    cases rest with
    | nil =>
      obtain ⟨u', hgo', hcursor, hkeeps⟩ := h.goesOn?_text hbegins
      obtain rfl := Option.some.inj (hgo.symm.trans hgo')
      rw [List.append_nil] at hfirm ⊢
      have hled : u.Keeps (State.LedBy front) :=
        hkeeps.mono fun _ _ ⟨texts, htexts⟩ => ⟨texts.map Token.text, htexts.symm⟩
      have hhere : u.Passes nodes u := by
        cases hpasses with
        | here => exact .here _ _
        | step => exact .here _ _
      exact .inr ⟨ledBy_passes hpasses hled hfirm hbehind, u, .step hgo hhere, hcursor, hkeeps.state⟩
    | cons t rest =>
      obtain ⟨u', hgo', htree, hlead⟩ :=
        h.goesOn?_ofTag hbegins (hrest t List.mem_cons_self) (by simp)
      obtain rfl := Option.some.inj (hgo.symm.trans hgo')
      have hon := ih hlead (fun t' ht' => hrest t' (List.mem_cons_of_mem t ht'))
        (List.append_cons front t rest).symm (by rwa [htree, List.append_assoc]) hbehind
      exact hon.imp_right fun ⟨hkeeps, x, hx, htext⟩ => ⟨hkeeps, x, .step hgo hx, htext⟩

end Story

/-! ## Lines that begin with tags -/

namespace Story

variable {s : Story} {flow : NodeId} {lead : List Token}

/-- Where a line is closed that began in front of tags and a text, the tags are at the front of the
output, and the first text has been put out behind them. -/
theorem InLead.closed {t u : Story} {next : Token} {first : String} {limited : Bool} {nodes : Nat}
    (hnodes : 0 < nodes) (hs : s.Orderly fun _ => True) (hpending : s.pending = none)
    (hopen : Flow.openLine limited s = .ok () t) (h : t.InLead flow [])
    (hlead : ∀ t ∈ lead, t.OfTag) (hbegins : t.tree.BeginsWith flow (lead ++ [.text first, next]))
    (hfirm : Output.Firm lead.reverse) (hends : ∀ v, s.Visits limited nodes v → v.EndsBegunString)
    (hrun : Flow.continueLine limited nodes s = .ok () u) (hclosed : u.lineOpen = false)
    (hdone : u.pending = none) : lead.reverse <:+ u.state.output.newest ∧
      ∃ v, s.Visits limited nodes v ∧ v.BehindText flow lead := by
  have hpasses : ∀ v, s.Visits limited nodes v → v.EndsBegunString ∧ (v.goesOn?.isSome = true ∨
      v.Keeps (State.LedBy lead) ∧ ∃ x, s.Visits limited nodes x ∧ x.BehindText flow lead) := by
    rintro v ⟨t', hopen', hv⟩
    obtain rfl : t = t' := by
      rw [hopen] at hopen'
      cases hopen'
      rfl
    refine ⟨hends v ⟨t, hopen, hv⟩, ?_⟩
    have hon := InLead.passes hv h hlead (List.nil_append lead) hbegins hfirm
      fun x hx => hends x ⟨t, hopen, hx⟩
    exact hon.imp_right fun ⟨hkeeps, x, hx, htext⟩ => ⟨hkeeps, x, ⟨t, hopen, hx⟩, htext⟩
  obtain ⟨v, w, ended, hv, hstep, houtput, -⟩ :=
    Flow.closed_of_continueLine Flow.trivialLine hnodes hs hpending hpasses hrun hclosed hdone
  obtain ⟨hstring, hgoes | ⟨hled, htext⟩⟩ := hv.source
  · -- The line does not end where it goes on.
    obtain ⟨x, hgo⟩ := Option.isSome_iff_exists.mp hgoes
    obtain ⟨hline, -, hcontinue⟩ := Flow.lineStep_of_goesOn? hgo
    rcases hstep with ⟨_, e, hfails, -⟩ | ⟨hfinished, hend⟩
    · rw [hline] at hfails
      cases hfails
    · rw [hline] at hfinished
      cases hfinished
      rw [hcontinue] at hend
      rcases hend with hend | hend <;> cases hend
  · have hbehind := ledBy_lineStep hled hfirm hstring
    have hkeeps : w.Keeps (State.LedBy lead) := by
      rcases hstep with ⟨x, e, hfails, rfl⟩ | ⟨hfinished, -⟩
      · rw [Flow.after_of_error hfails] at hbehind
        exact hbehind.of_state rfl hbehind.state rfl
      · rwa [Flow.after_of_ok hfinished] at hbehind
    refine ⟨?_, htext⟩
    rw [houtput]
    exact (hkeeps.restoreLineState fun hkept => hkept).state

end Story

/-- The path leads to a container, of which the first content that is not in a container of its own
begins with tags, a text and a line end. -/
def ContentTree.OpensWith (t : ContentTree) (path : String) (flow : NodeId) (tags : List LeadingTag)
    (first : String) : Prop :=
  (∃ knot, (t.find (Path.parse path)).exactContainer? t = some knot ∧
    Story.firstFlow t t.size knot = flow) ∧
  t.BeginsWith flow (tags.flatMap LeadingTag.tokens ++ [.text first, .text "\n"])

/-- The tags at a path are read as they stand. -/
theorem Story.tagsAt_of_opensWith {s : Story} {path first : String} {flow : NodeId}
    {tags : List LeadingTag} (h : s.tree.OpensWith path flow tags first) :
    s.tagsAt path = .ok (tags.flatMap LeadingTag.read) := by
  obtain ⟨⟨knot, hknot, rfl⟩, hbegins⟩ := h
  unfold tagsAt
  dsimp only
  rw [hknot]
  exact leadingTags_eq hbegins

/-- A path leads into the tags. -/
theorem ContentTree.OpensWith.descend {t : ContentTree} {path first : String} {flow : NodeId}
    {tags : List LeadingTag} {place : Cursor} {warning : Option String}
    (h : t.OpensWith path flow tags first) (hindexed : t.root.Indexed)
    (hplace : t.cursorAt (Path.parse path) = .ok (some place, warning)) :
    place.entry.descend t t.size = .start flow := by
  obtain ⟨⟨knot, hknot, rfl⟩, hbegins⟩ := h
  have hflow : t.isBare (Story.firstFlow t t.size knot) = false := by
    obtain ⟨child, hget, -⟩ : ∃ child,
        (t.content (Story.firstFlow t t.size knot))[(tags.flatMap LeadingTag.tokens).length]? =
          some child ∧ t.token? child = some (.text first) := hbegins.exists_getElem?
    rw [isBare, List.isEmpty_eq_false_iff]
    exact List.ne_nil_of_mem (List.mem_of_getElem? hget)
  have hfull : t.isBare knot = false := by
    by_contra hbare
    rw [Bool.not_eq_false] at hbare
    rw [firstFlow_of_isBare hbare, hbare] at hflow
    cases hflow
  rw [descend_entry hindexed hknot hfull hplace]
  exact descend_firstFlow _ (isContainer_of_isBare hfull) hflow

namespace Flow

variable {s t u : Story} {path text first : String} {reset : Bool} {arguments : List Value}
  {flow : NodeId} {tags : List LeadingTag}

/-- A line that begins behind a jump to tags in front of a text is in the tags. -/
theorem inLead_of_choosePath (hs : s.lineState = none) (hdiverted : s.state.diverted = none)
    (hexpression : reset = true ∨ s.state.inExpression = false) (hindexed : s.tree.root.Indexed)
    (hopens : s.tree.OpensWith path flow tags first)
    (hjump : choosePath path reset arguments s = .ok () t) (hopen : openLine false t = .ok () u) :
    u.tree = s.tree ∧ t.pending = none ∧ t.lineState = none ∧ u.InLead flow [] := by
  obtain ⟨hidle, hgoes, place, warning, hplace, rfl⟩ := exists_of_choosePath hjump
  obtain ⟨visits, turns, henter⟩ := (((s.state.endedIf reset).passing arguments).arriving s.tree place
    warning).exists_enterByJump_eq s.tree
  rw [henter] at hopen
  have hcalm : (s.state.endedIf reset).diverted = none ∧ (s.state.endedIf reset).inExpression = false ∧
      (s.state.endedIf reset).callStack.top.kind ≠ .function := by
    cases reset with
    | true => exact ⟨hdiverted, rfl, nofun⟩
    | false =>
      exact ⟨hdiverted, hexpression.resolve_left nofun, hgoes.resolve_left nofun⟩
  obtain ⟨hcontinue, warnings, rfl⟩ := exists_of_openLine hopen hidle.lineOpen
  obtain ⟨hcursor, herror⟩ := State.canContinue_iff.mp hcontinue
  obtain ⟨place, rfl⟩ : ∃ c, place = some c := by
    cases place with
    | none => cases hcursor
    | some c => exact ⟨c, rfl⟩
  refine ⟨rfl, hidle.pending, hs, ?_, rfl, List.forall_mem_nil _, ?_⟩
  · exact congrArg some (hopens.descend hindexed hplace)
  · exact ⟨hs, hidle.pending, hcalm.1, herror, hcalm.2.1, hcalm.2.2⟩

/-- **Tags in front of a text are read as they stand, and shown when the line comes.** Where a path
leads to tags, a text and a line end, the tags that are read at the path are the texts in the tags,
one by one, and legacy tags. The line that comes behind a jump to the path shows first what is shown
of the tags: the texts of each joined and cleaned, unless they are empty, and legacy tags that are
not. Whatever else it shows comes later: where the first text has been put out, these are all tags.
So the tags that are read are the first ones shown if they are tidy. -/
theorem leading_tags_are_shown (hs : Reachable s) (hdiverted : s.state.diverted = none)
    (hexpression : reset = true ∨ s.state.inExpression = false) (hindexed : s.tree.root.Indexed)
    (hopens : s.tree.OpensWith path flow tags first) (hwhole : ∀ tag ∈ tags, tag.Whole)
    (hjump : choosePath path reset arguments s = .ok () t)
    (hends : ∀ v, HostCall.next.Visits t v → v.EndsBegunString) (hnext : next t = .ok text u)
    (hdone : u.pending = none) :
    s.tagsAt path = .ok (tags.flatMap LeadingTag.read) ∧
    ∃ v further, HostCall.next.Visits t v ∧
      v.state.cursor = some ⟨flow, (tags.flatMap LeadingTag.tokens).length + 1⟩ ∧
      v.state.output.tags = tags.flatMap LeadingTag.shown ∧
      currentTags u = .ok (tags.flatMap LeadingTag.shown ++ further) u ∧
      ((∀ tag ∈ tags, tag.Tidy) →
        currentTags u = .ok (tags.flatMap LeadingTag.read ++ further) u) := by
  refine ⟨Story.tagsAt_of_opensWith hopens, ?_⟩
  obtain ⟨hcontinue, ⟨hwaits, -⟩ | ⟨-, hclosed, -⟩⟩ := next_cases hnext
  · rw [hdone] at hwaits
    cases hwaits
  obtain ⟨-, hline⟩ := continueFor_ok hcontinue
  obtain ⟨_, v, hopen, -⟩ := exists_of_bind_eq_ok hline
  have hkept : s.lineState = none :=
    (Run.orderly trivialLine (fun _ _ _ _ _ _ => trivial) hs).idle
      (exists_of_choosePath hjump).1.lineOpen
  obtain ⟨htree, hpending, htkept, hlead⟩ :=
    inLead_of_choosePath hkept hdiverted hexpression hindexed hopens hjump hopen
  have hofTag : ∀ t ∈ tags.flatMap LeadingTag.tokens, t.OfTag := fun t ht =>
    have ⟨tag, htag, ht⟩ := List.mem_flatMap.mp ht
    (hwhole tag htag).ofTag t ht
  have horderly : t.Orderly fun _ => True := ⟨fun _ => htkept, fun _ => htkept, fun _ => trivial⟩
  obtain ⟨⟨behind, hled⟩, x, hx, hcursor, texts, htexts⟩ := hlead.closed (by decide) horderly hpending
    hopen hofTag (htree ▸ hopens.2) (Output.firm_leading tags) hends hline hclosed hdone
  have hshown : currentTags u = .ok (tags.flatMap LeadingTag.shown ++
      Output.tagsFrom false "" behind.reverse) u := by
    have htokens : u.state.output.tokens = tags.flatMap LeadingTag.tokens ++ behind.reverse := by
      rw [Output.tokens, ← hled, List.reverse_append, List.reverse_reverse]
    rw [(Story.Idle.available ⟨hclosed, hdone⟩).tags, Output.tags, htokens, Output.tagsFrom_leading]
  refine ⟨x, _, hx, hcursor, ?_, hshown, fun htidy => ?_⟩
  · have htokens : x.state.output.tokens =
        tags.flatMap LeadingTag.tokens ++ texts.reverse.map Token.text := by
      rw [Output.tokens, htexts, List.reverse_append, List.reverse_reverse, List.map_reverse]
    rw [Output.tags, htokens, Output.tagsFrom_leading, Output.tagsFrom_outside, List.append_nil]
  · rwa [← LeadingTag.flatMap_shown_eq_read htidy]

end Flow

/-- A story with a knot that begins with two tags. -/
def weather : Content :=
  ⟨0, formatVersion, .ofBlock (.container none ⟨false, false, false⟩ [.leaf (.command .done)]
    [("sky", .container (some "sky") ⟨false, false, false⟩
      [.leaf (.command .beginTag), .leaf (.value (.text "rain")), .leaf (.command .endTag),
        .leaf (.tag "night"), .leaf (.value (.text "It rains.")), .leaf (.value (.text "\n")),
        .leaf (.command .done)] [])]), .empty⟩

/-- The story at its start. -/
def weatherStory : Story :=
  { Story.unstarted weather 0 with state := { State.start 0 with vars := Variables.empty.settle } }

namespace Flow

/-- The tags of the knot are read, and shown. -/
theorem weather_is_shown : ∃ t u, choosePath "sky" true [] weatherStory = .ok () t ∧
    next t = .ok "It rains.\n" u ∧ weatherStory.tagsAt "sky" = .ok ["rain", "night"] ∧
    ∃ further, currentTags u = .ok (["rain", "night"] ++ further) u := by
  have hstart : Story.ofContent weather 0 = .ok weatherStory := rfl
  have hindexed : weatherStory.tree.root.Indexed := by decide +kernel
  have hopens : weatherStory.tree.OpensWith "sky" 2 [.dynamic ["rain"], .legacy "night"] "It rains." :=
    ⟨⟨2, rfl, rfl⟩, [some (.command .done)], rfl⟩
  have hjump : choosePath "sky" true [] weatherStory =
      .ok () ((choosePath "sky" true []).after weatherStory) := rfl
  generalize ht : (choosePath "sky" true []).after weatherStory = t at hjump
  have htext : result? next t = some "It rains.\n" ∧ (next.after t).pending.isNone = true := by
    rw [← ht]
    decide +kernel
  have hends : ∀ v, t.Visits false nodeBudget v → v.EndsBegunString := by
    rw [← ht]
    decide +kernel
  obtain ⟨u, hnext⟩ := exists_of_result? htext.1
  have hdone : u.pending = none := after_of_ok hnext ▸ Option.isNone_iff_eq_none.mp htext.2
  have hwhole : ∀ tag ∈ [LeadingTag.dynamic ["rain"], .legacy "night"], tag.Whole := by
    simp only [List.forall_mem_cons]
    exact ⟨List.forall_mem_singleton.mpr rfl, trivial, List.forall_mem_nil _⟩
  obtain ⟨hread, v, further, -, -, -, hshown, -⟩ :=
    leading_tags_are_shown (.start hstart fun _ _ => trivial) rfl (.inl rfl) hindexed
      hopens hwhole hjump hends hnext hdone
  exact ⟨t, u, hjump, hnext, hread, further, hshown⟩

end Flow

end StoryMachine
